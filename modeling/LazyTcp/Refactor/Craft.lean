import LazyTcp.Refactor.Reach

/-! Datagrams as a peer crafts them: every combination of id, flags and numbers
is the segment of a packet that passes the checksum test. -/
namespace LazyTcp.Refactor
open General General.Wire

/-- The 40-byte datagram of a segment without options and payload, as a peer
with a window of 8192 bytes sends it. -/
def craft (id : ID) (flags : U8) (seq ack : U32) : Mem :=
  let m : Mem := fun _ => 0
  let m := m.store8 0 0x45
  let m := setIpLen m (htons 40)
  let m := setIpProto m PROTO_TCP
  let m := setIpSrc m (htonl id.srcIp)
  let m := setIpDst m (htonl id.dstIp)
  let m := ipChecksum m
  let m := setTcpSrcPort m 20 (htons id.srcPort)
  let m := setTcpDstPort m 20 (htons id.dstPort)
  let m := setTcpSeqNum m 20 (htonl seq)
  let m := setTcpAckNum m 20 (htonl ack)
  let m := setTcpDataOffset m 20 (dataOffsetByte 20)
  let m := setTcpFlags m 20 flags
  let m := setTcpWindow m 20 (htons 8192)
  setTcpChecksum m 20 (tcpChecksum m 40 20)

def Packet.crafted (id : ID) (flags : U8) (seq ack : U32) : Packet :=
  ⟨craft id flags seq ack,40,20,by decide,by decide⟩

def byteFlags (b : U8) : Flags := ⟨hasFlag b FIN,hasFlag b SYN,hasFlag b RST,hasFlag b PSH,hasFlag b ACK⟩

section Crafted
variable (id : ID) (flags : U8) (seq ack : U32)

theorem crafted_valid : (Packet.crafted id flags seq ack).valid = true := by
  apply decide_eq_true
  change tcpChecksumField (craft id flags seq ack) 20 = tcpChecksum (craft id flags seq ack) 40 20
  rw [craft, tcpChecksum_set _ _ (by decide)]
  exact Mem.load16_store16 ..

private theorem craft_ports : ntohs (tcpSrcPort (craft id flags seq ack) 20) = id.srcPort ∧
    ntohs (tcpDstPort (craft id flags seq ack) 20) = id.dstPort := by
  simp only [craft, tcpSrcPort, tcpDstPort, setTcpSrcPort, setTcpDstPort, setTcpSeqNum, setTcpAckNum,
    setTcpDataOffset, setTcpFlags, setTcpWindow, setTcpChecksum]
  simp (disch := decide) only [Mem.load16_store16_other, Mem.load16_store32_other, Mem.load16_store8_other]
  rw [Mem.load16_store16, Mem.load16_store16, ntohs_ntohs, ntohs_ntohs]
  exact ⟨rfl,rfl⟩

private theorem craft_addresses : ntohl (ipSrc (craft id flags seq ack)) = id.srcIp ∧
    ntohl (ipDst (craft id flags seq ack)) = id.dstIp := by
  simp only [craft, ipSrc, ipDst, setIpSrc, setIpDst, ipChecksum, setIpChecksum, setTcpSrcPort, setTcpDstPort,
    setTcpSeqNum, setTcpAckNum, setTcpDataOffset, setTcpFlags, setTcpWindow, setTcpChecksum]
  simp (disch := decide) only [Mem.load32_store16_other, Mem.load32_store32_other, Mem.load32_store8_other]
  rw [Mem.load32_store32, Mem.load32_store32, ntohl_ntohl, ntohl_ntohl]
  exact ⟨rfl,rfl⟩

private theorem craft_numbers : ntohl (tcpSeqNum (craft id flags seq ack) 20) = seq ∧
    ntohl (tcpAckNum (craft id flags seq ack) 20) = ack := by
  simp only [craft, tcpSeqNum, tcpAckNum, setTcpSeqNum, setTcpAckNum, setTcpDataOffset, setTcpFlags, setTcpWindow,
    setTcpChecksum]
  simp (disch := decide) only [Mem.load32_store16_other, Mem.load32_store32_other, Mem.load32_store8_other]
  rw [Mem.load32_store32, Mem.load32_store32, ntohl_ntohl, ntohl_ntohl]
  exact ⟨rfl,rfl⟩

private theorem craft_flags : tcpFlags (craft id flags seq ack) 20 = flags ∧
    ntohs (tcpWindow (craft id flags seq ack) 20) = 8192 := by
  simp only [craft, tcpFlags, tcpWindow, setTcpFlags, setTcpWindow, setTcpChecksum]
  simp (disch := decide) only [Mem.store16_other, Mem.load16_store16_other]
  rw [Mem.store8_same, Mem.load16_store16, ntohs_ntohs]
  exact ⟨rfl,rfl⟩

theorem crafted_seg : (Packet.crafted id flags seq ack).seg = ⟨id,byteFlags flags,seq,ack,8192⟩ := by
  change segment (craft id flags seq ack) 20 = _
  rw [segment, segId, segFlags, (craft_flags ..).1, (craft_flags ..).2, (craft_ports ..).1, (craft_ports ..).2,
    (craft_addresses ..).1, (craft_addresses ..).2, (craft_numbers ..).1, (craft_numbers ..).2]
  rfl

/-- A crafted packet runs the machine on the segment it was crafted from. -/
theorem crafted_refines {ht : HashTable} (h : ht.WF) (env : Env) (ha : env.allocs = .succeed) :
    Refines ((Packet.crafted id flags seq ack).dispatch env ht) ht env.stale
      (conStep env.iss ⟨id,byteFlags flags,seq,ack,8192⟩ ((hashFind ht id).getD (tcbInit id))) id
      (craft id flags seq ack) 40 20 := by
  have hr := (Packet.crafted id flags seq ack).refines h env
  rw [crafted_valid, crafted_seg, freshBlock_succeed ha] at hr
  cases hf : hashFind ht id with
  | none => rwa [hf, dispatchCon_absent, if_pos rfl] at hr
  | some con => rwa [hf, dispatchCon_stored] at hr

end Crafted

/-- Port 5000 of 10.0.0.1 to the listening port of 10.0.0.2. -/
def clientId : ID := ⟨5000,8080,0x0A000001,0x0A000002⟩

/-- Allocation succeeds and the clock gives 77. -/
def calmEnv : Env := ⟨77,.succeed,⟨0,0,0⟩⟩

/-- The SYN of the client at sequence number 100, and the ACK of the answer. -/
def clientSyn : Input := ⟨.crafted clientId SYN 100 0,calmEnv⟩
def clientAck : Input := ⟨.crafted clientId ACK 101 78,calmEnv⟩


private theorem client_step (inputs : List Input) {con : Option TCB}
    (hf : hashFind (run tcpStep .empty inputs) clientId = con) (flags : U8) (seq ack : U32) :
    hashFind (run tcpStep .empty (inputs ++ [⟨.crafted clientId flags seq ack,calmEnv⟩])) clientId =
      (conStep 77 ⟨clientId,byteFlags flags,seq,ack,8192⟩ (con.getD (tcbInit clientId))).2 := by
  have hi : TableInv (run tcpStep .empty inputs) := TableReachable.inv ⟨inputs,rfl⟩
  rw [run_snoc, tcpStep_mk, (crafted_refines clientId flags seq ack hi.wf calmEnv rfl).own, hf]
  rfl

/-- The client's block after its SYN and after the acknowledgement. -/
def clientHalfOpen : TCB := ⟨clientId,⟨77,78,8192,77⟩,⟨101,8192,100⟩,.synReceived⟩
def clientOpen : TCB := ⟨clientId,⟨78,78,8192,77⟩,⟨101,8192,100⟩,.established⟩

theorem run_clientSyn : hashFind (run tcpStep .empty [clientSyn]) clientId = some clientHalfOpen :=
  client_step [] rfl SYN 100 0

theorem run_clientAck : hashFind (run tcpStep .empty [clientSyn,clientAck]) clientId = some clientOpen :=
  client_step [clientSyn] run_clientSyn ACK 101 78

end LazyTcp.Refactor
