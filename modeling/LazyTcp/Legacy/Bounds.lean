import LazyTcp.General.Bounded
import LazyTcp.Legacy.Replies
import LazyTcp.Legacy.Machine

/-! The first stack on its packet buffer tu of MTU_SIZE + 1 bytes. Each function
is run with guarded accesses; the lengths that decide how far it reads and
copies are the ones in the packet and the length of the response. -/
namespace LazyTcp.Legacy.Bounded
open General General.Guarded

def MTU_SIZE : Nat := 1500

def packetChecksum (i packLen : Nat) : Guarded U16 := internetChecksum i packLen

def packetDeserialize : Guarded PacketKind := do
  let versionIhl ← versionIhl
  let ipVersion := versionIhl >>> 4
  let ihl := versionIhl &&& 0xf
  if ipVersion = 4 then
    if ihl < 5 then return .protoUndf
    let proto ← ipProto
    if proto = IP_ICMP_PROTO then return .ipv4Icmp
    else if proto = IP_TCP_PROTO then return .ipv4Tcp
    else return .protoUndf
  else if ipVersion = 6 then return .ipv6
  else return .verUndf

def ipSwapDst : Guarded Unit := do
  let src ← ipSrc
  setIpSrc (← ipDst)
  setIpDst src

def ipUpdateChecksum (packLen : Nat) : Guarded Unit := do
  setIpChecksum 0
  setIpChecksum (← packetChecksum 0 packLen)

def icmpUpdateChecksum (o packLen : Nat) : Guarded Unit := do
  setIcmpChecksum o 0
  setIcmpChecksum o (← packetChecksum o packLen)

def icmpEchoReply (o : Nat) : Guarded Unit := do
  setIcmpType o 0
  setIcmpCode o 0
  let ihl ← ihlBytes
  let icmpLen := (ntohs (← ipLen)).toNat - ihl
  icmpUpdateChecksum o icmpLen
  ipSwapDst
  ipUpdateChecksum ihl

def icmpDispatch (o : Nat) : Guarded Unit := do
  if (← icmpType o) = 8 then icmpEchoReply o

def tcpSwitchPort (o : Nat) : Guarded Unit := do
  let dst ← tcpDstPort o
  setTcpDstPort o (← tcpSrcPort o)
  setTcpSrcPort o dst

/-- The segment is copied behind the pseudo-header; the copy is not part of tu. -/
def tcpUpdateChecksum (o packLen : Nat) : Guarded Unit := do
  setTcpChecksum o 0
  let src ← ipSrc
  let dst ← ipDst
  let segment ← fetch o packLen
  let buffer := Wire.pseudoSegment src dst IP_TCP_PROTO packLen (fun k => segment.getD k 0) 0
  setTcpChecksum o (Legacy.packetChecksum buffer 0 (12 + packLen))

def tcpNullRst (o : Nat) : Guarded Unit := do
  let flags ← tcpFlags o
  let syn := Wire.hasFlag flags Wire.SYN
  let ack := Wire.hasFlag flags Wire.ACK
  let fin := Wire.hasFlag flags Wire.FIN
  let tcpHeaderLen ← tcpHlen o
  let ipHeaderLen ← ihlBytes
  let totalLen := (ntohs (← ipLen)).setWidth 32
  let segLen : U32 := totalLen - .ofNat 32 ipHeaderLen - .ofNat 32 tcpHeaderLen
  let (seqNum,ackNum) ← if ack then pure (ntohl (← tcpAckNum o),0)
    else pure (0,ntohl (← tcpSeqNum o) + (segLen + .ofNat 32 (fin.toNat + syn.toNat)))
  let flags := if ack then Wire.RST else Wire.RST ||| Wire.ACK
  ipSwapDst
  tcpSwitchPort o
  setIpLen (htons (.ofNat 16 (ipHeaderLen + tcpHeaderLen)))
  setTcpSeqNum o (htonl seqNum)
  setTcpAckNum o (htonl ackNum)
  setTcpDataOffset o (Wire.dataOffsetByte tcpHeaderLen)
  setTcpFlags o flags
  setTcpWindow o 0
  setTcpUrgentPtr o 0
  ipUpdateChecksum ipHeaderLen
  tcpUpdateChecksum o tcpHeaderLen

/-- The numbers a SYN gives its block. -/
def synNumbers (ticks : U32) (o : Nat) (tcb : TCB) : Guarded TCB := do
  let irs := ntohl (← tcpSeqNum o)
  let window := ntohs (← tcpWindow o)
  return { tcb with
    recv := { tcb.recv with irs := irs, next := irs + 1 }
    send := ⟨ticks,ticks + 1,window.setWidth 32,ticks⟩ }

def tcpNullSynAck (ticks : U32) (o : Nat) (tcb : TCB) : Guarded TCB := do
  let tcb ← synNumbers ticks o tcb
  ipSwapDst
  tcpSwitchPort o
  let tcpHeaderLen ← tcpHlen o
  setTcpSeqNum o (htonl tcb.send.iss)
  setTcpAckNum o (htonl tcb.recv.next)
  setTcpDataOffset o (Wire.dataOffsetByte tcpHeaderLen)
  setTcpFlags o (Wire.SYN ||| Wire.ACK)
  setTcpWindow o (htons (tcb.recv.window.setWidth 16))
  setTcpUrgentPtr o 0
  let ipHeaderLen ← ihlBytes
  setIpLen (htons (.ofNat 16 (ipHeaderLen + tcpHeaderLen)))
  ipUpdateChecksum ipHeaderLen
  tcpUpdateChecksum o tcpHeaderLen
  return tcb

def tcpGotRst (o : Nat) (tcb : TCB) (s : Server) : Guarded Server := do
  let rstSeq ← tcpSeqNum o
  if seqGeq rstSeq tcb.recv.next && seqLt rstSeq (tcb.recv.next + tcb.recv.window) then
    return tcpRemoveConnection s tcb
  else return s

/-- The body is copied behind the header length the request claims. -/
def tcpSendAck (o : Nat) (tcb : TCB) (body : List U8) : Guarded TCB := do
  ipSwapDst
  tcpSwitchPort o
  let ipHl ← ihlBytes
  let tcpHl ← tcpHlen o
  setTcpSeqNum o (htonl tcb.send.next)
  setTcpAckNum o (htonl tcb.recv.next)
  setTcpDataOffset o (Wire.dataOffsetByte tcpHl)
  setTcpWindow o (htons (tcb.recv.window.setWidth 16))
  setTcpUrgentPtr o 0
  setTcpFlags o (if body = [] then Wire.ACK else Wire.PSH ||| Wire.ACK)
  fill (o + tcpHl) body
  setIpLen (htons (.ofNat 16 (ipHl + tcpHl + body.length)))
  ipUpdateChecksum ipHl
  tcpUpdateChecksum o (tcpHl + body.length)
  return { tcb with send := { tcb.send with next := tcb.send.next + .ofNat 32 body.length } }

/-- strncmp against a text without a null byte, true for no difference, stops at
the first one. -/
def strncmp (i : Nat) : List U8 → Guarded Bool
  | [] => pure true
  | c :: text => do
    if (← read i) = c then strncmp (i+1) text else return false

def httpHandleRequest (file : HttpFile) (data dataLen : Nat) : Guarded (List U8) := do
  if 4 ≤ dataLen then
    if ← strncmp data (ascii "GET ") then return httpServeFile file
    else return ascii "HTTP/1.1 400 Bad Request\r\n\r\n"
  else return ascii "HTTP/1.1 400 Bad Request\r\n\r\n"

def tcpHandleData (file : HttpFile) (o : Nat) (tcb : TCB) : Guarded (Code × TCB) := do
  let ipHl ← ihlBytes
  let tcpHl ← tcpHlen o
  let dataLen := (ntohs (← ipLen)).toNat - ipHl - tcpHl
  if dataLen = 0 then return (.silent,tcb)
  else
    let httpResponse ← httpHandleRequest file (ipHl + tcpHl) dataLen
    let tcb ← tcpSendAck o (advanced dataLen tcb) httpResponse
    return (.ok,tcb)

def segId (o : Nat) : Guarded ConnectionID := do
  let srcIp ← ipSrc
  let dstIp ← ipDst
  let srcPort ← tcpSrcPort o
  let dstPort ← tcpDstPort o
  return ⟨srcIp,srcPort,dstIp,dstPort⟩

/-- Code and server of a dispatch; none is a write through a null block. -/
def tcpDispatch (env : Env) (s : Server) (o : Nat) : Guarded (Option (Code × Server)) := do
  let id ← segId o
  let flags ← tcpFlags o
  let syn := Wire.hasFlag flags Wire.SYN
  let ack := Wire.hasFlag flags Wire.ACK
  let fin := Wire.hasFlag flags Wire.FIN
  let rst := Wire.hasFlag flags Wire.RST
  match tcpGetState s id with
  | none =>
    if rst then return some (.silent,s)
    else if syn && !ack then
      let tcb := tcpInitTcb env.alloc id
      match tcpInsertTcb tcb s, tcb with
      | some s, some tcb =>
        let tcb ← tcpNullSynAck env.ticks o tcb
        return some (.ok,s.store tcb)
      | _, _ => return none
    else
      tcpNullRst o
      return some (.ok,s)
  | some con =>
    if rst then return some (.silent,← tcpGotRst o con s)
    else match con.state with
      | .synReceived =>
        if syn && !ack then
          let con ← tcpNullSynAck env.ticks o con
          return some (.silent,s.store con)
        else if ack && !syn then
          let ackNum := ntohl (← tcpAckNum o)
          if ackNum = con.send.next then
            return some (.silent,s.store { con with state := .established, send := { con.send with unac := ackNum } })
          else return some (.silent,s)
        else return some (.silent,s)
      | .established =>
        if fin then
          let con := { con with recv := { con.recv with next := ntohl (← tcpSeqNum o) + 1 } }
          let con ← tcpSendAck o con []
          return some (.ok,s.store { con with state := .closeWait })
        else
          let (code,con) ← tcpHandleData env.file o con
          return some (code,s.store con)
      | _ => return some (.silent,s)

/-- The debug output reads both headers and the segment body by the lengths in
the headers. -/
def packetDebug (o : Nat) : Guarded Unit := do
  let _ ← fetch 0 20
  let _ ← fetch o 20
  let ipHl ← ihlBytes
  let dData ← tcpHlen o
  let totalLen := (ntohs (← ipLen)).toNat
  let _ ← fetch (o + dData) (totalLen - ipHl - dData)

def debugPrint (print : Bool) (o : Nat) : Guarded Unit := if print then packetDebug o else pure ()

/-- write of the first len bytes, which are at most MTU_SIZE. -/
def deviceWrite (len : Nat) : Guarded Datagram := fun _ m => if len ≤ MTU_SIZE then some (⟨m,len⟩,m) else none

/-- The end of a handled packet: its datagram goes back to the device. -/
def reply (s : Server) : Guarded (Option Parsed) := do
  let datagram ← deviceWrite (ntohs (← ipLen)).toNat
  return some ⟨0,s,some datagram⟩

/-- What parse_packet does with the code of a dispatch. -/
def tcpFinish (print : Bool) (o : Nat) : Option (Code × Server) → Guarded (Option Parsed)
  | none => return none
  | some (.fatal,s) => return some ⟨1,s,none⟩
  | some (.silent,s) => return some ⟨0,s,none⟩
  | some (.ok,s) => do
    debugPrint print o
    reply s

def parsePacket (print : Bool) (env : Env) (s : Server) : Guarded (Option Parsed) := do
  let op ← packetDeserialize
  let ihl ← ihlBytes
  match op with
  | .ipv4Icmp =>
    icmpDispatch ihl
    reply s
  | .ipv4Tcp =>
    debugPrint print ihl
    tcpFinish print ihl (← tcpDispatch env s ihl)
  | .protoUndf | .ipv6 | .verUndf => return some ⟨0,s,none⟩

/-! Run equations. Both headers lie in the first 120 bytes, so everything that
works on them stays within the buffer; the other equations carry the range they need. -/

section Headers
variable {last o : Nat} (m : Mem) (hlast : 120 ≤ last)
include hlast

theorem packetDeserialize_run : packetDeserialize.run last m = some (Legacy.packetDeserialize m,m) := by
  rw [packetDeserialize, read_bind _ (Nat.zero_le last)]
  refine run_ite_of (run_ite_of rfl ?_) (run_ite_of rfl rfl)
  rw [read_bind _ (by omega)]
  exact run_ite_of rfl (run_ite_of rfl rfl)

private theorem ipSwapDst_run : ipSwapDst.run last m = some ((),Legacy.ipSwapDst m) := by
  rw [ipSwapDst, load32_bind _ (by omega), load32_bind _ (by omega), store32_bind _ (by omega), store32_of (by omega)]
  rfl

private theorem ipUpdateChecksum_run (m' : Mem) : (ipUpdateChecksum (Wire.ihlBytes m')).run last m =
    some ((),Legacy.ipUpdateChecksum m (Wire.ihlBytes m')) := by
  have hihl := Wire.ihlBytes_le m'
  have hw : Within last 0 (Wire.ihlBytes m') := within_iff.mpr (by omega)
  rw [ipUpdateChecksum, packetChecksum, store16_bind _ (by omega), run_bind_of (internetChecksum_of hw),
    store16_of (by omega)]
  rfl

variable (ho : o ≤ 60)
include ho

private theorem icmpUpdateChecksum_of {n : Nat} (hw : Within last o n) :
    (icmpUpdateChecksum o n).run last m = some ((),Legacy.icmpUpdateChecksum m o n) := by
  rw [icmpUpdateChecksum, packetChecksum, store16_bind _ (by omega), run_bind_of (internetChecksum_of hw),
    store16_of (by omega)]
  rfl

private theorem icmpUpdateChecksum_none {n : Nat} (hw : ¬ Within last o n) :
    (icmpUpdateChecksum o n).run last m = none := by
  rw [icmpUpdateChecksum, packetChecksum, store16_bind _ (by omega), run_bind_none (internetChecksum_none hw)]

private theorem tcpSwitchPort_run : (tcpSwitchPort o).run last m = some ((),Legacy.tcpSwitchPort m o) := by
  rw [tcpSwitchPort, load16_bind _ (by omega), load16_bind _ (by omega), store16_bind _ (by omega),
    store16_of (by omega)]
  rfl

private theorem tcpUpdateChecksum_of {n : Nat} (hw : Within last o n) :
    (tcpUpdateChecksum o n).run last m = some ((),Legacy.tcpUpdateChecksum m o n) := by
  have hcopy (src dst : U32) (m : Mem) : Wire.pseudoSegment src dst IP_TCP_PROTO n
      (fun k => (m.bytes o n).getD k 0) 0 = Wire.pseudoSegment src dst IP_TCP_PROTO n m o := by
    rw [Wire.pseudoSegment, Wire.pseudoSegment]
    refine Mem.copy_congr _ 12 fun k hk => ?_
    rw [Nat.zero_add, m.bytes_getD o hk]
  rw [tcpUpdateChecksum, store16_bind _ (by omega), load32_bind _ (by omega), load32_bind _ (by omega),
    run_bind_of (fetch_of hw), store16_of (by omega), hcopy]
  rfl

private theorem tcpHeaderChecksum_run (m' : Mem) : (tcpUpdateChecksum o (Wire.tcpHlen m' o)).run last m =
    some ((),Legacy.tcpUpdateChecksum m o (Wire.tcpHlen m' o)) := by
  have hhl := Wire.tcpHlen_le m' o
  exact tcpUpdateChecksum_of m hlast ho (within_iff.mpr (by omega))

private theorem tcpNullRst_run : (tcpNullRst o).run last m = some ((),Legacy.tcpNullRst m o) := by
  rw [tcpNullRst, Legacy.tcpNullRst, read_bind _ (by omega), run_bind_of (tcpHlen_of (by omega)),
    run_bind_of ihlBytes_of, load16_bind _ (by omega)]
  cases hack : Wire.hasFlag (Wire.tcpFlags m o) Wire.ACK <;>
    rw [Wire.tcpFlags] at hack <;>
    simp (disch := omega) only [hack, Bool.false_eq_true, if_true, if_false, load32_bind, run_pure_bind, write_bind,
      store16_bind, store32_bind, run_bind_of (ipSwapDst_run _ hlast), run_bind_of (tcpSwitchPort_run _ hlast ho),
      run_bind_of (ipUpdateChecksum_run _ hlast _), tcpHeaderChecksum_run _ hlast ho] <;>
    rfl

private theorem synNumbers_run (ticks : U32) (tcb : TCB) :
    (synNumbers ticks o tcb).run last m = some (Legacy.synNumbers ticks m o tcb,m) := by
  rw [synNumbers, load32_bind _ (by omega), load16_bind _ (by omega)]
  rfl

private theorem tcpNullSynAck_run (ticks : U32) (tcb : TCB) :
    (tcpNullSynAck ticks o tcb).run last m = some (Legacy.tcpNullSynAck ticks m o tcb) := by
  rw [tcpNullSynAck, Legacy.tcpNullSynAck, run_bind_of (synNumbers_run m hlast ho ticks tcb)]
  simp (disch := omega) only [write_bind, run_pure,
      store16_bind, store32_bind, run_bind_of (ipSwapDst_run _ hlast), run_bind_of (tcpSwitchPort_run _ hlast ho),
      run_bind_of (tcpHlen_of _), run_bind_of ihlBytes_of,
      run_bind_of (ipUpdateChecksum_run _ hlast _), run_bind_of (tcpHeaderChecksum_run _ hlast ho _)]
  rfl

private theorem tcpGotRst_run (tcb : TCB) (s : Server) :
    (tcpGotRst o tcb s).run last m = some ((Legacy.tcpGotRst m o tcb s).2,m) := by
  rw [tcpGotRst, load32_bind _ (by omega), run_ite, Legacy.tcpGotRst, Wire.tcpSeqNum]
  split <;> rfl

private theorem segId_run : (segId o).run last m = some (Legacy.segId m o,m) := by
  rw [segId, load32_bind _ (by omega), load32_bind _ (by omega), load16_bind _ (by omega), load16_bind _ (by omega)]
  rfl

variable (hlo : 20 ≤ o) (tcb : TCB) (body : List U8)
include hlo

private theorem tcpSendAck_of (hw : Within last (o + Wire.tcpHlen m o) body.length) :
    (tcpSendAck o tcb body).run last m = some (Legacy.tcpSendAck m o tcb body) := by
  have hhl := Wire.tcpHlen_le m o
  rw [within_iff] at hw
  have hw' : Within last o (Wire.tcpHlen m o + body.length) := within_iff.mpr (by omega)
  rw [← within_iff] at hw
  rw [tcpSendAck, Legacy.tcpSendAck]
  simp (disch := omega) only [write_bind, store16_bind, store32_bind, run_pure, run_bind_of (ipSwapDst_run _ hlast),
    run_bind_of (tcpSwitchPort_run _ hlast ho), run_bind_of (tcpHlen_of _), run_bind_of ihlBytes_of,
    swapped_hlen m hlo, run_bind_of (fill_of hw), run_bind_of (ipUpdateChecksum_run _ hlast _),
    run_bind_of (tcpUpdateChecksum_of _ hlast ho hw')]
  rfl

private theorem tcpSendAck_none (hw : ¬ Within last (o + Wire.tcpHlen m o) body.length) :
    (tcpSendAck o tcb body).run last m = none := by
  rw [tcpSendAck]
  simp (disch := omega) only [write_bind, store16_bind, store32_bind, run_bind_of (ipSwapDst_run _ hlast),
    run_bind_of (tcpSwitchPort_run _ hlast ho), run_bind_of (tcpHlen_of _), run_bind_of ihlBytes_of,
    swapped_hlen m hlo, run_bind_none (fill_none hw)]

omit hlast ho in
/-- The fields the reply sets do not change how far the checksum reads. -/
private theorem icmpEchoReply_length : (ntohs (Wire.ipLen (Wire.setIcmpCode (Wire.setIcmpType m o 0) o 0))).toNat -
    Wire.ihlBytes (Wire.setIcmpCode (Wire.setIcmpType m o 0) o 0) = (ntohs (Wire.ipLen m)).toNat - Wire.ihlBytes m := by
  have hkeep : ∀ j, j < 20 → Wire.setIcmpCode (Wire.setIcmpType m o 0) o 0 j = m j := by
    intro j hj
    simp (disch := omega) only [Wire.setIcmpCode, Wire.setIcmpType, Mem.store8_other]
  rw [Wire.ihlBytes_congr (hkeep 0 (by omega)), Wire.ipLen, Mem.load16_congr fun j _ _ => hkeep j (by omega),
    Wire.ipLen]

private theorem icmpEchoReply_run : (icmpEchoReply o).run last m =
    if Within last o ((ntohs (Wire.ipLen m)).toNat - Wire.ihlBytes m) then some ((),Legacy.icmpEchoReply m o)
    else none := by
  rw [icmpEchoReply, write_bind _ (by omega), write_bind _ (by omega), run_bind_of ihlBytes_of,
    load16_bind _ (by omega), ← icmpEchoReply_length m hlo]
  split
  case isTrue hw =>
    refine (run_bind_of (icmpUpdateChecksum_of _ hlast ho hw) _).trans ?_
    rw [run_bind_of (ipSwapDst_run _ hlast)]
    exact ipUpdateChecksum_run _ hlast _
  case isFalse hw => exact run_bind_none (icmpUpdateChecksum_none _ hlast ho hw) _

theorem icmpDispatch_run : (icmpDispatch o).run last m =
    if Wire.icmpType m o = 8 ∧ ¬ Within last o ((ntohs (Wire.ipLen m)).toNat - Wire.ihlBytes m) then none
    else some ((),Legacy.icmpDispatch m o) := by
  rw [icmpDispatch, read_bind _ (by omega), run_ite, icmpEchoReply_run m hlast ho hlo, Legacy.icmpDispatch,
    Wire.icmpType]
  by_cases ht : m o = 8
  · simp only [ht, true_and, if_true]
    exact (ite_not ..).symm
  · simp only [ht, false_and, if_false]
    rfl

end Headers

section Data
variable {last : Nat} (m : Mem)

private theorem strncmp_run {i : Nat} {text : List U8} (h : i + text.length ≤ last + 1) :
    (strncmp i text).run last m = some (decide (m.bytes i text.length = text),m) := by
  induction text generalizing i with
  | nil => rfl
  | cons c text ih =>
    rw [List.length_cons] at h
    rw [strncmp, read_bind _ (by omega), run_ite, ih (by omega), List.length_cons, Mem.bytes_succ]
    split
    case isTrue hc => simp only [hc, List.cons.injEq, true_and]
    case isFalse hc => simp only [List.cons.injEq, hc, false_and, decide_false, run_pure]

/-- The first four bytes of a longer request, and what a shorter one lacks. -/
private theorem httpHandleRequest_run (file : HttpFile) {i : Nat} (n : Nat) (h : i + 4 ≤ last + 1) :
    (httpHandleRequest file i n).run last m =
      some (Legacy.httpHandleRequest file (m.bytes i n),m) := by
  rw [httpHandleRequest, Legacy.httpHandleRequest]
  have hlen : (ascii "GET ").length = 4 := by decide
  by_cases hn : 4 ≤ n
  · rw [if_pos hn, run_bind_of (strncmp_run m (by rw [hlen]; exact h)), hlen,
      Mem.bytes, Mem.bytes, ← List.map_take, List.take_range, min_eq_left hn, run_ite]
    simp only [decide_eq_true_eq]
    split <;> rfl
  · rw [if_neg hn, if_neg]
    · rfl
    · intro he
      have := congrArg List.length he
      rw [hlen, List.length_take, Mem.bytes, List.length_map, List.length_range] at this
      omega

end Data

section Dispatch
variable {last o : Nat} (m : Mem) (hlast : 123 ≤ last) (ho : o ≤ 60) (hlo : 20 ≤ o)

/-- The response http_handle_request has for the payload. -/
def response (env : Env) (m : Mem) (o : Nat) : List U8 := Legacy.httpHandleRequest env.file (payload m o)

/-- The segment carries payload for an established connection. -/
def Answered (s : Server) (m : Mem) (o : Nat) : Prop :=
  ∃ con, tcpGetState s (Legacy.segId m o) = some con ∧ con.state = .established ∧ rstFlag m o = false ∧
    finFlag m o = false ∧ dataLen m o ≠ 0

include hlast ho hlo

private theorem tcpHandleData_run (env : Env) (tcb : TCB) : (tcpHandleData env.file o tcb).run last m =
    if dataLen m o = 0 then some ((.silent,tcb),m)
    else if Within last (o + Wire.tcpHlen m o) (response env m o).length then
      let (tcb,m) := Legacy.tcpSendAck m o (advanced (dataLen m o) tcb) (response env m o)
      some ((.ok,tcb),m)
    else none := by
  have hihl := Wire.ihlBytes_le m
  have hhl := Wire.tcpHlen_le m o
  rw [tcpHandleData, run_bind_of ihlBytes_of, run_bind_of (tcpHlen_of (by omega)), load16_bind _ (by omega), run_ite]
  refine if_congr Iff.rfl rfl ?_
  rw [run_bind_of (httpHandleRequest_run m env.file _ (by omega))]
  split
  case isTrue hw => exact run_bind_of (tcpSendAck_of m (by omega) ho hlo _ _ hw) _
  case isFalse hw => exact run_bind_none (tcpSendAck_none m (by omega) ho hlo _ _ hw) _

/-- The guarded dispatch stays within the bound and leaves what the plain one leaves. -/
def Agrees (last : Nat) (m : Mem) (x : Guarded (Option (Code × Server))) (r : Option Outcome) : Prop :=
  x.run last m = some (r.elim (none,m) fun out => (some (out.code,out.server),out.buf))

omit hlast ho hlo in
private theorem Agrees.ite {c : Prop} [Decidable c] {x y : Guarded (Option (Code × Server))} {r r' : Option Outcome}
    (hx : c → Agrees last m x r) (hy : ¬ c → Agrees last m y r') :
    Agrees last m (if c then x else y) (if c then r else r') := by
  split
  case isTrue h => exact hx h
  case isFalse h => exact hy h

private theorem dispatch_absent {env : Env} {s : Server} (hf : tcpGetState s (Legacy.segId m o) = none) :
    Agrees last m (tcpDispatch env s o) (Legacy.tcpDispatch env s m o) := by
  rw [Agrees, tcpDispatch, run_bind_of (segId_run m (by omega) ho), read_bind _ (by omega), ← Agrees,
    Legacy.tcpDispatch]
  simp only [hf]
  refine .ite m (fun _ => rfl) fun _ => .ite m (fun _ => ?_) fun _ => ?_
  · cases tcpInsertTcb (tcpInitTcb env.alloc (Legacy.segId m o)) s with
    | none => rfl
    | some s' =>
      cases tcpInitTcb env.alloc (Legacy.segId m o) with
      | none => rfl
      | some tcb => exact run_bind_of (tcpNullSynAck_run m (by omega) ho _ _) _
  · exact run_bind_of (tcpNullRst_run m (by omega) ho) _

private theorem dispatch_stored {env : Env} {s : Server} {con : TCB}
    (hf : tcpGetState s (Legacy.segId m o) = some con)
    (hfit : Answered s m o → Within last (o + Wire.tcpHlen m o) (response env m o).length) :
    Agrees last m (tcpDispatch env s o) (Legacy.tcpDispatch env s m o) := by
  rw [Agrees, tcpDispatch, run_bind_of (segId_run m (by omega) ho), read_bind _ (by omega), ← Agrees,
    Legacy.tcpDispatch]
  simp only [hf]
  refine .ite m (fun _ => run_bind_of (tcpGotRst_run m (by omega) ho _ _) _) fun hr => ?_
  obtain ⟨id,state,send,recv⟩ := con
  cases state with
  | synReceived =>
    refine .ite m (fun _ => run_bind_of (tcpNullSynAck_run m (by omega) ho _ _) _) fun _ => ?_
    refine .ite m (fun _ => ?_) fun _ => rfl
    rw [Agrees, load32_bind _ (by omega)]
    exact Agrees.ite m (fun _ => rfl) fun _ => rfl
  | established =>
    refine .ite m (fun _ => ?_) fun hfin => ?_
    · rw [Agrees, load32_bind _ (by omega)]
      exact run_bind_of (tcpSendAck_of m (by omega) ho hlo _ [] (within_iff.mpr (Or.inl rfl))) _
    · have hrun := tcpHandleData_run m hlast ho hlo env ⟨id,.established,send,recv⟩
      by_cases hd : dataLen m o = 0
      · rw [if_pos hd] at hrun
        rw [Agrees, run_bind_of hrun, Legacy.tcpHandleData, if_pos hd]
        rfl
      · have hw := hfit ⟨_,hf,rfl,Bool.eq_false_of_not_eq_true hr,Bool.eq_false_of_not_eq_true hfin,hd⟩
        rw [if_neg hd, if_pos hw] at hrun
        rw [Agrees, run_bind_of hrun, Legacy.tcpHandleData, if_neg hd]
        rfl
  | closeWait | closing | lastAck | timeWait => rfl

theorem tcpDispatch_agrees {env : Env} {s : Server}
    (hfit : Answered s m o → Within last (o + Wire.tcpHlen m o) (response env m o).length) :
    Agrees last m (tcpDispatch env s o) (Legacy.tcpDispatch env s m o) := by
  cases hf : tcpGetState s (Legacy.segId m o) with
  | none => exact dispatch_absent m hlast ho hlo hf
  | some con => exact dispatch_stored m hlast ho hlo hf hfit

/-- A response that runs past the last byte. -/
theorem tcpDispatch_none {env : Env} {s : Server} (ha : Answered s m o)
    (hw : ¬ Within last (o + Wire.tcpHlen m o) (response env m o).length) :
    (tcpDispatch env s o).run last m = none := by
  obtain ⟨⟨id,state,send,recv⟩,hf,rfl,hr,hfin,hd⟩ := ha
  have hrun := tcpHandleData_run m hlast ho hlo env ⟨id,.established,send,recv⟩
  rw [if_neg hd, if_neg hw] at hrun
  rw [rstFlag, Wire.tcpFlags] at hr
  rw [finFlag, Wire.tcpFlags] at hfin
  rw [tcpDispatch, run_bind_of (segId_run m (by omega) ho), read_bind _ (by omega)]
  simp only [hf, hr, hfin, Bool.false_eq_true, if_false]
  exact run_bind_none hrun _

omit hlo in
theorem packetDebug_run : (packetDebug o).run last m =
    if Within last (o + Wire.tcpHlen m o) ((ntohs (Wire.ipLen m)).toNat - Wire.ihlBytes m - Wire.tcpHlen m o)
    then some ((),m) else none := by
  rw [packetDebug, run_bind_of (fetch_of (within_iff.mpr (by omega))),
    run_bind_of (fetch_of (within_iff.mpr (by omega))), run_bind_of ihlBytes_of, run_bind_of (tcpHlen_of (by omega)), load16_bind _ (by omega)]
  split
  case isTrue hw => exact run_bind_of (fetch_of hw) _
  case isFalse hw => exact run_bind_none (fetch_none hw) _

end Dispatch

end LazyTcp.Legacy.Bounded
