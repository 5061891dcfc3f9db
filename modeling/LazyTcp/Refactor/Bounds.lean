import LazyTcp.General.Bounded
import LazyTcp.Refactor.Tcp

/-! The second stack on its packet buffer of MTU_SIZE bytes, with guarded
accesses. Both headers lie in the first 120 bytes; whatever goes further is as
long as the packet that was read or as the answer to it. -/
namespace LazyTcp.Refactor.Bounded
open General General.Guarded

def checksum (i len : Nat) : Guarded U16 := internetChecksum i len

def ipValidate (len : Nat) : Guarded Bool := do
  if len < 20 then return false
  let ihl ← ihlBytes
  if ihl < 20 ∨ ihl > len then return false
  if (← versionIhl) >>> 4 ≠ 4 then return false
  if (← checksum 0 ihl) ≠ 0 then return false
  return true

def ipSwapDst : Guarded Unit := do
  let src ← ipSrc
  setIpSrc (← ipDst)
  setIpDst src

def ipChecksum : Guarded Unit := do
  let ihl ← ihlBytes
  setIpChecksum 0
  setIpChecksum (← checksum 0 ihl)

def icmpChecksum (o len : Nat) : Guarded Unit := do
  setIcmpChecksum o 0
  setIcmpChecksum o (← checksum o len)

def icmpValidate (o len : Nat) : Guarded Bool := do
  if len < 8 then return false
  if (← checksum o len) ≠ 0 then return false
  return true

/-- What is copied into the array icmp_pl, which has 68 bytes. -/
def icmpPl (bytes : List U8) : Guarded (List U8) := fun _ m => if bytes.length ≤ 68 then some (bytes,m) else none

def icmpDestUnreachable (len offset : Nat) : Guarded Nat := do
  let dgramLen := if len - offset < 8 then len - offset else 8
  let icmpPlLen := offset + dgramLen
  let ipLen := offset + 8 + icmpPlLen
  if ipLen > MTU_SIZE then return 0
  let header ← fetch 0 offset
  let datagram ← fetch offset dgramLen
  let quoted ← icmpPl (header ++ datagram)
  setIpLen (htons (.ofNat 16 ipLen))
  setIpId 0
  setIpProto PROTO_ICMP
  ipSwapDst
  ipChecksum
  setIcmpType offset ICMP_DST_UNREACHABLE
  setIcmpCode offset ICMP_PROTO_UNREACHABLE
  setIcmpIdentifier offset 0
  setIcmpSequenceNo offset 0
  fill (offset + 8) quoted
  icmpChecksum offset (8 + icmpPlLen)
  return ipLen

def icmpEchoReply (len offset : Nat) : Guarded Nat := do
  setIcmpType offset 0
  setIcmpCode offset 0
  icmpChecksum offset (len - offset)
  ipSwapDst
  ipChecksum
  return len

def icmpDispatch (len offset : Nat) : Guarded Nat := do
  if !(← icmpValidate offset (len - offset)) then return 0
  if (← icmpType offset) = ICMP_ECHO then icmpEchoReply len offset
  else return 0

/-- The segment is copied into the array ghost_seg, with its checksum field
cleared for as long. -/
def tcpChecksum (len offset : Nat) : Guarded U16 := do
  let orgCs ← tcpChecksumField offset
  let segLen := len - offset
  let src ← ipSrc
  let dst ← ipDst
  let proto ← ipProto
  setTcpChecksum offset 0
  let segment ← fetch offset segLen
  let ghostSeg := Wire.pseudoSegment src dst proto segLen (fun k => segment.getD k 0) 0
  let cs := Refactor.checksum ghostSeg 0 (12 + segLen)
  setTcpChecksum offset orgCs
  return cs

def tcpSwapPort (offset : Nat) : Guarded Unit := do
  let srcPort ← tcpSrcPort offset
  setTcpSrcPort offset (← tcpDstPort offset)
  setTcpDstPort offset srcPort

def tcpSynAck (tcb : TCB) (len offset : Nat) : Guarded Nat := do
  ipSwapDst
  tcpSwapPort offset
  let hlen ← tcpHlen offset
  setTcpSeqNum offset (htonl tcb.send.iss)
  setTcpAckNum offset (htonl tcb.recv.next)
  setTcpDataOffset offset (Wire.dataOffsetByte hlen)
  setTcpFlags offset (Wire.SYN ||| Wire.ACK)
  setTcpWindow offset (htons (tcb.recv.window.setWidth 16))
  setTcpUrgentPtr offset 0
  let ipHlen ← ihlBytes
  setIpLen (htons (.ofNat 16 (ipHlen + hlen)))
  ipChecksum
  setTcpChecksum offset (← tcpChecksum len offset)
  return ipHlen + hlen

def tcpRst (stale : Stale) (ht : HashTable) (tcb : TCB) (offset : Nat) : Guarded (Nat × HashTable) := do
  let flags ← tcpFlags offset
  let ack := Wire.hasFlag flags Wire.ACK
  let fin := Wire.hasFlag flags Wire.FIN
  let syn := Wire.hasFlag flags Wire.SYN
  let hlen ← tcpHlen offset
  let ipHlen ← ihlBytes
  let totLen := (ntohs (← ipLen)).setWidth 32
  let segLen : U32 := totLen - .ofNat 32 ipHlen - .ofNat 32 hlen
  let (seqNo,ackNo,plFlags) ← if ack then
      pure ((htons ((← tcpAckNum offset).setWidth 16)).setWidth 32,stale.ackNo,Wire.RST)
    else pure (stale.seqNo,ntohl (← tcpSeqNum offset) + (segLen + .ofNat 32 (fin.toNat + syn.toNat)),stale.plFlags)
  ipSwapDst
  tcpSwapPort offset
  setIpLen (htons (.ofNat 16 (ipHlen + hlen)))
  setTcpSeqNum offset (htonl seqNo)
  setTcpAckNum offset (htonl ackNo)
  setTcpDataOffset offset (Wire.dataOffsetByte hlen)
  setTcpFlags offset plFlags
  setTcpWindow offset 0
  setTcpUrgentPtr offset 0
  return (ipHlen + hlen,hashDelete ht tcb)

def tcbStateUpdate (iss : U32) (offset : Nat) (ht : HashTable) (tcb : TCB) (edge : Edge) :
    Guarded (Bool × TCB × HashTable) := do
  match edge with
  | .syn =>
    let irs := ntohl (← tcpSeqNum offset)
    let recv := { tcb.recv with irs := irs, next := irs + 1 }
    let send := { tcb.send with window := (ntohs (← tcpWindow offset)).setWidth 32 }
    let send := if tcb.state = .closed then { send with iss := iss, next := iss + 1, unac := iss } else send
    let tcb := { tcb with recv := recv, send := send, state := .synReceived }
    return (true,tcb,tcbStore ht tcb)
  | .ack =>
    let ackNo := ntohl (← tcpAckNum offset)
    if ackNo = tcb.send.next then
      let tcb := { tcb with state := .established, send := { tcb.send with unac := ackNo } }
      return (true,tcb,tcbStore ht tcb)
    else return (false,tcb,ht)
  | .rst =>
    let seqNo := ntohl (← tcpSeqNum offset)
    if seqGeq seqNo tcb.recv.next && seqLt seqNo (tcb.recv.next + tcb.recv.window) then
      return (true,tcb,hashDelete ht tcb)
    else return (false,tcb,ht)
  | _ => return (true,tcb,ht)

def segId (offset : Nat) : Guarded ID := do
  let srcPort ← tcpSrcPort offset
  let dstPort ← tcpDstPort offset
  let srcIp ← ipSrc
  let dstIp ← ipDst
  return ⟨ntohs srcPort,ntohs dstPort,ntohl srcIp,ntohl dstIp⟩

def segFlags (offset : Nat) : Guarded Flags := do
  let flags ← tcpFlags offset
  return ⟨Wire.hasFlag flags Wire.FIN,Wire.hasFlag flags Wire.SYN,Wire.hasFlag flags Wire.RST,
    Wire.hasFlag flags Wire.PSH,Wire.hasFlag flags Wire.ACK⟩

def tcpSwitch (stale : Stale) (len offset : Nat) (edge : Edge) : Bool × TCB × HashTable → Guarded (Nat × HashTable)
  | (ok,tcb,ht) => do
    match if ok then edge else .drop with
    | .syn => return (← tcpSynAck tcb len offset,ht)
    | .sendRst => tcpRst stale ht tcb offset
    | _ => return (0,ht)

def tcpDispatch (env : Env) (ht : HashTable) (len offset : Nat) : Guarded (Nat × HashTable) := do
  let valid ← tcpChecksum len offset
  if (← tcpChecksumField offset) ≠ valid then return (0,ht)
  let id ← segId offset
  let flags ← segFlags offset
  match tcpParseEdge env.allocs ht flags id with
  | (_,none,ht) => return (0,ht)
  | (edge,some tcb,ht) => tcpSwitch env.stale len offset edge (← tcbStateUpdate env.iss offset ht tcb edge)

def netDemux (env : Env) (ht : HashTable) (len : Nat) : Guarded (Nat × HashTable) := do
  if !(← ipValidate len) then return (0,ht)
  let proto ← ipProto
  let ihl ← ihlBytes
  if proto = PROTO_ICMP then return (← icmpDispatch len ihl,ht)
  else if proto = PROTO_TCP then tcpDispatch env ht len ihl
  else return (← icmpDestUnreachable len ihl,ht)

/-! Run equations: within the bound a guarded function does what the plain one does. -/

section Headers
variable {last : Nat} (m : Mem)

private theorem ipValidate_run {len : Nat} (hlen : len ≤ last + 1) :
    (ipValidate len).run last m = some (Refactor.ipValidate m len,m) := by
  unfold Refactor.ipValidate
  refine run_ite_of rfl ?_
  rw [run_bind_of ihlBytes_of]
  by_cases hihl : Wire.ihlBytes m < 20 ∨ Wire.ihlBytes m > len
  · rw [if_pos hihl, if_pos hihl]
    rfl
  · rw [if_neg hihl, if_neg hihl, read_bind _ (Nat.zero_le last)]
    refine run_ite_of rfl ?_
    rw [checksum, run_bind_of (internetChecksum_of (within_iff.mpr (by omega)))]
    exact run_ite_of rfl rfl

variable (hlast : 120 ≤ last)
include hlast

private theorem ipSwapDst_run : ipSwapDst.run last m = some ((),Refactor.ipSwapDst m) := by
  rw [ipSwapDst, load32_bind _ (by omega), load32_bind _ (by omega), store32_bind _ (by omega), store32_of (by omega)]
  rfl

private theorem ipChecksum_run : ipChecksum.run last m = some ((),Refactor.ipChecksum m) := by
  have hihl := Wire.ihlBytes_le m
  have hw : Within last 0 (Wire.ihlBytes m) := within_iff.mpr (by omega)
  rw [ipChecksum, run_bind_of ihlBytes_of, checksum, store16_bind _ (by omega), run_bind_of (internetChecksum_of hw),
    store16_of (by omega)]
  rfl

variable {o : Nat} (ho : o ≤ 60)
include ho

private theorem icmpChecksum_run {n : Nat} (hw : Within last o n) :
    (icmpChecksum o n).run last m = some ((),Refactor.icmpChecksum m o n) := by
  rw [icmpChecksum, checksum, store16_bind _ (by omega), run_bind_of (internetChecksum_of hw), store16_of (by omega)]
  rfl

omit hlast ho in
private theorem icmpValidate_run {n : Nat} (hw : Within last o n) :
    (icmpValidate o n).run last m = some (Refactor.icmpValidate m o n,m) := by
  refine run_ite_of rfl ?_
  rw [checksum, run_bind_of (internetChecksum_of hw)]
  exact run_ite_of rfl rfl

private theorem icmpEchoReply_run {len : Nat} (hw : Within last o (len - o)) :
    (icmpEchoReply len o).run last m = some (Refactor.icmpEchoReply m len o) := by
  rw [icmpEchoReply, write_bind _ (by omega), write_bind _ (by omega), run_bind_of (icmpChecksum_run _ hlast ho hw),
    run_bind_of (ipSwapDst_run _ hlast), run_bind_of (ipChecksum_run _ hlast)]
  rfl

private theorem icmpDispatch_run {len : Nat} (hw : Within last o (len - o)) :
    (icmpDispatch len o).run last m = some (Refactor.icmpDispatch m len o) := by
  rw [icmpDispatch, Refactor.icmpDispatch, run_bind_of (icmpValidate_run m hw)]
  split
  · rfl
  · rw [read_bind _ (by omega), Wire.icmpType]
    split
    · exact icmpEchoReply_run m hlast ho hw
    · rfl

omit hlast ho in
/-- The quoted bytes are what the plain builder has in its scratch array. -/
private theorem quoted_bytes (n : Nat) {k : Nat} (hk : k < o + n) : (m.bytes 0 o ++ m.bytes o n).getD k 0 =
    ((Mem.copy (fun _ => 0) 0 m 0 o).copy o m o n) k := by
  by_cases hko : k < o
  · rw [List.getD_eq_getElem?_getD, List.getElem?_append_left (by rwa [Mem.length_bytes]), ← List.getD_eq_getElem?_getD,
      m.bytes_getD 0 hko, Mem.copy_other _ _ _ _ (Or.inl hko), Mem.copy_inside _ _ _ _ (Nat.zero_le k) (by omega),
      Nat.sub_zero]
  · rw [List.getD_eq_getElem?_getD, List.getElem?_append_right (by rw [Mem.length_bytes]; omega), Mem.length_bytes,
      ← List.getD_eq_getElem?_getD, m.bytes_getD o (by omega), Mem.copy_inside _ _ _ _ (by omega) hk]

private theorem icmpDestUnreachable_run {len : Nat} (hlast : 135 ≤ last) :
    (icmpDestUnreachable len o).run last m = some (Refactor.icmpDestUnreachable m len o) := by
  rw [icmpDestUnreachable, Refactor.icmpDestUnreachable]
  generalize hn : (if len - o < 8 then len - o else 8) = n
  have hn : n ≤ 8 := by split at hn <;> omega
  simp only
  split
  · rfl
  · have hquote : (m.bytes 0 o ++ m.bytes o n).length = o + n := by
      rw [List.length_append, Mem.length_bytes, Mem.length_bytes]
    have hpl (m' : Mem) : (icmpPl (m.bytes 0 o ++ m.bytes o n)).run last m' = some (m.bytes 0 o ++ m.bytes o n,m') :=
      if_pos (by omega)
    have hfill (m' : Mem) : (fill (o + 8) (m.bytes 0 o ++ m.bytes o n)).run last m' =
        some ((),m'.copy (o + 8) ((Mem.copy (fun _ => 0) 0 m 0 o).copy o m o n) 0 (o + n)) := by
      rw [fill_of (within_iff.mpr (by omega)), hquote]
      refine congrArg (fun b => some ((),b)) (Mem.copy_congr m' (o + 8) fun k hk => ?_)
      rw [Nat.zero_add]
      exact quoted_bytes m n hk
    rw [run_bind_of (fetch_of (within_iff.mpr (by omega))), run_bind_of (fetch_of (within_iff.mpr (by omega))),
      run_bind_of (hpl m)]
    simp (disch := omega) only [write_bind, store16_bind, run_bind_of (ipSwapDst_run _ _),
      run_bind_of (ipChecksum_run _ _), run_bind_of (hfill _)]
    rw [run_bind_of (icmpChecksum_run _ (by omega) ho (within_iff.mpr (by omega)))]
    rfl

private theorem tcpSwapPort_run : (tcpSwapPort o).run last m = some ((),Refactor.tcpSwapPort m o) := by
  rw [tcpSwapPort, load16_bind _ (by omega), load16_bind _ (by omega), store16_bind _ (by omega), store16_of (by omega)]
  rfl

private theorem tcpChecksum_run {len : Nat} (hw : Within last o (len - o)) :
    (tcpChecksum len o).run last m = some (Refactor.tcpChecksum m len o,m) := by
  have hcopy (src dst : U32) (proto : U8) (n : Nat) (m : Mem) :
      Wire.pseudoSegment src dst proto n (fun k => (m.bytes o n).getD k 0) 0 = Wire.pseudoSegment src dst proto n m o := by
    rw [Wire.pseudoSegment, Wire.pseudoSegment]
    refine Mem.copy_congr _ 12 fun k hk => ?_
    rw [Nat.zero_add, m.bytes_getD o hk]
  rw [tcpChecksum, load16_bind _ (by omega), load32_bind _ (by omega), load32_bind _ (by omega), read_bind _ (by omega),
    store16_bind _ (by omega), run_bind_of (fetch_of hw), store16_bind _ (by omega), hcopy, Mem.store16_store16,
    Mem.store16_load16]
  rfl

private theorem tcpSynAck_run (tcb : TCB) {len : Nat} (hw : Within last o (len - o)) :
    (tcpSynAck tcb len o).run last m = some (Refactor.tcpSynAck tcb m len o) := by
  rw [tcpSynAck, Refactor.tcpSynAck]
  simp (disch := omega) only [write_bind, store16_bind, store32_bind, run_bind_of (ipSwapDst_run _ hlast),
    run_bind_of (tcpSwapPort_run _ hlast ho), run_bind_of (tcpHlen_of _), run_bind_of ihlBytes_of,
    run_bind_of (ipChecksum_run _ hlast), run_bind_of (tcpChecksum_run _ hlast ho hw)]
  rfl

private theorem tcpRst_run (stale : Stale) (ht : HashTable) (tcb : TCB) : (tcpRst stale ht tcb o).run last m =
    some (((rstReply stale m o).1,hashDelete ht tcb),(rstReply stale m o).2) := by
  rw [tcpRst, rstReply, read_bind _ (by omega), run_bind_of (tcpHlen_of (by omega)), run_bind_of ihlBytes_of,
    load16_bind _ (by omega)]
  cases hack : Wire.hasFlag (Wire.tcpFlags m o) Wire.ACK <;>
    rw [Wire.tcpFlags] at hack <;>
    simp (disch := omega) only [hack, Bool.false_eq_true, if_true, if_false, load32_bind, run_pure_bind, write_bind,
      store16_bind, store32_bind, run_bind_of (ipSwapDst_run _ hlast), run_bind_of (tcpSwapPort_run _ hlast ho)] <;>
    rfl

private theorem tcbStateUpdate_run (iss : U32) (ht : HashTable) (tcb : TCB) (edge : Edge) :
    (tcbStateUpdate iss o ht tcb edge).run last m = some (Refactor.tcbStateUpdate iss m o ht tcb edge,m) := by
  cases edge with
  | syn =>
    rw [tcbStateUpdate, load32_bind _ (by omega), load16_bind _ (by omega)]
    rfl
  | ack =>
    rw [tcbStateUpdate, load32_bind _ (by omega)]
    exact run_ite_of rfl rfl
  | rst =>
    rw [tcbStateUpdate, load32_bind _ (by omega)]
    exact run_ite_of rfl rfl
  | data | sendRst | fin | drop => rfl

private theorem segId_run : (segId o).run last m = some (Refactor.segId m o,m) := by
  rw [segId, load16_bind _ (by omega), load16_bind _ (by omega), load32_bind _ (by omega), load32_bind _ (by omega)]
  rfl

private theorem segFlags_run : (segFlags o).run last m = some (Refactor.segFlags m o,m) := by
  rw [segFlags, read_bind _ (by omega)]
  rfl

/-- Result and buffer of a plain reply. -/
def replied (r : Reply) : (Nat × HashTable) × Mem := ((r.ret,r.table),r.buf)

private theorem tcpSwitch_run (stale : Stale) {len : Nat} (hw : Within last o (len - o)) (edge : Edge)
    (r : Bool × TCB × HashTable) :
    (tcpSwitch stale len o edge r).run last m = some (replied (Refactor.tcpSwitch stale m len o edge r).toReply) := by
  obtain ⟨ok,tcb,ht⟩ := r
  cases ok with
  | false => rfl
  | true =>
    cases edge with
    | syn => exact run_bind_of (tcpSynAck_run m hlast ho tcb hw) _
    | sendRst => exact tcpRst_run m hlast ho stale ht tcb
    | data | ack | fin | rst | drop => rfl

private theorem tcpDispatch_run (env : Env) (ht : HashTable) {len : Nat} (hw : Within last o (len - o)) :
    (tcpDispatch env ht len o).run last m = some (replied (Refactor.tcpDispatch env ht m len o).toReply) := by
  rw [tcpDispatch, Refactor.tcpDispatch, run_bind_of (tcpChecksum_run m hlast ho hw), load16_bind _ (by omega),
    Wire.tcpChecksumField]
  split
  · rfl
  · rw [run_bind_of (segId_run m hlast ho), run_bind_of (segFlags_run m hlast ho)]
    rcases tcpParseEdge env.allocs ht (Refactor.segFlags m o) (Refactor.segId m o) with ⟨edge,_ | tcb,ht'⟩
    · rfl
    · exact (run_bind_of (tcbStateUpdate_run m hlast ho env.iss ht' tcb edge) _).trans
        (tcpSwitch_run m hlast ho env.stale hw edge _)

end Headers

/-- No packet of any content leads net_demux outside of a buffer that holds the
packet and the longest answer built by itself. -/
theorem netDemux_run (env : Env) (ht : HashTable) (m : Mem) {last len : Nat} (hlast : 135 ≤ last)
    (hlen : len ≤ last + 1) :
    (netDemux env ht len).run last m = some (replied (Refactor.netDemux env ht m len)) := by
  rw [netDemux, Refactor.netDemux, run_bind_of (ipValidate_run m hlen)]
  split
  · rfl
  · have ho := Wire.ihlBytes_le m
    have hw : Within last (Wire.ihlBytes m) (len - Wire.ihlBytes m) := within_iff.mpr (by omega)
    rw [read_bind _ (by omega), run_bind_of ihlBytes_of, Wire.ipProto]
    by_cases hicmp : m 9 = PROTO_ICMP
    · simp only [hicmp, if_true]
      exact run_bind_of (icmpDispatch_run m (by omega) ho hw) _
    · by_cases htcp : m 9 = PROTO_TCP
      · simp only [htcp, if_true]
        exact tcpDispatch_run m (by omega) ho env ht hw
      · simp only [hicmp, htcp, if_false]
        exact run_bind_of (icmpDestUnreachable_run m (by omega) ho hlast) _

end LazyTcp.Refactor.Bounded
