import LazyTcp.Refactor.Ip
import LazyTcp.Refactor.Tcb

/-! Classification of a segment, the state machine of one connection, the two
reply builders and the dispatcher that ties them to the buffer. -/
namespace LazyTcp.Refactor
open General General.Wire

def TCP_LISTEN_PORT : U16 := 8080

structure Flags where
  fin : Bool
  syn : Bool
  rst : Bool
  psh : Bool
  ack : Bool
  deriving DecidableEq, Repr

/-- Whatever the uninitialised locals of tcp_rst hold when it is entered. -/
structure Stale where
  seqNo : U32
  ackNo : U32
  plFlags : U8

/-- What the outside decides during one dispatch: the value tcp_gen_iss
returns, the allocator's answers and the stale stack. -/
structure Env where
  iss : U32
  allocs : Allocs
  stale : Stale

def tcpChecksum (m : Mem) (len offset : Nat) : U16 :=
  let segLen := len - offset
  let cleared := setTcpChecksum m offset 0
  let ghostSeg := pseudoSegment (ipSrc m) (ipDst m) (ipProto m) segLen cleared offset
  checksum ghostSeg 0 (12 + segLen)

theorem tcpChecksum_toNat (m : Mem) (offset : Nat) {len : Nat} (hlen : len ≤ 65536) : (tcpChecksum m len offset).toNat =
    65535 - onesNorm (pseudoSum (ipSrc m) (ipDst m) (ipProto m) (len - offset) +
      byteSum (setTcpChecksum m offset 0) offset (len - offset)) := by
  rw [tcpChecksum, checksum, internetChecksum_toNat _ _ (by omega), byteSum_pseudoSegment]

/-- The stored checksum has no part in the computed one. -/
theorem tcpChecksum_set (m : Mem) (len : Nat) {o : Nat} (ho : 20 ≤ o) (v : U16) :
    tcpChecksum (setTcpChecksum m o v) len o = tcpChecksum m len o := by
  have hc : setTcpChecksum (setTcpChecksum m o v) o 0 = setTcpChecksum m o 0 := Mem.store16_store16 ..
  have hs : ipSrc (setTcpChecksum m o v) = ipSrc m := Mem.load32_store16_other _ _ (by omega)
  have hd : ipDst (setTcpChecksum m o v) = ipDst m := Mem.load32_store16_other _ _ (by omega)
  have hp : ipProto (setTcpChecksum m o v) = ipProto m := m.store16_other (i := o+16) (j := 9) v (by omega)
  rw [tcpChecksum, tcpChecksum, hc, hs, hd, hp]

def tcpSwapPort (m : Mem) (offset : Nat) : Mem :=
  let srcPort := tcpSrcPort m offset
  setTcpDstPort (setTcpSrcPort m offset (tcpDstPort m offset)) offset srcPort

def tcpSynAck (tcb : TCB) (m : Mem) (len offset : Nat) : Nat × Mem :=
  let m := ipSwapDst m
  let m := tcpSwapPort m offset
  let hlen := tcpHlen m offset
  let m := setTcpSeqNum m offset (htonl tcb.send.iss)
  let m := setTcpAckNum m offset (htonl tcb.recv.next)
  let m := setTcpDataOffset m offset (dataOffsetByte hlen)
  let m := setTcpFlags m offset (SYN ||| ACK)
  let m := setTcpWindow m offset (htons (tcb.recv.window.setWidth 16))
  let m := setTcpUrgentPtr m offset 0
  let ipHlen := ihlBytes m
  let m := setIpLen m (htons (.ofNat 16 (ipHlen + hlen)))
  let m := ipChecksum m
  let m := setTcpChecksum m offset (tcpChecksum m len offset)
  (ipHlen + hlen,m)

/-- The reset written over the request. The ACK branch converts the
acknowledgement number with htons and leaves ack_no unset; the other branch
leaves seq_no and pl_flags unset. Neither checksum is recomputed. -/
def rstReply (stale : Stale) (m : Mem) (offset : Nat) : Nat × Mem :=
  let ack := hasFlag (tcpFlags m offset) ACK
  let fin := hasFlag (tcpFlags m offset) FIN
  let syn := hasFlag (tcpFlags m offset) SYN
  let hlen := tcpHlen m offset
  let ipHlen := ihlBytes m
  let totLen := (ntohs (ipLen m)).setWidth 32
  let segLen : U32 := totLen - .ofNat 32 ipHlen - .ofNat 32 hlen
  let seqNo := if ack then (htons ((tcpAckNum m offset).setWidth 16)).setWidth 32 else stale.seqNo
  let ackNo := if ack then stale.ackNo
    else ntohl (tcpSeqNum m offset) + (segLen + .ofNat 32 (fin.toNat + syn.toNat))
  let plFlags := if ack then RST else stale.plFlags
  let m := ipSwapDst m
  let m := tcpSwapPort m offset
  let m := setIpLen m (htons (.ofNat 16 (ipHlen + hlen)))
  let m := setTcpSeqNum m offset (htonl seqNo)
  let m := setTcpAckNum m offset (htonl ackNo)
  let m := setTcpDataOffset m offset (dataOffsetByte hlen)
  let m := setTcpFlags m offset plFlags
  let m := setTcpWindow m offset 0
  let m := setTcpUrgentPtr m offset 0
  (ipHlen + hlen,m)

/-- The reset builder deletes the connection as its last statement. -/
def tcpRst (stale : Stale) (ht : HashTable) (tcb : TCB) (m : Mem) (offset : Nat) :
    Nat × Mem × HashTable :=
  let (n,m) := rstReply stale m offset
  (n,m,hashDelete ht tcb)

/-- The tests of tcp_parse_edge once it holds a TCB, in source order. -/
def edgeOf (flags : Flags) (dstPort : U16) (state : ConState) : Edge :=
  if dstPort ≠ TCP_LISTEN_PORT then .sendRst
  else if flags.rst then .rst
  else match state with
    | .closed => if flags.rst then .drop else if flags.syn && !flags.ack then .syn else .sendRst
    | .synReceived => if flags.ack && !flags.syn then .ack else .sendRst
    | .established => if flags.rst then .rst else if flags.syn then .sendRst else .data
    | _ => .drop

/-- Find the connection or insert a closed block for it, then classify. The
TCB is handed back unless the segment is dropped. -/
def tcpParseEdge (a : Allocs) (ht : HashTable) (flags : Flags) (id : ID) :
    Edge × Option TCB × HashTable :=
  let out (con : TCB) (ht : HashTable) : Edge × Option TCB × HashTable :=
    let edge := edgeOf flags id.dstPort con.state
    (edge,if edge = .drop then none else some con,ht)
  match hashFind ht id with
  | some con => out con ht
  | none =>
    if !a.tcb then (.drop,none,ht)
    else match hashInsert a ht (tcbInit id) with
      | (false,ht) => (.drop,none,ht)
      | (true,ht) => out (tcbInit id) ht

/-- The state update on the TCB that tcp_parse_edge returned, with the table
the pointer writes through to. -/
def tcbStateUpdate (iss : U32) (m : Mem) (offset : Nat) (ht : HashTable) (tcb : TCB) (edge : Edge) :
    Bool × TCB × HashTable :=
  match edge with
  | .syn =>
    let irs := ntohl (tcpSeqNum m offset)
    let recv := { tcb.recv with irs := irs, next := irs + 1 }
    let send := { tcb.send with window := (ntohs (tcpWindow m offset)).setWidth 32 }
    let send := if tcb.state = .closed then { send with iss := iss, next := iss + 1, unac := iss } else send
    let tcb := { tcb with recv := recv, send := send, state := .synReceived }
    (true,tcb,tcbStore ht tcb)
  | .ack =>
    let ackNo := ntohl (tcpAckNum m offset)
    if ackNo = tcb.send.next then
      let tcb := { tcb with state := .established, send := { tcb.send with unac := ackNo } }
      (true,tcb,tcbStore ht tcb)
    else (false,tcb,ht)
  | .rst =>
    let seqNo := ntohl (tcpSeqNum m offset)
    if seqGeq seqNo tcb.recv.next && seqLt seqNo (tcb.recv.next + tcb.recv.window) then
      (true,tcb,hashDelete ht tcb)
    else (false,tcb,ht)
  | _ => (true,tcb,ht)

/-- The returned length with the buffer and the table left behind. -/
structure Reply where
  ret : Nat
  buf : Mem
  table : HashTable

/-- A reply with the edge the final switch of tcp_dispatch took; a checksum
mismatch counts as a drop. -/
structure Outcome extends Reply where
  edge : Edge

def segId (m : Mem) (offset : Nat) : ID :=
  ⟨ntohs (tcpSrcPort m offset),ntohs (tcpDstPort m offset),ntohl (ipSrc m),ntohl (ipDst m)⟩

def segFlags (m : Mem) (offset : Nat) : Flags :=
  let flags := tcpFlags m offset
  ⟨hasFlag flags FIN,hasFlag flags SYN,hasFlag flags RST,hasFlag flags PSH,hasFlag flags ACK⟩

/-- The switch at the end of tcp_dispatch, on the result of the state update. -/
def tcpSwitch (stale : Stale) (m : Mem) (len offset : Nat) (edge : Edge) :
    Bool × TCB × HashTable → Outcome
  | (ok,tcb,ht) =>
    let edge := if ok then edge else .drop
    match edge with
    | .syn =>
      let (n,m) := tcpSynAck tcb m len offset
      ⟨⟨n,m,ht⟩,edge⟩
    | .sendRst =>
      let (n,m,ht) := tcpRst stale ht tcb m offset
      ⟨⟨n,m,ht⟩,edge⟩
    | _ => ⟨⟨0,m,ht⟩,edge⟩

def tcpDispatch (env : Env) (ht : HashTable) (m : Mem) (len offset : Nat) : Outcome :=
  if tcpChecksumField m offset ≠ tcpChecksum m len offset then ⟨⟨0,m,ht⟩,.drop⟩
  else match tcpParseEdge env.allocs ht (segFlags m offset) (segId m offset) with
    -- A null TCB comes with EVT_DROP only, on which tcb_state_update is true.
    | (_,none,ht) => ⟨⟨0,m,ht⟩,.drop⟩
    | (edge,some tcb,ht) =>
      tcpSwitch env.stale m len offset edge (tcbStateUpdate env.iss m offset ht tcb edge)

def netDemux (env : Env) (ht : HashTable) (m : Mem) (len : Nat) : Reply :=
  if !ipValidate m len then ⟨0,m,ht⟩
  else
    let proto := ipProto m
    let ihl := ihlBytes m
    if proto = PROTO_ICMP then
      let (n,m) := icmpDispatch m len ihl
      ⟨n,m,ht⟩
    else if proto = PROTO_TCP then (tcpDispatch env ht m len ihl).toReply
    else
      let (n,m) := icmpDestUnreachable m len ihl
      ⟨n,m,ht⟩

end LazyTcp.Refactor
