import LazyTcp.Legacy.Session
import LazyTcp.Refactor.Demux
import LazyTcp.Refactor.SynAck

/-! The interactive client against the rewrite, whose tests bring it along with
the methods it has for the first stack. The link loses nothing and keeps the
client's segments in order, and the user waits until they have all arrived.
Packets of other connections come between any two of them. -/
namespace LazyTcp.Rewrite
open General General.Wire

/-- A connection of the client as the rewrite keys it, in host order. -/
def serverId (id : Legacy.ConnectionID) : Refactor.ID := ⟨ntohs id.srcPort,ntohs id.dstPort,ntohl id.srcIp,ntohl id.dstIp⟩

/-- A packet that holds a segment of the client: no options, and both checksums
as scapy fills them in. -/
structure HoldsSegment (id : Refactor.ID) (g : Legacy.ClientSegment) (m : Mem) (len : Nat) : Prop where
  header : Refactor.ipValidate m len = true
  ihl : ihlBytes m = 20
  proto : ipProto m = Refactor.PROTO_TCP
  checksum : Refactor.checksumOk m len 20 = true
  id : Refactor.segId m 20 = id
  hlen : tcpHlen m 20 = 20
  flags : tcpFlags m 20 = g.flags
  seq : ntohl (tcpSeqNum m 20) = g.seq
  ack : ntohl (tcpAckNum m 20) = g.ack
  len : len = 40 + g.data.length
  data : ∀ k, k < g.data.length → m (40 + k) = g.data.getD k 0

instance (id : Refactor.ID) (g : Legacy.ClientSegment) (m : Mem) (len : Nat) : Decidable (HoldsSegment id g m len) :=
  decidable_of_iff (Refactor.ipValidate m len = true ∧ ihlBytes m = 20 ∧ ipProto m = Refactor.PROTO_TCP ∧
      Refactor.checksumOk m len 20 = true ∧ Refactor.segId m 20 = id ∧ tcpHlen m 20 = 20 ∧ tcpFlags m 20 = g.flags ∧
      ntohl (tcpSeqNum m 20) = g.seq ∧ ntohl (tcpAckNum m 20) = g.ack ∧ len = 40 + g.data.length ∧
      ∀ k, k < g.data.length → m (40 + k) = g.data.getD k 0)
    ⟨fun ⟨a,b,c,d,e,f,g,h,i,j,k⟩ => ⟨a,b,c,d,e,f,g,h,i,j,k⟩,fun ⟨a,b,c,d,e,f,g,h,i,j,k⟩ => ⟨a,b,c,d,e,f,g,h,i,j,k⟩⟩

/-- The client with its segments under way, and the table of the server with the
answer under way. What sr1 gave to each send_data is kept beside them. -/
structure Session where
  client : Legacy.TCPClient
  place : Legacy.ClientPlace
  wire : List Legacy.ClientSegment
  table : Refactor.HashTable
  reply : Option Legacy.Datagram
  returned : List (List U8 × Option (List U8))

def Session.start (id : Legacy.ConnectionID) : Session := ⟨.init id,.menu,[],.empty,none,[]⟩

/-- The program runs to its next stop. An sr1 takes no answer from before its call. -/
def Session.go (s : Session) (t : Legacy.ClientTurn) : Session :=
  { s with client := t.client, place := t.place, wire := s.wire ++ t.sent, reply := none }

inductive Happening where
  | choice (c : Legacy.Choice)
  | respond
  | arrive (env : Refactor.Env) (buf : Mem) (len : Nat)
  | other (env : Refactor.Env) (buf : Mem) (len : Nat)

/-- What server_run writes after net_demux. -/
def written (r : Refactor.Reply) : Option Legacy.Datagram := if r.ret = 0 then none else some ⟨r.buf,r.ret⟩

/-- The client's segments are read oldest first, and sr1 returns the first answer. -/
def sessionStep (s : Session) : Happening → Session
  | .choice c => if s.place = .menu then s.go (s.client.menu c) else s
  | .respond =>
    let r := s.reply.map Legacy.scapyResponse
    { s.go (s.client.resume s.place r) with returned := s.returned ++ Legacy.outcome s.place r }
  | .arrive env buf len =>
    match s.wire with
    | [] => s
    | _ :: wire =>
      let r := Refactor.netDemux env s.table buf len
      { s with wire := wire, table := r.table, reply := s.reply.or (written r) }
  | .other env buf len => { s with table := (Refactor.netDemux env s.table buf len).table }

/-- The user chooses when nothing is under way, the link delivers what was sent,
sr1 gives up only when no answer can come, and nobody else speaks for the client. -/
def Feasible (s : Session) : Happening → Prop
  | .choice _ => s.wire = []
  | .respond => s.reply = none → s.wire = []
  | .arrive _ buf len => ∀ g ∈ s.wire.head?, HoldsSegment (serverId s.client.id) g buf len
  | .other _ buf len => Refactor.ipValidate buf len = true → ipProto buf = Refactor.PROTO_TCP →
      Refactor.segId buf (ihlBytes buf) ≠ serverId s.client.id

instance (s : Session) : (i : Happening) → Decidable (Feasible s i)
  | .choice _ => inferInstanceAs (Decidable (s.wire = []))
  | .respond => inferInstanceAs (Decidable (s.reply = none → s.wire = []))
  | .arrive _ buf len =>
    inferInstanceAs (Decidable (∀ g ∈ s.wire.head?, HoldsSegment (serverId s.client.id) g buf len))
  | .other _ buf len => inferInstanceAs (Decidable (Refactor.ipValidate buf len = true →
      ipProto buf = Refactor.PROTO_TCP → Refactor.segId buf (ihlBytes buf) ≠ serverId s.client.id))

section Answers
variable {m : Mem} (len n : Nat)

/-- The SYN-ACK as the client reads it. -/
theorem tcpSynAck_response (con : Refactor.TCB) (hihl : ihlBytes m = 20) (hhlen : tcpHlen m 20 = 20) :
    Legacy.scapyResponse ⟨(Refactor.tcpSynAck con m len 20).2,n⟩ = ⟨0x12,con.send.iss,con.recv.next,[]⟩ := by
  have hihl' : ihlBytes (Refactor.tcpSynAck con m len 20).2 = 20 := by
    refine (ihlBytes_congr ?_).trans hihl
    simp only [Refactor.tcpSynAck, Refactor.ipChecksum, setTcpChecksum, setIpChecksum, setIpLen, setTcpUrgentPtr,
      setTcpWindow, setTcpFlags, setTcpDataOffset, setTcpAckNum, setTcpSeqNum, Refactor.tcpSwapPort, setTcpSrcPort,
      setTcpDstPort, Refactor.ipSwapDst, setIpSrc, setIpDst]
    simp (disch := omega) only [Mem.store16_other, Mem.store8_other, Mem.store32_other]
  have hswapped : tcpHlen (Refactor.tcpSwapPort (Refactor.ipSwapDst m) 20) 20 = 20 := by
    refine (tcpHlen_congr ?_).trans hhlen
    simp (disch := omega) only [Refactor.ipSwapDst, Refactor.tcpSwapPort, setIpSrc, setIpDst, setTcpSrcPort,
      setTcpDstPort, Mem.store16_other, Mem.store32_other]
  have hoff : tcpDataOffset (Refactor.tcpSynAck con m len 20).2 20 = dataOffsetByte 20 := by
    simp only [Refactor.tcpSynAck, Refactor.ipChecksum, tcpDataOffset, setTcpChecksum, setIpChecksum, setIpLen,
      setTcpUrgentPtr, setTcpWindow, setTcpFlags, setTcpDataOffset, hswapped]
    simp (disch := omega) only [Mem.store16_other, Mem.store8_other, Mem.store8_same]
  have hhlen' : tcpHlen (Refactor.tcpSynAck con m len 20).2 20 = 20 := by
    rw [tcpHlen, hoff]
    decide
  have hload : Legacy.payload (Refactor.tcpSynAck con m len 20).2 20 = [] := by
    rw [Legacy.payload, Legacy.dataLen, Refactor.tcpSynAck_totalLen con m len hihl le_rfl, hihl', hhlen', hhlen]
    rfl
  have hsyn : (SYN ||| ACK : U8).toNat = 0x12 := by decide
  have hbyte : (dataOffsetByte 20).toNat % 2 = 0 := by decide
  simp only [Legacy.scapyResponse, hihl']
  rw [hoff, Refactor.tcpSynAck_flags con m len le_rfl, Refactor.tcpSynAck_seq con m len le_rfl,
    Refactor.tcpSynAck_ack con m len le_rfl, hload, hsyn, hbyte]

/-- A reset brings no data. -/
theorem rstReply_load (stale : Refactor.Stale) (hihl : ihlBytes m = 20) (hhlen : tcpHlen m 20 = 20) :
    (Legacy.scapyResponse ⟨(Refactor.rstReply stale m 20).2,n⟩).load = [] := by
  have hihl' : ihlBytes (Refactor.rstReply stale m 20).2 = 20 := by
    refine (ihlBytes_congr ?_).trans hihl
    simp only [Refactor.rstReply, setIpLen, setTcpUrgentPtr, setTcpWindow, setTcpFlags, setTcpDataOffset, setTcpAckNum,
      setTcpSeqNum, Refactor.tcpSwapPort, setTcpSrcPort, setTcpDstPort, Refactor.ipSwapDst, setIpSrc, setIpDst]
    simp (disch := omega) only [Mem.store16_other, Mem.store8_other, Mem.store32_other]
  have hoff : tcpDataOffset (Refactor.rstReply stale m 20).2 20 = dataOffsetByte 20 := by
    simp only [Refactor.rstReply, tcpDataOffset, setTcpUrgentPtr, setTcpWindow, setTcpFlags, setTcpDataOffset, hhlen]
    simp (disch := omega) only [Mem.store16_other, Mem.store8_other, Mem.store8_same]
  have hlen : ipLen (Refactor.rstReply stale m 20).2 = htons (.ofNat 16 40) := by
    simp only [Refactor.rstReply, ipLen, setIpLen, setTcpUrgentPtr, setTcpWindow, setTcpFlags, setTcpDataOffset,
      setTcpAckNum, setTcpSeqNum, hihl, hhlen]
    simp (disch := omega) only [Mem.load16_store16_other, Mem.load16_store8_other, Mem.load16_store32_other,
      Mem.load16_store16]
  have hhlen' : tcpHlen (Refactor.rstReply stale m 20).2 20 = 20 := by
    rw [tcpHlen, hoff]
    decide
  simp only [Legacy.scapyResponse, hihl', Legacy.payload, Legacy.dataLen, hlen, hhlen', ntohs_ntohs]
  rfl

end Answers

/-- What the rewrite makes of a segment with a good checksum, by the block it has
for it: without memory for a block nothing, else a transition of a block. -/
inductive Handled (iss : U32) (g : Refactor.Segment) :
    Option Refactor.TCB → Refactor.Edge × Option Refactor.TCB → Prop where
  | starved : Handled iss g none (.drop,none)
  | fresh {r : Refactor.Edge × Option Refactor.TCB} : Refactor.Transition iss g (Refactor.tcbInit g.id) r →
      Handled iss g none r
  | stored (con : Refactor.TCB) {r : Refactor.Edge × Option Refactor.TCB} : Refactor.Transition iss g con r →
      Handled iss g (some con) r

/-- The answer as the client reads it. -/
inductive Read : Refactor.Edge × Option Refactor.TCB → Option Legacy.Datagram → Prop where
  | synAck (con : Refactor.TCB) (d : Legacy.Datagram) :
      Legacy.scapyResponse d = ⟨0x12,con.send.iss,con.recv.next,[]⟩ → Read (.syn,some con) (some d)
  | reset (d : Legacy.Datagram) : (Legacy.scapyResponse d).load = [] → Read (.sendRst,none) (some d)
  | silent {r : Refactor.Edge × Option Refactor.TCB} : r.1 ≠ .syn → r.1 ≠ .sendRst → Read r none

section Arrivals
variable {ht : Refactor.HashTable} (env : Refactor.Env) {buf : Mem} {len : Nat} {id : Refactor.ID}

/-- net_demux keeps the invariant of the table, and the block of a connection the
packet does not speak for. -/
theorem netDemux_other (h : Refactor.TableInv ht)
    (hne : Refactor.ipValidate buf len = true → ipProto buf = Refactor.PROTO_TCP →
      Refactor.segId buf (ihlBytes buf) ≠ id) :
    Refactor.TableInv (Refactor.netDemux env ht buf len).table ∧
      Refactor.hashFind (Refactor.netDemux env ht buf len).table id = Refactor.hashFind ht id := by
  cases hv : Refactor.ipValidate buf len with
  | false =>
    rw [Refactor.netDemux_invalid env ht hv]
    exact ⟨h,rfl⟩
  | true =>
    by_cases htcp : ipProto buf = Refactor.PROTO_TCP
    · rw [Refactor.netDemux_tcp env ht hv htcp]
      exact ⟨Refactor.tcpStep_inv h ⟨.demuxed buf len hv,env⟩,
        ((Refactor.Packet.demuxed buf len hv).refines h.wf env).other (Ne.symm (hne hv htcp))⟩
    · by_cases hicmp : ipProto buf = Refactor.PROTO_ICMP
      · rw [Refactor.netDemux_icmp env ht hv hicmp]
        exact ⟨h,rfl⟩
      · rw [Refactor.netDemux_other env ht hv hicmp htcp]
        exact ⟨h,rfl⟩

private theorem replyOf_read (len : Nat) {iss : U32} {b : Option Refactor.TCB} {r : Refactor.Edge × Option Refactor.TCB}
    (hr : Handled iss (Refactor.segment buf 20) b r) (hihl : ihlBytes buf = 20) (hhlen : tcpHlen buf 20 = 20)
    {o : Refactor.Reply} (ho : (o.ret,o.buf) = Refactor.replyOf env.stale r buf len 20) : Read r (written o) := by
  have hret := congrArg Prod.fst ho
  have hbuf := congrArg Prod.snd ho
  simp only at hret hbuf
  have hstep : (∃ con, r = (.syn,some con)) ∨ r = (.sendRst,none) ∨ r.1 ≠ .syn ∧ r.1 ≠ .sendRst := by
    cases hr with
    | starved => exact Or.inr (Or.inr ⟨nofun,nofun⟩)
    | fresh ht | stored _ ht =>
      cases ht with
      | opening => exact Or.inl ⟨_,rfl⟩
      | refuse | unknown | abort | synOnOpen => exact Or.inr (Or.inl rfl)
      | reset | ignoreReset | establish | badAck | payload | unused => exact Or.inr (Or.inr ⟨nofun,nofun⟩)
  rcases hstep with ⟨con,rfl⟩ | rfl | ⟨h1,h2⟩
  · have hlen : o.ret = 40 := by
      rw [hret, Refactor.replyOf, Refactor.tcpSynAck_len con buf len le_rfl, hihl, hhlen]
    rw [written, hlen, if_neg (by decide), hbuf]
    exact .synAck con _ (tcpSynAck_response len 40 con hihl hhlen)
  · have hlen : o.ret = 40 := by
      rw [hret, Refactor.replyOf, Refactor.rstReply_len, hihl, hhlen]
    rw [written, hlen, if_neg (by decide), hbuf]
    exact .reset _ (rstReply_load 40 env.stale hihl hhlen)
  · rw [Refactor.replyOf_silent h1 h2] at hret
    rw [written, if_pos hret]
    exact .silent h1 h2

/-- A segment of the client is handled on its own block. -/
theorem netDemux_segment {g : Legacy.ClientSegment} (h : Refactor.TableInv ht) (hb : HoldsSegment id g buf len) :
    ∃ r, Handled env.iss (Refactor.segment buf 20) (Refactor.hashFind ht id) r ∧
      Refactor.TableInv (Refactor.netDemux env ht buf len).table ∧
      Refactor.hashFind (Refactor.netDemux env ht buf len).table id = r.2 ∧
      Read r (written (Refactor.netDemux env ht buf len)) := by
  have hpkt : (Refactor.Packet.demuxed buf len hb.header).seg = Refactor.segment buf 20 :=
    congrArg (Refactor.segment buf) hb.ihl
  have hid : (Refactor.Packet.demuxed buf len hb.header).seg.id = id := by
    rw [hpkt]
    exact hb.id
  have hvalid : (Refactor.Packet.demuxed buf len hb.header).valid = true :=
    (congrArg (Refactor.checksumOk buf len) hb.ihl).trans hb.checksum
  have href := (Refactor.Packet.demuxed buf len hb.header).refines h.wf env
  rw [hvalid, hid, hpkt] at href
  have hhandled : Handled env.iss (Refactor.segment buf 20) (Refactor.hashFind ht id)
      (Refactor.dispatchCon true (Refactor.freshBlock env.allocs ht id) env.iss (Refactor.segment buf 20)
        (Refactor.hashFind ht id)) := by
    cases Refactor.hashFind ht id with
    | some con => exact .stored con (Refactor.conStep_transition ..)
    | none =>
      rw [Refactor.dispatchCon_absent]
      split
      · exact .fresh (Refactor.conStep_transition ..)
      · exact .starved
  have hreply := href.reply
  rw [Refactor.netDemux_tcp env ht hb.header hb.proto]
  refine ⟨_,hhandled,Refactor.tcpStep_inv h ⟨.demuxed buf len hb.header,env⟩,href.own,?_⟩
  refine replyOf_read env len hhandled hb.ihl hb.hlen ?_
  rw [hreply]
  simp only [Refactor.Packet.demuxed, hb.ihl]

end Arrivals

end LazyTcp.Rewrite
