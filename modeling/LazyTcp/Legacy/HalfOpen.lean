import LazyTcp.General.Run
import LazyTcp.Legacy.Machine
import LazyTcp.Legacy.Replies

/-! Half-open connections of the first stack against the log of what was written
to the device. The block is updated in one function and the reply is written by
its caller, on a return code. -/
namespace LazyTcp.Legacy
open General General.Wire

/-- A complete SYN-ACK to the peer of a connection. -/
def isSynAck (x : ConnectionID) (w : Datagram) : Bool :=
  let o := ihlBytes w.buf
  decide (ipProto w.buf = IP_TCP_PROTO ∧ o + 20 ≤ w.len ∧ ipSrc w.buf = x.dstIp ∧ ipDst w.buf = x.srcIp ∧
    tcpSrcPort w.buf o = x.dstPort ∧ tcpDstPort w.buf o = x.srcPort ∧ tcpFlags w.buf o = SYN ||| ACK)

def synAckSeq (w : Datagram) : U32 := ntohl (tcpSeqNum w.buf (ihlBytes w.buf))

/-- Sequence number of the last SYN-ACK that was written for a connection. -/
def lastSynAck (log : List Datagram) (x : ConnectionID) : Option U32 :=
  (log.reverse.find? (isSynAck x)).map synAckSeq

theorem lastSynAck_snoc (log : List Datagram) (w : Datagram) (x : ConnectionID) :
    lastSynAck (log ++ [w]) x = if isSynAck x w then some (synAckSeq w) else lastSynAck log x := by
  cases h : isSynAck x w <;> simp [lastSynAck, h]

/-- The server process, none once it has died, and everything it wrote. -/
structure Host where
  server : Option Server
  log : List Datagram

structure Input where
  buf : Mem
  env : Env

def Host.start : Host := ⟨some tcpInitServerInstance,[]⟩

/-- One round of the read loop; main exits on a non-zero return. -/
def hostStep (h : Host) (i : Input) : Host :=
  match h.server with
  | none => h
  | some s =>
    match parsePacket i.env s i.buf with
    | none => { h with server := none }
    | some p => ⟨if p.ret = 0 then some p.server else none,h.log ++ p.written.toList⟩

/-- A SYN without ACK and RST. -/
structure IsSyn (m : Mem) (o : Nat) : Prop where
  syn : synFlag m o = true
  noAck : ackFlag m o = false
  noRst : rstFlag m o = false

/-- A SYN of a listed connection does not find it half-open, and one that opens
a connection has a data offset of at least five words. -/
def Prompt (h : Host) (i : Input) : Prop :=
  ∀ s, h.server = some s → packetDeserialize i.buf = .ipv4Tcp → IsSyn i.buf (ihlBytes i.buf) →
    match tcpGetState s (segId i.buf (ihlBytes i.buf)) with
    | none => 20 ≤ tcpHlen i.buf (ihlBytes i.buf)
    | some con => con.state ≠ .synReceived

/-- The half-open blocks are what their peers were told. -/
structure Told (s : Server) (log : List Datagram) : Prop where
  unique : s.Unique
  told : ∀ id con, tcpGetState s id = some con → con.state = .synReceived →
    lastSynAck log id = some con.send.iss ∧ con.send.next = con.send.iss + 1

section Written
variable {m : Mem}

/-- A datagram that answers the packet with a SYN-ACK is one for the packet's
connection only. -/
private theorem isSynAck_answer {b : Mem} {n o : Nat} (hihl : ihlBytes b = o) (hp : ipProto b = IP_TCP_PROTO)
    (hn : o + 20 ≤ n) (ha : ipSrc b = ipDst m ∧ ipDst b = ipSrc m)
    (hq : tcpSrcPort b o = tcpDstPort m o ∧ tcpDstPort b o = tcpSrcPort m o) (hf : tcpFlags b o = SYN ||| ACK)
    (x : ConnectionID) : isSynAck x ⟨b,n⟩ = decide (x = segId m o) := by
  subst hihl
  apply decide_eq_decide.mpr
  rw [ha.1, ha.2, hq.1, hq.2]
  constructor
  · rintro ⟨-,-,h1,h2,h3,h4,-⟩
    rw [segId, h1, h2, h3, h4]
  · intro hx
    rw [hx]
    exact ⟨hp,hn,rfl,rfl,rfl,rfl,hf⟩

private theorem synAck_written (ticks : U32) (tcb : TCB) (ho : 20 ≤ ihlBytes m) (hp : ipProto m = IP_TCP_PROTO)
    (hl : 20 ≤ tcpHlen m (ihlBytes m)) {b : Mem} (hb : b = (tcpNullSynAck ticks m (ihlBytes m) tcb).2)
    (x : ConnectionID) : isSynAck x ⟨b,(ntohs (ipLen b)).toNat⟩ = decide (x = segId m (ihlBytes m)) ∧
      synAckSeq ⟨b,(ntohs (ipLen b)).toNat⟩ = ticks := by
  have hhead : ∀ j, j = 0 ∨ j = 9 → b j = m j := fun j hj => by rw [hb]; exact tcpNullSynAck_head ticks m tcb ho hj
  have hihl : ihlBytes b = ihlBytes m := ihlBytes_congr (hhead 0 (Or.inl rfl))
  have hproto : ipProto b = IP_TCP_PROTO := (hhead 9 (Or.inr rfl)).trans hp
  have hlen : (ntohs (ipLen b)).toNat = ihlBytes m + tcpHlen m (ihlBytes m) := by
    rw [hb, tcpNullSynAck_len ticks m tcb ho]
  have haddr : ipSrc b = ipDst m ∧ ipDst b = ipSrc m := by
    rw [hb]
    exact tcpNullSynAck_addresses ticks m tcb ho
  have hports : tcpSrcPort b (ihlBytes m) = tcpDstPort m (ihlBytes m) ∧
      tcpDstPort b (ihlBytes m) = tcpSrcPort m (ihlBytes m) := by
    rw [hb]
    exact tcpNullSynAck_ports ticks m tcb ho
  have hflags : tcpFlags b (ihlBytes m) = SYN ||| ACK := by
    rw [hb]
    exact tcpNullSynAck_flags ticks m tcb ho
  refine ⟨isSynAck_answer hihl hproto (by omega) haddr hports hflags x,?_⟩
  rw [synAckSeq, hihl, hb, tcpNullSynAck_seq ticks m tcb ho]

private theorem not_synAck_of_flags {w : Datagram} (h : tcpFlags w.buf (ihlBytes w.buf) ≠ SYN ||| ACK)
    (x : ConnectionID) : isSynAck x w = false :=
  decide_eq_false fun hs => h hs.2.2.2.2.2.2

private theorem not_synAck_of_proto {w : Datagram} (h : ipProto w.buf ≠ IP_TCP_PROTO) (x : ConnectionID) :
    isSynAck x w = false :=
  decide_eq_false fun hs => h hs.1

private theorem rst_written (ho : 20 ≤ ihlBytes m) (n : Nat) (x : ConnectionID) :
    isSynAck x ⟨tcpNullRst m (ihlBytes m),n⟩ = false := by
  apply not_synAck_of_flags
  rw [ihlBytes_congr (tcpNullRst_head m ho (Or.inl rfl))]
  exact tcpNullRst_flags m ho

/-- Neither a bare acknowledgement nor one with a response is taken for a SYN-ACK,
also when the response overwrites the header. -/
private theorem ack_written (tcb : TCB) (body : List U8) (ho : 20 ≤ ihlBytes m)
    (hb : ∀ k, k < 14 → k < body.length → 0x20 ≤ (body.getD k 0).toNat) (n : Nat) (x : ConnectionID) :
    isSynAck x ⟨(tcpSendAck m (ihlBytes m) tcb body).2,n⟩ = false := by
  apply not_synAck_of_flags
  rw [ihlBytes_congr (tcpSendAck_head m tcb body ho (Or.inl rfl))]
  rcases tcpSendAck_flags m tcb body ho with e | e | ⟨k,hk,hlen,e⟩
  · rw [e]
    decide
  · rw [e]
    decide
  · rw [e]
    intro heq
    have := hb k hk hlen
    rw [heq] at this
    exact absurd this (by decide)

end Written

/-- What parse_packet writes after a dispatch. -/
def writtenAfter (out : Outcome) : List Datagram :=
  if out.code = .ok then [⟨out.buf,(ntohs (ipLen out.buf)).toNat⟩] else []

section Step
variable {env : Env} {s : Server} {log : List Datagram} {m : Mem} {out : Outcome}

private theorem lastSynAck_quiet {ws : List Datagram} (hq : ∀ w ∈ ws, ∀ x, isSynAck x w = false) (x : ConnectionID) :
    lastSynAck (log ++ ws) x = lastSynAck log x := by
  induction ws using List.reverseRecOn with
  | nil => rw [List.append_nil]
  | append_singleton ws w ih =>
    rw [← List.append_assoc, lastSynAck_snoc, hq w (by simp) x, if_neg (by decide)]
    exact ih fun w hw => hq w (by simp [hw])

/-- A transition that writes no SYN-ACK and makes nothing half-open. -/
private theorem Told.keep (h : Told s log) {r : Result} {x : ConnectionID} (href : Refines out s r x)
    {ws : List Datagram} (hq : ∀ w ∈ ws, ∀ x, isSynAck x w = false)
    (hcon : ∀ c, r.con = some c → c.state = .synReceived → tcpGetState s x = some c) :
    Told out.server (log ++ ws) := by
  refine ⟨href.unique,fun id con hf hst => ?_⟩
  rw [lastSynAck_quiet hq]
  rw [href.find] at hf
  split at hf
  case isTrue e =>
    rw [e]
    exact h.told x con (hcon con hf hst) hst
  case isFalse => exact h.told id con hf hst

/-- The SYN that opens a connection writes the SYN-ACK its block was filled from. -/
private theorem Told.opening (h : Told s log) (ho : 20 ≤ ihlBytes m) (hp : ipProto m = IP_TCP_PROTO)
    (hl : 20 ≤ tcpHlen m (ihlBytes m))
    (href : Refines out s ⟨.ok,some (synNumbers env.ticks m (ihlBytes m) (newTcb (segId m (ihlBytes m)))),
      (tcpNullSynAck env.ticks m (ihlBytes m) (newTcb (segId m (ihlBytes m)))).2,none⟩ (segId m (ihlBytes m))) :
    Told out.server (log ++ writtenAfter out) := by
  have hw := synAck_written env.ticks (newTcb (segId m (ihlBytes m))) ho hp hl href.buf
  rw [writtenAfter, if_pos href.code]
  refine ⟨href.unique,fun id con hf hst => ?_⟩
  rw [lastSynAck_snoc, (hw id).1, (hw id).2]
  rw [href.find] at hf
  by_cases hid : id = segId m (ihlBytes m)
  · rw [if_pos hid] at hf
    rw [if_pos (decide_eq_true hid), ← Option.some.inj hf]
    exact ⟨rfl,rfl⟩
  · rw [if_neg hid] at hf
    rw [if_neg (by simpa using hid)]
    exact h.told id con hf hst

/-- Step lemma: every transition but a repeated SYN keeps log and blocks in step. -/
private theorem Told.dispatch (h : Told s log) (ho : 20 ≤ ihlBytes m) (hp : ipProto m = IP_TCP_PROTO)
    (hprompt : IsSyn m (ihlBytes m) → match tcpGetState s (segId m (ihlBytes m)) with
      | none => 20 ≤ tcpHlen m (ihlBytes m)
      | some con => con.state ≠ .synReceived)
    (hd : tcpDispatch env s m (ihlBytes m) = some out) :
    out.code ≠ .fatal ∧ Told out.server (log ++ writtenAfter out) := by
  obtain ⟨r,htr,href⟩ := tcpDispatch_transition h.unique hd
  generalize hf : tcpGetState s (segId m (ihlBytes m)) = c at htr hprompt
  have silent (hc : r.code = .silent) (hcon : ∀ c, r.con = some c → c.state = .synReceived →
      tcpGetState s (segId m (ihlBytes m)) = some c) :
      out.code ≠ .fatal ∧ Told out.server (log ++ writtenAfter out) := by
    have hcode := href.code.trans hc
    rw [writtenAfter, hcode]
    exact ⟨by decide,h.keep href (fun w hw => by cases hw) hcon⟩
  have replied (hc : r.code = .ok) (hq : ∀ n x, isSynAck x ⟨r.buf,n⟩ = false)
      (hcon : ∀ c, r.con = some c → c.state ≠ .synReceived) :
      out.code ≠ .fatal ∧ Told out.server (log ++ writtenAfter out) := by
    have hcode := href.code.trans hc
    rw [writtenAfter, hcode, if_pos rfl, href.buf]
    refine ⟨by decide,h.keep href (fun w hw x => ?_) fun c hc hst => absurd hst (hcon c hc)⟩
    rw [List.mem_singleton.mp hw]
    exact hq _ x
  cases htr with
  | strayReset | reset => exact silent rfl (fun c hc => by cases hc)
  | ignoreReset | badAck | unexpected | empty | closed => exact silent rfl (fun c hc _ => hc ▸ hf)
  | establish =>
    refine silent rfl (fun c hc hst => ?_)
    cases hc
    cases hst
  | repeated con hr hst hs ha => exact absurd hst (hprompt ⟨hs,ha,hr⟩)
  | opening hr hs ha =>
    refine ⟨by rw [href.code]; exact nofun,h.opening ho hp (hprompt ⟨hs,ha,hr⟩) href⟩
  | refuse => exact replied rfl (fun n x => rst_written ho n x) (fun c hc => by cases hc)
  | finish con =>
    refine replied rfl (fun n x => ack_written _ [] ho (fun k _ hk => absurd hk (Nat.not_lt_zero k)) n x) ?_
    intro c hc
    cases hc
    exact nofun
  | payload con hr hst =>
    refine replied rfl (fun n x => ack_written _ _ ho (fun k hk _ => ?_) n x) ?_
    · obtain ⟨b,hb,hle⟩ := httpHandleRequest_status env.file (payload m (ihlBytes m)) hk
      rw [List.getD_eq_getElem?_getD, hb]
      exact hle
    · intro c hc
      cases hc
      rw [tcpSendAck_state, advanced_state, hst]
      decide

end Step

private theorem parsePacket_tcp {env : Env} {s : Server} {m : Mem} {out : Outcome}
    (hk : packetDeserialize m = .ipv4Tcp) (hd : tcpDispatch env s m (ihlBytes m) = some out)
    (hc : out.code ≠ .fatal) :
    ∃ p, parsePacket env s m = some p ∧ p.ret = 0 ∧ p.server = out.server ∧ p.written.toList = writtenAfter out := by
  simp only [parsePacket, hk, hd, writtenAfter]
  cases hcode : out.code with
  | fatal => exact absurd hcode hc
  | silent | ok => exact ⟨_,rfl,rfl,rfl,rfl⟩

/-- One round of the loop keeps the half-open blocks and the log in step. -/
private theorem hostStep_told {h : Host} {i : Input} {s s' : Server} (hs : h.server = some s) (ht : Told s h.log)
    (hp : Prompt h i) (hs' : (hostStep h i).server = some s') : Told s' (hostStep h i).log := by
  unfold hostStep at hs' ⊢
  rw [hs] at hs' ⊢
  cases hk : packetDeserialize i.buf with
  | ipv6 | verUndf | protoUndf =>
    simp only [parsePacket, hk, if_true, Option.toList_none, List.append_nil, Option.some.injEq] at hs' ⊢
    exact hs' ▸ ht
  | ipv4Icmp =>
    obtain ⟨ho,hproto⟩ := packetDeserialize_icmp hk
    simp only [parsePacket, hk, if_true, Option.toList_some, Option.some.injEq] at hs' ⊢
    subst hs'
    refine ⟨ht.unique,fun id con hf hst => ?_⟩
    rw [lastSynAck_snoc, not_synAck_of_proto, if_neg (by decide)]
    · exact ht.told id con hf hst
    · rw [icmpDispatch_proto _ ho, hproto]
      decide
  | ipv4Tcp =>
    obtain ⟨ho,hproto⟩ := packetDeserialize_tcp hk
    cases hd : tcpDispatch i.env s i.buf (ihlBytes i.buf) with
    | none =>
      simp only [parsePacket, hk, hd] at hs'
      cases hs'
    | some out =>
      obtain ⟨hc,hnew⟩ := ht.dispatch ho hproto (hp s hs hk) hd
      obtain ⟨p,hparse,hret,hserver,hlog⟩ := parsePacket_tcp hk hd hc
      simp only [hparse, hret, if_true, hserver, hlog, Option.some.injEq] at hs' ⊢
      exact hs' ▸ hnew

/-- A process that has died stays dead, so a live one was alive before its last round. -/
private theorem live_before {h : Host} {i : Input} {s' : Server} (hs' : (hostStep h i).server = some s') :
    ∃ s, h.server = some s := by
  cases hs : h.server with
  | some s => exact ⟨s,rfl⟩
  | none =>
    rw [hostStep, hs] at hs'
    exact absurd (hs.symm.trans hs') nofun

private theorem run_told {inputs : List Input} (hp : Along hostStep Prompt .start inputs) :
    ∀ s, (run hostStep .start inputs).server = some s → Told s (run hostStep .start inputs).log := by
  refine Along.history (P := fun _ h => ∀ s, h.server = some s → Told s h.log) ?_ ?_ hp
  · intro s hs
    cases hs
    exact ⟨List.nodup_nil,fun _ _ hf => by cases hf⟩
  · intro pre i ih hprompt s' hs'
    obtain ⟨s,hs⟩ := live_before hs'
    exact hostStep_told hs (ih s hs) hprompt hs'

/-- A packet that acknowledges the number for a connection. -/
structure AckOf (x : ConnectionID) (num : U32) (m : Mem) : Prop where
  tcp : packetDeserialize m = .ipv4Tcp
  id : segId m (ihlBytes m) = x
  ack : ackFlag m (ihlBytes m) = true
  noSyn : synFlag m (ihlBytes m) = false
  noRst : rstFlag m (ihlBytes m) = false
  num : ntohl (tcpAckNum m (ihlBytes m)) = num

/-- The acknowledgement a half-open block waits for establishes it. -/
private theorem ack_establishes {h : Host} {s : Server} (hs : h.server = some s) (hu : s.Unique) {x : ConnectionID}
    {con : TCB} (hf : tcpGetState s x = some con) (hst : con.state = .synReceived) {i : Input}
    (ha : AckOf x con.send.next i.buf) :
    ∃ s' con', (hostStep h i).server = some s' ∧ tcpGetState s' x = some con' ∧ con'.state = .established := by
  rw [← ha.id] at hf
  obtain ⟨out,hd⟩ := tcpDispatch_stored_some i.env hf
  obtain ⟨r,htr,href⟩ := tcpDispatch_transition hu hd
  have hown := (href.find (segId i.buf (ihlBytes i.buf))).trans (if_pos rfl)
  rw [hf] at htr
  have hest : r.code = .silent ∧ r.con = some (acknowledged i.buf (ihlBytes i.buf) con) := by
    cases htr with
    | establish => exact ⟨rfl,rfl⟩
    | reset _ hr | ignoreReset _ hr => exact absurd (hr.symm.trans ha.noRst) (by decide)
    | repeated _ _ _ hsyn => exact absurd (hsyn.symm.trans ha.noSyn) (by decide)
    | badAck _ _ _ _ _ hne => exact absurd ha.num hne
    | unexpected _ _ _ he => exact absurd (ha.ack.symm.trans (he.symm.trans ha.noSyn)) (by decide)
    | finish _ _ hst' | empty _ _ hst' | payload _ _ hst' => exact absurd (hst.symm.trans hst') (by decide)
    | closed _ _ hne => exact absurd hst hne
  obtain ⟨p,hparse,hret,hserver,-⟩ := parsePacket_tcp ha.tcp hd (by rw [href.code, hest.1]; decide)
  refine ⟨out.server,_,?_,ha.id ▸ hown.trans hest.2,rfl⟩
  simp only [hostStep, hs, hparse, hret, if_true, hserver]

/-- Over every run in which no SYN meets a half-open connection and every
opening SYN has a complete header: a half-open block carries the number of the
last SYN-ACK written for it, and acknowledging that SYN-ACK establishes it. -/
theorem halfOpen_told (inputs : List Input) (hp : Along hostStep Prompt .start inputs) {s : Server}
    (hs : (run hostStep .start inputs).server = some s) {x : ConnectionID} {con : TCB}
    (hf : tcpGetState s x = some con) (hst : con.state = .synReceived) :
    lastSynAck (run hostStep .start inputs).log x = some con.send.iss ∧ con.send.next = con.send.iss + 1 ∧
      ∀ seq, lastSynAck (run hostStep .start inputs).log x = some seq → ∀ i, AckOf x (seq + 1) i.buf →
        ∃ s' con', (hostStep (run hostStep .start inputs) i).server = some s' ∧ tcpGetState s' x = some con' ∧
          con'.state = .established := by
  have htold := run_told hp s hs
  obtain ⟨hlast,hnext⟩ := htold.told x con hf hst
  refine ⟨hlast,hnext,fun seq hseq i ha => ?_⟩
  rw [hlast] at hseq
  rw [← Option.some.inj hseq, ← hnext] at ha
  exact ack_establishes hs htold.unique hf hst ha

/-- The client's SYN at sequence number 100, read when the clock gives ticks. -/
private def synAt (ticks : U32) : Input := ⟨craft clientId SYN 100 0 [],⟨ticks,true,.missing⟩⟩
private def ackOf (num : U32) : Input := ⟨craft clientId ACK 101 num [],⟨0,true,.missing⟩⟩

/-- The block a host lists for the client. -/
private def Host.client (h : Host) : Option TCB := h.server.bind (tcpGetState · clientId)

theorem halfOpen_told_client : lastSynAck (run hostStep .start [synAt 77]).log clientId = some 77 := by
  have hp : Along hostStep Prompt .start [synAt 77] := by
    refine ⟨fun s hs _ _ => ?_,trivial⟩
    cases hs
    exact (by decide +kernel : 20 ≤ tcpHlen (synAt 77).buf (ihlBytes (synAt 77).buf))
  have hclient : (run hostStep .start [synAt 77]).client =
      some ⟨clientId,.synReceived,⟨77,78,8192,77⟩,⟨101,8192,100⟩⟩ := by decide +kernel
  obtain ⟨s,hs,hf⟩ := Option.bind_eq_some_iff.mp hclient
  exact (halfOpen_told [synAt 77] hp hs hf rfl).1

/-- A second SYN gives the block a new number that is never written, so the
acknowledgement of the written one is refused. -/
theorem repeated_syn_untold :
    (run hostStep .start [synAt 77,synAt 500]).client =
      some ⟨clientId,.synReceived,⟨500,501,8192,500⟩,⟨101,8192,100⟩⟩ ∧
    lastSynAck (run hostStep .start [synAt 77,synAt 500]).log clientId = some 77 ∧
    (run hostStep .start [synAt 77,synAt 500,ackOf 78]).client =
      some ⟨clientId,.synReceived,⟨500,501,8192,500⟩,⟨101,8192,100⟩⟩ :=
  ⟨by decide +kernel,by decide +kernel,by decide +kernel⟩

end LazyTcp.Legacy
