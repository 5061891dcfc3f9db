import LazyTcp.General.Reassembly
import LazyTcp.General.Run
import LazyTcp.Legacy.Machine
import LazyTcp.Legacy.Replies

/-! The bytes the first stack sends on one connection. The sequence number of a
segment is written before send.next moves on by the length of its body. -/
namespace LazyTcp.Legacy
open General General.Wire General.Reassembly

/-- A packet that parse_packet hands to tcp_dispatch. -/
structure SegmentIn where
  buf : Mem
  env : Env
  isTcp : packetDeserialize buf = .ipv4Tcp

namespace SegmentIn

def offset (i : SegmentIn) : Nat := ihlBytes i.buf
def id (i : SegmentIn) : ConnectionID := segId i.buf i.offset

theorem header (i : SegmentIn) : 20 ≤ i.offset := (packetDeserialize_tcp i.isTcp).1

end SegmentIn

/-- A segment on the wire as its receiver reads it, and the HTTP response it
was to carry. A datagram that ends before the sequence number has none. -/
structure Sent where
  seq : Option U32
  body : List U8
  response : List U8
  deriving DecidableEq, Repr

/-- The server, none once it has died, and what it sent on a connection since
the connection was established. -/
structure Sender where
  server : Option Server
  sent : List Sent

def Sender.start : Sender := ⟨some tcpInitServerInstance,[]⟩

/-- The segment in the buffer of a dispatch that asks for a write. -/
def sentBy (i : SegmentIn) (out : Outcome) : Sent :=
  ⟨if i.offset + 8 ≤ (ntohs (ipLen out.buf)).toNat then some (ntohl (tcpSeqNum out.buf i.offset)) else none,
    payload out.buf i.offset,(out.request.map (httpHandleRequest i.env.file)).getD []⟩

/-- A half-open or unknown connection has not sent anything yet. -/
def sentOn (x : ConnectionID) (s : Server) (i : SegmentIn) (out : Outcome) (sent : List Sent) : List Sent :=
  match tcpGetState s x with
  | none => []
  | some con =>
    if con.state = .synReceived then []
    else if i.id = x ∧ out.code = .ok then sent ++ [sentBy i out]
    else sent

def sendStep (x : ConnectionID) (w : Sender) (i : SegmentIn) : Sender :=
  match w.server with
  | none => w
  | some s =>
    match tcpDispatch i.env s i.buf i.offset with
    | none => { w with server := none }
    | some out => ⟨some out.server,sentOn x s i out w.sent⟩

/-- The data offset of an answered segment of an established connection. A FIN
claims a header that reaches past the sequence number; a segment with payload a
whole header, and its response fits into an IP datagram behind the two headers. -/
def Answerable (x : ConnectionID) (w : Sender) (i : SegmentIn) : Prop :=
  ∀ s con, w.server = some s → tcpGetState s x = some con → con.state = .established → i.id = x →
    rstFlag i.buf i.offset = false →
      if finFlag i.buf i.offset = true then 8 ≤ tcpHlen i.buf i.offset
      else dataLen i.buf i.offset ≠ 0 → 20 ≤ tcpHlen i.buf i.offset ∧
        i.offset + tcpHlen i.buf i.offset + (httpHandleRequest i.env.file (payload i.buf i.offset)).length < 65536

def bodyBytes (sent : List Sent) : Nat := (sent.map fun g => g.body.length).sum

/-- The segments of a connection follow one another from iss + 1 on, and
send.next is behind the last one. -/
structure Contiguous (con : TCB) (sent : List Sent) : Prop where
  seq : ∀ before g later, sent = before ++ g :: later → g.seq = some (con.send.iss + 1 + .ofNat 32 (bodyBytes before))
  next : con.send.next = con.send.iss + 1 + .ofNat 32 (bodyBytes sent)
  body : ∀ g ∈ sent, g.body = g.response

/-- Where a receiver that knows the first sequence number puts a segment. -/
def placed (first : U32) (g : Sent) : Piece U8 := ((g.seq.getD 0 - first).toNat,g.body)

section Contiguous
variable {con con' : TCB} {sent : List Sent}

private theorem bodyBytes_snoc (sent : List Sent) (g : Sent) :
    bodyBytes (sent ++ [g]) = bodyBytes sent + g.body.length := by
  simp [bodyBytes]

private theorem Contiguous.init (h : con.send.next = con.send.iss + 1) : Contiguous con [] := by
  refine ⟨fun before g later he => ?_,?_,nofun⟩
  · cases before <;> cases he
  · rw [h]
    exact (BitVec.add_zero _).symm

/-- The block may change in other fields. -/
private theorem Contiguous.keep (h : Contiguous con sent) (hs : con'.send = con.send) : Contiguous con' sent :=
  ⟨by rw [hs]; exact h.seq,by rw [hs]; exact h.next,h.body⟩

/-- A segment at send.next, which then moves on by its body. -/
private theorem Contiguous.snoc (h : Contiguous con sent) {g : Sent} (hseq : g.seq = some con.send.next)
    (hbody : g.body = g.response) (hiss : con'.send.iss = con.send.iss)
    (hnext : con'.send.next = con.send.next + .ofNat 32 g.body.length) : Contiguous con' (sent ++ [g]) := by
  refine ⟨fun before g' later he => ?_,?_,fun g' hg => ?_⟩
  · rw [hiss]
    rcases List.eq_nil_or_concat later with rfl | ⟨later,last,rfl⟩
    · obtain ⟨rfl,hlast⟩ := List.append_inj' he rfl
      cases hlast
      rw [hseq, h.next]
    · rw [List.concat_eq_append, ← List.cons_append, ← List.append_assoc] at he
      obtain ⟨rfl,-⟩ := List.append_inj' he rfl
      exact h.seq before g' later rfl
  · rw [hiss, hnext, h.next, bodyBytes_snoc, BitVec.ofNat_add, BitVec.add_assoc _ (BitVec.ofNat 32 _)]
  · rcases List.mem_append.mp hg with hg | hg
    · exact h.body g' hg
    · rw [List.mem_singleton.mp hg, hbody]

/-- Below 2^32 bytes the sequence numbers are positions. -/
private theorem Contiguous.reassembles (h : Contiguous con sent) (hlt : bodyBytes sent < 2^32) {arrived : List Sent}
    (hperm : arrived.Perm sent) (i : Nat) : reassemble (arrived.map (placed (con.send.iss + 1))) i =
      (sent.flatMap Sent.response)[i]? := by
  have hstream (l : List Sent) : stream (l.map (placed (con.send.iss + 1))) = l.flatMap Sent.body := by
    rw [stream, List.map_map, ← List.flatMap_def]
    rfl
  have hbytes (l : List Sent) : (l.flatMap Sent.body).length = bodyBytes l := List.length_flatMap
  have hconsecutive : Consecutive 0 (sent.map (placed (con.send.iss + 1))) := by
    refine consecutive_of_positions fun before p later he => ?_
    obtain ⟨l,rest,rfl,rfl,hrest⟩ := List.map_eq_append_iff.mp he
    obtain ⟨g,l',rfl,rfl,-⟩ := List.map_eq_cons_iff.mp hrest
    have hle : bodyBytes l ≤ bodyBytes (l ++ g :: l') := by simp [bodyBytes]
    rw [placed, h.seq l g l' rfl, Option.getD_some, BitVec.add_comm, BitVec.add_sub_cancel, BitVec.toNat_ofNat,
      Nat.mod_eq_of_lt (by omega), hstream, hbytes, Nat.zero_add]
  have hresponse : sent.flatMap Sent.body = sent.flatMap Sent.response := by
    rw [List.flatMap_def, List.flatMap_def, List.map_congr_left h.body]
  rw [reassemble_stream hconsecutive (hperm.map _), hstream, hresponse]

end Contiguous

/-- A connection that was established has sent without gap or overlap: each
segment is where the ones before it end, send.next is behind the last, and a
receiver has the HTTP responses in order, however the segments arrive. -/
structure Gapless (con : TCB) (sent : List Sent) : Prop where
  seq : ∀ before g later, sent = before ++ g :: later → g.seq = some (con.send.iss + 1 + .ofNat 32 (bodyBytes before))
  next : con.send.next = con.send.iss + 1 + .ofNat 32 (bodyBytes sent)
  reassembled : bodyBytes sent < 2^32 → ∀ arrived : List Sent, arrived.Perm sent → ∀ i,
    reassemble (arrived.map (placed (con.send.iss + 1))) i = (sent.flatMap Sent.response)[i]?

/-- The history invariant of one connection. -/
structure SenderInv (x : ConnectionID) (w : Sender) : Prop where
  unique : ∀ s, w.server = some s → s.Unique
  half : ∀ s con, w.server = some s → tcpGetState s x = some con → con.state = .synReceived →
    con.send.next = con.send.iss + 1
  opened : ∀ s con, w.server = some s → tcpGetState s x = some con → con.state ≠ .synReceived → Contiguous con w.sent

section Steps
variable {x : ConnectionID} {w : Sender} {i : SegmentIn} {s : Server} {out : Outcome}

/-- The segment an answer puts on the wire. -/
private theorem sentBy_sendAck (tcb : TCB) (body : List U8) (hbuf : out.buf = (tcpSendAck i.buf i.offset tcb body).2)
    (hseq : 8 ≤ tcpHlen i.buf i.offset) (hh : body.length = 0 ∨ 20 ≤ tcpHlen i.buf i.offset)
    (hlen : i.offset + tcpHlen i.buf i.offset + body.length < 65536)
    (hreq : (out.request.map (httpHandleRequest i.env.file)).getD [] = body) :
    sentBy i out = ⟨some tcb.send.next,body,body⟩ := by
  have hwire : (ntohs (ipLen out.buf)).toNat = i.offset + tcpHlen i.buf i.offset + body.length := by
    rw [hbuf, tcpSendAck_ipLen _ _ _ i.header]
    exact Nat.mod_eq_of_lt hlen
  rw [sentBy, hwire, if_pos (by omega), hreq, hbuf, tcpSendAck_seq _ _ _ i.header hh,
    tcpSendAck_payload _ _ _ i.header hh rfl hlen]

/-- A dispatch for another connection, or one without answer that keeps the block. -/
private theorem SenderInv.silent (h : SenderInv x w) (hs : w.server = some s) (hu : out.server.Unique)
    (hsame : tcpGetState out.server x = tcpGetState s x) (hquiet : ¬ (i.id = x ∧ out.code = .ok)) :
    SenderInv x ⟨some out.server,sentOn x s i out w.sent⟩ := by
  refine ⟨fun t ht => ?_,fun t con ht hf hc => ?_,fun t con ht hf hc => ?_⟩ <;> cases ht
  · exact hu
  · exact h.half s con hs (hsame ▸ hf) hc
  · rw [hsame] at hf
    rw [sentOn, hf]
    simp only [hc, hquiet, if_false]
    exact h.opened s con hs hf hc

/-- A dispatch after which the connection is unknown. -/
private theorem SenderInv.gone (hu : out.server.Unique) (hnone : tcpGetState out.server x = none) (sent : List Sent) :
    SenderInv x ⟨some out.server,sent⟩ := by
  refine ⟨fun t ht => ?_,fun t con ht hf hc => ?_,fun t con ht hf hc => ?_⟩ <;> cases ht
  · exact hu
  · exact nomatch hnone.symm.trans hf
  · exact nomatch hnone.symm.trans hf

/-- A dispatch that leaves the connection half-open with fresh numbers. -/
private theorem SenderInv.halfOpen {con : TCB} (hu : out.server.Unique) (hown : tcpGetState out.server x = some con)
    (hst : con.state = .synReceived) (hnext : con.send.next = con.send.iss + 1) (sent : List Sent) :
    SenderInv x ⟨some out.server,sent⟩ := by
  refine ⟨fun t ht => ?_,fun t c ht hf hc => ?_,fun t c ht hf hc => ?_⟩ <;> cases ht
  · exact hu
  · cases hown.symm.trans hf
    exact hnext
  · cases hown.symm.trans hf
    exact absurd hst hc

/-- A dispatch that leaves an open block and its segments. -/
private theorem SenderInv.open {con : TCB} {sent : List Sent} (hu : out.server.Unique)
    (hown : tcpGetState out.server x = some con) (hst : con.state ≠ .synReceived) (hc : Contiguous con sent) :
    SenderInv x ⟨some out.server,sent⟩ := by
  refine ⟨fun t ht => ?_,fun t c ht hf hs => ?_,fun t c ht hf _ => ?_⟩ <;> cases ht
  · exact hu
  · cases hown.symm.trans hf
    exact absurd hs hst
  · cases hown.symm.trans hf
    exact hc

/-- The answers to a segment without payload and to one with: send.next is
written into the header, and moves on by the body afterwards. -/
private theorem SenderInv.answer (h : SenderInv x w) {con tcb con' : TCB} {body : List U8} (hs : w.server = some s)
    (hf : tcpGetState s x = some con) (hst : con.state = .established) (hid : i.id = x) (hok : out.code = .ok)
    (hu : out.server.Unique) (hown : tcpGetState out.server x = some con') (hst' : con'.state ≠ .synReceived)
    (hsend : tcb.send = con.send) (hsend' : con'.send = { tcb.send with next := tcb.send.next + .ofNat 32 body.length })
    (hg : sentBy i out = ⟨some tcb.send.next,body,body⟩) :
    SenderInv x ⟨some out.server,sentOn x s i out w.sent⟩ := by
  have hopen : con.state ≠ .synReceived := by rw [hst]; decide
  have hsent : sentOn x s i out w.sent = w.sent ++ [sentBy i out] := by
    simp only [sentOn, hf, hopen, if_false, hid, hok, and_self, if_true]
  rw [hsent, hg]
  refine .open hu hown hst' ((h.opened s con hs hf hopen).snoc ?_ rfl ?_ ?_)
  · rw [hsend]
  · rw [hsend', hsend]
  · rw [hsend', hsend]

/-- A reply without body ends inside any buffer the total length can describe. -/
private theorem headers_fit (i : SegmentIn) : i.offset + tcpHlen i.buf i.offset + ([] : List U8).length < 65536 := by
  have h1 := ihlBytes_le i.buf
  have h2 := tcpHlen_le i.buf i.offset
  rw [List.length_nil]
  unfold SegmentIn.offset at h2 ⊢
  omega

/-- Step lemma for the segments of the connection, one case per transition. -/
private theorem SenderInv.segment (h : SenderInv x w) (hs : w.server = some s) (hid : i.id = x)
    (ha : Answerable x w i) (hd : tcpDispatch i.env s i.buf i.offset = some out) :
    SenderInv x ⟨some out.server,sentOn x s i out w.sent⟩ := by
  obtain ⟨r,htr,href⟩ := tcpDispatch_transition (h.unique s hs) hd
  have hown : tcpGetState out.server x = r.con := (href.find x).trans (if_pos hid.symm)
  rw [show segId i.buf i.offset = x from hid] at htr
  have same (hcon : r.con = tcpGetState s x) (hcode : r.code = .silent) :
      SenderInv x ⟨some out.server,sentOn x s i out w.sent⟩ := by
    refine h.silent hs href.unique (hown.trans hcon) fun hq => ?_
    exact nomatch hcode.symm.trans (href.code.symm.trans hq.2)
  generalize hf : tcpGetState s x = c at htr same
  cases htr with
  | strayReset | refuse | reset => exact .gone href.unique hown _
  | ignoreReset | badAck | unexpected | empty | closed => exact same rfl rfl
  | opening => exact .halfOpen href.unique hown rfl rfl _
  | repeated con _ hst => exact .halfOpen href.unique hown hst rfl _
  | establish con _ hst =>
    have hnil : sentOn x s i out w.sent = [] := by simp only [sentOn, hf, hst, if_true]
    have hkeep := acknowledged_numbers i.buf i.offset con
    rw [hnil]
    refine .open href.unique hown nofun (.init ?_)
    rw [hkeep.1, hkeep.2]
    exact h.half s con hs hf hst
  | finish con hr hst hfin =>
    have hseq : 8 ≤ tcpHlen i.buf i.offset := by
      have := ha s con hs hf hst hid hr
      rwa [if_pos hfin] at this
    refine h.answer hs hf hst hid href.code href.unique hown nofun (finished_send i.buf i.offset con)
      (tcpSendAck_send i.buf i.offset _ _) ?_
    refine sentBy_sendAck _ _ href.buf hseq (Or.inl rfl) (headers_fit i) ?_
    rw [href.request, Option.map_none, Option.getD_none]
  | payload con hr hst hfin hlen =>
    have hfit := ha s con hs hf hst hid hr
    rw [if_neg (by rw [hfin]; decide)] at hfit
    obtain ⟨hhl,hcap⟩ := hfit hlen
    refine h.answer hs hf hst hid href.code href.unique hown ?_ (advanced_send (dataLen i.buf i.offset) con)
      (tcpSendAck_send i.buf i.offset _ _) ?_
    · rw [tcpSendAck_state, advanced_state, hst]
      decide
    · refine sentBy_sendAck _ _ href.buf (by omega) (Or.inr hhl) hcap ?_
      rw [href.request, Option.map_some, Option.getD_some]

private theorem sendStep_inv (h : SenderInv x w) (ha : Answerable x w i) : SenderInv x (sendStep x w i) := by
  cases hs : w.server with
  | none =>
    rw [show sendStep x w i = w by simp only [sendStep, hs]]
    exact h
  | some s =>
    cases hd : tcpDispatch i.env s i.buf i.offset with
    | none =>
      have hdead : (sendStep x w i).server = none := by simp only [sendStep, hs, hd]
      refine ⟨fun t ht => ?_,fun t _ ht => ?_,fun t _ ht => ?_⟩ <;> exact nomatch hdead.symm.trans ht
    | some out =>
      rw [show sendStep x w i = ⟨some out.server,sentOn x s i out w.sent⟩ by simp only [sendStep, hs, hd]]
      by_cases hid : i.id = x
      · exact h.segment hs hid ha hd
      · obtain ⟨r,-,href⟩ := tcpDispatch_transition (h.unique s hs) hd
        exact h.silent hs href.unique ((href.find x).trans (if_neg (Ne.symm hid))) fun hq => hid hq.1

end Steps

private theorem SenderInv.start (x : ConnectionID) : SenderInv x .start := by
  refine ⟨fun s hs => ?_,fun s con hs hf => ?_,fun s con hs hf => ?_⟩ <;> cases hs
  · exact List.nodup_nil
  · cases hf
  · cases hf

/-- In every run whose answered segments claim enough of a TCP header and have a
response that fits, what a connection sent since it was established has no gap
and no overlap. -/
theorem replies_gapless (x : ConnectionID) (inputs : List SegmentIn)
    (h : Along (sendStep x) (Answerable x) .start inputs) (s : Server) (con : TCB)
    (hs : (run (sendStep x) .start inputs).server = some s) (hf : tcpGetState s x = some con)
    (hst : con.state ≠ .synReceived) : Gapless con (run (sendStep x) .start inputs).sent := by
  have hinv : SenderInv x (run (sendStep x) .start inputs) :=
    h.history (P := fun _ w => SenderInv x w) (.start x) fun _ _ hw ha => sendStep_inv hw ha
  have hc := hinv.opened s con hs hf hst
  exact ⟨hc.seq,hc.next,fun hlt _ hperm => hc.reassembles hlt hperm⟩

private def synIn : SegmentIn := ⟨craft clientId SYN 100 0 [],⟨77,true,.missing⟩,by decide +kernel⟩
private def ackIn : SegmentIn := ⟨craft clientId ACK 101 78 [],⟨0,true,.missing⟩,by decide +kernel⟩
private def getIn : SegmentIn :=
  ⟨craft clientId (PSH ||| ACK) 101 78 (ascii "GET /"),⟨0,true,.missing⟩,by decide +kernel⟩
private def finIn : SegmentIn := ⟨craft clientId (FIN ||| ACK) 106 104 [],⟨0,true,.missing⟩,by decide +kernel⟩

/-- The request with a data offset of zero words. -/
private def shortIn : SegmentIn :=
  ⟨setTcpDataOffset (craft clientId (PSH ||| ACK) 101 78 (ascii "GET /")) 20 0,⟨0,true,.missing⟩,by decide +kernel⟩

/-- State and send variables of the client's block. -/
private def sender (inputs : List SegmentIn) : Option (TCPState × SendState) :=
  ((run (sendStep clientId) .start inputs).server.bind (tcpGetState · clientId)).map fun con => (con.state,con.send)

private theorem sender_block {inputs : List SegmentIn} {state : TCPState} {send : SendState}
    (h : sender inputs = some (state,send)) : ∃ s con, (run (sendStep clientId) .start inputs).server = some s ∧
      tcpGetState s clientId = some con ∧ con.state = state ∧ con.send = send := by
  obtain ⟨con,hcon,he⟩ := Option.map_eq_some_iff.mp h
  obtain ⟨s,hs,hf⟩ := Option.bind_eq_some_iff.mp hcon
  cases he
  exact ⟨s,con,hs,hf,rfl,rfl⟩

/-- A request and a FIN after the handshake: the 404 response of 26 bytes at 78,
the acknowledgement of the FIN behind it. -/
theorem replies_gapless_request : ∃ s con, (run (sendStep clientId) .start [synIn,ackIn,getIn,finIn]).server = some s ∧
    tcpGetState s clientId = some con ∧ con.send.iss = 77 ∧ con.send.next = 104 ∧
    (run (sendStep clientId) .start [synIn,ackIn,getIn,finIn]).sent.map Sent.seq = [some 78,some 104] ∧
    Gapless con (run (sendStep clientId) .start [synIn,ackIn,getIn,finIn]).sent := by
  have hrun : sender [synIn,ackIn,getIn,finIn] = some (.closeWait,⟨78,104,8192,77⟩) := by decide +kernel
  obtain ⟨s,con,hs,hf,hst,hsend⟩ := sender_block hrun
  refine ⟨s,con,hs,hf,by rw [hsend],by rw [hsend],by decide +kernel,?_⟩
  refine replies_gapless clientId _ ?_ s con hs hf (by rw [hst]; decide)
  refine ⟨?_,?_,?_,?_,trivial⟩ <;> intro _ _ _ _ _ _ _ <;> decide +kernel

/-- With a data offset of zero the response is copied over the TCP header, and
the sequence number on the wire is the four bytes "/1.1" of its status line. -/
theorem short_header_gap : ∃ s con, (run (sendStep clientId) .start [synIn,ackIn,shortIn]).server = some s ∧
    tcpGetState s clientId = some con ∧ con.state = .established ∧ con.send.iss = 77 ∧
    (run (sendStep clientId) .start [synIn,ackIn,shortIn]).sent.map Sent.seq = [some 0x2F312E31] ∧
    ¬ Gapless con (run (sendStep clientId) .start [synIn,ackIn,shortIn]).sent := by
  have hrun : sender [synIn,ackIn,shortIn] = some (.established,⟨78,106,8192,77⟩) := by decide +kernel
  have hseq : (run (sendStep clientId) .start [synIn,ackIn,shortIn]).sent.map Sent.seq = [some 0x2F312E31] := by
    decide +kernel
  obtain ⟨s,con,hs,hf,hst,hsend⟩ := sender_block hrun
  refine ⟨s,con,hs,hf,hst,by rw [hsend],hseq,fun hg => ?_⟩
  obtain ⟨g,rest,hsent,hg0,hrest⟩ := List.map_eq_cons_iff.mp hseq
  have hfirst := hg.seq [] g rest hsent
  rw [hg0, hsend] at hfirst
  exact absurd hfirst (by decide)

end LazyTcp.Legacy
