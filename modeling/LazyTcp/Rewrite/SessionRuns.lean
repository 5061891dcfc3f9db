import LazyTcp.Legacy.SessionRuns
import LazyTcp.Rewrite.Session

/-! The stages of a connection between the client and the rewrite. The rewrite
never holds a connection that the client does not have, and after the handshake
it neither answers nor takes anything. -/
namespace LazyTcp.Rewrite
open General General.Wire

/-- Both ends count the same bytes. -/
structure InStep (c : Legacy.TCPClient) (con : Refactor.TCB) : Prop where
  client : c.state = .established
  server : con.state = .established
  recv : con.recv.next = .ofNat 32 c.mySeq
  send : con.send.next = .ofNat 32 c.theirSeq

/-- The client, what is under way and the block of the connection. -/
inductive Stage (c : Legacy.TCPClient) : Legacy.ClientPlace → List Legacy.ClientSegment → Option Legacy.Datagram →
    Option Refactor.TCB → Prop where
  | asking {place : Legacy.ClientPlace} {wire : List Legacy.ClientSegment} {b : Option Refactor.TCB} :
      Legacy.Asking c place wire → (∀ con, b = some con → InStep c con) → Stage c place wire none b
  | greeted (con : Refactor.TCB) (d : Legacy.Datagram) : con.state = .synReceived → con.send.next = con.send.iss + 1 →
      Legacy.scapyResponse d = ⟨0x12,con.send.iss,con.recv.next,[]⟩ → Stage c .handshake [] (some d) (some con)
  | confirming (con : Refactor.TCB) : con.state = .synReceived → c.state = .established →
      con.recv.next = .ofNat 32 c.mySeq → con.send.next = .ofNat 32 c.theirSeq →
      Stage c .menu [⟨ACK,.ofNat 32 c.mySeq,.ofNat 32 c.theirSeq,[]⟩] none (some con)
  | kept (place : Legacy.ClientPlace) (con : Refactor.TCB) : InStep c con → Stage c place [] none (some con)
  | without (place : Legacy.ClientPlace) (reply : Option Legacy.Datagram) :
      (∀ d ∈ reply, (Legacy.scapyResponse d).load = []) → Stage c place [] reply none
  | parting (place : Legacy.ClientPlace) (seq ack : U32) : Stage c place [⟨ACK,seq,ack,[]⟩] none none
  | crashed (b : Option Refactor.TCB) : Stage c .ended [] none b

section Handling
variable {id : Refactor.ID} {g : Legacy.ClientSegment} {buf : Mem} {len : Nat} {iss : U32} {con : Refactor.TCB}
  {r : Refactor.Edge × Option Refactor.TCB} (hb : HoldsSegment id g buf len)
include hb

private theorem HoldsSegment.segFlags : (Refactor.segment buf 20).flags = Refactor.byteFlags g.flags := by
  rw [Refactor.segment_flags, Refactor.segFlags, hb.flags]
  rfl

/-- A SYN of a connection without a block opens one, if there is memory and the
port is listened on. -/
private theorem syn_absent (hg : Refactor.byteFlags g.flags = Refactor.byteFlags SYN)
    (h : Handled iss (Refactor.segment buf 20) none r) : r = (.drop,none) ∨ r = (.sendRst,none) ∨
      ∃ con, r = (.syn,some con) ∧ con.state = .synReceived ∧ con.send.next = con.send.iss + 1 := by
  have hflags := hb.segFlags.trans hg
  cases h with
  | starved => exact Or.inl rfl
  | fresh ht =>
    cases ht with
    | refuse | unknown | abort | synOnOpen => exact Or.inr (Or.inl rfl)
    | opening => exact Or.inr (Or.inr ⟨_,rfl,rfl,rfl⟩)
    | reset _ hr | ignoreReset _ hr =>
      rw [hflags] at hr
      exact absurd hr (by decide)
    | establish _ _ hc | badAck _ _ hc | payload _ _ hc => cases hc
    | unused _ _ hc => exact absurd rfl hc

/-- Any other segment of such a connection leaves it without one. -/
private theorem ack_absent (hrst : hasFlag g.flags RST = false) (hack : hasFlag g.flags ACK = true)
    (h : Handled iss (Refactor.segment buf 20) none r) : r = (.drop,none) ∨ r = (.sendRst,none) := by
  cases h with
  | starved => exact Or.inl rfl
  | fresh ht =>
    cases ht with
    | refuse | unknown | abort | synOnOpen => exact Or.inr rfl
    | opening _ _ _ _ ha =>
      rw [hb.segFlags] at ha
      exact absurd (hack.symm.trans ha) (by decide)
    | reset _ hr | ignoreReset _ hr =>
      rw [hb.segFlags] at hr
      exact absurd (hrst.symm.trans hr) (by decide)
    | establish _ _ hc | badAck _ _ hc | payload _ _ hc => cases hc
    | unused _ _ hc => exact absurd rfl hc

/-- A SYN takes an established block with it. -/
private theorem syn_removes (hg : Refactor.byteFlags g.flags = Refactor.byteFlags SYN) (hst : con.state = .established)
    (h : Handled iss (Refactor.segment buf 20) (some con) r) : r = (.sendRst,none) := by
  have hflags := hb.segFlags.trans hg
  cases h with
  | stored _ ht =>
    cases ht with
    | refuse | unknown | abort | synOnOpen => rfl
    | reset _ hr | ignoreReset _ hr =>
      rw [hflags] at hr
      exact absurd hr (by decide)
    | opening _ _ hc | establish _ _ hc | badAck _ _ hc => exact absurd (hst.symm.trans hc) (by decide)
    | payload _ _ _ hs =>
      rw [hflags] at hs
      exact absurd hs (by decide)
    | unused _ _ _ _ hc => exact absurd hst hc

/-- Data and FIN leave an established block as it is, and are not answered. -/
private theorem open_keeps (hport : id.dstPort = Refactor.TCP_LISTEN_PORT) (hrst : hasFlag g.flags RST = false)
    (hsyn : hasFlag g.flags SYN = false) (hst : con.state = .established)
    (h : Handled iss (Refactor.segment buf 20) (some con) r) : r = (.data,some con) := by
  have hid : (Refactor.segment buf 20).id = id := hb.id
  cases h with
  | stored _ ht =>
    cases ht with
    | payload => rfl
    | refuse hp => exact absurd (hid ▸ hport) hp
    | reset _ hr | ignoreReset _ hr =>
      rw [hb.segFlags] at hr
      exact absurd (hrst.symm.trans hr) (by decide)
    | opening _ _ hc | unknown _ _ hc | establish _ _ hc | badAck _ _ hc | abort _ _ hc =>
      exact absurd (hst.symm.trans hc) (by decide)
    | synOnOpen _ _ _ hs =>
      rw [hb.segFlags] at hs
      exact absurd (hsyn.symm.trans hs) (by decide)
    | unused _ _ _ _ hc => exact absurd hst hc

/-- The client's acknowledgement completes the handshake. -/
private theorem ack_completes (hport : id.dstPort = Refactor.TCP_LISTEN_PORT)
    (hg : Refactor.byteFlags g.flags = Refactor.byteFlags ACK) (hst : con.state = .synReceived)
    (hack : con.send.next = g.ack) (h : Handled iss (Refactor.segment buf 20) (some con) r) :
    r = (.ack,some (Refactor.acknowledged (Refactor.segment buf 20) con)) := by
  have hid : (Refactor.segment buf 20).id = id := hb.id
  have hflags := hb.segFlags.trans hg
  have hnum : (Refactor.segment buf 20).ack = con.send.next := hb.ack.trans hack.symm
  cases h with
  | stored _ ht =>
    cases ht with
    | establish => rfl
    | refuse hp => exact absurd (hid ▸ hport) hp
    | reset _ hr | ignoreReset _ hr =>
      rw [hflags] at hr
      exact absurd hr (by decide)
    | opening _ _ hc | unknown _ _ hc | synOnOpen _ _ hc | payload _ _ hc => exact absurd (hst.symm.trans hc) (by decide)
    | badAck _ _ _ _ _ hn => exact absurd hnum hn
    | abort _ _ _ hs =>
      rw [hflags] at hs
      exact absurd hs (by decide)
    | unused _ _ _ hc => exact absurd hst hc

end Handling

section Steps
variable {id : Refactor.ID} {c : Legacy.TCPClient} {place : Legacy.ClientPlace} {wire : List Legacy.ClientSegment}
  {reply answer : Option Legacy.Datagram} {b : Option Refactor.TCB} {g : Legacy.ClientSegment} {buf : Mem} {len : Nat}
  {iss : U32} {r : Refactor.Edge × Option Refactor.TCB}

private theorem Stage.bare (place : Legacy.ClientPlace) : Stage c place [] none none := by
  refine .without place none fun d hd => ?_
  cases hd

/-- Whatever is dropped or refused leaves the client without a block. -/
private theorem Read.without (hr : Read r answer) (h : r = (.drop,none) ∨ r = (.sendRst,none)) :
    Stage c place [] answer r.2 := by
  rcases h with rfl | rfl
  · cases hr
    exact .bare place
  · cases hr with
    | reset d hd =>
      refine .without place (some d) fun d' h => ?_
      cases h
      exact hd
    | silent _ h => exact absurd rfl h

private theorem Read.quiet (hr : Read r answer) (hsyn : r.1 ≠ .syn) (hrst : r.1 ≠ .sendRst) : answer = none := by
  cases hr with
  | synAck => exact absurd rfl hsyn
  | reset => exact absurd rfl hrst
  | silent => rfl

/-- The request of a method is handled on no block or on an established one. -/
private theorem Asking.handled (ha : Legacy.Asking c place (g :: wire)) (hheld : ∀ con, b = some con → InStep c con)
    (hb : HoldsSegment id g buf len) (hport : ∀ con, b = some con → id.dstPort = Refactor.TCP_LISTEN_PORT)
    (hh : Handled iss (Refactor.segment buf 20) b r) (hr : Read r answer) : Stage c place wire answer r.2 := by
  have hquestion (flags : U8) (hg : g.flags = flags) (hbits : hasFlag flags RST = false ∧ hasFlag flags SYN = false ∧
      hasFlag flags ACK = true) : Stage c place [] answer r.2 := by
    rw [← hg] at hbits
    obtain ⟨hrst,hsyn,hack⟩ := hbits
    cases b with
    | none => exact hr.without (ack_absent hb hrst hack hh)
    | some con =>
      have hin := hheld con rfl
      have he := open_keeps hb (hport con rfl) hrst hsyn hin.server hh
      rw [he] at hr ⊢
      rw [hr.quiet nofun nofun]
      exact .kept place con hin
  cases ha with
  | handshake =>
    cases b with
    | some con =>
      have he := syn_removes hb rfl (hheld con rfl).server hh
      exact hr.without (Or.inr he)
    | none =>
      rcases syn_absent hb rfl hh with he | he | ⟨con,rfl,hst,hnext⟩
      · exact hr.without (Or.inl he)
      · exact hr.without (Or.inr he)
      · cases hr with
        | synAck _ d hd => exact .greeted con d hst hnext hd
        | silent h => exact absurd rfl h
  | sendData => exact hquestion (PSH ||| ACK) rfl (by decide)
  | close => exact hquestion (FIN ||| ACK) rfl (by decide)

/-- Step lemma for the server. -/
private theorem Stage.served (h : Stage c place (g :: wire) reply b) (hb : HoldsSegment id g buf len)
    (hport : ∀ con, b = some con → id.dstPort = Refactor.TCP_LISTEN_PORT)
    (hh : Handled iss (Refactor.segment buf 20) b r) (hr : Read r answer) :
    reply = none ∧ Stage c place wire answer r.2 := by
  cases h with
  | asking ha hheld => exact ⟨rfl,Asking.handled ha hheld hb hport hh hr⟩
  | confirming con hst hc hrecv hsend =>
    have he := ack_completes hb (hport con rfl) rfl hst hsend hh
    rw [he] at hr ⊢
    rw [hr.quiet nofun nofun]
    exact ⟨rfl,.kept .menu _ ⟨hc,rfl,hrecv,hsend⟩⟩
  | parting => exact ⟨rfl,hr.without (ack_absent hb (show hasFlag ACK RST = false by decide)
      (show hasFlag ACK ACK = true by decide) hh)⟩

/-- Step lemma for a choice at the menu. -/
private theorem Stage.chosen (h : Stage c .menu [] reply b) (choice : Legacy.Choice) :
    Stage c (c.menu choice).place (c.menu choice).sent none b := by
  obtain ⟨-,hask⟩ := Legacy.menu_asks c choice
  cases h with
  | asking _ hheld => exact .asking hask hheld
  | kept _ con hin =>
    refine .asking hask fun con' h => ?_
    cases h
    exact hin
  | without => exact .asking hask nofun

/-- A handshake that was answered: by the rewrite's SYN-ACK, or by something else
on a connection without a block. -/
private theorem Stage.greeted_on {d : Legacy.Datagram} (h : Stage c .handshake [] (some d) b) :
    Stage (c.handshakeResponse (Legacy.scapyResponse d)).client (c.handshakeResponse (Legacy.scapyResponse d)).place
      (c.handshakeResponse (Legacy.scapyResponse d)).sent none b := by
  cases h with
  | greeted con _ hst hnext hd =>
    simp only [hd, Legacy.TCPClient.handshakeResponse, ne_eq, not_true_eq_false, if_false]
    rcases Legacy.scapyTcp_cases ACK con.recv.next.toNat (con.send.iss.toNat + 1) [] with h | h <;> rw [h]
    · exact .crashed _
    · refine .confirming con hst rfl ?_ ?_
      · simp
      · rw [hnext, BitVec.ofNat_add]
        simp
  | without =>
    rw [Legacy.TCPClient.handshakeResponse]
    split
    · exact .bare .menu
    · rcases Legacy.scapyTcp_cases ACK (Legacy.scapyResponse d).ack.toNat ((Legacy.scapyResponse d).seq.toNat + 1) []
        with h | h <;> simp only [h]
      · exact .crashed _
      · exact .parting .menu _ _

/-- Step lemma for the return of sr1, with what send_data hands to its caller. -/
private theorem Stage.resumed (h : Stage c place wire reply b) (hwire : reply = none → wire = []) :
    (∀ data load, (data,some load) ∈ Legacy.outcome place (reply.map Legacy.scapyResponse) → load = []) ∧
      Stage (c.resume place (reply.map Legacy.scapyResponse)).client
        (c.resume place (reply.map Legacy.scapyResponse)).place
        (wire ++ (c.resume place (reply.map Legacy.scapyResponse)).sent) none b := by
  have hgone (place' : Legacy.ClientPlace) (r : Option Legacy.Response)
      (hr : ∀ r', r = some r' → r'.load = []) : ∀ data load, (data,some load) ∈ Legacy.outcome place' r → load = [] := by
    intro data load hm
    cases place' with
    | sendData data' =>
      obtain ⟨r',hr',rfl⟩ := Option.map_eq_some_iff.mp (congrArg Prod.snd (List.mem_singleton.mp hm)).symm
      exact hr r' hr'
    | menu | handshake | close | ended => exact absurd hm List.not_mem_nil
  cases h with
  | asking ha hheld =>
    cases hwire rfl
    refine ⟨hgone _ _ nofun,?_⟩
    cases ha with
    | menu => exact .asking .menu hheld
    | ended => exact .asking .ended hheld
  | greeted con d hst hnext hd => exact ⟨fun _ _ hm => absurd hm List.not_mem_nil,Stage.greeted_on (.greeted con d hst hnext hd)⟩
  | confirming | parting => exact absurd (hwire rfl) (List.cons_ne_nil _ _)
  | crashed => exact ⟨hgone _ _ nofun,.crashed _⟩
  | kept _ con hin =>
    refine ⟨hgone _ _ nofun,?_⟩
    cases place with
    | menu | ended | handshake | sendData => exact .kept _ con hin
    | close leaving => exact .kept _ con hin
  | without _ _ hload =>
    refine ⟨hgone _ _ fun r' hr' => ?_,?_⟩
    · obtain ⟨d,hd,rfl⟩ := Option.map_eq_some_iff.mp hr'
      exact hload d hd
    · cases reply with
      | none =>
        cases place with
        | menu | ended | handshake | sendData | close => exact .bare _
      | some d =>
        cases place with
        | menu | ended | sendData => exact .bare _
        | handshake => exact Stage.greeted_on (.without _ (some d) hload)
        | close leaving =>
          simp only [Option.map_some, Legacy.TCPClient.resume, Legacy.TCPClient.closeResponse]
          rcases Legacy.scapyTcp_cases ACK (c.mySeq + 1) ((Legacy.scapyResponse d).seq.toNat + 1) [] with h | h <;>
            rw [h]
          · exact .crashed _
          · exact .parting _ _ _

end Steps

structure SessionInv (id : Legacy.ConnectionID) (s : Session) : Prop where
  table : Refactor.TableInv s.table
  own : s.client.id = id
  stage : Stage s.client s.place s.wire s.reply (Refactor.hashFind s.table (serverId id))
  returned : ∀ data load, (data,some load) ∈ s.returned → load = []

section Runs
variable {id : Legacy.ConnectionID} {s : Session}

private theorem SessionInv.port (h : SessionInv id s) (con : Refactor.TCB)
    (hf : Refactor.hashFind s.table (serverId id) = some con) : (serverId id).dstPort = Refactor.TCP_LISTEN_PORT := by
  obtain ⟨hinv,hid⟩ := h.table.con _ con hf
  exact hid ▸ hinv.port

/-- Step lemma of the session, one case per happening. -/
private theorem sessionStep_inv {i : Happening} (h : SessionInv id s) (hf : Feasible s i) :
    SessionInv id (sessionStep s i) := by
  cases i with
  | choice choice =>
    rw [sessionStep]
    split
    case isFalse => exact h
    case isTrue hp =>
      have hst := h.stage
      rw [hp, show s.wire = [] from hf] at hst
      obtain ⟨hc,-⟩ := Legacy.menu_asks s.client choice
      have hwire : (s.go (s.client.menu choice)).wire = (s.client.menu choice).sent := by
        rw [Session.go, show s.wire = [] from hf, List.nil_append]
      refine ⟨h.table,(congrArg Legacy.TCPClient.id hc).trans h.own,?_,h.returned⟩
      rw [hwire]
      show Stage (s.client.menu choice).client _ _ _ _
      rw [hc]
      exact hst.chosen choice
  | respond =>
    obtain ⟨hload,hst⟩ := h.stage.resumed hf
    refine ⟨h.table,(Legacy.resume_id ..).trans h.own,hst,fun data load hm => ?_⟩
    exact (List.mem_append.mp hm).elim (h.returned data load) (hload data load)
  | arrive env buf len =>
    cases hw : s.wire with
    | nil =>
      have hstep : sessionStep s (.arrive env buf len) = s := by simp only [sessionStep, hw]
      rw [hstep]
      exact h
    | cons g wire =>
      have hb := hf g (by rw [hw]; rfl)
      rw [h.own] at hb
      obtain ⟨r,hh,hinv,hfind,hread⟩ := netDemux_segment env h.table hb
      have hst := h.stage
      rw [hw] at hst
      obtain ⟨hreply,hst'⟩ := hst.served hb h.port hh hread
      simp only [sessionStep, hw]
      refine ⟨hinv,h.own,?_,h.returned⟩
      rw [hfind, hreply, Option.none_or]
      exact hst'
  | other env buf len =>
    have hne := hf
    rw [Feasible, h.own] at hne
    obtain ⟨hinv,hfind⟩ := netDemux_other env h.table hne
    have hst := h.stage
    rw [← hfind] at hst
    exact ⟨hinv,h.own,hst,h.returned⟩

private theorem run_inv {happenings : List Happening} (h : Along sessionStep Feasible (.start id) happenings) :
    SessionInv id (run sessionStep (.start id) happenings) := by
  have hstart : SessionInv id (.start id) := by
    refine ⟨.empty,rfl,.asking .menu fun con hf => ?_,fun _ _ hm => absurd hm List.not_mem_nil⟩
    cases hf
  exact h.history (P := fun _ s => SessionInv id s) hstart fun _ _ hi hf => sessionStep_inv hi hf

/-- Between two methods a block is one both ends have, and no answer is on its way. -/
private theorem SessionInv.agreed (h : SessionInv id s) (hmenu : s.place = .menu) (hwire : s.wire = [])
    {con : Refactor.TCB} (hcon : Refactor.hashFind s.table (serverId id) = some con) :
    InStep s.client con ∧ s.reply = none := by
  have hst := h.stage
  rw [hmenu, hwire, hcon] at hst
  generalize s.reply = reply at hst ⊢
  cases hst with
  | asking _ hheld => exact ⟨hheld con rfl,rfl⟩
  | kept _ _ hin => exact ⟨hin,rfl⟩

/-- The client's address as the first stack and the rewrite have it. -/
private def catchId : Legacy.ConnectionID := ⟨htonl 0x0A000001,htons 5000,htonl 0x0A000002,htons 8080⟩

private def handshaking : List Happening :=
  [.choice .handshake,.arrive Refactor.calmEnv (Refactor.craft Refactor.clientId SYN 1000 0) 40,.respond,
    .arrive Refactor.calmEnv (Refactor.craft Refactor.clientId ACK 1001 78) 40]

private theorem handshaking_done : Along sessionStep Feasible (.start catchId) handshaking ∧
    (run sessionStep (.start catchId) handshaking).place = .menu ∧
    (run sessionStep (.start catchId) handshaking).wire = [] ∧
    (run sessionStep (.start catchId) handshaking).client = ⟨catchId,1001,78,.established⟩ ∧
    (Refactor.hashFind (run sessionStep (.start catchId) handshaking).table (serverId catchId)).isSome = true := by
  decide +kernel

/-- An open connection between two handshakes: nothing is on its way back. -/
private structure Frozen (c : Legacy.TCPClient) (con : Refactor.TCB) (old : List (List U8 × Option (List U8)))
    (s : Session) : Prop where
  client : s.client = c
  block : Refactor.hashFind s.table (serverId c.id) = some con
  reply : s.reply = none
  wire : Legacy.Asking c s.place s.wire ∨ s.wire = []
  place : s.place ≠ .handshake
  returned : ∃ waits, s.returned = old ++ waits ∧ ∀ p ∈ waits, p.2 = none

private theorem menu_place (c : Legacy.TCPClient) {choice : Legacy.Choice} (h : choice ≠ .handshake) :
    (c.menu choice).place ≠ .handshake := by
  have htransmit (place : Legacy.ClientPlace) (segment : Option Legacy.ClientSegment) (hp : place ≠ .handshake) :
      (c.transmit place segment).place ≠ .handshake := by
    cases segment with
    | none => exact Legacy.ClientPlace.noConfusion
    | some => exact hp
  have hclose (leaving : Bool) : (c.close leaving).place ≠ .handshake := by
    rw [Legacy.TCPClient.close]
    split
    · cases leaving <;> exact Legacy.ClientPlace.noConfusion
    · exact htransmit _ _ Legacy.ClientPlace.noConfusion
  cases choice with
  | handshake => exact absurd rfl h
  | sendData data =>
    rw [Legacy.TCPClient.menu, Legacy.TCPClient.sendData]
    split
    · exact Legacy.ClientPlace.noConfusion
    · exact htransmit _ _ Legacy.ClientPlace.noConfusion
  | close => exact hclose false
  | exit => exact hclose true
  | invalid => exact Legacy.ClientPlace.noConfusion

/-- A method that gives up leaves the client as it was. -/
private theorem resume_none (c : Legacy.TCPClient) (place : Legacy.ClientPlace) : (c.resume place none).client = c ∧
    (c.resume place none).sent = [] ∧ (c.resume place none).place ≠ .handshake ∧
      ∀ p ∈ Legacy.outcome place none, p.2 = none := by
  cases place with
  | menu | handshake | ended => exact ⟨rfl,rfl,Legacy.ClientPlace.noConfusion,fun _ hm => absurd hm List.not_mem_nil⟩
  | sendData data =>
    refine ⟨rfl,rfl,Legacy.ClientPlace.noConfusion,fun p hm => ?_⟩
    rw [List.mem_singleton.mp hm]
    rfl
  | close leaving =>
    refine ⟨rfl,rfl,?_,fun _ hm => absurd hm List.not_mem_nil⟩
    cases leaving <;> exact Legacy.ClientPlace.noConfusion

/-- Step lemma: only a handshake changes an open connection. -/
private theorem frozen_step {c : Legacy.TCPClient} {con : Refactor.TCB} {old : List (List U8 × Option (List U8))}
    {i : Happening} (hinv : SessionInv c.id s) (hst : con.state = .established) (h : Frozen c con old s)
    (hf : Feasible s i) (hi : i ≠ .choice .handshake) : Frozen c con old (sessionStep s i) := by
  cases i with
  | choice choice =>
    rw [sessionStep]
    split
    case isFalse => exact h
    case isTrue hp =>
      obtain ⟨hc,hask⟩ := Legacy.menu_asks c choice
      have hwire : (s.go (c.menu choice)).wire = (c.menu choice).sent := by
        rw [Session.go, show s.wire = [] from hf, List.nil_append]
      have hne : choice ≠ .handshake := fun e => hi (congrArg Happening.choice e)
      rw [h.client]
      refine ⟨hc,h.block,rfl,Or.inl ?_,menu_place c hne,h.returned⟩
      rw [hwire]
      exact hask
  | respond =>
    obtain ⟨hc,hsent,hplace,hnone⟩ := resume_none c s.place
    obtain ⟨waits,hret,hwaits⟩ := h.returned
    rw [sessionStep, h.reply, h.client, Option.map_none]
    refine ⟨hc,h.block,rfl,Or.inr ?_,hplace,waits ++ Legacy.outcome s.place none,?_,fun p hm => ?_⟩
    · show s.wire ++ (c.resume s.place none).sent = []
      rw [hsent, show s.wire = [] from hf h.reply]
      rfl
    · show s.returned ++ Legacy.outcome s.place none = _
      rw [hret, List.append_assoc]
    · exact (List.mem_append.mp hm).elim (hwaits p) (hnone p)
  | arrive env buf len =>
    cases hw : s.wire with
    | nil =>
      have hstep : sessionStep s (.arrive env buf len) = s := by simp only [sessionStep, hw]
      rw [hstep]
      exact h
    | cons g wire =>
      have hb := hf g (by rw [hw]; rfl)
      rw [hinv.own] at hb
      have hask : Legacy.Asking c s.place (g :: wire) := by
        have hor := h.wire
        rw [hw] at hor
        exact hor.resolve_right (List.cons_ne_nil _ _)
      have hgone : wire = [] ∧ hasFlag g.flags RST = false ∧ hasFlag g.flags SYN = false := by
        have hplace := h.place
        generalize s.place = place at hask hplace
        cases hask with
        | handshake => exact absurd rfl hplace
        | sendData => exact ⟨rfl,show hasFlag (PSH ||| ACK) RST = false by decide,
            show hasFlag (PSH ||| ACK) SYN = false by decide⟩
        | close => exact ⟨rfl,show hasFlag (FIN ||| ACK) RST = false by decide,
            show hasFlag (FIN ||| ACK) SYN = false by decide⟩
      obtain ⟨r,hh,-,hfind,hread⟩ := netDemux_segment env hinv.table hb
      have hport := hinv.port con h.block
      rw [h.block] at hh
      have he := open_keeps hb hport hgone.2.1 hgone.2.2 hst hh
      rw [he] at hfind hread
      simp only [sessionStep, hw]
      refine ⟨h.client,hfind,?_,Or.inr hgone.1,h.place,h.returned⟩
      rw [h.reply, hread.quiet nofun nofun]
      rfl
  | other env buf len =>
    have hne := hf
    rw [Feasible, hinv.own] at hne
    have hfind := (netDemux_other env hinv.table hne).2.trans h.block
    exact ⟨h.client,hfind,h.reply,h.wire,h.place,h.returned⟩

private def closing : List Happening :=
  [.choice .close,.arrive Refactor.calmEnv (Refactor.craft Refactor.clientId (FIN ||| ACK) 1001 78) 40,.respond]

private theorem closing_feasible {s : Session} (hclient : s.client = ⟨catchId,1001,78,.established⟩)
    (hmenu : s.place = .menu) (hwire : s.wire = []) : Along sessionStep Feasible s closing := by
  obtain ⟨client,place,wire,table,reply,returned⟩ := s
  obtain rfl : client = _ := hclient
  obtain rfl : place = .menu := hmenu
  obtain rfl : wire = [] := hwire
  have hfin : HoldsSegment (serverId catchId) ⟨FIN ||| ACK,.ofNat 32 1001,.ofNat 32 78,[]⟩
      (Refactor.craft Refactor.clientId (FIN ||| ACK) 1001 78) 40 := by decide +kernel
  refine ⟨rfl,fun g hg => ?_,fun _ => rfl,trivial⟩
  cases hg
  exact hfin

end Runs

end LazyTcp.Rewrite
