import LazyTcp.Refactor.Craft

/-! The same packet dispatched twice in a row. The second dispatch starts from
the table the first one left, so each transition is composed with itself. -/
namespace LazyTcp.Refactor
open General General.Wire

/-- Whatever the environment answers each time, the second dispatch changes
nothing, and after a SYN-ACK it sends the same SYN-ACK again. -/
def TwiceAsOnce (ht : HashTable) (p : Packet) : Prop :=
  ∀ env env', (∀ id, hashFind (p.dispatch env' (p.dispatch env ht).table).table id =
      hashFind (p.dispatch env ht).table id) ∧
    ((p.dispatch env ht).edge = .syn → SameReply (p.dispatch env' (p.dispatch env ht).table) (p.dispatch env ht))

/-- The packets a duplicate of which is not tolerated: SYNs to the listening
port, and stray resets for an unknown connection or inside its window. -/
structure Fragile (ht : HashTable) (p : Packet) : Prop where
  valid : p.valid = true
  kind : p.seg.Opening ∨
    (p.seg.Stray ∧ ∀ con, hashFind ht p.seg.id = some con → inWindow p.seg.seq con.recv = true)

/-- Only an opening step looks at the generated sequence number. -/
private theorem conStep_iss (iss iss' : U32) (s : Segment) (con : TCB) (h : (conStep iss s con).1 ≠ .syn) :
    conStep iss' s con = conStep iss s con := by
  unfold conStep at h ⊢
  cases he : edgeOf s.flags s.id.dstPort con.state <;> simp_all

private theorem conStep_established {iss : U32} {s : Segment} {con : TCB} (hp : s.id.dstPort = TCP_LISTEN_PORT)
    (hr : s.flags.rst = false) (hs : s.flags.syn = false) (hc : con.state = .established) :
    conStep iss s con = (.data,some con) := by
  simp [conStep, edgeOf, hp, hr, hs, hc]

/-- A block that a segment other than a SYN leaves is a fixed point of that segment. -/
private theorem conStep_settled {iss : U32} {s : Segment} {con t : TCB} (ho : ¬ s.Opening)
    (ht : (conStep iss s con).2 = some t) (iss' : U32) : (conStep iss' s t).2 = some t := by
  have hstep := conStep_transition iss s con
  have hiss := conStep_iss iss iss' s con
  generalize conStep iss s con = r at hstep ht hiss
  have same (hedge : r.1 ≠ .syn) (hr : r.2 = some con) : (conStep iss' s t).2 = some t := by
    rw [hr] at ht
    rw [← Option.some.inj ht, hiss hedge, hr]
  cases hstep with
  | refuse | reset | unknown | abort | synOnOpen => cases ht
  | ignoreReset | badAck | payload | unused => exact same nofun rfl
  | opening hp hr _ hs ha => exact absurd ⟨hp,hr,hs,ha⟩ ho
  | establish hp hr _ _ hs =>
    cases ht
    rw [conStep_established hp hr hs rfl]

/-- A segment that removed its connection's block is stray only from inside the window. -/
private theorem conStep_removed {iss : U32} {s : Segment} {con : TCB} (hs : s.Stray)
    (hr : (conStep iss s con).2 = none) : inWindow s.seq con.recv = true := by
  have hstep := conStep_transition iss s con
  generalize conStep iss s con = r at hstep hr
  cases hstep with
  | refuse hp => exact absurd hs.port hp
  | reset _ _ hw => exact hw
  | unknown _ hrst | abort _ hrst | synOnOpen _ hrst => rw [hs.rst] at hrst; cases hrst
  | ignoreReset | opening | establish | badAck | payload | unused => cases hr

/-- Own entry of the second dispatch when the first one left none. -/
private theorem stays_absent {ht : HashTable} (h : ht.WF) {p : Packet} (hv : p.valid = true)
    (hf : hashFind ht p.seg.id = none) (hs : ¬ p.seg.Stray) (ho : ¬ p.seg.Opening) (env : Env) :
    hashFind (p.dispatch env ht).table p.seg.id = none ∧ (p.dispatch env ht).edge ≠ .syn := by
  have hr := p.refines_absent h env hv hf
  rw [hr.own, hr.edge]
  split
  case isFalse => exact ⟨rfl,by decide⟩
  case isTrue => rcases conStep_init_gone env.iss hs ho with e | e <;> rw [e] <;> exact ⟨rfl,by decide⟩

/-- A step other than an opening one does not answer with a SYN-ACK. -/
private theorem conStep_not_syn {iss : U32} {s : Segment} {con : TCB} (ho : ¬ s.Opening) :
    (conStep iss s con).1 ≠ .syn := by
  have hstep := conStep_transition iss s con
  generalize conStep iss s con = r at hstep
  cases hstep with
  | opening hp hr _ hs ha => exact absurd ⟨hp,hr,hs,ha⟩ ho
  | refuse | reset | ignoreReset | unknown | establish | badAck | abort | synOnOpen | payload | unused =>
    exact nofun

/-- The own entry of a packet that is not fragile, after one and two dispatches. -/
private theorem twice_own {ht : HashTable} (h : ht.WF) {p : Packet} (hv : p.valid = true) (hn : ¬ Fragile ht p)
    (env env' : Env) : hashFind (p.dispatch env' (p.dispatch env ht).table).table p.seg.id =
      hashFind (p.dispatch env ht).table p.seg.id ∧ (p.dispatch env ht).edge ≠ .syn := by
  have ho : ¬ p.seg.Opening := fun ho => hn ⟨hv,Or.inl ho⟩
  cases hf : hashFind ht p.seg.id with
  | none =>
    have hs : ¬ p.seg.Stray := fun hs => hn ⟨hv,Or.inr ⟨hs,fun con e => by rw [hf] at e; cases e⟩⟩
    have hfirst := stays_absent h hv hf hs ho env
    exact ⟨(stays_absent (p.refines h env).wf hv hfirst.1 hs ho env').1.trans hfirst.1.symm,hfirst.2⟩
  | some con =>
    have hr := p.refines_stored h env hv hf
    rw [hr.edge]
    refine ⟨?_,conStep_not_syn ho⟩
    cases ht : (conStep env.iss p.seg con).2 with
    | some t =>
      rw [(p.refines_stored hr.wf env' hv (hr.own.trans ht)).own, conStep_settled ho ht, hr.own, ht]
    | none =>
      have hs : ¬ p.seg.Stray := fun hs => hn ⟨hv,Or.inr ⟨hs,fun con' e => by
        rw [hf] at e
        rw [← Option.some.inj e]
        exact conStep_removed hs ht⟩⟩
      have hgone := hr.own.trans ht
      rw [(stays_absent hr.wf hv hgone hs ho env').1, hgone]

section Opening
variable {iss : U32} {s : Segment} {con : TCB}

private theorem opening_closed (ho : s.Opening) (hc : con.state = .closed) :
    conStep iss s con = (.syn,some (halfOpen iss s con)) := by
  simp [conStep, edgeOf, ho.port, ho.noRst, ho.syn, ho.noAck, hc]

private theorem opening_live (ho : s.Opening) (hc : con.state = .synReceived ∨ con.state = .established) :
    (conStep iss s con).2 = none := by
  rcases hc with hc | hc <;> simp [conStep, edgeOf, ho.port, ho.noRst, ho.syn, ho.noAck, hc]

end Opening

/-- On a closed or missing block the second SYN tears down what the first set up. -/
private theorem opening_twice_closed {ht : HashTable} (h : ht.WF) {p : Packet} (hv : p.valid = true)
    (ho : p.seg.Opening) (hc : ∀ con, hashFind ht p.seg.id = some con → con.state = .closed) :
    hashFind (p.dispatch calmEnv ht).table p.seg.id ≠ none ∧
      hashFind (p.dispatch calmEnv (p.dispatch calmEnv ht).table).table p.seg.id = none := by
  have hfirst : ∃ con, hashFind (p.dispatch calmEnv ht).table p.seg.id = some (halfOpen calmEnv.iss p.seg con) := by
    cases hf : hashFind ht p.seg.id with
    | none =>
      have hr := p.refines_absent h calmEnv hv hf
      rw [freshBlock_succeed (a := calmEnv.allocs) rfl, if_pos rfl, conStep_init_opening _ ho] at hr
      exact ⟨_,hr.own⟩
    | some con =>
      have hr := p.refines_stored h calmEnv hv hf
      rw [opening_closed ho (hc con hf)] at hr
      exact ⟨_,hr.own⟩
  obtain ⟨con,hfirst⟩ := hfirst
  rw [hfirst]
  refine ⟨Option.some_ne_none _,?_⟩
  rw [(p.refines_stored (p.refines h calmEnv).wf calmEnv hv hfirst).own]
  exact opening_live ho (Or.inl rfl)

/-- Once the connection is gone, any packet that sets up a block sets it up anew. -/
private theorem absent_gains {ht : HashTable} (h : ht.WF) {p : Packet} (hv : p.valid = true)
    (hp : p.seg.Opening ∨ p.seg.Stray) (hf : hashFind ht p.seg.id = none) :
    hashFind (p.dispatch calmEnv ht).table p.seg.id ≠ none := by
  have hr := p.refines_absent h calmEnv hv hf
  rw [freshBlock_succeed (a := calmEnv.allocs) rfl, if_pos rfl] at hr
  rw [hr.own]
  rcases hp with ho | hs
  · rw [conStep_init_opening _ ho]
    exact Option.some_ne_none _
  · rw [conStep_init_stray _ hs]
    exact Option.some_ne_none _

/-- An environment in which the block's malloc fails. -/
private def starvedEnv : Env := { calmEnv with allocs := { Allocs.succeed with tcb := false } }

private theorem starved_absent {ht : HashTable} (h : ht.WF) {p : Packet} (hv : p.valid = true)
    (hf : hashFind ht p.seg.id = none) : hashFind (p.dispatch starvedEnv ht).table p.seg.id = none := by
  have hr := p.refines_absent h starvedEnv hv hf
  rw [show freshBlock starvedEnv.allocs ht p.seg.id = false from rfl] at hr
  exact hr.own

private theorem Fragile.not_twice {ht : HashTable} (h : TableInv ht) {p : Packet} (hfr : Fragile ht p) :
    ¬ TwiceAsOnce ht p := by
  intro ht2
  obtain ⟨hv,hkind⟩ := hfr
  -- In every case one copy leaves the entry absent and the other leaves it present.
  have gains (env : Env) (hp : p.seg.Opening ∨ p.seg.Stray)
      (hf : hashFind (p.dispatch env ht).table p.seg.id = none) : False :=
    absent_gains (p.refines h.wf env).wf hv hp hf (((ht2 env calmEnv).1 _).trans hf)
  rcases hkind with ho | ⟨hs,hwin⟩
  · by_cases hc : ∀ con, hashFind ht p.seg.id = some con → con.state = .closed
    · have htwice := opening_twice_closed h.wf hv ho hc
      exact htwice.1 (((ht2 calmEnv calmEnv).1 _).symm.trans htwice.2)
    · push Not at hc
      obtain ⟨con,hf,hne⟩ := hc
      have hsound := (h.con _ _ hf).1.sound
      have hlive : con.state = .synReceived ∨ con.state = .established := by
        unfold Sound at hsound
        cases hst : con.state <;> simp_all
      apply gains calmEnv (Or.inl ho)
      rw [(p.refines_stored h.wf calmEnv hv hf).own, opening_live ho hlive]
  · cases hf : hashFind ht p.seg.id with
    | none => exact gains starvedEnv (Or.inr hs) (starved_absent h.wf hv hf)
    | some con =>
      apply gains calmEnv (Or.inr hs)
      rw [(p.refines_stored h.wf calmEnv hv hf).own, conStep_rst calmEnv.iss con hs.port hs.rst, hwin con hf]
      rfl

/-- For every reachable table and every packet: a duplicate changes nothing and
repeats the SYN-ACK if and only if the packet is not fragile. -/
theorem duplicate_tolerated_iff {ht : HashTable} (h : TableReachable ht) (p : Packet) :
    TwiceAsOnce ht p ↔ ¬ Fragile ht p := by
  have hw := h.inv.wf
  refine ⟨fun ht2 hfr => hfr.not_twice h.inv ht2,fun hn env env' => ?_⟩
  have hr := p.refines hw env
  have hr2 := p.refines hr.wf env'
  have hown : hashFind (p.dispatch env' (p.dispatch env ht).table).table p.seg.id =
      hashFind (p.dispatch env ht).table p.seg.id ∧ (p.dispatch env ht).edge ≠ .syn := by
    cases hv : p.valid with
    | true => exact twice_own hw hv hn env env'
    | false =>
      refine ⟨(p.refines_invalid hr.wf env' hv).own,?_⟩
      rw [(p.refines_invalid hw env hv).edge]
      exact nofun
  refine ⟨fun id => ?_,fun hsyn => absurd hsyn hown.2⟩
  by_cases hid : id = p.seg.id
  · rw [hid]
    exact hown.1
  · exact hr2.other hid

theorem duplicate_ack_tolerated : TwiceAsOnce (run tcpStep .empty [clientSyn]) clientAck.pkt := by
  refine (duplicate_tolerated_iff ⟨_,rfl⟩ clientAck.pkt).mpr fun hfr => ?_
  have hseg : clientAck.pkt.seg = ⟨clientId,byteFlags ACK,101,78,8192⟩ := crafted_seg ..
  rcases hfr.kind with ho | ⟨hs,-⟩
  · have hsyn := ho.syn
    rw [hseg] at hsyn
    exact absurd hsyn (by decide)
  · have hrst := hs.rst
    rw [hseg] at hrst
    exact absurd hrst (by decide)

/-- The retransmitted SYN of a half-open connection removes it. -/
theorem duplicate_syn_removes : TableReachable .empty ∧ (clientSyn.pkt.dispatch calmEnv .empty).edge = .syn ∧
    hashFind (clientSyn.pkt.dispatch calmEnv .empty).table clientId = some clientHalfOpen ∧
    hashFind (clientSyn.pkt.dispatch calmEnv (clientSyn.pkt.dispatch calmEnv .empty).table).table clientId = none ∧
    (clientSyn.pkt.dispatch calmEnv (clientSyn.pkt.dispatch calmEnv .empty).table).edge = .sendRst := by
  have hr := crafted_refines clientId SYN 100 0 HashTable.WF.empty calmEnv rfl
  have hr2 := crafted_refines clientId SYN 100 0 hr.wf calmEnv rfl
  have hf := hr.own
  rw [show hashFind .empty clientId = none from rfl] at hf
  rw [hf] at hr2
  rw [show clientSyn.pkt = .crafted clientId SYN 100 0 from rfl, hr.edge, hr2.own, hr2.edge, hf]
  exact ⟨Reachable.start _,by decide,by decide,by decide,by decide⟩

end LazyTcp.Refactor
