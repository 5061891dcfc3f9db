import LazyTcp.Refactor.Demux
import LazyTcp.Refactor.Replies

/-! Which segments are answered in which state, which ones have no effect at all,
and the dispatcher on both. -/
namespace LazyTcp.Refactor
open General General.Wire

/-- State of a stored connection; an unknown one is classified as closed. -/
def stateOf (con : Option TCB) : ConState := con.elim .closed TCB.state

/-- The segments that are answered in a state: any to another port, and without
RST every one on a closed block, all but plain ACKs on a half-open one and SYNs
on an established one. -/
def Answered (state : ConState) (s : Segment) : Prop :=
  s.id.dstPort ≠ TCP_LISTEN_PORT ∨ (s.flags.rst = false ∧
    (state = .closed ∨ (state = .synReceived ∧ (s.flags.ack && !s.flags.syn) = false) ∨
      (state = .established ∧ s.flags.syn = true)))

/-- The segments that change nothing and are not answered. -/
def Ignored (con : Option TCB) (s : Segment) : Prop :=
  s.id.dstPort = TCP_LISTEN_PORT ∧ match con with
    | none => s.flags.rst = true ∧ s.seq.toNat < TCP_WIN_DEF.toNat
    | some con => (s.flags.rst = true ∧ inWindow s.seq con.recv = false) ∨
        (s.flags.rst = false ∧ ((con.state = .established ∧ s.flags.syn = false) ∨
          (con.state = .synReceived ∧ s.flags.ack = true ∧ s.flags.syn = false ∧ s.ack ≠ con.send.next)))

theorem ignored_window (con : Option TCB) (s : Segment) (w : U16) :
    Ignored con { s with window := w } ↔ Ignored con s := Iff.rfl

section Machine
variable {iss : U32} {s : Segment}

/-- An answered step is on an answered segment. -/
private theorem conStep_answered (con : TCB) (h : (conStep iss s con).1 = .syn ∨ (conStep iss s con).1 = .sendRst) :
    Answered con.state s := by
  have hstep := conStep_transition iss s con
  generalize conStep iss s con = r at hstep h
  cases hstep with
  | refuse hp => exact Or.inl hp
  | opening _ hr hc | unknown _ hr hc => exact Or.inr ⟨hr,Or.inl hc⟩
  | abort _ hr hc hf => exact Or.inr ⟨hr,Or.inr (Or.inl ⟨hc,hf⟩)⟩
  | synOnOpen _ hr hc hs => exact Or.inr ⟨hr,Or.inr (Or.inr ⟨hc,hs⟩)⟩
  | reset | ignoreReset | establish | badAck | payload | unused => rcases h with h | h <;> cases h

theorem dispatchCon_answered {valid fresh : Bool} {con : Option TCB} {r : Edge × Option TCB}
    (hr : dispatchCon valid fresh iss s con = r) (h : r.1 = .syn ∨ r.1 = .sendRst) :
    valid = true ∧ Answered (stateOf con) s := by
  subst hr
  rcases dispatchCon_cases fresh iss s valid con with hd | ⟨hv,c,hc,hd⟩ <;> rw [hd] at h
  · rcases h with e | e <;> cases e
  · refine ⟨hv,?_⟩
    rcases hc with rfl | ⟨rfl,rfl⟩
    · exact conStep_answered c h
    · exact conStep_answered (tcbInit s.id) h

/-- On an answered segment the step is a SYN-ACK with its block or a reset. -/
private theorem answered_conStep (iss : U32) {con : TCB} (h : Answered con.state s) :
    (∃ t, conStep iss s con = (.syn,some t)) ∨ conStep iss s con = (.sendRst,none) := by
  have hstep := conStep_transition iss s con
  generalize conStep iss s con = r at hstep
  cases hstep with
  | refuse | unknown | abort | synOnOpen => exact Or.inr rfl
  | opening => exact Or.inl ⟨_,rfl⟩
  | reset hp hr | ignoreReset hp hr => simp [Answered, hp, hr] at h
  | establish hp hr hc ha hs | badAck hp hr hc ha hs => simp [Answered, hp, hr, hc, ha, hs] at h
  | payload hp hr hc hs => simp [Answered, hp, hr, hc, hs] at h
  | unused hp hr h1 h2 h3 => simp [Answered, hp, hr, h1, h2, h3] at h

/-- An ignored segment neither changes its block nor is answered. -/
private theorem conStep_ignored {con : TCB} (h : Ignored (some con) s) :
    (conStep iss s con).2 = some con ∧ (conStep iss s con).1 ≠ .syn ∧ (conStep iss s con).1 ≠ .sendRst := by
  obtain ⟨hp,h⟩ := h
  have hstep := conStep_transition iss s con
  generalize conStep iss s con = r at hstep
  cases hstep with
  | refuse hne => exact absurd hp hne
  | ignoreReset | badAck | payload | unused => exact ⟨rfl,nofun,nofun⟩
  | reset _ hr hw => simp [hr, hw] at h
  | opening _ hr hc | unknown _ hr hc => simp [hr, hc] at h
  | establish _ hr hc _ _ hack => simp [hr, hc, hack] at h
  | abort _ hr hc hf => simp_all
  | synOnOpen _ hr hc hs => simp [hr, hc, hs] at h

private theorem conStep_ignored_init (h : Ignored none s) : conStep iss s (tcbInit s.id) = (.rst,none) := by
  obtain ⟨hp,hr,hseq⟩ := h
  have hw : inWindow s.seq (tcbInit s.id).recv = true := by
    rw [inWindow_init]
    exact decide_eq_true hseq
  rw [conStep_rst iss _ hp hr, hw]
  rfl

private theorem dispatchCon_ignored {valid fresh : Bool} {con : Option TCB} {r : Edge × Option TCB}
    (hr : dispatchCon valid fresh iss s con = r) (h : valid = true → Ignored con s) :
    r.2 = con ∧ r.1 ≠ .syn ∧ r.1 ≠ .sendRst := by
  subst hr
  cases valid with
  | false => exact ⟨rfl,nofun,nofun⟩
  | true =>
    cases con with
    | some con => exact conStep_ignored (h rfl)
    | none =>
      rw [dispatchCon_absent, conStep_ignored_init (h rfl)]
      split <;> exact ⟨rfl,nofun,nofun⟩

/-- A stored block that a segment leaves alone without an answer was ignored. -/
private theorem ignored_of_conStep {con : TCB} (hc : ConInv con) (hid : con.id = s.id)
    (hs : (conStep iss s con).2 = some con) (h1 : (conStep iss s con).1 ≠ .syn)
    (h2 : (conStep iss s con).1 ≠ .sendRst) : Ignored (some con) s := by
  refine ⟨hid ▸ hc.port,?_⟩
  have hsound := hc.sound
  have hstep := conStep_transition iss s con
  generalize conStep iss s con = r at hstep hs h1 h2
  cases hstep with
  | refuse | unknown | abort | synOnOpen => exact absurd rfl h2
  | opening => exact absurd rfl h1
  | reset => cases hs
  | ignoreReset _ hr hw => exact Or.inl ⟨hr,hw⟩
  | badAck _ hr hst ha hsyn hne => exact Or.inr ⟨hr,Or.inr ⟨hst,ha,hsyn,hne⟩⟩
  | payload _ hr hst hsyn => exact Or.inr ⟨hr,Or.inl ⟨hst,hsyn⟩⟩
  | establish _ _ hst =>
    have := congrArg TCB.state (Option.some.inj hs)
    rw [hst] at this
    cases this
  | unused _ _ n1 n2 n3 =>
    unfold Sound at hsound
    cases hst : con.state <;> simp_all

private theorem ignored_of_conStep_init (hs : (conStep iss s (tcbInit s.id)).2 = none)
    (h2 : (conStep iss s (tcbInit s.id)).1 ≠ .sendRst) : Ignored none s := by
  have hstep := conStep_transition iss s (tcbInit s.id)
  generalize conStep iss s (tcbInit s.id) = r at hstep hs h2
  cases hstep with
  | refuse | unknown | abort | synOnOpen => exact absurd rfl h2
  | ignoreReset | opening | establish | badAck | payload | unused => cases hs
  | reset hp hr hw =>
    rw [inWindow_init] at hw
    exact ⟨hp,hr,of_decide_eq_true hw⟩

end Machine

section Quiet
variable {ht : HashTable} {m : Mem} {len o : Nat}

/-- A segment with a bad checksum or that is ignored has no effect at all. -/
theorem tcpDispatch_quiet (h : ht.WF) (env : Env)
    (hq : checksumOk m len o = true → Ignored (hashFind ht (segId m o)) (segment m o)) :
    (tcpDispatch env ht m len o).ret = 0 ∧
      ∀ id, hashFind (tcpDispatch env ht m len o).table id = hashFind ht id := by
  have href := tcpDispatch_refines h env m len o
  generalize hr : dispatchCon (checksumOk m len o) (freshBlock env.allocs ht (segId m o)) env.iss (segment m o)
    (hashFind ht (segId m o)) = r at href
  obtain ⟨hown,h1,h2⟩ := dispatchCon_ignored hr hq
  refine ⟨congrArg Prod.fst (href.reply.trans (replyOf_silent h1 h2 _ _ _)),fun id => ?_⟩
  by_cases hid : id = segId m o
  · rw [hid, href.own, hown]
  · exact href.other hid

/-- The reply on an answered segment is as long as the header fields say and
leaves the bytes past the rewritten header. -/
private theorem replyOf_answered {s : Segment} {con : TCB} (ha : Answered con.state s) (iss : U32) (stale : Stale)
    (m : Mem) (len : Nat) (ho : 20 ≤ o) {r : Edge × Option TCB} (hr : conStep iss s con = r) :
    (replyOf stale r m len o).1 = ihlBytes m + tcpHlen m o ∧
      ∀ j, o + 20 ≤ j → (replyOf stale r m len o).2 j = m j := by
  rcases answered_conStep iss ha with ⟨t,e⟩ | e <;> rw [← hr, e]
  · exact ⟨tcpSynAck_len _ _ _ ho,fun j hj => tcpSynAck_tail _ _ _ ho hj⟩
  · exact ⟨rstReply_len _ _,fun j hj => rstReply_tail _ _ ho hj⟩

/-- With allocations succeeding, an answered segment with a good checksum gets
a reply as long as its header fields say, with its own bytes past the header. -/
theorem tcpDispatch_answered (h : ht.WF) (ho : 20 ≤ o) (hv : checksumOk m len o = true)
    (ha : Answered (stateOf (hashFind ht (segId m o))) (segment m o)) :
    (tcpDispatch calmEnv ht m len o).ret = ihlBytes m + tcpHlen m o ∧
      ∀ j, o + 20 ≤ j → (tcpDispatch calmEnv ht m len o).buf j = m j := by
  have href := tcpDispatch_refines h calmEnv m len o
  rw [hv, freshBlock_succeed (a := calmEnv.allocs) rfl] at href
  have hcon : ∃ con : TCB, Answered con.state (segment m o) ∧ dispatchCon true true calmEnv.iss (segment m o)
      (hashFind ht (segId m o)) = conStep calmEnv.iss (segment m o) con := by
    cases hf : hashFind ht (segId m o) with
    | some con => exact ⟨con,by rwa [hf] at ha,rfl⟩
    | none => exact ⟨tcbInit (segId m o),by rwa [hf] at ha,rfl⟩
  obtain ⟨con,ha,hd⟩ := hcon
  generalize hr : dispatchCon true true calmEnv.iss (segment m o) (hashFind ht (segId m o)) = r at href
  have hreply := replyOf_answered ha calmEnv.iss calmEnv.stale m len ho (hd.symm.trans hr)
  rw [← href.reply] at hreply
  exact hreply

/-- Conversely, on a reachable table a segment with a good checksum and no effect was ignored. -/
theorem ignored_of_quiet (h : TableInv ht) (ho : 20 ≤ o) (hihl : 20 ≤ ihlBytes m)
    (hv : checksumOk m len o = true) (hret : (tcpDispatch calmEnv ht m len o).ret = 0)
    (hfind : ∀ id, hashFind (tcpDispatch calmEnv ht m len o).table id = hashFind ht id) :
    Ignored (hashFind ht (segId m o)) (segment m o) := by
  have hna : ¬ Answered (stateOf (hashFind ht (segId m o))) (segment m o) := by
    intro ha
    have := (tcpDispatch_answered h.wf ho hv ha).1
    omega
  have href := tcpDispatch_refines h.wf calmEnv m len o
  rw [hv, freshBlock_succeed (a := calmEnv.allocs) rfl] at href
  have hown := href.own.symm.trans (hfind (segId m o))
  cases hf : hashFind ht (segId m o) with
  | some con =>
    obtain ⟨hinv,hid⟩ := h.con _ _ hf
    rw [hf, dispatchCon_stored] at hown
    rw [hf] at hna
    exact ignored_of_conStep hinv hid hown (fun e => hna (conStep_answered con (Or.inl e)))
      fun e => hna (conStep_answered con (Or.inr e))
  | none =>
    rw [hf, dispatchCon_absent, if_pos rfl] at hown
    rw [hf] at hna
    exact ignored_of_conStep_init hown fun e => hna (conStep_answered (tcbInit (segId m o)) (Or.inr e))

end Quiet

end LazyTcp.Refactor
