import LazyTcp.Legacy.LinkedRuns

/-! A failed allocation in the dispatcher. The null block goes through
tcp_insert_tcb and tcp_null_syn_ack before it is tested. -/
namespace LazyTcp.Legacy.Linked
open General General.Wire General.Linked

/-- The segment makes the dispatcher ask for a block: a SYN without ACK and RST
whose id is not listed. -/
structure Opens (fuel : Nat) (s : Instance) (m : Mem) (o : Nat) : Prop where
  syn : synFlag m o = true
  ack : ackFlag m o = false
  rst : rstFlag m o = false
  unlisted : tcpGetState fuel (segId m o) s = some none

/-- malloc fails: silence, and the list, its size and the packet as they were. -/
def LeftIntact (fuel : Nat) (env : Env) (s : Instance) (m : Mem) (o : Nat) : Prop :=
  tcpDispatch fuel env none s m o = some ⟨.silent,m,s⟩

section Step
variable {env : Env} {s : Instance} {l : List (Addr × TCB)} {m : Mem} {o fuel : Nat} {malloc : Option Addr}

/-- The null block is counted as the head of an empty list. -/
private theorem tcpInsertTcb_null_empty (h : s.head = none) :
    tcpInsertTcb fuel none s = some { s with size := s.size + 1 } := by
  rw [tcpInsertTcb, h]
  cases fuel <;> rfl

/-- On any other list its id is read to compare it with the first one. -/
private theorem tcpInsertTcb_null_nonempty (h : s.head ≠ none) : tcpInsertTcb fuel none s = none := by
  obtain ⟨a,ha⟩ := Option.ne_none_iff_exists'.mp h
  have hloop : insertLoop s.heap none fuel (some a) none = none := by
    cases fuel with
    | zero => rfl
    | succ fuel =>
      rw [insertLoop, Option.bind_none]
      cases s.heap a <;> rfl
  rw [tcpInsertTcb, ha, hloop]

/-- An unlisted id when malloc fails. -/
private theorem tcpDispatch_null (h : tcpGetState fuel (segId m o) s = some none) :
    tcpDispatch fuel env none s m o = if rstFlag m o then some ⟨.silent,m,s⟩
      else if synFlag m o && !ackFlag m o then none else some ⟨.ok,tcpNullRst m o,s⟩ := by
  simp only [tcpDispatch, h, tcpInitTcb]
  cases tcpInsertTcb fuel none s <;> rfl

private theorem tcpDispatch_null_cases (env : Env) (h : tcpGetState fuel (segId m o) s = some none) :
    (Opens fuel s m o ∧ tcpDispatch fuel env none s m o = none) ∨
      (¬Opens fuel s m o ∧ ∃ out, tcpDispatch fuel env none s m o = some out ∧ out.server = s) := by
  rw [tcpDispatch_null h]
  cases hrst : rstFlag m o with
  | true => exact Or.inr ⟨fun hn => Bool.false_ne_true (hn.rst.symm.trans hrst),_,rfl,rfl⟩
  | false =>
    cases hsyn : synFlag m o && !ackFlag m o with
    | true =>
      obtain ⟨hs,ha⟩ := Bool.and_eq_true_iff.mp hsyn
      exact Or.inl ⟨⟨hs,by simpa using ha,hrst,h⟩,rfl⟩
    | false =>
      refine Or.inr ⟨fun hn => ?_,_,rfl,rfl⟩
      rw [hn.syn, hn.ack] at hsyn
      cases hsyn

private theorem Opens.stuck (h : Opens fuel s m o) (env : Env) : tcpDispatch fuel env none s m o = none := by
  rcases tcpDispatch_null_cases env h.unlisted with ⟨-,hstuck⟩ | ⟨hn,-⟩
  · exact hstuck
  · exact absurd h hn

/-- Step lemma. The null block is the only thing the dispatcher gets stuck on;
else it leaves a list with at most one block more. -/
theorem tcpDispatch_cases (env : Env) (h : Rep s l) (hf : l.length ≤ fuel) (hm : ∀ a, malloc = some a → s.heap a = none)
    (m : Mem) (o : Nat) : (malloc = none ∧ Opens fuel s m o ∧ tcpDispatch fuel env malloc s m o = none) ∨
      (¬(malloc = none ∧ Opens fuel s m o) ∧
        ∃ out l', tcpDispatch fuel env malloc s m o = some out ∧ Rep out.server l' ∧ l'.length ≤ l.length + 1) := by
  cases malloc with
  | some a =>
    have halloc : { env with alloc := true }.alloc = true := rfl
    obtain ⟨out,l',hout,hle,hrep,-⟩ := tcpDispatch_simulates h hf halloc (hm a rfl) m o
    exact Or.inr ⟨fun hn => Option.some_ne_none a hn.1,out,l',hout,hrep,hle⟩
  | none =>
    cases hfind : l.find? (fun e => e.2.id = segId m o) with
    | some e =>
      obtain ⟨hid,pre,post,rfl,-⟩ := List.find?_eq_some_iff_append.mp hfind
      obtain ⟨out,l',hout,hle,hrep,-⟩ := dispatch_stored_matches env none h hf (by simpa using hid)
      refine Or.inr ⟨fun hn => ?_,out,l',hout,hrep,hle⟩
      have hget := hn.2.unlisted
      rw [tcpGetState_eq h hf, hfind] at hget
      cases hget
    | none =>
      have hget : tcpGetState fuel (segId m o) s = some none := by rw [tcpGetState_eq h hf, hfind, Option.map_none]
      rcases tcpDispatch_null_cases env hget with ⟨hopen,hstuck⟩ | ⟨hn,out,hout,hkeep⟩
      · exact Or.inl ⟨rfl,hopen,hstuck⟩
      · exact Or.inr ⟨fun hnull => hn hnull.2,out,l,hout,hkeep ▸ h,Nat.le_succ _⟩

end Step

section Runs
variable {fuel : Nat} {inputs : List Input} {s : Instance} {env : Env} {m : Mem} {o : Nat}

/-- Memory that malloc gives is not in use. -/
def Fresh (s : Option Instance) (i : Input) : Prop := i.env.alloc = true → ∀ t, s = some t → t.heap i.addr = none

/-- malloc does not fail where the dispatcher needs a block. -/
def Allocated (fuel : Nat) (s : Option Instance) (i : Input) : Prop :=
  ∀ t, s = some t → Opens fuel t i.buf i.offset → i.env.alloc = true

/-- One step of a run over a list in order. -/
private theorem linkedStep_cases {l : List (Addr × TCB)} {i : Input} (h : Rep s l) (hf : l.length ≤ fuel)
    (hfresh : Fresh (some s) i) :
    (¬Allocated fuel (some s) i ∧ linkedStep fuel (some s) i = none) ∨
      (Allocated fuel (some s) i ∧ ∃ s' l', linkedStep fuel (some s) i = some s' ∧ Rep s' l' ∧
        l'.length ≤ l.length + 1) := by
  have hm : ∀ a, (if i.env.alloc then some i.addr else none) = some a → s.heap a = none := by
    intro a ha
    split at ha
    case isTrue hok =>
      cases ha
      exact hfresh hok s rfl
    case isFalse => cases ha
  rw [linkedStep, Option.bind_some]
  rcases tcpDispatch_cases i.env h hf hm i.buf i.offset with ⟨hnull,hopen,hstuck⟩ | ⟨hok,out,l',hout,hrep,hlen⟩
  · refine Or.inl ⟨fun hall => ?_,by rw [hstuck, Option.map_none]⟩
    rw [if_pos (hall s rfl hopen)] at hnull
    cases hnull
  · refine Or.inr ⟨fun t ht hopen => ?_,out.server,l',by rw [hout, Option.map_some],hrep,hlen⟩
    cases ht
    by_contra hfail
    exact hok ⟨if_neg hfail,hopen⟩

/-- A run is alive, on a list no longer than the packets it has seen, or died
of a failed allocation. -/
private theorem run_cases (hfuel : inputs.length ≤ fuel)
    (hfresh : Along (linkedStep fuel) Fresh (some tcpInitServerInstance) inputs) :
    (Along (linkedStep fuel) (Allocated fuel) (some tcpInitServerInstance) inputs ∧
      ∃ s l, run (linkedStep fuel) (some tcpInitServerInstance) inputs = some s ∧ Rep s l ∧ l.length ≤ inputs.length) ∨
    (¬Along (linkedStep fuel) (Allocated fuel) (some tcpInitServerInstance) inputs ∧
      run (linkedStep fuel) (some tcpInitServerInstance) inputs = none) := by
  induction inputs using List.reverseRecOn with
  | nil => exact Or.inl ⟨trivial,_,[],rfl,.init,Nat.le_refl _⟩
  | append_singleton inputs i ih =>
    rw [List.length_append, List.length_singleton] at hfuel ⊢
    rw [Along.append] at hfresh
    rw [run_snoc, Along.append]
    rcases ih (by omega) hfresh.1 with ⟨halloc,s,l,hs,hrep,hlen⟩ | ⟨hdied,hs⟩
    · rw [hs] at hfresh ⊢
      have hf : l.length ≤ fuel := by omega
      rcases linkedStep_cases hrep hf hfresh.2.1 with ⟨hfail,hstep⟩ | ⟨hok,s',l',hstep,hrep',hlen'⟩
      · exact Or.inr ⟨fun hall => hfail hall.2.1,hstep⟩
      · exact Or.inl ⟨⟨halloc,hok,trivial⟩,s',l',hstep,hrep',by omega⟩
    · exact Or.inr ⟨fun hall => hdied hall.1,by rw [hs]; rfl⟩

/-- A run goes on exactly as long as no allocation that it needs fails. -/
theorem alive_iff_allocated (hfuel : inputs.length ≤ fuel)
    (hfresh : Along (linkedStep fuel) Fresh (some tcpInitServerInstance) inputs) :
    run (linkedStep fuel) (some tcpInitServerInstance) inputs ≠ none ↔
      Along (linkedStep fuel) (Allocated fuel) (some tcpInitServerInstance) inputs := by
  rcases run_cases hfuel hfresh with ⟨halloc,s,l,hs,-⟩ | ⟨hdied,hs⟩
  · simp [hs, halloc]
  · simp [hs, hdied]

/-- For every list a run reaches and every segment that needs a block: when the
allocation fails the server is not left intact. On an empty list the null block
is counted and then written to; on any other its id is read. With memory the
dispatcher returns. -/
theorem failedAllocation_fatal (hfuel : inputs.length ≤ fuel)
    (hfresh : Along (linkedStep fuel) Fresh (some tcpInitServerInstance) inputs)
    (hs : run (linkedStep fuel) (some tcpInitServerInstance) inputs = some s) (h : Opens fuel s m o) :
    ¬LeftIntact fuel env s m o ∧ tcpDispatch fuel env none s m o = none ∧
      (s.head = none → tcpInsertTcb fuel none s = some { s with size := s.size + 1 }) ∧
      (s.head ≠ none → tcpInsertTcb fuel none s = none) ∧
      ∀ a, s.heap a = none → ∃ out, tcpDispatch fuel env (some a) s m o = some out := by
  have hstuck : tcpDispatch fuel env none s m o = none := h.stuck env
  refine ⟨fun hleft => ?_,hstuck,tcpInsertTcb_null_empty,tcpInsertTcb_null_nonempty,fun a ha => ?_⟩
  · cases hstuck.symm.trans hleft
  · rcases run_cases hfuel hfresh with ⟨-,t,l,ht,hrep,hlen⟩ | ⟨-,hdead⟩
    · cases hs.symm.trans ht
      have hm : ∀ b, some a = some b → s.heap b = none := fun b hb => Option.some.inj hb ▸ ha
      rcases tcpDispatch_cases env hrep (hlen.trans hfuel) hm m o with ⟨hnull,-⟩ | ⟨-,out,l',hout,-⟩
      · cases hnull
      · exact ⟨out,hout⟩
    · cases hs.symm.trans hdead

end Runs

/-- The client's SYN, and the SYN of another port of the same host. -/
private def clientSyn : Mem := craft clientId SYN 100 0 []
private def otherSyn : Mem := craft { clientId with srcPort := htons 5001 } SYN 100 0 []

/-- The client's SYN gets a block at address 64. -/
private def clientInput : Input := ⟨clientSyn,20,⟨77,true,.missing⟩,64⟩
private def noMemory : Env := ⟨77,false,.missing⟩

private theorem clientSyn_opens : Opens 0 tcpInitServerInstance clientSyn 20 :=
  ⟨by decide +kernel,by decide +kernel,by decide +kernel,rfl⟩

private theorem otherSyn_opens : ∃ s, run (linkedStep 1) (some tcpInitServerInstance) [clientInput] = some s ∧
    s.head ≠ none ∧ Opens 1 s otherSyn 20 := by
  have hlisted : (run (linkedStep 1) (some tcpInitServerInstance) [clientInput]).map
      (fun s => (s.head,tcpGetState 1 (segId otherSyn 20) s)) = some (some 64,some none) := by
    decide +kernel
  obtain ⟨s,hs,hlookup⟩ := Option.map_eq_some_iff.mp hlisted
  obtain ⟨hhead,hget⟩ := Prod.mk.inj hlookup
  exact ⟨s,hs,by rw [hhead]; exact Option.some_ne_none 64,by decide +kernel,by decide +kernel,by decide +kernel,hget⟩

/-- The first SYN a server gets, and one after another connection was listed. -/
theorem failedAllocation_fatal_syns : ¬LeftIntact 0 noMemory tcpInitServerInstance clientSyn 20 ∧
    ∃ s, s.head ≠ none ∧ ¬LeftIntact 1 noMemory s otherSyn 20 := by
  obtain ⟨s,hs,hhead,hopen⟩ := otherSyn_opens
  have hfresh : Along (linkedStep 1) Fresh (some tcpInitServerInstance) [clientInput] :=
    ⟨fun _ _ ht => by cases ht; rfl,trivial⟩
  have hstart : Along (linkedStep 0) Fresh (some tcpInitServerInstance) [] := trivial
  exact ⟨(failedAllocation_fatal (Nat.le_refl 0) hstart rfl clientSyn_opens).1,s,hhead,
    (failedAllocation_fatal (Nat.le_refl 1) hfresh hs hopen).1⟩

/-- The first SYN: the dispatcher dies on the null block, which was counted. -/
theorem nullBlock_first_syn : Opens 0 tcpInitServerInstance clientSyn 20 ∧
    ¬LeftIntact 0 noMemory tcpInitServerInstance clientSyn 20 ∧
    tcpDispatch 0 noMemory none tcpInitServerInstance clientSyn 20 = none ∧
    tcpInsertTcb 0 none tcpInitServerInstance = some { tcpInitServerInstance with size := 1 } := by
  have hstuck : tcpDispatch 0 noMemory none tcpInitServerInstance clientSyn 20 = none :=
    clientSyn_opens.stuck noMemory
  refine ⟨clientSyn_opens,fun hleft => ?_,hstuck,tcpInsertTcb_null_empty rfl⟩
  cases hstuck.symm.trans hleft

end LazyTcp.Legacy.Linked
