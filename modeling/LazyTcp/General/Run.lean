import Mathlib.Data.List.Induction

/-! Runs of a deterministic step function over finite input lists, with the
invariant and history rules that whole-run results are derived from. -/
namespace LazyTcp.General
variable {σ ι : Type*} (step : σ → ι → σ)

def run (s : σ) (inputs : List ι) : σ := inputs.foldl step s

def Reachable (start s : σ) : Prop := ∃ inputs, run step start inputs = s

/-- Every step of the run meets the condition at the state it is taken from. -/
def Along (C : σ → ι → Prop) : σ → List ι → Prop
  | _, [] => True
  | s, i :: inputs => C s i ∧ Along C (step s i) inputs

instance Along.decidable (C : σ → ι → Prop) [∀ s i, Decidable (C s i)] :
    (s : σ) → (inputs : List ι) → Decidable (Along step C s inputs)
  | _, [] => .isTrue trivial
  | s, i :: inputs =>
    have : Decidable (Along step C (step s i) inputs) := Along.decidable C (step s i) inputs
    inferInstanceAs (Decidable (C s i ∧ Along step C (step s i) inputs))

variable {step}

@[simp] theorem run_nil (s : σ) : run step s [] = s := rfl

@[simp] theorem run_cons (s : σ) (i : ι) (inputs : List ι) :
    run step s (i :: inputs) = run step (step s i) inputs := rfl

theorem run_append (s : σ) (first second : List ι) :
    run step s (first ++ second) = run step (run step s first) second :=
  List.foldl_append

theorem run_snoc (s : σ) (inputs : List ι) (i : ι) :
    run step s (inputs ++ [i]) = step (run step s inputs) i := by
  rw [run_append, run_cons, run_nil]

theorem Reachable.start (s : σ) : Reachable step s s := ⟨[],rfl⟩

theorem Reachable.invariant {P : σ → Prop} {s₀ s : σ} (h : Reachable step s₀ s) (h₀ : P s₀)
    (hs : ∀ s i, P s → P (step s i)) : P s := by
  obtain ⟨inputs,rfl⟩ := h
  induction inputs using List.reverseRecOn with
  | nil => exact h₀
  | append_singleton inputs i ih =>
    rw [run_snoc]
    exact hs _ i ih

/-- History rule: the invariant may speak about the inputs consumed so far. -/
theorem run_history {P : List ι → σ → Prop} {s₀ : σ} (h₀ : P [] s₀)
    (hs : ∀ inputs i, P inputs (run step s₀ inputs) →
      P (inputs ++ [i]) (step (run step s₀ inputs) i)) (inputs : List ι) :
    P inputs (run step s₀ inputs) := by
  induction inputs using List.reverseRecOn with
  | nil => exact h₀
  | append_singleton inputs i ih =>
    rw [run_snoc]
    exact hs inputs i ih

section Lockstep
variable {ω : Type*} {out : σ → ι → ω}

/-- What a run shows: the output of each step at the state it is taken from. -/
def shown (step : σ → ι → σ) (out : σ → ι → ω) : σ → List ι → List ω
  | _, [] => []
  | s, i :: inputs => out s i :: shown step out (step s i) inputs

/-- Lockstep rule: related states that show the same on every input and step to
related states are never told apart. -/
theorem run_related {R : σ → σ → Prop} (hs : ∀ s s' i, R s s' → out s i = out s' i ∧ R (step s i) (step s' i))
    {s s' : σ} (h : R s s') (inputs : List ι) :
    shown step out s inputs = shown step out s' inputs ∧ R (run step s inputs) (run step s' inputs) := by
  induction inputs generalizing s s' with
  | nil => exact ⟨rfl,h⟩
  | cons i inputs ih =>
    obtain ⟨ho,hn⟩ := hs s s' i h
    obtain ⟨hi,hr⟩ := ih hn
    exact ⟨by rw [shown, shown, ho, hi],hr⟩

end Lockstep

theorem Along.append {C : σ → ι → Prop} {s : σ} {first second : List ι} :
    Along step C s (first ++ second) ↔ Along step C s first ∧ Along step C (run step s first) second := by
  induction first generalizing s with
  | nil => simp [Along]
  | cons i first ih => simp only [List.cons_append, Along, ih, run_cons, and_assoc]

/-- A condition holds along a run when it holds wherever the run takes a step. -/
theorem along_iff {C : σ → ι → Prop} {s : σ} {inputs : List ι} :
    Along step C s inputs ↔ ∀ pre i, pre ++ [i] <+: inputs → C (run step s pre) i := by
  constructor
  · rintro h pre i ⟨rest,rfl⟩
    rw [Along.append, Along.append] at h
    exact h.1.2.1
  · intro h
    induction inputs using List.reverseRecOn with
    | nil => exact trivial
    | append_singleton inputs i ih =>
      have hpre := List.prefix_append inputs [i]
      exact Along.append.mpr ⟨ih fun pre j hp => h pre j (hp.trans hpre),h inputs i List.prefix_rfl,trivial⟩

/-- Exactness rule: when a step keeps the property exactly where it meets the
condition, the property holds all along the run exactly when every step does. -/
theorem along_iff_prefix {C : σ → ι → Prop} {P : σ → Prop} (hs : ∀ s i, P s → (P (step s i) ↔ C s i)) {s : σ}
    (h : P s) (inputs : List ι) : (∀ pre, pre <+: inputs → P (run step s pre)) ↔ Along step C s inputs := by
  induction inputs generalizing s with
  | nil =>
    refine ⟨fun _ => trivial,fun _ pre hp => ?_⟩
    rw [List.prefix_nil.mp hp]
    exact h
  | cons i inputs ih =>
    constructor
    · intro hall
      have hi : P (step s i) := hall [i] (List.prefix_append [i] inputs)
      refine ⟨(hs s i h).mp hi,(ih hi).mp fun pre hp => ?_⟩
      exact hall (i :: pre) (List.cons_prefix_cons.mpr ⟨rfl,hp⟩)
    · rintro ⟨hc,hrest⟩ pre hp
      rcases List.prefix_cons_iff.mp hp with rfl | ⟨rest,rfl,hp'⟩
      · exact h
      · exact (ih ((hs s i h).mpr hc)).mpr hrest rest hp'

/-- History rule for runs whose steps all meet a condition. -/
theorem Along.history {C : σ → ι → Prop} {P : List ι → σ → Prop} {s₀ : σ} (h₀ : P [] s₀)
    (hs : ∀ inputs i, P inputs (run step s₀ inputs) → C (run step s₀ inputs) i →
      P (inputs ++ [i]) (step (run step s₀ inputs) i))
    {inputs : List ι} (hC : Along step C s₀ inputs) : P inputs (run step s₀ inputs) := by
  induction inputs using List.reverseRecOn with
  | nil => exact h₀
  | append_singleton inputs i ih =>
    rw [Along.append] at hC
    rw [run_snoc]
    exact hs inputs i (ih hC.1) hC.2.1

end LazyTcp.General
