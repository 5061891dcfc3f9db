import LazyTcp.General.Run
import Mathlib.Order.Filter.AtTopBot.Basic

/-! Infinite schedules of a deterministic step function. Liveness is proved with
helpful inputs: a state that only a helpful input can leave for something else
than the goal is left for the goal, since the schedule offers that input again. -/
namespace LazyTcp.General
variable {σ ι : Type*} {step : σ → ι → σ}

/-- The state the schedule has reached after t steps. -/
def trace (step : σ → ι → σ) (s : σ) (sched : Nat → ι) (t : Nat) : σ := run step s ((List.range t).map sched)

/-- However far the schedule got, an input of this kind is still to come. -/
def Often (sched : Nat → ι) (kind : ι → Prop) : Prop := ∀ t, ∃ u, t ≤ u ∧ kind (sched u)

/-- From wherever P holds the schedule goes on to a state where Q does. -/
def LeadsTo (step : σ → ι → σ) (s : σ) (sched : Nat → ι) (P Q : σ → Prop) : Prop :=
  ∀ t, P (trace step s sched t) → ∃ u, t ≤ u ∧ Q (trace step s sched u)

variable {s : σ} {sched : Nat → ι} {P Q R : σ → Prop}

@[simp] theorem trace_zero : trace step s sched 0 = s := rfl

theorem trace_succ (t : Nat) : trace step s sched (t+1) = step (trace step s sched t) (sched t) := by
  rw [trace, List.range_succ, List.map_append, List.map_singleton, run_snoc, trace]

theorem trace_reachable (t : Nat) : Reachable step s (trace step s sched t) := ⟨_,rfl⟩

/-- What no step ends holds for good. -/
theorem trace_stable {t u : Nat} (hs : ∀ v, t ≤ v → P (trace step s sched v) → P (step (trace step s sched v) (sched v)))
    (h : P (trace step s sched t)) (hle : t ≤ u) : P (trace step s sched u) := by
  induction u, hle using Nat.le_induction with
  | base => exact h
  | succ v hv ih =>
    rw [trace_succ]
    exact hs v hv ih

theorem trace_add (t u : Nat) :
    trace step s sched (t+u) = trace step (trace step s sched t) (fun v => sched (t+v)) u := by
  induction u with
  | zero => rfl
  | succ u ih => rw [← Nat.add_assoc, trace_succ, ih, trace_succ]

theorem Often.shift {k : ι → Prop} (h : Often sched k) (t : Nat) : Often (fun u => sched (t+u)) k := by
  intro u
  obtain ⟨v,hv,hi⟩ := h (t+u)
  refine ⟨v-t,by omega,?_⟩
  show k (sched (t + (v-t)))
  rwa [Nat.add_sub_cancel' (by omega)]

theorem Often.congr {k : ι → Prop} {sched' : Nat → ι} (h : Often sched k) {n : Nat}
    (he : ∀ u, n ≤ u → sched' u = sched u) : Often sched' k := by
  intro t
  obtain ⟨u,hu,hk⟩ := h (max n t)
  refine ⟨u,Nat.le_trans (Nat.le_max_right n t) hu,?_⟩
  rwa [he u (Nat.le_trans (Nat.le_max_left n t) hu)]

namespace LeadsTo

theorem of_imp (h : ∀ s, P s → Q s) : LeadsTo step s sched P Q := fun t ht => ⟨t,Nat.le_refl t,h _ ht⟩

theorem trans (hpq : LeadsTo step s sched P Q) (hqr : LeadsTo step s sched Q R) : LeadsTo step s sched P R := by
  intro t ht
  obtain ⟨u,hu,hq⟩ := hpq t ht
  obtain ⟨v,hv,hr⟩ := hqr u hq
  exact ⟨v,Nat.le_trans hu hv,hr⟩

theorem or (hp : LeadsTo step s sched P R) (hq : LeadsTo step s sched Q R) :
    LeadsTo step s sched (fun s => P s ∨ Q s) R := fun t ht => ht.elim (hp t) (hq t)

theorem exists_ {κ : Type*} {P : κ → σ → Prop} (h : ∀ k, LeadsTo step s sched (P k) R) :
    LeadsTo step s sched (fun s => ∃ k, P k s) R := fun t ⟨k,hk⟩ => h k t hk

theorem keep (h : LeadsTo step s sched P Q) (hs : ∀ s u, P s → P (step s (sched u))) :
    LeadsTo step s sched P fun s => P s ∧ Q s := by
  intro t ht
  obtain ⟨u,hu,hq⟩ := h t ht
  exact ⟨u,hu,trace_stable (fun v _ => hs _ v) ht hu,hq⟩

/-- Helpful-input rule. -/
theorem of_helpful {k : ι → Prop} (hstay : ∀ s u, P s → P (step s (sched u)) ∨ Q (step s (sched u)))
    (hhelp : ∀ s i, P s → k i → Q (step s i)) (hoften : Often sched k) : LeadsTo step s sched P Q := by
  intro t ht
  obtain ⟨u,hu,hk⟩ := hoften t
  have hreach : P (trace step s sched u) ∨ ∃ v, t ≤ v ∧ Q (trace step s sched v) := by
    clear hk
    induction u, hu using Nat.le_induction with
    | base => exact Or.inl ht
    | succ u hu ih =>
      rcases ih with hp | hq
      · rcases hstay _ u hp with hp' | hq'
        · rw [trace_succ]
          exact Or.inl hp'
        · exact Or.inr ⟨u+1,by omega,by rw [trace_succ]; exact hq'⟩
      · exact Or.inr hq
  rcases hreach with hp | hq
  · exact ⟨u+1,by omega,by rw [trace_succ]; exact hhelp _ _ hp hk⟩
  · exact hq

/-- Counting rule: a count that goes up from wherever it is short gets there. -/
theorem of_count {count : σ → Nat} {n : Nat} (hs : ∀ s u, P s → P (step s (sched u)))
    (hup : ∀ k, k < n → LeadsTo step s sched (fun s => P s ∧ count s = k) fun s => k < count s) :
    LeadsTo step s sched P fun s => n ≤ count s := by
  intro t ht
  suffices hall : ∀ k, k ≤ n → ∃ u, t ≤ u ∧ k ≤ count (trace step s sched u) from hall n (Nat.le_refl n)
  intro k hk
  induction k with
  | zero => exact ⟨t,Nat.le_refl t,Nat.zero_le _⟩
  | succ k ih =>
    obtain ⟨u,hu,hc⟩ := ih (by omega)
    rcases Nat.lt_or_eq_of_le hc with hlt | heq
    · exact ⟨u,hu,hlt⟩
    · have hp : P (trace step s sched u) := trace_stable (fun v _ => hs _ v) ht hu
      obtain ⟨v,hv,hlt⟩ := hup k (by omega) u ⟨hp,heq.symm⟩
      exact ⟨v,Nat.le_trans hu hv,hlt⟩

/-- A goal that no step undoes holds from some point on. -/
theorem eventually (h : LeadsTo step s sched P Q) (hs : ∀ s u, Q s → Q (step s (sched u))) (hp : P s) :
    ∀ᶠ u in Filter.atTop, Q (trace step s sched u) := by
  obtain ⟨t,-,hq⟩ := h 0 hp
  exact Filter.eventually_atTop.mpr ⟨t,fun u hu => trace_stable (fun v _ => hs _ v) hq hu⟩

end LeadsTo
end LazyTcp.General
