import Mathlib.Data.List.Induction
import Mathlib.Logic.Function.Basic

/-! Bounded queues. A step is read off what its callers see of it; what was
handed out and what is queued is then always what was accepted, in order. The
queue in the first cells of an array appends behind the last one and removes
the first by moving the others down in place. -/
namespace LazyTcp.General.Fifo
variable {α : Type*}

/-- What the callers of a queue see of one step. -/
inductive Observation (α : Type*) where
  | accepted (x : α)
  | refused (x : α)
  | handed (x : α)
  | quiet
  deriving DecidableEq, Repr

def accepted (log : List (Observation α)) : List α :=
  log.filterMap fun | .accepted x => some x | _ => none

def handed (log : List (Observation α)) : List α :=
  log.filterMap fun | .handed x => some x | _ => none

theorem handed_append (first second : List (Observation α)) : handed (first ++ second) = handed first ++ handed second :=
  List.filterMap_append

theorem accepted_append (first second : List (Observation α)) :
    accepted (first ++ second) = accepted first ++ accepted second :=
  List.filterMap_append

/-- A step of a queue of at most bound entries; it refuses only when full. -/
def Step (bound : Nat) (q : List α) : Observation α → List α → Prop
  | .accepted x, q' => q.length < bound ∧ q' = q ++ [x]
  | .refused _, q' => q.length = bound ∧ q' = q
  | .handed x, q' => q = x :: q'
  | .quiet, q' => q' = q

/-- A queue within its bound that holds what was accepted and not yet handed out. -/
structure Conserves (bound : Nat) (log : List (Observation α)) (q : List α) : Prop where
  exact : handed log ++ q = accepted log
  within : q.length ≤ bound

theorem Conserves.start (bound : Nat) : Conserves (α := α) bound [] [] := ⟨rfl,Nat.zero_le _⟩

/-- Step lemma: no entry is lost, duplicated or overtaken. -/
theorem Conserves.step {bound : Nat} {log : List (Observation α)} {q q' : List α} {obs : Observation α}
    (h : Conserves bound log q) (hs : Step bound q obs q') : Conserves bound (log ++ [obs]) q' := by
  obtain ⟨hexact,hwithin⟩ := h
  unfold handed accepted at hexact
  cases obs with
  | accepted x =>
    obtain ⟨hlt,rfl⟩ := hs
    refine ⟨?_,by rw [List.length_append]; exact hlt⟩
    simp [handed, accepted, ← hexact]
  | refused x =>
    obtain ⟨-,rfl⟩ := hs
    refine ⟨?_,hwithin⟩
    simp [handed, accepted, hexact]
  | handed x =>
    cases hs
    refine ⟨?_,Nat.le_of_succ_le hwithin⟩
    simp [handed, accepted, ← hexact]
  | quiet =>
    cases hs
    refine ⟨?_,hwithin⟩
    simp [handed, accepted, hexact]

section Array
variable (a : Nat → α)

/-- The first n cells of an array. -/
def cells (n : Nat) : List α := (List.range n).map a

/-- Move n cells down by one, from cell i on. -/
def shiftDown (a : Nat → α) (i : Nat) : Nat → Nat → α
  | 0 => a
  | n+1 => shiftDown (Function.update a i (a (i+1))) (i+1) n

@[simp] theorem cells_length (n : Nat) : (cells a n).length = n := by simp [cells]

theorem cells_congr {a b : Nat → α} {n : Nat} (h : ∀ k, k < n → a k = b k) : cells a n = cells b n :=
  List.map_congr_left fun k hk => h k (List.mem_range.mp hk)

theorem cells_snoc (n : Nat) (x : α) : cells (Function.update a n x) (n+1) = cells a n ++ [x] := by
  have hrest : cells (Function.update a n x) n = cells a n :=
    cells_congr fun k hk => Function.update_of_ne (by omega) _ _
  rw [cells, List.range_succ, List.map_append, List.map_singleton, Function.update_self]
  exact congrArg (· ++ [x]) hrest

/-- The loop overwrites a cell only after its old value was moved. -/
theorem shiftDown_apply (a : Nat → α) (i n j : Nat) :
    shiftDown a i n j = if i ≤ j ∧ j < i + n then a (j+1) else a j := by
  induction n generalizing a i with
  | zero => rw [shiftDown, if_neg (by omega)]
  | succ n ih =>
    rw [shiftDown, ih]
    rcases Nat.lt_trichotomy j i with hj | rfl | hj
    · rw [if_neg (by omega), if_neg (by omega), Function.update_of_ne (by omega)]
    · rw [if_neg (by omega), if_pos (by omega), Function.update_self]
    · rw [Function.update_of_ne (by omega), Function.update_of_ne (by omega)]
      refine if_congr ?_ rfl rfl
      omega

theorem cells_shiftDown (n : Nat) : a 0 :: cells (shiftDown a 0 n) n = cells a (n+1) := by
  have hmoved : cells (shiftDown a 0 n) n = cells (fun k => a (k+1)) n := by
    refine cells_congr fun k hk => ?_
    rw [shiftDown_apply, if_pos (by omega)]
  rw [hmoved, cells, cells, List.range_succ_eq_map, List.map_cons, List.map_map]
  rfl

end Array
end LazyTcp.General.Fifo
