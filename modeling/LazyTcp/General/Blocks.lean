import Mathlib.Data.List.Nodup
import Mathlib.Logic.Function.Basic

/-! A heap of allocated blocks, the pointer operations that are stuck on a block
that is not there, and lists of owned blocks: each address with the value it
points to. -/
namespace LazyTcp.General.Blocks
variable {β α κ : Type*}

abbrev Addr := Nat

/-- A block that was never allocated, or was freed, is none. -/
abbrev Heap (β : Type*) := Addr → Option β

namespace Heap

def empty : Heap β := fun _ => none

/-- A live block written, or a new one at an address malloc gave. -/
def put (h : Heap β) (a : Addr) (b : β) : Heap β := Function.update h a (some b)

/-- Freeing a block that is not live is stuck. -/
def free (h : Heap β) (a : Addr) : Option (Heap β) := (h a).map fun _ => Function.update h a none

variable {h : Heap β} {a a' : Addr} {b b' : β}

@[simp] theorem put_self : h.put a b a = some b := Function.update_self ..

theorem put_other (hne : a' ≠ a) : h.put a b a' = h a' := Function.update_of_ne hne ..

theorem free_live (hb : h a = some b) : h.free a = some (Function.update h a none) := by rw [free, hb]; rfl

/-- An address malloc may give is not that of a live block. -/
theorem ne_of_live (ha : h a = none) (hb : h a' = some b) : a' ≠ a := by
  rintro rfl
  exact nomatch ha.symm.trans hb

end Heap

section Owns
variable (view : β → Option α) (h : Heap β)

/-- Each address of the list points to a live block that holds its value. -/
def Owns (l : List (Addr × α)) : Prop := ∀ e ∈ l, (h e.1).bind view = some e.2

variable {view h} {l l' : List (Addr × α)}

theorem Owns.subset (ho : Owns view h l) (hs : l' ⊆ l) : Owns view h l' := fun e he => ho e (hs he)

/-- Two entries with one address have one value. -/
theorem Owns.agree (ho : Owns view h l) (ho' : Owns view h l') {e e' : Addr × α} (he : e ∈ l) (he' : e' ∈ l')
    (ha : e.1 = e'.1) : e = e' := by
  have hv := ho e he
  rw [ha, ho' e' he'] at hv
  exact Prod.ext ha (Option.some.inj hv).symm

/-- Unique keys make the addresses unique. -/
theorem Owns.nodup (ho : Owns view h l) {key : α → κ} (hn : (l.map fun e => key e.2).Nodup) : (l.map Prod.fst).Nodup := by
  induction l with
  | nil => exact List.nodup_nil
  | cons e l ih =>
    rw [List.map_cons, List.nodup_cons] at hn ⊢
    refine ⟨fun hm => hn.1 ?_,ih (ho.subset (List.subset_cons_self ..)) hn.2⟩
    obtain ⟨e',he',ha⟩ := List.mem_map.mp hm
    rw [ho.agree ho (List.mem_cons_self ..) (List.mem_cons_of_mem _ he') ha.symm]
    exact List.mem_map_of_mem he'

end Owns

end LazyTcp.General.Blocks
