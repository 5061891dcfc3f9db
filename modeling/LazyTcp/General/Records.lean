import LazyTcp.General.Bytes

/-! Packed records with little-endian fields, and the stream of a pipe whose
writer puts in one whole record of a fixed size at a time. -/
namespace LazyTcp.General

/-- The n bytes of a number, the least significant first. -/
def leBytes : Nat → Nat → List U8
  | 0, _ => []
  | n+1, v => .ofNat 8 v :: leBytes n (v / 256)

def leValue : List U8 → Nat
  | [] => 0
  | b :: bs => b.toNat + 256 * leValue bs

@[simp] theorem length_leBytes (n v : Nat) : (leBytes n v).length = n := by
  induction n generalizing v with
  | zero => rfl
  | succ n ih => rw [leBytes, List.length_cons, ih]

theorem leValue_leBytes {n v : Nat} (h : v < 256 ^ n) : leValue (leBytes n v) = v := by
  induction n generalizing v with
  | zero =>
    rw [Nat.pow_zero] at h
    rw [leBytes, leValue]
    omega
  | succ n ih =>
    have hrest : v / 256 < 256 ^ n := Nat.div_lt_of_lt_mul (by rwa [Nat.mul_comm, ← Nat.pow_succ])
    rw [leBytes, leValue, ih hrest, BitVec.toNat_ofNat]
    omega

section Framed
variable {β : Type*} {n : Nat}

/-- The bytes are these records, one behind the other. -/
structure Framed (n : Nat) (bytes : List β) (records : List (List β)) : Prop where
  bytes : bytes = records.flatten
  size : ∀ r ∈ records, r.length = n

namespace Framed
variable {bytes r : List β} {records : List (List β)}

theorem nil : Framed n ([] : List β) [] := ⟨rfl,fun _ h => absurd h List.not_mem_nil⟩

theorem write (h : Framed n bytes records) (hr : r.length = n) : Framed n (bytes ++ r) (records ++ [r]) := by
  refine ⟨?_,fun s hs => ?_⟩
  · rw [h.bytes, List.flatten_append, List.flatten_singleton]
  · rcases List.mem_append.mp hs with hs | hs
    · exact h.size s hs
    · rw [List.mem_singleton.mp hs, hr]

/-- A read of one record's size gets the oldest record and leaves the others. -/
theorem read (h : Framed n bytes (r :: records)) : bytes.take n = r ∧ Framed n (bytes.drop n) records := by
  have hr : r.length = n := h.size r List.mem_cons_self
  have hbytes : bytes = r ++ records.flatten := by rw [h.bytes, List.flatten_cons]
  rw [hbytes, ← hr, List.take_left, List.drop_left]
  exact ⟨rfl,rfl,fun s hs => (h.size s (List.mem_cons_of_mem r hs)).trans hr.symm⟩

theorem eq_nil (h : Framed n bytes records) (hn : 0 < n) (hb : bytes = []) : records = [] := by
  cases records with
  | nil => rfl
  | cons r records =>
    have hr : r.length = n := h.size r List.mem_cons_self
    have hempty : r ++ records.flatten = [] := by
      rw [← List.flatten_cons, ← h.bytes, hb]
    rw [(List.append_eq_nil_iff.mp hempty).1, List.length_nil] at hr
    omega

end Framed
end Framed
end LazyTcp.General
