import Mathlib.Data.BitVec

/-! Byte memories with the native loads and stores of a little-endian host.
Word values are fixed-width; addresses are natural numbers. -/
namespace LazyTcp.General

abbrev U8 := BitVec 8
abbrev U16 := BitVec 16
abbrev U32 := BitVec 32
abbrev Mem := Nat → U8

namespace Mem

def load16 (m : Mem) (i : Nat) : U16 := .ofNat 16 ((m i).toNat + 256 * (m (i+1)).toNat)

def load32 (m : Mem) (i : Nat) : U32 :=
  .ofNat 32 ((m.load16 i).toNat + 65536 * (m.load16 (i+2)).toNat)

def store8 (m : Mem) (i : Nat) (b : U8) : Mem := fun j => if j = i then b else m j

def store16 (m : Mem) (i : Nat) (v : U16) : Mem :=
  (m.store8 i (.ofNat 8 v.toNat)).store8 (i+1) (.ofNat 8 (v.toNat / 256))

def store32 (m : Mem) (i : Nat) (v : U32) : Mem :=
  (m.store16 i (.ofNat 16 v.toNat)).store16 (i+2) (.ofNat 16 (v.toNat / 65536))

/-- The n bytes of a memory from position i. -/
def bytes (m : Mem) (i n : Nat) : List U8 := (List.range n).map fun k => m (i+k)

/-- Invert one bit of one byte. -/
def flipBit (m : Mem) (i : Nat) (b : Fin 8) : Mem := m.store8 i (m i ^^^ .twoPow 8 b)

/-- memcpy of n bytes from a second memory; the ranges do not overlap. -/
def copy (m : Mem) (dst : Nat) (from' : Mem) (src n : Nat) : Mem :=
  fun j => if dst ≤ j ∧ j < dst + n then from' (src + (j - dst)) else m j

end Mem

/-- Byte-order conversion of 16-bit values; both directions are this swap. -/
def ntohs (v : U16) : U16 := .ofNat 16 (v.toNat % 256 * 256 + v.toNat / 256)
abbrev htons := ntohs

/-- Byte-order conversion of 32-bit values; both directions are this swap. -/
def ntohl (v : U32) : U32 :=
  .ofNat 32 ((ntohs (.ofNat 16 v.toNat)).toNat * 65536 + (ntohs (.ofNat 16 (v.toNat / 65536))).toNat)
abbrev htonl := ntohl

theorem ntohs_toNat (v : U16) : (ntohs v).toNat = v.toNat % 256 * 256 + v.toNat / 256 := by
  have hv := v.isLt
  rw [ntohs, BitVec.toNat_ofNat, Nat.mod_eq_of_lt (by omega)]

@[simp] theorem ntohs_ntohs (v : U16) : ntohs (ntohs v) = v := by
  apply BitVec.eq_of_toNat_eq
  have hv := v.isLt
  have hd : (v.toNat % 256 * 256 + v.toNat / 256) / 256 = v.toNat % 256 := by omega
  have hm : (v.toNat % 256 * 256 + v.toNat / 256) % 256 = v.toNat / 256 := by omega
  rw [ntohs_toNat, ntohs_toNat, hd, hm]
  omega

private theorem join_halves (lo hi : U16) :
    (BitVec.ofNat 32 (hi.toNat * 65536 + lo.toNat)).toNat = hi.toNat * 65536 + lo.toNat := by
  have hl := lo.isLt
  have hh := hi.isLt
  rw [BitVec.toNat_ofNat, Nat.mod_eq_of_lt (by omega)]

@[simp] theorem ntohl_ntohl (v : U32) : ntohl (ntohl v) = v := by
  apply BitVec.eq_of_toNat_eq
  have hv := v.isLt
  -- Both halves of the swapped word are read back before they are swapped again.
  have halves (lo hi : U16) : BitVec.ofNat 16 (hi.toNat * 65536 + lo.toNat) = lo ∧
      BitVec.ofNat 16 ((hi.toNat * 65536 + lo.toNat) / 65536) = hi := by
    have hl := lo.isLt
    have hh := hi.isLt
    constructor <;> apply BitVec.eq_of_toNat_eq <;> rw [BitVec.toNat_ofNat] <;> omega
  rw [ntohl, join_halves, ntohl, join_halves, (halves _ _).1, (halves _ _).2, ntohs_ntohs,
    ntohs_ntohs, BitVec.toNat_ofNat, BitVec.toNat_ofNat]
  omega

namespace Mem
variable (m : Mem)

@[simp] theorem store8_same (i : Nat) (b : U8) : m.store8 i b i = b := by simp [store8]

theorem store8_other {i j : Nat} (b : U8) (h : j ≠ i) : m.store8 i b j = m j := by
  simp [store8, h]

theorem flipBit_other {i j : Nat} (b : Fin 8) (h : j ≠ i) : m.flipBit i b j = m j := m.store8_other _ h

theorem store16_other {i j : Nat} (v : U16) (h : j < i ∨ i + 2 ≤ j) : m.store16 i v j = m j := by
  rw [store16, store8_other _ _ (by omega), store8_other _ _ (by omega)]

theorem store16_zero {i j : Nat} (h : i ≤ j) (h' : j < i + 2) : m.store16 i 0 j = 0 := by
  rw [store16]
  by_cases hj : j = i + 1
  · rw [hj]
    exact store8_same ..
  · rw [store8_other _ _ hj, show j = i by omega]
    exact store8_same ..

theorem store32_other {i j : Nat} (v : U32) (h : j < i ∨ i + 4 ≤ j) : m.store32 i v j = m j := by
  rw [store32, store16_other _ _ (by omega), store16_other _ _ (by omega)]

theorem copy_other {dst j : Nat} (m' : Mem) (src n : Nat) (h : j < dst ∨ dst + n ≤ j) :
    m.copy dst m' src n j = m j := by
  rw [copy, if_neg (by omega)]

theorem copy_inside {dst j : Nat} (m' : Mem) (src n : Nat) (h : dst ≤ j) (h' : j < dst + n) :
    m.copy dst m' src n j = m' (src + (j - dst)) := by
  rw [copy, if_pos ⟨h,h'⟩]

/-- A range of bytes is its first byte and the range behind it. -/
theorem bytes_succ (i n : Nat) : m.bytes i (n+1) = m i :: m.bytes (i+1) n := by
  have hshift : (fun k => m (i+k)) ∘ Nat.succ = fun k => m (i+1+k) := by
    funext k
    rw [Function.comp, Nat.succ_eq_add_one, Nat.add_assoc, Nat.add_comm k 1]
  rw [bytes, List.range_succ_eq_map, List.map_cons, List.map_map, hshift, Nat.add_zero, bytes]

theorem length_bytes (i n : Nat) : (m.bytes i n).length = n := by rw [bytes, List.length_map, List.length_range]

theorem bytes_getD (i : Nat) {n k : Nat} (hk : k < n) : (m.bytes i n).getD k 0 = m (i+k) := by
  rw [bytes, List.getD_eq_getElem?_getD, List.getElem?_map, List.getElem?_range hk]
  rfl

theorem copy_congr {s s' : Mem} {src src' n : Nat} (dst : Nat) (h : ∀ k, k < n → s (src+k) = s' (src'+k)) :
    m.copy dst s src n = m.copy dst s' src' n := by
  funext j
  by_cases hin : dst ≤ j ∧ j < dst + n
  · rw [copy_inside _ _ _ _ hin.1 hin.2, copy_inside _ _ _ _ hin.1 hin.2, h _ (by omega)]
  · rw [copy_other _ _ _ _ (by omega), copy_other _ _ _ _ (by omega)]

theorem store8_store8 (i : Nat) (a b : U8) : (m.store8 i a).store8 i b = m.store8 i b := by
  funext j
  by_cases h : j = i <;> simp [store8, h]

theorem store8_comm {i j : Nat} (a b : U8) (h : i ≠ j) :
    (m.store8 i a).store8 j b = (m.store8 j b).store8 i a := by
  funext k
  simp only [store8]
  split_ifs <;> simp_all

theorem store16_store16 (i : Nat) (a b : U16) : (m.store16 i a).store16 i b = m.store16 i b := by
  simp only [store16]
  rw [store8_comm _ _ _ (show i+1 ≠ i by omega), store8_store8, store8_store8]

theorem store16_comm {i j : Nat} (a b : U16) (h : i + 2 ≤ j ∨ j + 2 ≤ i) :
    (m.store16 i a).store16 j b = (m.store16 j b).store16 i a := by
  simp only [store16]
  rw [store8_comm (m.store8 i _) _ _ (show i+1 ≠ j by omega), store8_comm m _ _ (show i ≠ j by omega),
    store8_comm ((m.store8 j _).store8 i _) _ _ (show i+1 ≠ j+1 by omega),
    store8_comm (m.store8 j _) _ _ (show i ≠ j+1 by omega)]

theorem store16_flipBit {i j : Nat} (v : U16) (b : Fin 8) (h : j < i ∨ i + 2 ≤ j) :
    (m.flipBit j b).store16 i v = (m.store16 i v).flipBit j b := by
  rw [flipBit, flipBit, store16_other _ _ h, store16, store16, store8_comm _ _ _ (show j ≠ i by omega),
    store8_comm _ _ _ (show j ≠ i+1 by omega)]

theorem store16_store8 {i j : Nat} (b : U8) (v : U16) (h : i ≤ j) (h' : j < i + 2) :
    (m.store8 j b).store16 i v = m.store16 i v := by
  funext k
  simp only [store16, store8]
  split_ifs with h1 h2 h3
  · rfl
  · rfl
  · omega
  · rfl

theorem load16_congr {m m' : Mem} {i : Nat} (h : ∀ j, i ≤ j → j < i + 2 → m j = m' j) :
    m.load16 i = m'.load16 i := by
  rw [load16, load16, h i (by omega) (by omega), h (i+1) (by omega) (by omega)]

theorem load32_congr {m m' : Mem} {i : Nat} (h : ∀ j, i ≤ j → j < i + 4 → m j = m' j) :
    m.load32 i = m'.load32 i := by
  rw [load32, load32, load16_congr fun j hj hj' => h j hj (by omega),
    load16_congr (i := i+2) fun j hj hj' => h j (by omega) (by omega)]

/-- A word determines its two bytes. -/
theorem load16_inj {m m' : Mem} {i j : Nat} (h : m.load16 i = m'.load16 j) : m i = m' j ∧ m (i+1) = m' (j+1) := by
  have h1 := (m i).isLt
  have h2 := (m (i+1)).isLt
  have h3 := (m' j).isLt
  have h4 := (m' (j+1)).isLt
  have hnat := congrArg BitVec.toNat h
  rw [load16, load16, BitVec.toNat_ofNat, BitVec.toNat_ofNat] at hnat
  constructor <;> apply BitVec.eq_of_toNat_eq <;> omega

@[simp] theorem load16_store16 (i : Nat) (v : U16) : (m.store16 i v).load16 i = v := by
  apply BitVec.eq_of_toNat_eq
  rw [load16, store16, store8_other _ _ (by omega), store8_same, store8_same]
  simp only [BitVec.toNat_ofNat]
  omega

theorem store16_load16 (i : Nat) : m.store16 i (m.load16 i) = m := by
  have h := load16_inj (m.load16_store16 i (m.load16 i))
  funext j
  by_cases hj : j < i ∨ i + 2 ≤ j
  · exact m.store16_other _ hj
  · obtain rfl | rfl : j = i ∨ j = i+1 := by omega
    · exact h.1
    · exact h.2

theorem load16_store16_other {i j : Nat} (v : U16) (h : j + 2 ≤ i ∨ i + 2 ≤ j) :
    (m.store16 i v).load16 j = m.load16 j :=
  load16_congr fun _ _ _ => store16_other _ _ (by omega)

theorem load16_store32_other {i j : Nat} (v : U32) (h : j + 2 ≤ i ∨ i + 4 ≤ j) :
    (m.store32 i v).load16 j = m.load16 j :=
  load16_congr fun _ _ _ => store32_other _ _ (by omega)

theorem load16_store8_other {i j : Nat} (b : U8) (h : j + 2 ≤ i ∨ i + 1 ≤ j) :
    (m.store8 i b).load16 j = m.load16 j :=
  load16_congr fun _ _ _ => store8_other _ _ (by omega)

theorem load16_copy_other {dst j : Nat} (m' : Mem) (src n : Nat) (h : j + 2 ≤ dst ∨ dst + n ≤ j) :
    (m.copy dst m' src n).load16 j = m.load16 j :=
  load16_congr fun _ _ _ => copy_other _ _ _ _ (by omega)

theorem load32_copy_other {dst j : Nat} (m' : Mem) (src n : Nat) (h : n = 0 ∨ j + 4 ≤ dst ∨ dst + n ≤ j) :
    (m.copy dst m' src n).load32 j = m.load32 j :=
  load32_congr fun _ _ _ => copy_other _ _ _ _ (by omega)

@[simp] theorem load32_store32 (i : Nat) (v : U32) : (m.store32 i v).load32 i = v := by
  apply BitVec.eq_of_toNat_eq
  rw [load32, store32, load16_store16, load16_store16_other _ _ (by omega), load16_store16]
  simp only [BitVec.toNat_ofNat]
  omega

theorem load32_store32_other {i j : Nat} (v : U32) (h : j + 4 ≤ i ∨ i + 4 ≤ j) :
    (m.store32 i v).load32 j = m.load32 j :=
  load32_congr fun _ _ _ => store32_other _ _ (by omega)

theorem load32_store16_other {i j : Nat} (v : U16) (h : j + 4 ≤ i ∨ i + 2 ≤ j) :
    (m.store16 i v).load32 j = m.load32 j :=
  load32_congr fun _ _ _ => store16_other _ _ (by omega)

theorem load32_store8_other {i j : Nat} (b : U8) (h : j + 4 ≤ i ∨ i + 1 ≤ j) :
    (m.store8 i b).load32 j = m.load32 j :=
  load32_congr fun _ _ _ => store8_other _ _ (by omega)

/-- Two memories that no reader of the addresses in p can tell apart. -/
def AgreeOn (p : Nat → Prop) (m m' : Mem) : Prop := ∀ i, p i → m i = m' i

section AgreeOn
variable {p q : Nat → Prop} {m m' : Mem}

theorem AgreeOn.mono (h : AgreeOn p m m') (hq : ∀ i, q i → p i) : AgreeOn q m m' := fun i hi => h i (hq i hi)

theorem AgreeOn.symm (h : AgreeOn p m m') : AgreeOn p m' m := fun i hi => (h i hi).symm

theorem AgreeOn.load16 {i : Nat} (h : AgreeOn p m m') (hp : ∀ j, i ≤ j → j < i + 2 → p j) :
    m.load16 i = m'.load16 i :=
  load16_congr fun j hj hj' => h j (hp j hj hj')

theorem AgreeOn.load32 {i : Nat} (h : AgreeOn p m m') (hp : ∀ j, i ≤ j → j < i + 4 → p j) :
    m.load32 i = m'.load32 i :=
  load32_congr fun j hj hj' => h j (hp j hj hj')

section Below
variable {n i : Nat} (h : AgreeOn (· < n) m m')
include h

theorem AgreeOn.byte_lt (hi : i < n) : m i = m' i := h i hi

theorem AgreeOn.load16_lt (hi : i + 2 ≤ n) : m.load16 i = m'.load16 i :=
  h.load16 fun _ _ hj => hj.trans_le hi

theorem AgreeOn.load32_lt (hi : i + 4 ≤ n) : m.load32 i = m'.load32 i :=
  h.load32 fun _ _ hj => hj.trans_le hi

end Below

/-- The same store into both memories adds its bytes to what they agree on. -/
theorem AgreeOn.store8_extend (h : AgreeOn p m m') (i : Nat) (b : U8) :
    AgreeOn (fun j => p j ∨ j = i) (m.store8 i b) (m'.store8 i b) := by
  intro j hj
  simp only [Mem.store8]
  split
  case isTrue => rfl
  case isFalse hne => exact h j (hj.resolve_right hne)

theorem AgreeOn.store16_extend (h : AgreeOn p m m') (i : Nat) (v : U16) :
    AgreeOn (fun j => p j ∨ i ≤ j ∧ j < i + 2) (m.store16 i v) (m'.store16 i v) := by
  refine ((h.store8_extend i _).store8_extend (i+1) _).mono fun j hj => ?_
  rcases hj with hj | hj
  · exact Or.inl (Or.inl hj)
  · rw [or_assoc]
    exact Or.inr (by omega)

theorem AgreeOn.store8 (h : AgreeOn p m m') (i : Nat) (b : U8) : AgreeOn p (m.store8 i b) (m'.store8 i b) :=
  (h.store8_extend i b).mono fun _ => Or.inl

theorem AgreeOn.store16 (h : AgreeOn p m m') (i : Nat) (v : U16) : AgreeOn p (m.store16 i v) (m'.store16 i v) :=
  (h.store16_extend i v).mono fun _ => Or.inl

theorem AgreeOn.store32 (h : AgreeOn p m m') (i : Nat) (v : U32) : AgreeOn p (m.store32 i v) (m'.store32 i v) :=
  (h.store16 i _).store16 (i+2) _

theorem AgreeOn.copy_extend {s s' : Mem} (h : AgreeOn p m m') (dst src n : Nat)
    (hs : ∀ k, k < n → s (src + k) = s' (src + k)) :
    AgreeOn (fun j => p j ∨ dst ≤ j ∧ j < dst + n) (m.copy dst s src n) (m'.copy dst s' src n) := by
  intro j hj
  simp only [copy]
  split
  case isTrue hin => exact hs _ (by omega)
  case isFalse hout => exact h j (hj.resolve_right hout)

end AgreeOn
end Mem
end LazyTcp.General
