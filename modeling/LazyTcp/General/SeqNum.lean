import Mathlib.Data.BitVec

/-! Serial-number comparison of 32-bit sequence numbers by signed difference. -/
namespace LazyTcp.General

/-- SEQ_LT: the signed reading of the modular difference is negative. -/
def seqLt (a b : BitVec 32) : Bool := decide ((a - b).toInt < 0)

/-- SEQ_GEQ: the signed reading of the modular difference is not negative. -/
def seqGeq (a b : BitVec 32) : Bool := decide (0 ≤ (a - b).toInt)

private theorem sub_add_toNat (s next w : BitVec 32) :
    (s - (next + w)).toNat = ((s - next).toNat + (2^32 - w.toNat)) % 2^32 := by
  have hs := s.isLt
  have hn := next.isLt
  have hw := w.isLt
  simp only [BitVec.toNat_sub, BitVec.toNat_add]
  omega

/-- The two signed tests together are the modular interval, also when the
window wraps past the end of the sequence space. -/
theorem window_iff (s next w : BitVec 32) (hw : w.toNat < 2^31) :
    (seqGeq s next && seqLt s (next + w)) = decide ((s - next).toNat < w.toNat) := by
  have hd := (s - next).isLt
  have hsub := sub_add_toNat s next w
  simp only [seqGeq, seqLt, BitVec.toInt_eq_toNat_cond, hsub, ← Bool.decide_and]
  congr 1
  apply propext
  split_ifs <;> omega

end LazyTcp.General
