import Mathlib.Tactic.IntervalCases

/-! Ones-complement sums of 16-bit words, as natural numbers. A sum and its
carry-folded form agree modulo 65535; the two representations of zero differ
only in whether the sum itself is zero. -/
namespace LazyTcp.General

/-- The 16-bit value that end-around carries leave of a sum. -/
def onesNorm (s : Nat) : Nat := if s = 0 then 0 else (s - 1) % 65535 + 1

theorem onesNorm_lt (s : Nat) : onesNorm s < 65536 := by
  unfold onesNorm
  split <;> omega

theorem onesNorm_mod (s : Nat) : onesNorm s % 65535 = s % 65535 := by
  unfold onesNorm
  split <;> omega

theorem onesNorm_eq_zero {s : Nat} : onesNorm s = 0 ↔ s = 0 := by
  unfold onesNorm
  split <;> omega

theorem onesNorm_of_lt {s : Nat} (h : s < 65536) : onesNorm s = s := by
  unfold onesNorm
  split <;> omega

theorem onesNorm_carry (s : Nat) : onesNorm (s % 65536 + s / 65536) = onesNorm s := by
  unfold onesNorm
  split <;> split <;> omega

theorem onesNorm_eq_iff {s t : Nat} : onesNorm s = onesNorm t ↔ (s = 0 ↔ t = 0) ∧ s % 65535 = t % 65535 := by
  unfold onesNorm
  split <;> split <;> omega

theorem onesNorm_eq_max {s : Nat} : onesNorm s = 65535 ↔ 0 < s ∧ s % 65535 = 0 := by
  unfold onesNorm
  split <;> omega

/-- What a sum has to be completed with to make the zero that is not zero: the
complement of its normal form, or 65535 where that complement is 0. -/
theorem sum_complement_iff {s v : Nat} (hv : v < 65536) : (0 < s + v ∧ (s + v) % 65535 = 0) ↔
    v = 65535 - onesNorm s ∨ (v = 65535 ∧ 0 < s ∧ s % 65535 = 0) := by
  have hmod := onesNorm_mod s
  have hlt := onesNorm_lt s
  have hzero := onesNorm_eq_zero (s := s)
  constructor
  · rintro ⟨hpos,hsum⟩
    have hcong : (v + onesNorm s) % 65535 = 0 := by omega
    omega
  · omega

/-- A sum and the complement of its normal form make the zero that is not zero. -/
theorem add_complement (s : Nat) : 0 < s + (65535 - onesNorm s) ∧ (s + (65535 - onesNorm s)) % 65535 = 0 :=
  (sum_complement_iff (by omega)).mpr (Or.inl rfl)

/-- A normal form that is 256 times another modulo 65535 is the other with its bytes swapped. -/
theorem swapped_of_mod {r l : Nat} (hr : r < 65536) (hl : l < 65536) (hz : r = 0 ↔ l = 0)
    (h : 256 * r % 65535 = l % 65535) : l = r % 256 * 256 + r / 256 := by
  have hmul : 256 * r % 65535 = (r % 256 * 256 + r / 256) % 65535 := by omega
  rw [hmul] at h
  omega

/-- Two sums that differ in one bit of one word. -/
def OneBitApart (s t : Nat) : Prop := ∃ j, j < 16 ∧ (t = s + 2^j ∨ s = t + 2^j)

/-- No power of two below 2^16 is zero modulo 65535. -/
theorem OneBitApart.mod_ne {s t : Nat} (h : OneBitApart s t) : s % 65535 ≠ t % 65535 := by
  obtain ⟨j,hj,h⟩ := h
  interval_cases j <;> omega

end LazyTcp.General
