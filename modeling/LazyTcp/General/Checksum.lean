import Mathlib.Algebra.BigOperators.Intervals
import Mathlib.Algebra.Order.BigOperators.Group.Finset
import LazyTcp.General.Bytes
import LazyTcp.General.OnesComplement

/-! The ones-complement word loop and carry loop of the Internet checksum, as a
little-endian host runs them on native words. -/
namespace LazyTcp.General

/-- Add 16-bit words from position i, then a trailing byte, into the accumulator. -/
def wordSum (m : Mem) : Nat → Nat → U32 → U32
  | _, 0, sum => sum
  | i, 1, sum => sum + (m i).setWidth 32
  | i, n+2, sum => wordSum m (i+2) n (sum + (m.load16 i).setWidth 32)

/-- The end-around carry loop, with a bound on its iterations. -/
def foldCarry : Nat → U32 → U32
  | 0, sum => sum
  | fuel+1, sum => if sum >>> 16 = 0 then sum else foldCarry fuel ((sum &&& 0xFFFF) + (sum >>> 16))

/-- Checksum of the n bytes from position i. Three carry rounds always settle. -/
def internetChecksum (m : Mem) (i n : Nat) : U16 := ~~~((foldCarry 3 (wordSum m i n 0)).setWidth 16)

private theorem carry_toNat (sum : U32) :
    ((sum &&& 0xFFFF) + (sum >>> 16)).toNat = sum.toNat % 65536 + sum.toNat / 65536 := by
  have hs := sum.isLt
  have hand : sum.toNat &&& 65535 = sum.toNat % 65536 := Nat.and_two_pow_sub_one_eq_mod _ 16
  rw [BitVec.toNat_add, BitVec.toNat_and, BitVec.toNat_ushiftRight, Nat.shiftRight_eq_div_pow]
  change ((sum.toNat &&& 65535) + sum.toNat / 2^16) % 2^32 = _
  rw [hand]
  omega

private theorem shift_eq_zero (sum : U32) : sum >>> 16 = 0 ↔ sum.toNat < 65536 := by
  rw [← BitVec.toNat_inj, BitVec.toNat_ushiftRight, Nat.shiftRight_eq_div_pow]
  simp only [BitVec.ofNat_eq_ofNat, BitVec.toNat_ofNat]
  omega

/-- The carry loop leaves its guard false, so the bound never cuts it short. -/
theorem foldCarry_settled (fuel : Nat) (sum : U32) : foldCarry (fuel+2) sum >>> 16 = 0 := by
  have hs := sum.isLt
  have small (fuel : Nat) (v : U32) (hv : v.toNat < 131071) : foldCarry (fuel+1) v >>> 16 = 0 := by
    rw [foldCarry]
    split
    case isTrue h => exact h
    case isFalse h =>
      rw [shift_eq_zero] at h
      have hc : ((v &&& 0xFFFF) + (v >>> 16)) >>> 16 = 0 := by
        rw [shift_eq_zero, carry_toNat]
        omega
      cases fuel with
      | zero => exact hc
      | succ fuel => rwa [foldCarry, if_pos hc]
  rw [foldCarry]
  split
  case isTrue h => exact h
  case isFalse => exact small fuel _ (by rw [carry_toNat]; omega)

theorem wordSum_congr {m m' : Mem} {i j n : Nat} (h : ∀ k, k < n → m (i+k) = m' (j+k)) (sum : U32) :
    wordSum m i n sum = wordSum m' j n sum := by
  induction n using Nat.strongRecOn generalizing i j sum with
  | ind n ih =>
    match n with
    | 0 => rfl
    | 1 => rw [wordSum, wordSum, show m i = m' j from h 0 (by omega)]
    | n+2 =>
      have hl : m.load16 i = m'.load16 j := by
        rw [Mem.load16, Mem.load16, show m i = m' j from h 0 (by omega), h 1 (by omega)]
      rw [wordSum, wordSum, hl]
      apply ih n (by omega)
      intro k hk
      have := h (k+2) (by omega)
      rwa [show i+2+k = i+(k+2) by omega, show j+2+k = j+(k+2) by omega]

/-- The checksum reads exactly the n bytes it is given. -/
theorem internetChecksum_congr {m m' : Mem} {i j n : Nat} (h : ∀ k, k < n → m (i+k) = m' (j+k)) :
    internetChecksum m i n = internetChecksum m' j n := by
  rw [internetChecksum, internetChecksum, wordSum_congr h]

/-- After k words the loop goes on from their sum. -/
theorem wordSum_append (m : Mem) (i k n : Nat) (sum : U32) :
    wordSum m i (2*k + n) sum = wordSum m (i + 2*k) n (wordSum m i (2*k) sum) := by
  induction k generalizing i sum with
  | zero => rw [Nat.mul_zero, Nat.zero_add, Nat.add_zero, wordSum]
  | succ k ih =>
    rw [show 2*(k+1) + n = 2*k + n + 2 by omega, show 2*(k+1) = 2*k + 2 by omega, wordSum, wordSum, ih,
      show i + 2 + 2*k = i + (2*k + 2) by omega]

/-- The word sum without its 32-bit bound: bytes at odd positions count 256 times. -/
def byteSum (m : Mem) (i n : Nat) : Nat := ∑ k ∈ Finset.range n, (m (i+k)).toNat * 256^(k % 2)

section ByteSum
variable {m m' : Mem} {i n : Nat}

theorem byteSum_congr {j : Nat} (h : ∀ k, k < n → m (i+k) = m' (j+k)) : byteSum m i n = byteSum m' j n := by
  refine Finset.sum_congr rfl fun k hk => ?_
  rw [h k (Finset.mem_range.mp hk)]

theorem load16_toNat (m : Mem) (i : Nat) : (m.load16 i).toNat = (m i).toNat + 256 * (m (i+1)).toNat := by
  have h1 := (m i).isLt
  have h2 := (m (i+1)).isLt
  rw [Mem.load16, BitVec.toNat_ofNat, Nat.mod_eq_of_lt (by omega)]

theorem byteSum_words (m : Mem) (i n : Nat) : byteSum m i (n+2) = (m.load16 i).toNat + byteSum m (i+2) n := by
  unfold byteSum
  rw [Finset.sum_range_succ', Finset.sum_range_succ', load16_toNat]
  have hrest : ∑ k ∈ Finset.range n, (m (i+(k+1+1))).toNat * 256^((k+1+1) % 2) =
      ∑ k ∈ Finset.range n, (m (i+2+k)).toNat * 256^(k % 2) := by
    refine Finset.sum_congr rfl fun k _ => ?_
    rw [show i+(k+1+1) = i+2+k by omega, show (k+1+1) % 2 = k % 2 by omega]
  rw [hrest, Nat.zero_add]
  simp only [Nat.reduceMod, Nat.reducePow, Nat.add_zero]
  omega

theorem byteSum_one (m : Mem) (i : Nat) : byteSum m i 1 = (m i).toNat := by simp [byteSum]

theorem byteSum_append (m : Mem) (i : Nat) {a : Nat} (ha : a % 2 = 0) (b : Nat) :
    byteSum m i (a+b) = byteSum m i a + byteSum m (i+a) b := by
  unfold byteSum
  rw [Finset.sum_range_add]
  congr 1
  refine Finset.sum_congr rfl fun k _ => ?_
  rw [show i+(a+k) = i+a+k by omega, show (a+k) % 2 = k % 2 by omega]

/-- Only zero bytes sum to zero. -/
theorem byteSum_pos : 0 < byteSum m i n ↔ ∃ j, j < n ∧ m (i+j) ≠ 0 := by
  unfold byteSum
  rw [Finset.sum_pos_iff]
  refine exists_congr fun j => ?_
  rw [Finset.mem_range, Nat.mul_pos_iff_of_pos_right (Nat.pow_pos (by decide)), Nat.pos_iff_ne_zero, ne_eq, ne_eq,
    ← BitVec.toNat_inj]
  rfl

theorem byteSum_le (m : Mem) (i n : Nat) : byteSum m i n ≤ 65535 * ((n+1) / 2) := by
  induction n using Nat.strongRecOn generalizing i with
  | ind n ih =>
    match n with
    | 0 => simp [byteSum]
    | 1 =>
      have := (m i).isLt
      rw [byteSum_one]
      omega
    | n+2 =>
      have hw := (m.load16 i).isLt
      have hr := ih n (by omega) (i+2)
      rw [byteSum_words]
      omega

/-- The accumulator of the word loop is the byte sum, modulo its width. -/
theorem wordSum_toNat (m : Mem) (i n : Nat) (sum : U32) :
    (wordSum m i n sum).toNat = (sum.toNat + byteSum m i n) % 2^32 := by
  induction n using Nat.strongRecOn generalizing i sum with
  | ind n ih =>
    match n with
    | 0 => simp [wordSum, byteSum, Nat.mod_eq_of_lt sum.isLt]
    | 1 => simp [wordSum, byteSum_one]
    | n+2 =>
      rw [wordSum, ih n (by omega), byteSum_words, BitVec.toNat_add, BitVec.toNat_setWidth]
      omega

/-- Up to 131072 bytes the accumulator does not overflow. -/
theorem wordSum_exact (m : Mem) (i : Nat) (hn : n ≤ 131072) : (wordSum m i n 0).toNat = byteSum m i n := by
  have hle := byteSum_le m i n
  rw [wordSum_toNat]
  simp only [BitVec.ofNat_eq_ofNat, BitVec.toNat_ofNat]
  omega

end ByteSum

/-- The carry loop computes the ones-complement normal form of the sum. -/
theorem foldCarry_toNat (fuel : Nat) (sum : U32) : (foldCarry (fuel+2) sum).toNat = onesNorm sum.toNat := by
  have hnorm : ∀ fuel (sum : U32), onesNorm (foldCarry fuel sum).toNat = onesNorm sum.toNat := by
    intro fuel
    induction fuel with
    | zero => exact fun _ => rfl
    | succ fuel ih =>
      intro sum
      rw [foldCarry]
      split
      · rfl
      · rw [ih, carry_toNat, onesNorm_carry]
  rw [← hnorm (fuel+2), onesNorm_of_lt ((shift_eq_zero _).mp (foldCarry_settled fuel sum))]

/-- Further rounds of the carry loop change nothing. -/
theorem foldCarry_stable (fuel : Nat) (sum : U32) : foldCarry (fuel+2) sum = foldCarry 2 sum := by
  apply BitVec.eq_of_toNat_eq
  rw [foldCarry_toNat, foldCarry_toNat 0]

theorem internetChecksum_toNat (m : Mem) (i : Nat) {n : Nat} (hn : n ≤ 131072) :
    (internetChecksum m i n).toNat = 65535 - onesNorm (byteSum m i n) := by
  have hlt := onesNorm_lt (byteSum m i n)
  rw [internetChecksum, BitVec.toNat_not, BitVec.toNat_setWidth, foldCarry_toNat, wordSum_exact m i hn]
  omega

section Stores
variable (m : Mem) (i : Nat) {n k : Nat}

theorem byteSum_store8 (b : U8) (hk : k < n) :
    byteSum (m.store8 (i+k) b) i n + (m (i+k)).toNat * 256^(k % 2) = byteSum m i n + b.toNat * 256^(k % 2) := by
  unfold byteSum
  have hmem : k ∈ Finset.range n := Finset.mem_range.mpr hk
  rw [← Finset.add_sum_erase _ _ hmem, ← Finset.add_sum_erase _ (fun k => (m (i+k)).toNat * 256^(k % 2)) hmem,
    Mem.store8_same]
  have hrest : ∑ j ∈ (Finset.range n).erase k, (m.store8 (i+k) b (i+j)).toNat * 256^(j % 2) =
      ∑ j ∈ (Finset.range n).erase k, (m (i+j)).toNat * 256^(j % 2) := by
    refine Finset.sum_congr rfl fun j hj => ?_
    have hne := Finset.ne_of_mem_erase hj
    rw [m.store8_other _ (by omega)]
  rw [hrest]
  omega

/-- A word stored at an even position takes the place of the old word in the sum. -/
theorem byteSum_store16 (v : U16) (hk : k % 2 = 0) (hn : k + 2 ≤ n) :
    byteSum (m.store16 (i+k) v) i n + (m.load16 (i+k)).toNat = byteSum m i n + v.toNat := by
  have hv := v.isLt
  have h1 := byteSum_store8 m i (.ofNat 8 v.toNat) (show k < n by omega)
  have h2 := byteSum_store8 (m.store8 (i+k) (.ofNat 8 v.toNat)) i (.ofNat 8 (v.toNat / 256)) (show k+1 < n by omega)
  rw [m.store8_other _ (show i+(k+1) ≠ i+k by omega), show (k+1) % 2 = 1 by omega] at h2
  rw [hk] at h1
  rw [Mem.store16, load16_toNat, Nat.add_assoc i k 1]
  simp only [BitVec.toNat_ofNat, Nat.pow_zero, Nat.pow_one, Nat.mul_one] at h1 h2
  omega

theorem internetChecksum_eq_zero (hn : n ≤ 131072) :
    internetChecksum m i n = 0 ↔ 0 < byteSum m i n ∧ byteSum m i n % 65535 = 0 := by
  have hlt := onesNorm_lt (byteSum m i n)
  have hc := internetChecksum_toNat m i hn
  rw [← onesNorm_eq_max, ← BitVec.toNat_inj, hc]
  simp only [BitVec.ofNat_eq_ofNat, BitVec.toNat_ofNat]
  omega

/-- The checksum of a range with v at an even position, by the sum of the rest. -/
theorem internetChecksum_store16_eq_zero (v : U16) (hk : k % 2 = 0) (hkn : k + 2 ≤ n) (hn : n ≤ 131072) :
    internetChecksum (m.store16 (i+k) v) i n = 0 ↔
      v.toNat = 65535 - onesNorm (byteSum (m.store16 (i+k) 0) i n) ∨
        (v = 0xFFFF ∧ 0 < byteSum (m.store16 (i+k) 0) i n ∧ byteSum (m.store16 (i+k) 0) i n % 65535 = 0) := by
  have hsum := byteSum_store16 (m.store16 (i+k) 0) i v hk hkn
  rw [Mem.store16_store16, Mem.load16_store16, show (0 : U16).toNat = 0 from rfl, Nat.add_zero] at hsum
  rw [internetChecksum_eq_zero _ _ hn, hsum, sum_complement_iff v.isLt, ← BitVec.toNat_inj]
  rfl

/-- A range that holds its own checksum at an even position sums to zero. When
everything else is zero the checksum is 0xFFFF, the other zero. -/
theorem internetChecksum_verifies (hk : k % 2 = 0) (hkn : k + 2 ≤ n) (hn : n ≤ 131072) :
    internetChecksum (m.store16 (i+k) (internetChecksum (m.store16 (i+k) 0) i n)) i n = 0 :=
  (internetChecksum_store16_eq_zero m i _ hk hkn hn).mpr (Or.inl (internetChecksum_toNat _ _ hn))

private theorem xor_bit (v : U8) (b : Fin 8) : (v ^^^ .twoPow 8 b).toNat = v.toNat + 2^b.val ∨
    v.toNat = (v ^^^ .twoPow 8 b).toNat + 2^b.val := by
  revert v b
  decide +kernel

theorem byteSum_flipBit (b : Fin 8) (hk : k < n) :
    OneBitApart (byteSum m i n) (byteSum (m.flipBit (i+k) b) i n) := by
  have hs := byteSum_store8 m i (m (i+k) ^^^ .twoPow 8 b) hk
  have hb := b.isLt
  have hpow : 2^(b.val + 8 * (k % 2)) = 2^b.val * 256^(k % 2) := by
    rw [Nat.pow_add, Nat.pow_mul]
  refine ⟨b.val + 8 * (k % 2),by omega,?_⟩
  rw [hpow, Mem.flipBit]
  rcases xor_bit (m (i+k)) b with e | e
  · left
    rw [e, Nat.add_mul] at hs
    omega
  · right
    generalize (m (i+k) ^^^ .twoPow 8 b) = v at hs e ⊢
    rw [e, Nat.add_mul] at hs
    omega

/-- A flipped bit always shows in the checksum. -/
theorem internetChecksum_flipBit (b : Fin 8) (hk : k < n) (hn : n ≤ 131072) :
    internetChecksum (m.flipBit (i+k) b) i n ≠ internetChecksum m i n := by
  intro he
  have hnat := congrArg BitVec.toNat he
  have hlt := onesNorm_lt (byteSum m i n)
  have hlt' := onesNorm_lt (byteSum (m.flipBit (i+k) b) i n)
  rw [internetChecksum_toNat _ _ hn, internetChecksum_toNat _ _ hn] at hnat
  have hnorm : onesNorm (byteSum m i n) = onesNorm (byteSum (m.flipBit (i+k) b) i n) := by omega
  exact (byteSum_flipBit m i b hk).mod_ne (onesNorm_eq_iff.mp hnorm).2

theorem load16_flipBit (b : Fin 8) (hk : k < 2) : (m.flipBit (i+k) b).load16 i ≠ m.load16 i := by
  intro he
  have hsum := (byteSum_flipBit m i b hk).mod_ne
  rw [byteSum_words m i 0, byteSum_words (m.flipBit (i+k) b) i 0, he] at hsum
  exact hsum rfl

end Stores

end LazyTcp.General
