import LazyTcp.General.Checksum

/-! The Internet checksum as RFC 1071 defines it, over big-endian words, and the
word loop of a little-endian host as the same checksum with its bytes swapped. -/
namespace LazyTcp.General

/-- Sum of the big-endian words; an odd last byte is padded on the right. -/
def rfcSum : List U8 → Nat
  | [] => 0
  | [a] => a.toNat * 256
  | a :: b :: bytes => a.toNat * 256 + b.toNat + rfcSum bytes

/-- End-around carry until 16 bits are left. -/
def rfcFold (s : Nat) : Nat := if s < 65536 then s else rfcFold (s % 65536 + s / 65536)
termination_by s
decreasing_by omega

def rfcChecksum (bytes : List U8) : U16 := ~~~(BitVec.ofNat 16 (rfcFold (rfcSum bytes)))

theorem rfcFold_eq (s : Nat) : rfcFold s = onesNorm s := by
  induction s using Nat.strongRecOn with
  | ind s ih =>
    rw [rfcFold]
    split
    case isTrue h => rw [onesNorm_of_lt h]
    case isFalse h => rw [ih _ (by omega), onesNorm_carry]

theorem rfcChecksum_toNat (bytes : List U8) : (rfcChecksum bytes).toNat = 65535 - onesNorm (rfcSum bytes) := by
  have hlt := onesNorm_lt (rfcSum bytes)
  rw [rfcChecksum, rfcFold_eq, BitVec.toNat_not, BitVec.toNat_ofNat]
  omega

private theorem bytes_words (m : Mem) (i n : Nat) : m.bytes i (n+2) = m i :: m (i+1) :: m.bytes (i+2) n := by
  rw [Mem.bytes_succ, Mem.bytes_succ]

/-- Swapping the bytes of every word multiplies the sum by 256 modulo 65535. -/
theorem rfcSum_bytes (m : Mem) (i n : Nat) : 256 * rfcSum (m.bytes i n) % 65535 = byteSum m i n % 65535 ∧
    (rfcSum (m.bytes i n) = 0 ↔ byteSum m i n = 0) := by
  induction n using Nat.strongRecOn generalizing i with
  | ind n ih =>
    match n with
    | 0 => exact ⟨rfl,Iff.rfl⟩
    | 1 =>
      rw [byteSum_one, show m.bytes i 1 = [m i] from rfl, rfcSum]
      omega
    | n+2 =>
      have := ih n (by omega) (i+2)
      rw [bytes_words, rfcSum, byteSum_words, load16_toNat]
      omega

/-- The native sum of a range is its big-endian sum with the two bytes swapped. -/
theorem onesNorm_swap (m : Mem) (i n : Nat) : onesNorm (byteSum m i n) =
    onesNorm (rfcSum (m.bytes i n)) % 256 * 256 + onesNorm (rfcSum (m.bytes i n)) / 256 := by
  obtain ⟨hmod,hzero⟩ := rfcSum_bytes m i n
  refine swapped_of_mod (onesNorm_lt _) (onesNorm_lt _) ?_ ?_
  · rw [onesNorm_eq_zero, onesNorm_eq_zero]
    exact hzero
  · rw [onesNorm_mod, Nat.mul_mod, onesNorm_mod, ← Nat.mul_mod]
    exact hmod

/-- The two bytes of a value in network order. -/
def netBytes (v : U16) : List U8 := [.ofNat 8 (v.toNat / 256),.ofNat 8 v.toNat]

private theorem byte_pair {hi lo : Nat} (hl : lo < 256) : (hi * 256 + lo) % 256 = lo ∧ (hi * 256 + lo) / 256 = hi := by
  constructor <;> omega

/-- The complement of both bytes commutes with swapping them. -/
private theorem complement_swap {r : Nat} (hr : r < 65536) :
    (65535 - (r % 256 * 256 + r / 256)) % 256 = (65535 - r) / 256 ∧
      (65535 - (r % 256 * 256 + r / 256)) / 256 = (65535 - r) % 256 := by
  have hin : 65535 - r = (255 - r / 256) * 256 + (255 - r % 256) := by omega
  have hout : 65535 - (r % 256 * 256 + r / 256) = (255 - r % 256) * 256 + (255 - r / 256) := by omega
  rw [hin, hout, (byte_pair (by omega)).1, (byte_pair (by omega)).2, (byte_pair (by omega)).1,
    (byte_pair (by omega)).2]
  exact ⟨rfl,rfl⟩

/-- Stored natively, the checksum of the native words reads as the big-endian one. -/
theorem store16_internetChecksum (m b : Mem) (i j : Nat) {n : Nat} (hn : n ≤ 131072) :
    (b.store16 j (internetChecksum m i n)).bytes j 2 = netBytes (rfcChecksum (m.bytes i n)) := by
  have hnative := internetChecksum_toNat m i hn
  obtain ⟨hlow,hhigh⟩ := complement_swap (onesNorm_lt (rfcSum (m.bytes i n)))
  rw [onesNorm_swap] at hnative
  change [b.store16 j _ (j+0),b.store16 j _ (j+1)] = _
  rw [Nat.add_zero, Mem.store16, Mem.store8_other _ _ (by omega), Mem.store8_same, Mem.store8_same, netBytes,
    hnative, rfcChecksum_toNat, hhigh]
  congr 1
  · apply BitVec.eq_of_toNat_eq
    rw [BitVec.toNat_ofNat, BitVec.toNat_ofNat, hlow, Nat.mod_eq_of_lt (by omega)]
  · congr 1
    apply BitVec.eq_of_toNat_eq
    rw [BitVec.toNat_ofNat, BitVec.toNat_ofNat, Nat.mod_mod]

/-- A range passes the native test exactly when it passes the test of the RFC. -/
theorem internetChecksum_eq_zero_iff_rfc (m : Mem) (i : Nat) {n : Nat} (hn : n ≤ 131072) :
    internetChecksum m i n = 0 ↔ rfcChecksum (m.bytes i n) = 0 := by
  obtain ⟨hmod,hzero⟩ := rfcSum_bytes m i n
  have hlt := onesNorm_lt (rfcSum (m.bytes i n))
  have hrfc : rfcChecksum (m.bytes i n) = 0 ↔ onesNorm (rfcSum (m.bytes i n)) = 65535 := by
    rw [← BitVec.toNat_inj, rfcChecksum_toNat]
    simp only [BitVec.ofNat_eq_ofNat, BitVec.toNat_ofNat]
    omega
  -- 256 is a unit modulo 65535, so the swapped sum is a multiple exactly with the sum.
  have hunit : 256 * rfcSum (m.bytes i n) % 65535 = 0 ↔ rfcSum (m.bytes i n) % 65535 = 0 := by
    rw [← Nat.dvd_iff_mod_eq_zero, ← Nat.dvd_iff_mod_eq_zero]
    exact Nat.Coprime.dvd_mul_left (by decide)
  rw [hrfc, internetChecksum_eq_zero m i hn, onesNorm_eq_max, ← hunit, hmod, Nat.pos_iff_ne_zero, Nat.pos_iff_ne_zero,
    ne_eq, ne_eq, hzero]

end LazyTcp.General
