import LazyTcp.General.Rfc1071
import LazyTcp.Refactor.Craft

/-! The header test against the IPv4 format. Version, header length and checksum
are those of the format; the total length field is never looked at. -/
namespace LazyTcp.Refactor
open General General.Wire

/-- The tests a header passes by itself and against the number of bytes received. -/
structure SoundHeader (m : Mem) (len : Nat) : Prop where
  received : 20 ≤ len
  version : versionIhl m >>> 4 = 4
  atLeast : 20 ≤ ihlBytes m
  within : ihlBytes m ≤ len
  sum : rfcChecksum (m.bytes 0 (ihlBytes m)) = 0

/-- The total length covers the header and no more than was received. -/
def ConsistentLength (m : Mem) (len : Nat) : Prop :=
  ihlBytes m ≤ (ntohs (ipLen m)).toNat ∧ (ntohs (ipLen m)).toNat ≤ len

structure WellFormedHeader (m : Mem) (len : Nat) : Prop extends SoundHeader m len where
  totalLen : ConsistentLength m len

/-- The accepted headers are the sound ones. -/
theorem ipValidate_sound_iff (m : Mem) (len : Nat) : ipValidate m len = true ↔ SoundHeader m len := by
  have hmax := ihlBytes_le m
  have hsum : checksum m 0 (ihlBytes m) = 0 ↔ rfcChecksum (m.bytes 0 (ihlBytes m)) = 0 :=
    internetChecksum_eq_zero_iff_rfc m 0 (show ihlBytes m ≤ 131072 by omega)
  rw [ipValidate_iff, hsum]
  constructor
  · rintro ⟨hmin,hlen,hver,hrfc⟩
    exact ⟨hmin.trans hlen,hver,hmin,hlen,hrfc⟩
  · intro h
    exact ⟨h.atLeast,h.within,h.version,h.sum⟩

/-- For every buffer and length the test is that of the format unless a sound
header has an inconsistent total length. -/
theorem ipValidate_wellFormed_iff (m : Mem) (len : Nat) :
    (ipValidate m len = true ↔ WellFormedHeader m len) ↔ ¬ (SoundHeader m len ∧ ¬ ConsistentLength m len) := by
  rw [ipValidate_sound_iff]
  constructor
  · rintro h ⟨hs,hn⟩
    exact hn (h.mp hs).totalLen
  · intro h
    refine ⟨fun hs => ⟨hs,?_⟩,fun hw => hw.toSoundHeader⟩
    by_contra hn
    exact h ⟨hs,hn⟩

/-- 40 received bytes that claim to be 65535. -/
private def overlong : Mem := ipChecksum (setIpLen (craft clientId SYN 100 0) (htons 65535))

theorem overlong_accepted : ipValidate overlong 40 = true ∧ ¬ WellFormedHeader overlong 40 ∧
    ¬ (ipValidate overlong 40 = true ↔ WellFormedHeader overlong 40) := by
  have hv : ipValidate overlong 40 = true := by decide +kernel
  have hn : ¬ WellFormedHeader overlong 40 := by
    intro h
    have hle : (ntohs (ipLen overlong)).toNat ≤ 40 := h.totalLen.2
    exact absurd hle (by decide +kernel)
  exact ⟨hv,hn,fun h => hn (h.mp hv)⟩

end LazyTcp.Refactor
