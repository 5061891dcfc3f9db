import LazyTcp.Refactor.SynAck

/-! The checksum test of tcp_dispatch, which recomputes and compares, against the
test of the other two validators, which sums to zero. They part at the two zeros
of ones complement. -/
namespace LazyTcp.Refactor
open General General.Wire
variable {m : Mem} {len o : Nat}

/-- Sum of pseudo-header and segment without the stored checksum. -/
def unsignedSum (m : Mem) (len o : Nat) : Nat :=
  pseudoSum (ipSrc m) (ipDst m) (ipProto m) (len - o) + byteSum (setTcpChecksum m o 0) o (len - o)

/-- The checksum is stored as 0xFFFF where the computed one is 0x0000. -/
def OtherZero (m : Mem) (len o : Nat) : Prop :=
  tcpChecksumField m o = 0xFFFF ∧ unsignedSum m len o % 65535 = 0

private theorem unsignedSum_pos (hp : ipProto m = PROTO_TCP) : 0 < unsignedSum m len o := by
  rw [unsignedSum, pseudoSum, hp, show PROTO_TCP.toNat = 6 from rfl]
  omega

/-- With the checksum in place the sum grows by the stored value. -/
private theorem signedSum (hseg : o + 20 ≤ len) :
    pseudoSum (ipSrc m) (ipDst m) (ipProto m) (len - o) + byteSum m o (len - o) =
      unsignedSum m len o + (tcpChecksumField m o).toNat := by
  have h := byteSum_store16 m o 0 (k := 16) (by rfl) (n := len - o) (by omega)
  rw [show (0 : U16).toNat = 0 from rfl] at h
  rw [unsignedSum, setTcpChecksum, tcpChecksumField]
  omega

private theorem segmentVerifies_iff (hp : ipProto m = PROTO_TCP) (hseg : o + 20 ≤ len) (hlen : len ≤ 65535) :
    SegmentVerifies m o (len - o) ↔ (unsignedSum m len o + (tcpChecksumField m o).toNat) % 65535 = 0 := by
  have hpos : 0 < unsignedSum m len o := unsignedSum_pos hp
  rw [SegmentVerifies, checksum, internetChecksum_eq_zero _ _ (by omega), byteSum_pseudoSegment, signedSum hseg]
  exact and_iff_right (by omega)

private theorem checksumOk_iff (hlen : len ≤ 65535) : checksumOk m len o = true ↔
    (tcpChecksumField m o).toNat = 65535 - onesNorm (unsignedSum m len o) := by
  rw [checksumOk, decide_eq_true_eq, ← BitVec.toNat_inj, tcpChecksum_toNat m o (by omega)]
  rfl

/-- Of the two representations of zero only one is computed, so equality with the
computed value is the ones-complement test except at the other one. -/
private theorem compare_iff_sum {stored sum : Nat} (hpos : 0 < sum) (hs : stored < 65536) :
    (stored = 65535 - onesNorm sum ↔ (sum + stored) % 65535 = 0) ↔ ¬ (stored = 65535 ∧ sum % 65535 = 0) := by
  have hsum := sum_complement_iff (s := sum) hs
  have hnorm := onesNorm_eq_zero (s := sum)
  rw [and_iff_right (show 0 < sum + stored by omega), and_iff_right hpos] at hsum
  rw [hsum]
  constructor
  · rintro h hother
    have heq := h.mpr (Or.inr hother)
    omega
  · exact fun hn => (or_iff_left hn).symm

/-- For every segment of at least 20 bytes in a TCP packet the two tests agree if
and only if the checksum is not the other zero. -/
theorem checksumOk_agrees_iff (hp : ipProto m = PROTO_TCP) (hseg : o + 20 ≤ len) (hlen : len ≤ 65535) :
    (checksumOk m len o = true ↔ SegmentVerifies m o (len - o)) ↔ ¬ OtherZero m len o := by
  have hfield : tcpChecksumField m o = 0xFFFF ↔ (tcpChecksumField m o).toNat = 65535 := by
    rw [← BitVec.toNat_inj]
    rfl
  rw [checksumOk_iff hlen, segmentVerifies_iff hp hseg hlen, OtherZero, hfield]
  exact compare_iff_sum (unsignedSum_pos hp) (tcpChecksumField m o).isLt

theorem checksumOk_agrees_client : checksumOk (craft clientId SYN 100 0) 40 20 = true ↔
    SegmentVerifies (craft clientId SYN 100 0) 20 20 := by
  refine (checksumOk_agrees_iff (by decide +kernel) (show 20 + 20 ≤ 40 by decide) (by decide)).mpr ?_
  rintro ⟨hfield,-⟩
  exact absurd hfield (by decide +kernel)

/-- The client's SYN at a number that makes its checksum zero, which is sent as
the other zero. -/
private def otherZero : Mem := setTcpChecksum (craft clientId SYN 18632 0) 20 0xFFFF

theorem otherZero_refused : ipValidate otherZero 40 = true ∧ ipProto otherZero = PROTO_TCP ∧
    SegmentVerifies otherZero 20 (40 - 20) ∧ (tcpDispatch calmEnv .empty otherZero 40 20).ret = 0 ∧
    ¬ (checksumOk otherZero 40 20 = true ↔ SegmentVerifies otherZero 20 (40 - 20)) := by
  have hsum : SegmentVerifies otherZero 20 (40 - 20) := by
    unfold SegmentVerifies
    decide +kernel
  have hbad : checksumOk otherZero 40 20 = false := by decide +kernel
  refine ⟨by decide +kernel,by decide +kernel,hsum,?_,fun h => ?_⟩
  · rw [tcpDispatch, if_pos (of_decide_eq_false hbad)]
  · exact absurd (h.mpr hsum) (by rw [hbad]; decide)

end LazyTcp.Refactor
