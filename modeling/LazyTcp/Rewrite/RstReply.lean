import LazyTcp.Legacy.Verifies
import LazyTcp.Refactor.Craft

/-! The reset of the second stack against that of the first one. Both write the
same fields over the request; the second one takes some of them from locals it
never assigned, and leaves the checksums of the request. -/
namespace LazyTcp.Rewrite
open General General.Wire
open Legacy (WholeSegment Verifies ackFlag finFlag synFlag)

/-- The numbers in host order and the flags of a reset. -/
@[ext] structure ResetNumbers where
  seq : U32
  ack : U32
  flags : U8
  deriving DecidableEq, Repr

/-- The reset that answers a segment. -/
def resetNumbers (m : Mem) (o : Nat) : ResetNumbers :=
  if ackFlag m o then ⟨ntohl (tcpAckNum m o),0,RST⟩
  else ⟨0,ntohl (tcpSeqNum m o) + .ofNat 32 (Legacy.dataLen m o + (finFlag m o).toNat + (synFlag m o).toNat),RST ||| ACK⟩

/-- The one tcp_rst writes: htons on the acknowledgement number, and locals that
one branch or the other leaves unassigned. -/
def rstNumbers (stale : Refactor.Stale) (m : Mem) (o : Nat) : ResetNumbers :=
  if ackFlag m o then ⟨(htons ((tcpAckNum m o).setWidth 16)).setWidth 32,stale.ackNo,RST⟩
  else ⟨stale.seqNo,(resetNumbers m o).ack,stale.plFlags⟩

/-- The request with a reset written over it and its checksum fields untouched. -/
def resetFields (m : Mem) (o : Nat) (r : ResetNumbers) : Mem :=
  let b := Legacy.tcpSwitchPort (Legacy.ipSwapDst m) o
  let b := setIpLen b (htons (.ofNat 16 (ihlBytes m + tcpHlen m o)))
  let b := setTcpSeqNum b o (htonl r.seq)
  let b := setTcpAckNum b o (htonl r.ack)
  let b := setTcpDataOffset b o (dataOffsetByte (tcpHlen m o))
  let b := setTcpFlags b o r.flags
  let b := setTcpWindow b o 0
  setTcpUrgentPtr b o 0

section Builders
variable {m : Mem} {o : Nat} (htotal : ihlBytes m + tcpHlen m o ≤ (ntohs (ipLen m)).toNat)
include htotal

/-- The C expression for the payload length does not go below zero. -/
private theorem segLen_eq (n : Nat) : (ntohs (ipLen m)).setWidth 32 - .ofNat 32 (ihlBytes m) - .ofNat 32 (tcpHlen m o) +
    .ofNat 32 n = (BitVec.ofNat 32 (Legacy.dataLen m o + n) : U32) := by
  have hlen := (ntohs (ipLen m)).isLt
  apply BitVec.eq_of_toNat_eq
  simp only [BitVec.toNat_add, BitVec.toNat_sub, BitVec.toNat_setWidth, BitVec.toNat_ofNat, Legacy.dataLen]
  omega

theorem tcpNullRst_eq : Legacy.tcpNullRst m o = Legacy.tcpUpdateChecksum (Legacy.ipUpdateChecksum
    (resetFields m o (resetNumbers m o)) (ihlBytes m)) o (tcpHlen m o) := by
  have hflag : hasFlag (tcpFlags m o) ACK = ackFlag m o := rfl
  have hack := segLen_eq htotal ((finFlag m o).toNat + (synFlag m o).toNat)
  rw [resetNumbers, Nat.add_assoc, ← hack]
  simp only [Legacy.tcpNullRst, hflag]
  cases ackFlag m o with
  | true => rfl
  | false => rfl

theorem rstReply_eq (stale : Refactor.Stale) : Refactor.rstReply stale m o =
    (ihlBytes m + tcpHlen m o,resetFields m o (rstNumbers stale m o)) := by
  have hflag : hasFlag (tcpFlags m o) ACK = ackFlag m o := rfl
  have hports : Refactor.tcpSwapPort (Refactor.ipSwapDst m) o = Legacy.tcpSwitchPort (Legacy.ipSwapDst m) o :=
    Mem.store16_comm _ _ _ (by omega)
  have hack := segLen_eq htotal ((finFlag m o).toNat + (synFlag m o).toNat)
  rw [rstNumbers, resetNumbers, Nat.add_assoc, ← hack]
  simp only [Refactor.rstReply, hports, hflag]
  cases ackFlag m o with
  | true => rfl
  | false => rfl

end Builders

section Fields
variable (m : Mem) (r : ResetNumbers) {o : Nat}

theorem resetFields_numbers : tcpSeqNum (resetFields m o r) o = htonl r.seq ∧
    tcpAckNum (resetFields m o r) o = htonl r.ack ∧ tcpFlags (resetFields m o r) o = r.flags := by
  simp only [resetFields, tcpSeqNum, tcpAckNum, tcpFlags, setTcpUrgentPtr, setTcpWindow, setTcpFlags,
    setTcpDataOffset, setTcpAckNum, setTcpSeqNum]
  simp (disch := omega) only [Mem.load32_store16_other, Mem.load32_store8_other, Mem.load32_store32_other,
    Mem.load32_store32, Mem.store16_other, Mem.store8_same, and_self]

/-- The numbers and flags can be read off the written fields. -/
theorem resetFields_injective {a r : ResetNumbers}
    (h : ∀ j, o ≤ j → j < o + 16 → resetFields m o a j = resetFields m o r j) : a = r := by
  obtain ⟨hseq,hack,hflags⟩ := resetFields_numbers m a (o := o)
  obtain ⟨hseq',hack',hflags'⟩ := resetFields_numbers m r (o := o)
  have hs : htonl a.seq = htonl r.seq := by
    rw [← hseq, ← hseq']
    exact Mem.load32_congr fun j _ _ => h j (by omega) (by omega)
  have ha : htonl a.ack = htonl r.ack := by
    rw [← hack, ← hack']
    exact Mem.load32_congr fun j _ _ => h j (by omega) (by omega)
  ext1
  · exact Function.LeftInverse.injective ntohl_ntohl hs
  · exact Function.LeftInverse.injective ntohl_ntohl ha
  · rw [← hflags, ← hflags']
    exact h (o+13) (by omega) (by omega)

theorem resetFields_window : tcpWindow (resetFields m o r) o = 0 ∧ (resetFields m o r).load16 (o+18) = 0 := by
  simp only [resetFields, tcpWindow, setTcpUrgentPtr, setTcpWindow]
  rw [Mem.load16_store16_other _ _ (by omega), Mem.load16_store16, Mem.load16_store16]
  exact ⟨rfl,rfl⟩

variable (ho : 20 ≤ o)
include ho

/-- The checksum fields are the request's. -/
theorem resetFields_checksums {j : Nat} (hj : j = 10 ∨ j = o + 16) : (resetFields m o r).load16 j = m.load16 j := by
  refine Mem.load16_congr fun i _ _ => ?_
  simp only [resetFields, setTcpUrgentPtr, setTcpWindow, setTcpFlags, setTcpDataOffset, setTcpAckNum, setTcpSeqNum,
    setIpLen]
  simp (disch := omega) only [Mem.store16_other, Mem.store8_other, Mem.store32_other]
  rw [Legacy.tcpSwitchPort_other _ (by omega), Legacy.ipSwapDst_other _ (by omega)]

theorem resetFields_addresses : ipSrc (resetFields m o r) = ipDst m ∧ ipDst (resetFields m o r) = ipSrc m := by
  have hkeep : ∀ j, 12 ≤ j → j < 20 → resetFields m o r j = Legacy.ipSwapDst m j := by
    intro j hj hj'
    simp only [resetFields, setTcpUrgentPtr, setTcpWindow, setTcpFlags, setTcpDataOffset, setTcpAckNum, setTcpSeqNum,
      setIpLen]
    simp (disch := omega) only [Mem.store16_other, Mem.store8_other, Mem.store32_other]
    rw [Legacy.tcpSwitchPort_other _ (by omega)]
  obtain ⟨hsrc,hdst⟩ := Refactor.ipSwapDst_addresses m
  exact ⟨hsrc ▸ Mem.load32_congr fun j _ _ => hkeep j (by omega) (by omega),
    hdst ▸ Mem.load32_congr fun j _ _ => hkeep j (by omega) (by omega)⟩

end Fields

/-- The first stack signs what it wrote. -/
def signedReset (m : Mem) (o : Nat) (r : ResetNumbers) : Mem :=
  Legacy.tcpUpdateChecksum (Legacy.ipUpdateChecksum (resetFields m o r) (ihlBytes m)) o (tcpHlen m o)

/-- The checksums a reset has to carry. -/
def resetIpChecksum (m : Mem) (o : Nat) (r : ResetNumbers) : U16 :=
  internetChecksum (setIpChecksum (resetFields m o r) 0) 0 (ihlBytes m)

def resetTcpChecksum (m : Mem) (o : Nat) (r : ResetNumbers) : U16 :=
  internetChecksum (pseudoSegment (ipDst m) (ipSrc m) Legacy.IP_TCP_PROTO (tcpHlen m o)
    (setTcpChecksum (resetFields m o r) o 0) o) 0 (12 + tcpHlen m o)

section Signed
variable {m : Mem} {r : ResetNumbers} {o j : Nat}

theorem signedReset_other (hj : j ≠ 10 ∧ j ≠ 11 ∧ j ≠ o + 16 ∧ j ≠ o + 17) :
    signedReset m o r j = resetFields m o r j := by
  rw [signedReset, Legacy.tcpUpdateChecksum_other _ _ (by omega), Legacy.ipUpdateChecksum_other _ _ (by omega)]

theorem signedReset_ipChecksum (ho : 20 ≤ o) : (signedReset m o r).load16 10 = resetIpChecksum m o r := by
  have hkeep : (signedReset m o r).load16 10 = (Legacy.ipUpdateChecksum (resetFields m o r) (ihlBytes m)).load16 10 :=
    Mem.load16_congr fun i _ _ => Legacy.tcpUpdateChecksum_other _ _ (by omega)
  rw [hkeep]
  exact Mem.load16_store16 ..

/-- The signature of the IP header is not part of the segment. -/
theorem signedReset_tcpChecksum (ho : 20 ≤ o) : (signedReset m o r).load16 (o+16) = resetTcpChecksum m o r := by
  have hbyte {i : Nat} (hi : 12 ≤ i) : setTcpChecksum (Legacy.ipUpdateChecksum (resetFields m o r) (ihlBytes m)) o 0 i =
      setTcpChecksum (resetFields m o r) o 0 i := by
    by_cases hin : o + 16 ≤ i ∧ i < o + 18
    · rw [setTcpChecksum, setTcpChecksum, Mem.store16_zero _ hin.1 hin.2, Mem.store16_zero _ hin.1 hin.2]
    · rw [setTcpChecksum, setTcpChecksum, Mem.store16_other _ _ (by omega), Mem.store16_other _ _ (by omega),
        Legacy.ipUpdateChecksum_other _ _ (by omega)]
  obtain ⟨hsrc,hdst⟩ := resetFields_addresses m r ho
  have haddr {i : Nat} (hi : 12 ≤ i) (hi' : i + 4 ≤ 20) :
      (setTcpChecksum (Legacy.ipUpdateChecksum (resetFields m o r) (ihlBytes m)) o 0).load32 i =
        (resetFields m o r).load32 i := by
    rw [Mem.load32_congr fun k _ _ => hbyte (by omega)]
    exact Mem.load32_store16_other _ _ (by omega)
  rw [signedReset, Legacy.tcpUpdateChecksum, setTcpChecksum, Mem.load16_store16, resetTcpChecksum, ← hsrc, ← hdst]
  simp only [ipSrc, ipDst, haddr (show 12 ≤ 12 by omega) (by omega), haddr (show 12 ≤ 16 by omega) (by omega),
    pseudoSegment]
  rw [Mem.copy_congr _ 12 fun k _ => hbyte (show 12 ≤ o + k by omega)]
  rfl

/-- A reset that keeps the checksum fields of the request is a signed one byte for
byte exactly when the numbers are the same and the request carries the checksums
of the reset. -/
theorem resetFields_signed_iff (ho : 20 ≤ o) (hlo : 20 ≤ tcpHlen m o) {n : Nat} (hn : n = o + tcpHlen m o)
    (a r : ResetNumbers) : (∀ j, j < n → resetFields m o a j = signedReset m o r j) ↔
      a = r ∧ m.load16 10 = resetIpChecksum m o r ∧ tcpChecksumField m o = resetTcpChecksum m o r := by
  subst hn
  constructor
  · intro h
    refine ⟨resetFields_injective m (o := o) fun j hj hj' => ?_,?_,?_⟩
    · exact (h j (by omega)).trans (signedReset_other (by omega))
    · rw [← signedReset_ipChecksum ho, ← resetFields_checksums m a ho (Or.inl rfl)]
      exact Mem.load16_congr fun j _ _ => h j (by omega)
    · rw [← signedReset_tcpChecksum ho, tcpChecksumField, ← resetFields_checksums m a ho (Or.inr rfl)]
      exact Mem.load16_congr fun j _ _ => h j (by omega)
  · rintro ⟨rfl,hip,htcp⟩ j -
    have h1 := Mem.load16_inj (((resetFields_checksums m a ho (Or.inl rfl)).trans hip).trans
      (signedReset_ipChecksum ho).symm)
    have h2 := Mem.load16_inj (((resetFields_checksums m a ho (Or.inr rfl)).trans htcp).trans
      (signedReset_tcpChecksum ho).symm)
    by_cases hj : j ≠ 10 ∧ j ≠ 11 ∧ j ≠ o + 16 ∧ j ≠ o + 17
    · exact (signedReset_other hj).symm
    · have hcases : j = 10 ∨ j = 11 ∨ j = o + 16 ∨ j = o + 17 := by omega
      rcases hcases with rfl | rfl | rfl | rfl
      · exact h1.1
      · exact h1.2
      · exact h2.1
      · exact h2.2

end Signed

/-- The bytes b that answer m with a reset: swapped ends, the length of both
headers, valid checksums, and the numbers and flags of the rule. -/
structure ResetAnswer (m b : Mem) : Prop extends Verifies m b 0 where
  numbers : ⟨ntohl (tcpSeqNum b (ihlBytes m)),ntohl (tcpAckNum b (ihlBytes m)),tcpFlags b (ihlBytes m)⟩ =
    resetNumbers m (ihlBytes m)
  window : tcpWindow b (ihlBytes m) = 0
  urgent : b.load16 (ihlBytes m + 18) = 0

/-- What the locals of tcp_rst and the request have to hold for the numbers and
flags to come out right. -/
def LocalsRight (stale : Refactor.Stale) (m : Mem) (o : Nat) : Prop :=
  if ackFlag m o then tcpAckNum m o = 0 ∧ stale.ackNo = 0 else stale.seqNo = 0 ∧ stale.plFlags = RST ||| ACK

/-- The request carries the checksums of the reset that answers it. -/
def ChecksumsRight (m : Mem) (o : Nat) : Prop :=
  m.load16 10 = resetIpChecksum m o (resetNumbers m o) ∧ tcpChecksumField m o = resetTcpChecksum m o (resetNumbers m o)

/-- Of the 32-bit numbers htons gets only zero right. -/
private theorem htons_number (v : U32) : (htons (v.setWidth 16)).setWidth 32 = ntohl v ↔ v = 0 := by
  have hlow := (ntohs (BitVec.ofNat 16 v.toNat)).isLt
  have hhigh := (ntohs (BitVec.ofNat 16 (v.toNat / 65536))).isLt
  constructor
  · intro h
    change (ntohs (BitVec.ofNat 16 v.toNat)).setWidth 32 = ntohl v at h
    have hnat := congrArg BitVec.toNat h
    rw [ntohl, BitVec.toNat_setWidth, BitVec.toNat_ofNat, Nat.mod_eq_of_lt (by omega), Nat.mod_eq_of_lt (by omega)] at hnat
    have hz : ntohl v = 0 := by
      rw [ntohl, show (ntohs (BitVec.ofNat 16 v.toNat)).toNat = 0 by omega,
        show (ntohs (BitVec.ofNat 16 (v.toNat / 65536))).toNat = 0 by omega]
      rfl
    rw [← ntohl_ntohl v, hz]
    decide
  · rintro rfl
    decide

private theorem rstNumbers_right_iff (stale : Refactor.Stale) (m : Mem) (o : Nat) :
    rstNumbers stale m o = resetNumbers m o ↔ LocalsRight stale m o := by
  cases hf : ackFlag m o with
  | true => simp [rstNumbers, resetNumbers, LocalsRight, hf, htons_number]
  | false => simp [rstNumbers, resetNumbers, LocalsRight, hf]

private theorem tcpNullRst_answers {m : Mem} (hm : WholeSegment m)
    (htotal : ihlBytes m + tcpHlen m (ihlBytes m) ≤ (ntohs (ipLen m)).toNat) :
    ResetAnswer m (Legacy.tcpNullRst m (ihlBytes m)) := by
  have hsigned : Legacy.tcpNullRst m (ihlBytes m) = signedReset m (ihlBytes m) (resetNumbers m (ihlBytes m)) :=
    tcpNullRst_eq htotal
  have hihl := hm.ihl
  obtain ⟨hseq,hack,hflags⟩ := resetFields_numbers m (resetNumbers m (ihlBytes m)) (o := ihlBytes m)
  obtain ⟨hwindow,hurgent⟩ := resetFields_window m (resetNumbers m (ihlBytes m)) (o := ihlBytes m)
  refine ⟨Legacy.tcpNullRst_verifies hm,?_,?_,?_⟩
  · rw [hsigned]
    ext1
    · rw [tcpSeqNum, Mem.load32_congr fun j _ _ => signedReset_other (by omega), ← tcpSeqNum, hseq, ntohl_ntohl]
    · rw [tcpAckNum, Mem.load32_congr fun j _ _ => signedReset_other (by omega), ← tcpAckNum, hack, ntohl_ntohl]
    · exact (signedReset_other (by omega)).trans hflags
  · rw [hsigned, ← hwindow]
    exact Mem.load16_congr fun j _ _ => signedReset_other (by omega)
  · rw [hsigned, ← hurgent]
    exact Mem.load16_congr fun j _ _ => signedReset_other (by omega)

/-- For every whole segment the first stack answers with the reset of the rule, and
the bytes tcp_rst returns are the same if and only if its locals held the right
values and the request already carried the checksums. No request is answered right
whatever the locals hold. -/
theorem rst_replies_agree_iff {m : Mem} (hm : WholeSegment m)
    (htotal : ihlBytes m + tcpHlen m (ihlBytes m) ≤ (ntohs (ipLen m)).toNat) :
    ResetAnswer m (Legacy.tcpNullRst m (ihlBytes m)) ∧
      (∀ stale, (∀ j, j < (Refactor.rstReply stale m (ihlBytes m)).1 →
          (Refactor.rstReply stale m (ihlBytes m)).2 j = Legacy.tcpNullRst m (ihlBytes m) j) ↔
        LocalsRight stale m (ihlBytes m) ∧ ChecksumsRight m (ihlBytes m)) ∧
      ¬ ∀ stale, ∀ j, j < (Refactor.rstReply stale m (ihlBytes m)).1 →
        (Refactor.rstReply stale m (ihlBytes m)).2 j = Legacy.tcpNullRst m (ihlBytes m) j := by
  have hiff (stale : Refactor.Stale) : (∀ j, j < (Refactor.rstReply stale m (ihlBytes m)).1 →
      (Refactor.rstReply stale m (ihlBytes m)).2 j = Legacy.tcpNullRst m (ihlBytes m) j) ↔
        LocalsRight stale m (ihlBytes m) ∧ ChecksumsRight m (ihlBytes m) := by
    rw [rstReply_eq htotal, tcpNullRst_eq htotal, ← rstNumbers_right_iff]
    exact resetFields_signed_iff hm.ihl hm.offset rfl _ _
  refine ⟨tcpNullRst_answers hm htotal,hiff,fun h => ?_⟩
  have hlocals := ((hiff ⟨1,1,0⟩).mp (h ⟨1,1,0⟩)).1
  unfold LocalsRight at hlocals
  split at hlocals
  · exact absurd hlocals.2 (by decide)
  · exact absurd hlocals.1 (by decide)

open Refactor (craft clientId)

private theorem client_whole : WholeSegment (craft clientId SYN 100 0) ∧
    ihlBytes (craft clientId SYN 100 0) + tcpHlen (craft clientId SYN 100 0) (ihlBytes (craft clientId SYN 100 0)) ≤
      (ntohs (ipLen (craft clientId SYN 100 0))).toNat :=
  ⟨⟨by decide +kernel,by decide +kernel,by decide +kernel⟩,by decide +kernel⟩

/-- The first stack resets the client's SYN with sequence number 0. -/
theorem rst_replies_agree_client : ResetAnswer (craft clientId SYN 100 0)
    (Legacy.tcpNullRst (craft clientId SYN 100 0) (ihlBytes (craft clientId SYN 100 0))) :=
  (rst_replies_agree_iff client_whole.1 client_whole.2).1

/-- An acknowledgement of 78: the old reset has sequence number 78, the new one 0,
with all locals zero. -/
theorem ack_reset_differs : WholeSegment (craft clientId ACK 101 78) ∧ ihlBytes (craft clientId ACK 101 78) = 20 ∧
    (ntohs (ipLen (craft clientId ACK 101 78))).toNat = 40 ∧
    ¬ ∀ j, j < (Refactor.rstReply ⟨0,0,0⟩ (craft clientId ACK 101 78) 20).1 →
      (Refactor.rstReply ⟨0,0,0⟩ (craft clientId ACK 101 78) 20).2 j =
        Legacy.tcpNullRst (craft clientId ACK 101 78) 20 j := by
  refine ⟨⟨by decide +kernel,by decide +kernel,by decide +kernel⟩,by decide +kernel,by decide +kernel,fun h => ?_⟩
  exact absurd (h 27 (by decide +kernel)) (by decide +kernel)

end LazyTcp.Rewrite
