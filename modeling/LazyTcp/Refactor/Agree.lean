import LazyTcp.Refactor.Connection
import LazyTcp.Refactor.Replies

/-! The validators and reply builders on two buffers that agree on some of
their bytes: what they read, and on which bytes their replies agree. -/
namespace LazyTcp.Refactor
open General General.Wire
variable {p : Nat → Prop} {m m' : Mem}

theorem checksum_agree {i n : Nat} (h : Mem.AgreeOn p m m') (hp : ∀ j, i ≤ j → j < i + n → p j) :
    checksum m i n = checksum m' i n :=
  internetChecksum_congr fun k hk => h _ (hp _ (by omega) (by omega))

theorem ihlBytes_agree (h : Mem.AgreeOn p m m') (hp : p 0) : ihlBytes m = ihlBytes m' := ihlBytes_congr (h 0 hp)

theorem ipValidate_agree {len : Nat} (h : Mem.AgreeOn (· < len) m m') : ipValidate m len = ipValidate m' len := by
  unfold ipValidate
  by_cases hlen : len < 20
  · rw [if_pos hlen, if_pos hlen]
  rw [if_neg hlen, if_neg hlen]
  have hihl := ihlBytes_agree h (show 0 < len by omega)
  have hver : versionIhl m = versionIhl m' := h.byte_lt (by omega)
  simp only [hihl, hver]
  split
  case isTrue => rfl
  case isFalse hin =>
    rw [checksum_agree h fun j _ hj => show j < len by omega]

theorem ipSwapDst_agree (h : Mem.AgreeOn p m m') (hp : ∀ j, 12 ≤ j → j < 20 → p j) :
    Mem.AgreeOn p (ipSwapDst m) (ipSwapDst m') := by
  have hs : ipSrc m = ipSrc m' := h.load32 fun j _ _ => hp j (by omega) (by omega)
  have hd : ipDst m = ipDst m' := h.load32 fun j _ _ => hp j (by omega) (by omega)
  simp only [ipSwapDst, hs, hd]
  exact (h.store32 12 _).store32 16 _

theorem ipChecksum_agree (h : Mem.AgreeOn p m m') (hp : ∀ j, j < ihlBytes m → p j) (h0 : p 0) :
    Mem.AgreeOn p (ipChecksum m) (ipChecksum m') := by
  have hc := h.store16 10 0
  have hsum : checksum (setIpChecksum m 0) 0 (ihlBytes m) = checksum (setIpChecksum m' 0) 0 (ihlBytes m) :=
    checksum_agree hc fun j _ hj => hp j (by omega)
  rw [ipChecksum, ipChecksum, ← ihlBytes_agree h h0, hsum]
  exact hc.store16 10 _

theorem icmpChecksum_agree {o n : Nat} (h : Mem.AgreeOn p m m')
    (hp : ∀ j, o ≤ j → j < o + n → p j ∨ o + 2 ≤ j ∧ j < o + 2 + 2) :
    Mem.AgreeOn (fun j => p j ∨ o + 2 ≤ j ∧ j < o + 2 + 2) (icmpChecksum m o n) (icmpChecksum m' o n) := by
  have hc := h.store16_extend (o+2) 0
  have hsum : checksum (setIcmpChecksum m o 0) o n = checksum (setIcmpChecksum m' o 0) o n :=
    checksum_agree hc fun j hj hj' => hp j hj hj'
  simp only [icmpChecksum, hsum]
  exact hc.store16 (o+2) _

theorem icmpEchoReply_agree {len o : Nat} (h : Mem.AgreeOn (· < len) m m') (hih : ihlBytes m ≤ len) (ho : 20 ≤ o)
    (hlen : o + 8 ≤ len) : (icmpEchoReply m len o).1 = (icmpEchoReply m' len o).1 ∧
      Mem.AgreeOn (· < len) (icmpEchoReply m len o).2 (icmpEchoReply m' len o).2 := by
  have h1 := (h.store8 o 0).store8 (o+1) 0
  have h2 := (icmpChecksum_agree (o := o) (n := len - o) h1 fun j _ hj => Or.inl (show j < len by omega)).mono
    (q := (· < len)) fun j hj => Or.inl hj
  have h3 := ipSwapDst_agree h2 fun j _ hj => show j < len by omega
  refine ⟨rfl,ipChecksum_agree h3 (fun j hj => ?_) (show 0 < len by omega)⟩
  have hle : ihlBytes (ipSwapDst (icmpChecksum ((m.store8 o 0).store8 (o+1) 0) o (len - o))) = ihlBytes m := by
    apply ihlBytes_congr
    simp (disch := omega) only [ipSwapDst, setIpSrc, setIpDst, icmpChecksum, setIcmpChecksum, Mem.store32_other,
      Mem.store16_other, Mem.store8_other]
  exact show j < len from lt_of_lt_of_le (hle ▸ hj) hih

theorem icmpDispatch_agree {len o : Nat} (h : Mem.AgreeOn (· < len) m m') (hih : ihlBytes m ≤ len) (ho : 20 ≤ o)
    (hlen : o ≤ len) : (icmpDispatch m len o).1 = (icmpDispatch m' len o).1 ∧
      Mem.AgreeOn (· < len) (icmpDispatch m len o).2 (icmpDispatch m' len o).2 := by
  have hv : icmpValidate m o (len - o) = icmpValidate m' o (len - o) := by
    rw [icmpValidate, icmpValidate, checksum_agree h fun j _ hj => show j < len by omega]
  unfold icmpDispatch
  rw [← hv]
  cases hval : icmpValidate m o (len - o) with
  | false => exact ⟨rfl,h⟩
  | true =>
    have hshort : o + 8 ≤ len := by
      unfold icmpValidate at hval
      split at hval
      · cases hval
      · omega
    have htype : icmpType m o = icmpType m' o := h.byte_lt (by omega)
    rw [← htype]
    by_cases he : icmpType m o = ICMP_ECHO
    · simp only [Bool.not_true, Bool.false_eq_true, if_false, if_pos he]
      exact icmpEchoReply_agree h hih ho hshort
    · simp only [Bool.not_true, Bool.false_eq_true, if_false, if_neg he]
      exact ⟨trivial,h⟩

theorem icmpDispatch_len {len o : Nat} : (icmpDispatch m len o).1 ≤ len := by
  unfold icmpDispatch
  split
  · exact Nat.zero_le _
  · split
    · exact le_rfl
    · exact Nat.zero_le _

/-- The unreachable message is rebuilt byte by byte from the quoted prefix of the
request, so it agrees on all of its bytes, also on those past the request's end. -/
theorem icmpDestUnreachable_agree {len : Nat} (h : Mem.AgreeOn (· < len) m m') (ho : 20 ≤ ihlBytes m)
    (hlen : ihlBytes m ≤ len) :
    (icmpDestUnreachable m len (ihlBytes m)).1 = (icmpDestUnreachable m' len (ihlBytes m)).1 ∧
      Mem.AgreeOn (· < (icmpDestUnreachable m len (ihlBytes m)).1) (icmpDestUnreachable m len (ihlBytes m)).2
        (icmpDestUnreachable m' len (ihlBytes m)).2 := by
  have hih : ihlBytes m ≤ 60 := ihlBytes_le m
  generalize ho' : ihlBytes m = o at *
  have hd : (if len - o < 8 then len - o else 8) ≤ len - o ∧ (if len - o < 8 then len - o else 8) ≤ 8 := by
    split <;> omega
  simp only [icmpDestUnreachable]
  generalize (if len - o < 8 then len - o else 8) = d at hd
  have hmtu : ¬ o + 8 + (o + d) > MTU_SIZE := by
    unfold MTU_SIZE
    omega
  rw [if_neg hmtu, if_neg hmtu]
  refine ⟨rfl,?_⟩
  have hzero : Mem.AgreeOn (fun _ => False) (fun _ => 0) (fun _ => 0) := fun _ hi => hi.elim
  have hpl := (hzero.copy_extend 0 0 o fun k hk => h (0+k) (show 0+k < len by omega)).copy_extend o o d
    fun k hk => h (o+k) (show o+k < len by omega)
  have hhead := h.mono (q := (· < o)) fun i (hi : i < o) => show i < len by omega
  have h3 := ((hhead.store16 2 (htons (.ofNat 16 (o + 8 + (o + d))))).store16 4 0).store8 9 PROTO_ICMP
  have h4 := ipSwapDst_agree h3 fun j _ hj => show j < o by omega
  have hihl : ihlBytes (ipSwapDst (((m.store16 2 (htons (.ofNat 16 (o + 8 + (o + d))))).store16 4 0).store8 9
      PROTO_ICMP)) = o := by
    rw [← ho']
    apply ihlBytes_congr
    simp (disch := omega) only [ipSwapDst, setIpSrc, setIpDst, Mem.store32_other, Mem.store16_other, Mem.store8_other]
  have h5 := ipChecksum_agree h4 (fun j hj => show j < o from hihl ▸ hj) (show 0 < o by omega)
  have h6 := (((h5.store8_extend o ICMP_DST_UNREACHABLE).store8_extend (o+1) ICMP_PROTO_UNREACHABLE).store16_extend
    (o+4) 0).store16_extend (o+6) 0
  have h7 := h6.copy_extend (o+8) 0 (o+d) fun k hk => hpl (0+k) (by omega)
  have h8 := icmpChecksum_agree (o := o) (n := 8 + (o + d)) h7 fun j _ _ => by omega
  exact h8.mono fun j hj => by omega

theorem tcpChecksum_agree {len o : Nat} (h : Mem.AgreeOn p m m') (hp : ∀ j, j < len → p j) (ho : 20 ≤ o)
    (hlen : o ≤ len) : tcpChecksum m len o = tcpChecksum m' len o := by
  have hs : ipSrc m = ipSrc m' := h.load32 fun j _ _ => hp j (by omega)
  have hd : ipDst m = ipDst m' := h.load32 fun j _ _ => hp j (by omega)
  have hproto : ipProto m = ipProto m' := h 9 (hp 9 (by omega))
  have hc := h.store16 (o+16) 0
  simp only [tcpChecksum, hs, hd, hproto]
  have hpseudo : Mem.AgreeOn (fun _ => True)
      (((((Mem.store32 (fun _ => 0) 0 (ipSrc m')).store32 4 (ipDst m')).store8 8 0).store8 9 (ipProto m')).store16 10
        (htons (.ofNat 16 (len - o)))) _ := fun _ _ => rfl
  exact checksum_agree (hpseudo.copy_extend 12 o (len - o) fun k hk => hc (o+k) (hp _ (by omega)))
    fun j _ _ => Or.inl trivial

theorem tcpSwapPort_agree {o : Nat} (h : Mem.AgreeOn p m m') (hp : ∀ j, o ≤ j → j < o + 4 → p j) :
    Mem.AgreeOn p (tcpSwapPort m o) (tcpSwapPort m' o) := by
  have hs : tcpSrcPort m o = tcpSrcPort m' o := h.load16 fun j _ _ => hp j (by omega) (by omega)
  have hd : tcpDstPort m o = tcpDstPort m' o := h.load16 fun j _ _ => hp j (by omega) (by omega)
  simp only [tcpSwapPort, hs, hd]
  exact (h.store16 o _).store16 (o+2) _

section Tcp
variable {len o : Nat} (h : Mem.AgreeOn (· < len) m m')
include h

/-- The SYN-ACK writes the urgent pointer, so its fixed header agrees even when
the request ends before that field. -/
theorem tcpSynAck_agree (tcb : TCB) (hih : ihlBytes m ≤ len) (ho : 20 ≤ o) (hl : o + 18 ≤ len) :
    (tcpSynAck tcb m len o).1 = (tcpSynAck tcb m' len o).1 ∧
      Mem.AgreeOn (fun j => j < len ∨ j < o + 20) (tcpSynAck tcb m len o).2 (tcpSynAck tcb m' len o).2 := by
  constructor
  · rw [tcpSynAck_len _ _ _ ho, tcpSynAck_len _ _ _ ho, ihlBytes_agree h (show 0 < len by omega),
      tcpHlen_congr (h.byte_lt (by omega))]
  have h2 := tcpSwapPort_agree (ipSwapDst_agree h fun j _ hj => show j < len by omega) (o := o)
    fun j _ hj => show j < len by omega
  have hihl : ihlBytes (tcpSwapPort (ipSwapDst m) o) = ihlBytes m := by
    apply ihlBytes_congr
    simp (disch := omega) only [ipSwapDst, tcpSwapPort, setIpSrc, setIpDst, setTcpSrcPort, setTcpDstPort,
      Mem.store16_other, Mem.store32_other]
  simp only [tcpSynAck]
  rw [← tcpHlen_congr (h2.byte_lt (by omega))]
  generalize tcpHlen (tcpSwapPort (ipSwapDst m) o) o = hlen
  rw [← hihl] at hih
  generalize tcpSwapPort (ipSwapDst m) o = a at h2 hih ⊢
  generalize tcpSwapPort (ipSwapDst m') o = a' at h2 ⊢
  have h3 := ((((((h2.store32 (o+4) (htonl tcb.send.iss)).store32 (o+8) (htonl tcb.recv.next)).store8 (o+12)
    (dataOffsetByte hlen)).store8 (o+13) (SYN ||| ACK)).store16 (o+14)
    (htons (tcb.recv.window.setWidth 16))).store16_extend (o+18) 0)
  have hihl3 : ihlBytes ((((((a.store32 (o+4) (htonl tcb.send.iss)).store32 (o+8) (htonl tcb.recv.next)).store8 (o+12)
      (dataOffsetByte hlen)).store8 (o+13) (SYN ||| ACK)).store16 (o+14)
      (htons (tcb.recv.window.setWidth 16))).store16 (o+18) 0) = ihlBytes a := by
    apply ihlBytes_congr
    simp (disch := omega) only [Mem.store32_other, Mem.store16_other, Mem.store8_other]
  simp only [setTcpSeqNum, setTcpAckNum, setTcpDataOffset, setTcpFlags, setTcpWindow, setTcpUrgentPtr, setIpLen]
  rw [← ihlBytes_agree h3 (Or.inl (show 0 < len by omega)), hihl3]
  have h4 := h3.store16 2 (htons (.ofNat 16 (ihlBytes a + hlen)))
  have h5 := ipChecksum_agree h4 (fun j hj => Or.inl ?_) (Or.inl (show 0 < len by omega))
  · rw [← tcpChecksum_agree h5 (fun j hj => Or.inl hj) ho (by omega)]
    exact (h5.store16 (o+16) _).mono fun j hj => by omega
  · have hihl4 : ihlBytes ((((((((a.store32 (o+4) (htonl tcb.send.iss)).store32 (o+8) (htonl tcb.recv.next)).store8 (o+12)
        (dataOffsetByte hlen)).store8 (o+13) (SYN ||| ACK)).store16 (o+14)
        (htons (tcb.recv.window.setWidth 16))).store16 (o+18) 0).store16 2 (htons (.ofNat 16 (ihlBytes a + hlen))))) =
        ihlBytes a := by
      apply ihlBytes_congr
      simp (disch := omega) only [Mem.store32_other, Mem.store16_other, Mem.store8_other]
    rw [hihl4] at hj
    exact show j < len by omega

/-- The reset keeps the request's checksum field and writes the rest of the fixed header. -/
theorem rstReply_agree (stale : Stale) (ho : 20 ≤ o) (hl : o + 18 ≤ len) :
    (rstReply stale m o).1 = (rstReply stale m' o).1 ∧
      Mem.AgreeOn (fun j => j < len ∨ j < o + 20) (rstReply stale m o).2 (rstReply stale m' o).2 := by
  have hflags : tcpFlags m o = tcpFlags m' o := h.byte_lt (by omega)
  have hhlen : tcpHlen m o = tcpHlen m' o := tcpHlen_congr (h.byte_lt (by omega))
  have hihl := ihlBytes_agree h (show 0 < len by omega)
  have hlen : ipLen m = ipLen m' := h.load16_lt (by omega)
  have hseq : tcpSeqNum m o = tcpSeqNum m' o := h.load32_lt (by omega)
  have hack : tcpAckNum m o = tcpAckNum m' o := h.load32_lt (by omega)
  have h2 := tcpSwapPort_agree (ipSwapDst_agree h fun j _ hj => show j < len by omega) (o := o)
    fun j _ hj => show j < len by omega
  simp only [rstReply, hflags, hhlen, hihl, hlen, hseq, hack]
  refine ⟨trivial,?_⟩
  generalize tcpSwapPort (ipSwapDst m) o = a at h2 ⊢
  generalize tcpSwapPort (ipSwapDst m') o = a' at h2 ⊢
  refine Mem.AgreeOn.mono (Mem.AgreeOn.store16_extend (p := (· < len)) ?_ (o+18) 0) fun j hj => by omega
  exact (((((h2.store16 2 _).store32 (o+4) _).store32 (o+8) _).store8 (o+12) _).store8 (o+13) _).store16 (o+14) 0

/-- From 14 bytes on the segment determines everything but the window field. -/
theorem segment_agree_14 (ho : 20 ≤ o) (hl : o + 14 ≤ len) :
    segment m o = { segment m' o with window := ntohs (tcpWindow m o) } := by
  have hsrc : tcpSrcPort m o = tcpSrcPort m' o := h.load16_lt (by omega)
  have hdst : tcpDstPort m o = tcpDstPort m' o := h.load16_lt (by omega)
  have hs : ipSrc m = ipSrc m' := h.load32_lt (by omega)
  have hd : ipDst m = ipDst m' := h.load32_lt (by omega)
  have hflags : tcpFlags m o = tcpFlags m' o := h.byte_lt (by omega)
  have hseq : tcpSeqNum m o = tcpSeqNum m' o := h.load32_lt (by omega)
  have hack : tcpAckNum m o = tcpAckNum m' o := h.load32_lt (by omega)
  simp only [segment, segId, segFlags, hsrc, hdst, hs, hd, hflags, hseq, hack]

theorem segment_agree_16 (ho : 20 ≤ o) (hl : o + 16 ≤ len) : segment m o = segment m' o := by
  have hw : tcpWindow m o = tcpWindow m' o := h.load16_lt (by omega)
  rw [segment_agree_14 h ho (by omega), hw]
  rfl

theorem checksumOk_agree (ho : 20 ≤ o) (hl : o + 18 ≤ len) : checksumOk m len o = checksumOk m' len o := by
  have hf : tcpChecksumField m o = tcpChecksumField m' o := h.load16_lt (by omega)
  rw [checksumOk, checksumOk, hf, tcpChecksum_agree h (fun _ hj => hj) ho (by omega)]

end Tcp

end LazyTcp.Refactor
