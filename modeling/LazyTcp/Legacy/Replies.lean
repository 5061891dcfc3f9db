import LazyTcp.Legacy.Tcp

/-! What the datagrams of the first stack look like to their receiver: the bytes
each builder keeps, and the fields of the segments it writes. The transport
header starts behind the 20 fixed bytes of the IP header. -/
namespace LazyTcp.Legacy
open General General.Wire
variable (ticks : U32) (m : Mem) (tcb : TCB) (body : List U8) {o : Nat}

/-- The checksum updates write the two checksum fields only. -/
theorem ipUpdateChecksum_other {j : Nat} (n : Nat) (hj : j < 10 ∨ 12 ≤ j) : ipUpdateChecksum m n j = m j := by
  simp only [ipUpdateChecksum, setIpChecksum]
  simp (disch := omega) only [Mem.store16_other]

theorem tcpUpdateChecksum_other {j : Nat} (n : Nat) (hj : j < o + 16 ∨ o + 18 ≤ j) :
    tcpUpdateChecksum m o n j = m j := by
  simp only [tcpUpdateChecksum, setTcpChecksum]
  simp (disch := omega) only [Mem.store16_other]

/-- Stores into the two headers that keep the version, IHL and protocol bytes. -/
theorem ipSwapDst_other {j : Nat} (hj : j < 12 ∨ 20 ≤ j) : ipSwapDst m j = m j := by
  simp only [ipSwapDst, setIpSrc, setIpDst]
  simp (disch := omega) only [Mem.store32_other]

theorem tcpSwitchPort_other {j : Nat} (hj : j < o ∨ o + 4 ≤ j) : tcpSwitchPort m o j = m j := by
  simp only [tcpSwitchPort, setTcpSrcPort, setTcpDstPort]
  simp (disch := omega) only [Mem.store16_other]

theorem tcpSwitchPort_ports (o : Nat) : tcpSrcPort (tcpSwitchPort m o) o = tcpDstPort m o ∧
    tcpDstPort (tcpSwitchPort m o) o = tcpSrcPort m o := by
  constructor
  · exact Mem.load16_store16 ..
  · rw [tcpSwitchPort, tcpDstPort, setTcpSrcPort, setTcpDstPort, Mem.load16_store16_other _ _ (by omega),
      Mem.load16_store16]

/-- An answer that keeps the four bytes of the switched ports. -/
private theorem switched_ports {b : Mem} (ho : 20 ≤ o)
    (hb : ∀ j, o ≤ j → j < o + 4 → b j = tcpSwitchPort (ipSwapDst m) o j) :
    tcpSrcPort b o = tcpDstPort m o ∧ tcpDstPort b o = tcpSrcPort m o := by
  obtain ⟨hsrc,hdst⟩ := tcpSwitchPort_ports (ipSwapDst m) o
  have hs : tcpSrcPort (ipSwapDst m) o = tcpSrcPort m o := Mem.load16_congr fun j _ _ => ipSwapDst_other _ (by omega)
  have hd : tcpDstPort (ipSwapDst m) o = tcpDstPort m o := Mem.load16_congr fun j _ _ => ipSwapDst_other _ (by omega)
  rw [hd] at hsrc
  rw [hs] at hdst
  rw [← hsrc, ← hdst]
  exact ⟨Mem.load16_congr fun j hj _ => hb j hj (by omega),Mem.load16_congr fun j _ _ => hb j (by omega) (by omega)⟩

theorem icmpDispatch_proto (ho : 20 ≤ o) : ipProto (icmpDispatch m o) = ipProto m := by
  unfold icmpDispatch
  split
  · simp only [ipProto, icmpEchoReply, icmpUpdateChecksum, setIcmpChecksum, setIcmpCode, setIcmpType]
    rw [ipUpdateChecksum_other _ _ (by omega), ipSwapDst_other _ (by omega)]
    simp (disch := omega) only [Mem.store16_other, Mem.store8_other]
  · rfl

/-- The length field of an ICMP packet is not touched. -/
theorem icmpDispatch_ipLen (ho : 20 ≤ o) : ipLen (icmpDispatch m o) = ipLen m := by
  unfold icmpDispatch
  split
  · refine Mem.load16_congr fun j hj hj' => ?_
    simp only [icmpEchoReply, icmpUpdateChecksum, setIcmpChecksum, setIcmpCode, setIcmpType]
    rw [ipUpdateChecksum_other _ _ (by omega), ipSwapDst_other _ (by omega)]
    simp (disch := omega) only [Mem.store16_other, Mem.store8_other]
  · rfl

theorem tcpNullRst_head {j : Nat} (ho : 20 ≤ o) (hj : j = 0 ∨ j = 9) : tcpNullRst m o j = m j := by
  simp only [tcpNullRst, setTcpUrgentPtr, setTcpWindow, setTcpFlags, setTcpDataOffset, setTcpAckNum, setTcpSeqNum, setIpLen]
  rw [tcpUpdateChecksum_other _ _ (by omega), ipUpdateChecksum_other _ _ (by omega)]
  simp (disch := omega) only [Mem.store16_other, Mem.store8_other, Mem.store32_other]
  rw [tcpSwitchPort_other _ (by omega), ipSwapDst_other _ (by omega)]

theorem tcpNullRst_flags (ho : 20 ≤ o) : tcpFlags (tcpNullRst m o) o ≠ SYN ||| ACK := by
  simp only [tcpNullRst, tcpFlags, setTcpUrgentPtr, setTcpWindow, setTcpFlags]
  rw [tcpUpdateChecksum_other _ _ (by omega), ipUpdateChecksum_other _ _ (by omega)]
  simp (disch := omega) only [Mem.store16_other, Mem.store8_same]
  by_cases hack : hasFlag (m (o+13)) ACK = true
  · simp only [hack, if_true]
    decide
  · simp only [hack]
    decide

theorem tcpSendAck_head {j : Nat} (ho : 20 ≤ o) (hj : j = 0 ∨ j = 9) : (tcpSendAck m o tcb body).2 j = m j := by
  simp only [tcpSendAck, setTcpUrgentPtr, setTcpWindow, setTcpFlags, setTcpDataOffset, setTcpAckNum, setTcpSeqNum, setIpLen]
  rw [tcpUpdateChecksum_other _ _ (by omega), ipUpdateChecksum_other _ _ (by omega)]
  simp (disch := omega) only [Mem.copy_other, Mem.store16_other, Mem.store8_other, Mem.store32_other]
  rw [tcpSwitchPort_other _ (by omega), ipSwapDst_other _ (by omega)]

/-- A short data offset puts the body over the header; the flags byte is then a
byte of the body. -/
theorem tcpSendAck_flags (ho : 20 ≤ o) : tcpFlags (tcpSendAck m o tcb body).2 o = ACK ∨
    tcpFlags (tcpSendAck m o tcb body).2 o = PSH ||| ACK ∨
    ∃ k, k < 14 ∧ k < body.length ∧ tcpFlags (tcpSendAck m o tcb body).2 o = body.getD k 0 := by
  simp only [tcpSendAck, tcpFlags, setIpLen]
  rw [tcpUpdateChecksum_other _ _ (by omega), ipUpdateChecksum_other _ _ (by omega), Mem.store16_other _ _ (by omega)]
  generalize tcpHlen (tcpSwitchPort (ipSwapDst m) o) o = hl
  by_cases hin : o + hl ≤ o + 13 ∧ o + 13 < o + hl + body.length
  · right
    right
    refine ⟨o + 13 - (o + hl),by omega,by omega,?_⟩
    rw [Mem.copy_inside _ _ _ _ hin.1 hin.2, Nat.zero_add]
  · rw [Mem.copy_other _ _ _ _ (by omega), setTcpFlags, Mem.store8_same]
    split
    · exact Or.inl rfl
    · exact Or.inr (Or.inl rfl)

section SynAck

theorem tcpNullSynAck_head {j : Nat} (ho : 20 ≤ o) (hj : j = 0 ∨ j = 9) :
    (tcpNullSynAck ticks m o tcb).2 j = m j := by
  simp only [tcpNullSynAck, setTcpUrgentPtr, setTcpWindow, setTcpFlags, setTcpDataOffset, setTcpAckNum, setTcpSeqNum,
    setIpLen]
  rw [tcpUpdateChecksum_other _ _ (by omega), ipUpdateChecksum_other _ _ (by omega)]
  simp (disch := omega) only [Mem.store16_other, Mem.store8_other, Mem.store32_other]
  rw [tcpSwitchPort_other _ (by omega), ipSwapDst_other _ (by omega)]

theorem tcpNullSynAck_flags (ho : 20 ≤ o) : tcpFlags (tcpNullSynAck ticks m o tcb).2 o = SYN ||| ACK := by
  simp only [tcpNullSynAck, tcpFlags, setTcpUrgentPtr, setTcpWindow, setTcpFlags]
  rw [tcpUpdateChecksum_other _ _ (by omega), ipUpdateChecksum_other _ _ (by omega)]
  simp (disch := omega) only [setIpLen, Mem.store16_other, Mem.store8_same]

private theorem load32_checksums {j : Nat} (n k : Nat) (hj : j + 4 ≤ 10 ∨ 12 ≤ j) (hj' : j + 4 ≤ o + 16 ∨ o + 18 ≤ j) :
    (tcpUpdateChecksum (ipUpdateChecksum m n) o k).load32 j = m.load32 j :=
  Mem.load32_congr fun i _ _ => by
    rw [tcpUpdateChecksum_other _ _ (by omega), ipUpdateChecksum_other _ _ (by omega)]

private theorem load16_checksums {j : Nat} (n k : Nat) (hj : j + 2 ≤ 10 ∨ 12 ≤ j) (hj' : j + 2 ≤ o + 16 ∨ o + 18 ≤ j) :
    (tcpUpdateChecksum (ipUpdateChecksum m n) o k).load16 j = m.load16 j :=
  Mem.load16_congr fun i _ _ => by
    rw [tcpUpdateChecksum_other _ _ (by omega), ipUpdateChecksum_other _ _ (by omega)]

theorem tcpNullSynAck_seq (ho : 20 ≤ o) : ntohl (tcpSeqNum (tcpNullSynAck ticks m o tcb).2 o) = ticks := by
  simp only [tcpNullSynAck, tcpSeqNum]
  rw [load32_checksums _ _ _ (by omega) (by omega)]
  simp only [setIpLen, setTcpUrgentPtr, setTcpWindow, setTcpFlags, setTcpDataOffset, setTcpAckNum, setTcpSeqNum]
  simp (disch := omega) only [Mem.load32_store16_other, Mem.load32_store8_other, Mem.load32_store32_other]
  rw [Mem.load32_store32, ntohl_ntohl]
  rfl

theorem tcpNullSynAck_ack (ho : 20 ≤ o) :
    ntohl (tcpAckNum (tcpNullSynAck ticks m o tcb).2 o) = ntohl (tcpSeqNum m o) + 1 := by
  simp only [tcpNullSynAck, tcpAckNum]
  rw [load32_checksums _ _ _ (by omega) (by omega)]
  simp only [setIpLen, setTcpUrgentPtr, setTcpWindow, setTcpFlags, setTcpDataOffset, setTcpAckNum]
  simp (disch := omega) only [Mem.load32_store16_other, Mem.load32_store8_other]
  rw [Mem.load32_store32, ntohl_ntohl]
  rfl

/-- The header keeps its length, and the reserved bits are cleared. -/
theorem tcpNullSynAck_offset (ho : 20 ≤ o) :
    tcpDataOffset (tcpNullSynAck ticks m o tcb).2 o = dataOffsetByte (tcpHlen m o) := by
  have hh : tcpHlen (tcpSwitchPort (ipSwapDst m) o) o = tcpHlen m o := by
    apply tcpHlen_congr
    rw [tcpSwitchPort_other _ (by omega), ipSwapDst_other _ (by omega)]
  simp only [tcpNullSynAck, tcpDataOffset]
  rw [tcpUpdateChecksum_other _ _ (by omega), ipUpdateChecksum_other _ _ (by omega), hh]
  simp only [setIpLen, setTcpUrgentPtr, setTcpWindow, setTcpFlags, setTcpDataOffset]
  simp (disch := omega) only [Mem.store16_other, Mem.store8_other, Mem.store8_same]

/-- The addresses are the request's, swapped. -/
theorem tcpNullSynAck_addresses (ho : 20 ≤ o) : ipSrc (tcpNullSynAck ticks m o tcb).2 = ipDst m ∧
    ipDst (tcpNullSynAck ticks m o tcb).2 = ipSrc m := by
  simp only [tcpNullSynAck, ipSrc, ipDst]
  rw [load32_checksums _ _ _ (by omega) (by omega), load32_checksums _ _ _ (by omega) (by omega)]
  simp only [setIpLen, setTcpUrgentPtr, setTcpWindow, setTcpFlags, setTcpDataOffset, setTcpAckNum, setTcpSeqNum,
    tcpSwitchPort, setTcpSrcPort, setTcpDstPort, ipSwapDst, setIpSrc, setIpDst, ipSrc, ipDst]
  simp (disch := omega) only [Mem.load32_store16_other, Mem.load32_store8_other, Mem.load32_store32_other]
  exact ⟨Mem.load32_store32 ..,Mem.load32_store32 ..⟩

/-- The ports are the request's, swapped. -/
theorem tcpNullSynAck_ports (ho : 20 ≤ o) : tcpSrcPort (tcpNullSynAck ticks m o tcb).2 o = tcpDstPort m o ∧
    tcpDstPort (tcpNullSynAck ticks m o tcb).2 o = tcpSrcPort m o := by
  refine switched_ports m ho fun j hj hj' => ?_
  simp only [tcpNullSynAck]
  rw [tcpUpdateChecksum_other _ _ (by omega), ipUpdateChecksum_other _ _ (by omega)]
  simp only [setIpLen, setTcpUrgentPtr, setTcpWindow, setTcpFlags, setTcpDataOffset, setTcpAckNum, setTcpSeqNum]
  simp (disch := omega) only [Mem.store16_other, Mem.store8_other, Mem.store32_other]

/-- The total length is that of the two headers. -/
theorem tcpNullSynAck_len (ho : 20 ≤ o) :
    (ntohs (ipLen (tcpNullSynAck ticks m o tcb).2)).toNat = ihlBytes m + tcpHlen m o := by
  have hh : tcpHlen (tcpSwitchPort (ipSwapDst m) o) o = tcpHlen m o := by
    apply tcpHlen_congr
    rw [tcpSwitchPort_other _ (by omega), ipSwapDst_other _ (by omega)]
  simp only [tcpNullSynAck, ipLen]
  rw [load16_checksums _ _ _ (by omega) (by omega), setIpLen, Mem.load16_store16, ntohs_ntohs, hh,
    ihlBytes_congr (show _ = m 0 from ?_), BitVec.toNat_ofNat, Nat.mod_eq_of_lt]
  · have h1 := ihlBytes_le m
    have h2 := (tcpDataOffset m o >>> 4).isLt
    unfold tcpHlen
    omega
  · simp only [setTcpUrgentPtr, setTcpWindow, setTcpFlags, setTcpDataOffset, setTcpAckNum, setTcpSeqNum]
    simp (disch := omega) only [Mem.store16_other, Mem.store8_other, Mem.store32_other]
    rw [tcpSwitchPort_other _ (by omega), ipSwapDst_other _ (by omega)]

end SynAck

section SendAck
variable (ho : 20 ≤ o)
include ho

theorem swapped_hlen : tcpHlen (tcpSwitchPort (ipSwapDst m) o) o = tcpHlen m o := by
  apply tcpHlen_congr
  rw [tcpSwitchPort_other _ (by omega), ipSwapDst_other _ (by omega)]

theorem swapped_ihl : ihlBytes (tcpSwitchPort (ipSwapDst m) o) = ihlBytes m := by
  apply ihlBytes_congr
  rw [tcpSwitchPort_other _ (by omega), ipSwapDst_other _ (by omega)]

/-- The total length counts the headers and the body, modulo 2^16. -/
theorem tcpSendAck_ipLen :
    (ntohs (ipLen (tcpSendAck m o tcb body).2)).toNat = (ihlBytes m + tcpHlen m o + body.length) % 65536 := by
  simp only [tcpSendAck, ipLen]
  rw [load16_checksums _ _ _ (by omega) (by omega), setIpLen, Mem.load16_store16, ntohs_ntohs, swapped_hlen m ho,
    swapped_ihl m ho, BitVec.toNat_ofNat]

theorem tcpNullRst_ports : tcpSrcPort (tcpNullRst m o) o = tcpDstPort m o ∧
    tcpDstPort (tcpNullRst m o) o = tcpSrcPort m o := by
  refine switched_ports m ho fun j hj hj' => ?_
  simp only [tcpNullRst]
  rw [tcpUpdateChecksum_other _ _ (by omega), ipUpdateChecksum_other _ _ (by omega)]
  simp only [setIpLen, setTcpUrgentPtr, setTcpWindow, setTcpFlags, setTcpDataOffset, setTcpAckNum, setTcpSeqNum]
  simp (disch := omega) only [Mem.store16_other, Mem.store8_other, Mem.store32_other]

/-- A reset is the two headers. -/
theorem tcpNullRst_len : (ntohs (ipLen (tcpNullRst m o))).toNat = ihlBytes m + tcpHlen m o := by
  have h1 := ihlBytes_le m
  have h2 := tcpHlen_le m o
  simp only [tcpNullRst, ipLen]
  rw [load16_checksums _ _ _ (by omega) (by omega)]
  simp only [setTcpUrgentPtr, setTcpWindow, setTcpFlags, setTcpDataOffset, setTcpAckNum, setTcpSeqNum, setIpLen]
  simp (disch := omega) only [Mem.load16_store16_other, Mem.load16_store8_other, Mem.load16_store32_other,
    Mem.load16_store16]
  rw [ntohs_ntohs, BitVec.toNat_ofNat, Nat.mod_eq_of_lt (by omega)]

variable (hh : body.length = 0 ∨ 20 ≤ tcpHlen m o)
include hh

/-- With a whole header before it, or without bytes, the body leaves the header
fields alone. -/
theorem tcpSendAck_seq : ntohl (tcpSeqNum (tcpSendAck m o tcb body).2 o) = tcb.send.next := by
  simp only [tcpSendAck, tcpSeqNum]
  rw [load32_checksums _ _ _ (by omega) (by omega), swapped_hlen m ho]
  simp only [setIpLen, setTcpUrgentPtr, setTcpWindow, setTcpFlags, setTcpDataOffset, setTcpAckNum, setTcpSeqNum]
  simp (disch := omega) only [Mem.load32_store16_other, Mem.load32_store8_other, Mem.load32_store32_other,
    Mem.load32_copy_other]
  rw [Mem.load32_store32, ntohl_ntohl]

theorem tcpSendAck_ports : tcpSrcPort (tcpSendAck m o tcb body).2 o = tcpDstPort m o ∧
    tcpDstPort (tcpSendAck m o tcb body).2 o = tcpSrcPort m o := by
  refine switched_ports m ho fun j hj hj' => ?_
  simp only [tcpSendAck]
  rw [tcpUpdateChecksum_other _ _ (by omega), ipUpdateChecksum_other _ _ (by omega), swapped_hlen m ho]
  simp only [setIpLen, setTcpUrgentPtr, setTcpWindow, setTcpFlags, setTcpDataOffset, setTcpAckNum, setTcpSeqNum]
  simp (disch := omega) only [Mem.store16_other, Mem.store8_other, Mem.store32_other, Mem.copy_other]

theorem tcpSendAck_hlen : tcpHlen (tcpSendAck m o tcb body).2 o = tcpHlen m o := by
  apply tcpHlen_written
  simp only [tcpSendAck]
  rw [tcpUpdateChecksum_other _ _ (by omega), ipUpdateChecksum_other _ _ (by omega), swapped_hlen m ho]
  simp only [setIpLen, setTcpUrgentPtr, setTcpWindow, setTcpFlags, setTcpDataOffset]
  simp (disch := omega) only [Mem.store16_other, Mem.store8_other, Mem.copy_other, Mem.store8_same]

theorem tcpSendAck_body {k : Nat} (hk : k < body.length) :
    (tcpSendAck m o tcb body).2 (o + tcpHlen m o + k) = body.getD k 0 := by
  simp only [tcpSendAck]
  rw [tcpUpdateChecksum_other _ _ (by omega), ipUpdateChecksum_other _ _ (by omega), swapped_hlen m ho, setIpLen,
    Mem.store16_other _ _ (by omega), Mem.copy_inside _ _ _ _ (by omega) (by omega)]
  congr 1
  omega

/-- What the receiver of the answer reads as its payload is the body. -/
theorem tcpSendAck_payload (hihl : ihlBytes m = o) (hlen : o + tcpHlen m o + body.length < 65536) :
    payload (tcpSendAck m o tcb body).2 o = body := by
  have hihl' : ihlBytes (tcpSendAck m o tcb body).2 = o :=
    (ihlBytes_congr (tcpSendAck_head m tcb body ho (Or.inl rfl))).trans hihl
  have hdata : dataLen (tcpSendAck m o tcb body).2 o = body.length := by
    rw [dataLen, tcpSendAck_ipLen m tcb body ho, tcpSendAck_hlen m tcb body ho hh, hihl', hihl]
    omega
  rw [payload, hdata, hihl', tcpSendAck_hlen m tcb body ho hh]
  refine List.ext_getElem (by simp) fun k hk hk' => ?_
  rw [List.getElem_map, List.getElem_range, tcpSendAck_body m tcb body ho hh hk', List.getD_eq_getElem?_getD,
    List.getElem?_eq_getElem hk', Option.getD_some]

end SendAck

end LazyTcp.Legacy
