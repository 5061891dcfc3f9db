import LazyTcp.Refactor.Tcp

/-! Fields, lengths and frames of the two TCP replies. The transport header
starts behind the 20 fixed bytes of the IP header. -/
namespace LazyTcp.Refactor
open General General.Wire
variable (tcb : TCB) (stale : Stale) (m : Mem) (len : Nat) {o : Nat}

/-- Stores into the IP header and the later stores of the builder stay clear of
the sequence number of a transport header behind the IP header. -/
theorem tcpSynAck_seq (ho : 20 ≤ o) : ntohl (tcpSeqNum (tcpSynAck tcb m len o).2 o) = tcb.send.iss := by
  simp only [tcpSynAck, ipChecksum, tcpSeqNum, setTcpChecksum, setIpChecksum, setIpLen, setTcpUrgentPtr,
    setTcpWindow, setTcpFlags, setTcpDataOffset, setTcpAckNum, setTcpSeqNum]
  simp (disch := omega) only [Mem.load32_store16_other, Mem.load32_store8_other, Mem.load32_store32_other]
  rw [Mem.load32_store32, ntohl_ntohl]

theorem tcpSynAck_ack (ho : 20 ≤ o) : ntohl (tcpAckNum (tcpSynAck tcb m len o).2 o) = tcb.recv.next := by
  simp only [tcpSynAck, ipChecksum, tcpAckNum, setTcpChecksum, setIpChecksum, setIpLen, setTcpUrgentPtr,
    setTcpWindow, setTcpFlags, setTcpDataOffset, setTcpAckNum]
  simp (disch := omega) only [Mem.load32_store16_other, Mem.load32_store8_other]
  rw [Mem.load32_store32, ntohl_ntohl]

theorem tcpSynAck_flags (ho : 20 ≤ o) : tcpFlags (tcpSynAck tcb m len o).2 o = SYN ||| ACK := by
  simp only [tcpSynAck, ipChecksum, tcpFlags, setTcpChecksum, setIpChecksum, setIpLen, setTcpUrgentPtr,
    setTcpWindow, setTcpFlags]
  simp (disch := omega) only [Mem.store16_other, Mem.store8_same]

/-- The reply is as long as the request's two header length fields say. -/
theorem tcpSynAck_len (ho : 20 ≤ o) : (tcpSynAck tcb m len o).1 = ihlBytes m + tcpHlen m o := by
  have hh : tcpHlen (tcpSwapPort (ipSwapDst m) o) o = tcpHlen m o := by
    apply tcpHlen_congr
    simp (disch := omega) only [ipSwapDst, tcpSwapPort, setIpSrc, setIpDst, setTcpSrcPort, setTcpDstPort,
      Mem.store16_other, Mem.store32_other]
  rw [tcpSynAck]
  simp only [hh]
  congr 1
  apply ihlBytes_congr
  simp (disch := omega) only [setTcpUrgentPtr, setTcpWindow, setTcpFlags, setTcpDataOffset, setTcpAckNum,
    setTcpSeqNum, tcpSwapPort, setTcpSrcPort, setTcpDstPort, ipSwapDst, setIpSrc, setIpDst, Mem.store16_other,
    Mem.store8_other, Mem.store32_other]

/-- Everything past the fixed 20 bytes of the TCP header is the request's. -/
theorem tcpSynAck_tail {j : Nat} (ho : 20 ≤ o) (hj : o + 20 ≤ j) : (tcpSynAck tcb m len o).2 j = m j := by
  simp only [tcpSynAck, ipChecksum, setTcpChecksum, setIpChecksum, setIpLen, setTcpUrgentPtr, setTcpWindow, setTcpFlags,
    setTcpDataOffset, setTcpAckNum, setTcpSeqNum, tcpSwapPort, setTcpSrcPort, setTcpDstPort, ipSwapDst, setIpSrc, setIpDst]
  simp (disch := omega) only [Mem.store16_other, Mem.store8_other, Mem.store32_other]

theorem rstReply_len : (rstReply stale m o).1 = ihlBytes m + tcpHlen m o := rfl

theorem rstReply_tail {j : Nat} (ho : 20 ≤ o) (hj : o + 20 ≤ j) : (rstReply stale m o).2 j = m j := by
  simp only [rstReply, setIpLen, setTcpUrgentPtr, setTcpWindow, setTcpFlags,
    setTcpDataOffset, setTcpAckNum, setTcpSeqNum, tcpSwapPort, setTcpSrcPort, setTcpDstPort, ipSwapDst, setIpSrc, setIpDst]
  simp (disch := omega) only [Mem.store16_other, Mem.store8_other, Mem.store32_other]

end LazyTcp.Refactor
