import LazyTcp.Legacy.Answers
import LazyTcp.Legacy.Bounds

/-! The TCP datagrams of the first stack at their receiver: addresses, ports,
lengths and both checksums. -/
namespace LazyTcp.Legacy
open General General.Wire
variable {m : Mem}

/-- A TCP datagram whose two length fields cover a whole header each. -/
structure WholeSegment (m : Mem) : Prop where
  proto : ipProto m = IP_TCP_PROTO
  ihl : 20 ≤ ihlBytes m
  offset : 20 ≤ tcpHlen m (ihlBytes m)

/-- An answer b to m with n bytes of payload, as its receiver checks it. The
pseudo-header and the range of the TCP checksum follow from the total length. -/
structure Verifies (m b : Mem) (n : Nat) : Prop where
  src : ipSrc b = ipDst m
  dst : ipDst b = ipSrc m
  srcPort : tcpSrcPort b (ihlBytes m) = tcpDstPort m (ihlBytes m)
  dstPort : tcpDstPort b (ihlBytes m) = tcpSrcPort m (ihlBytes m)
  totalLen : (ntohs (ipLen b)).toNat = ihlBytes m + tcpHlen m (ihlBytes m) + n
  header : packetChecksum b 0 (ihlBytes m) = 0
  segment : packetChecksum (pseudoSegment (ipSrc b) (ipDst b) (ipProto b) ((ntohs (ipLen b)).toNat - ihlBytes m) b
    (ihlBytes m)) 0 (12 + ((ntohs (ipLen b)).toNat - ihlBytes m)) = 0

/-- The checksum that tcp_update_checksum leaves sums to zero. -/
theorem tcpUpdateChecksum_verifies (m : Mem) {o n : Nat} (ho : 20 ≤ o) (hmin : 18 ≤ n) (hmax : n ≤ 65535) :
    packetChecksum (pseudoSegment (ipSrc (tcpUpdateChecksum m o n)) (ipDst (tcpUpdateChecksum m o n)) IP_TCP_PROTO n
      (tcpUpdateChecksum m o n) o) 0 (12 + n) = 0 := by
  have haddr {j : Nat} (hj : j + 4 ≤ 20) (m : Mem) (c : U16) : (setTcpChecksum m o c).load32 j = m.load32 j :=
    Mem.load32_store16_other _ _ (by omega)
  have hsrc : ipSrc (tcpUpdateChecksum m o n) = ipSrc (setTcpChecksum m o 0) := haddr (by omega) _ _
  have hdst : ipDst (tcpUpdateChecksum m o n) = ipDst (setTcpChecksum m o 0) := haddr (by omega) _ _
  rw [hsrc, hdst, tcpUpdateChecksum]
  generalize hc : packetChecksum (pseudoSegment (ipSrc (setTcpChecksum m o 0)) (ipDst (setTcpChecksum m o 0))
    IP_TCP_PROTO n (setTcpChecksum m o 0) o) 0 (12 + n) = c
  rw [show setTcpChecksum (setTcpChecksum m o 0) o c = setTcpChecksum m o c from Mem.store16_store16 ..]
  exact pseudoSegment_verifies _ _ _ m o hmin hmax hc.symm

section Builders
variable (hm : WholeSegment m)
include hm

/-- What is left to check of an answer that tcp_update_checksum signed last. -/
private theorem Returned.verifies {b : Mem} {n : Nat} (hr : Returned m b)
    (hsigned : ∃ h, b = tcpUpdateChecksum h (ihlBytes m) (tcpHlen m (ihlBytes m) + n))
    (hhead : ∀ j, j = 0 ∨ j = 9 → b j = m j)
    (hports : tcpSrcPort b (ihlBytes m) = tcpDstPort m (ihlBytes m) ∧
      tcpDstPort b (ihlBytes m) = tcpSrcPort m (ihlBytes m))
    (hlen : (ntohs (ipLen b)).toNat = ihlBytes m + tcpHlen m (ihlBytes m) + n) : Verifies m b n := by
  have hbound := (ntohs (ipLen b)).isLt
  have hoffset := hm.offset
  have hihl : ihlBytes b = ihlBytes m := ihlBytes_congr (hhead 0 (Or.inl rfl))
  have hproto : ipProto b = IP_TCP_PROTO := (hhead 9 (Or.inr rfl)).trans hm.proto
  have hseg : (ntohs (ipLen b)).toNat - ihlBytes m = tcpHlen m (ihlBytes m) + n := by omega
  obtain ⟨h,hsigned⟩ := hsigned
  have hsum := tcpUpdateChecksum_verifies h hm.ihl (n := tcpHlen m (ihlBytes m) + n) (by omega) (by omega)
  rw [← hsigned] at hsum
  refine ⟨hr.src,hr.dst,hports.1,hports.2,hlen,hihl ▸ hr.checksum,?_⟩
  rw [hseg, hproto]
  exact hsum

theorem tcpNullRst_verifies : Verifies m (tcpNullRst m (ihlBytes m)) 0 :=
  (tcpNullRst_returned hm.ihl).verifies hm ⟨_,rfl⟩ (fun _ => tcpNullRst_head m hm.ihl) (tcpNullRst_ports m hm.ihl)
    (tcpNullRst_len m hm.ihl)

theorem tcpNullSynAck_verifies (ticks : U32) (tcb : TCB) : Verifies m (tcpNullSynAck ticks m (ihlBytes m) tcb).2 0 := by
  refine (tcpNullSynAck_returned hm.ihl ticks tcb).verifies hm ?_ (fun _ => tcpNullSynAck_head ticks m tcb hm.ihl)
    (tcpNullSynAck_ports ticks m tcb hm.ihl) (tcpNullSynAck_len ticks m tcb hm.ihl)
  rw [← swapped_hlen m hm.ihl]
  exact ⟨_,rfl⟩

/-- Behind a whole header the body leaves the ports and the length field alone. -/
theorem tcpSendAck_verifies (tcb : TCB) {body : List U8}
    (hfit : ihlBytes m + tcpHlen m (ihlBytes m) + body.length < 65536) :
    Verifies m (tcpSendAck m (ihlBytes m) tcb body).2 body.length := by
  refine (tcpSendAck_returned hm.ihl tcb body).verifies hm ?_ (fun _ => tcpSendAck_head m tcb body hm.ihl)
    (tcpSendAck_ports m tcb body hm.ihl (Or.inr hm.offset)) ?_
  · rw [← swapped_hlen m hm.ihl]
    exact ⟨_,rfl⟩
  · rw [tcpSendAck_ipLen m tcb body hm.ihl, Nat.mod_eq_of_lt hfit]

/-- For every whole segment, block and body that fits the MTU, the datagram each
builder leaves passes every test of its receiver, and the body arrives. -/
theorem replies_verify (ticks : U32) (tcb : TCB) {body : List U8}
    (hfit : ihlBytes m + tcpHlen m (ihlBytes m) + body.length ≤ Bounded.MTU_SIZE) :
    Verifies m (tcpNullRst m (ihlBytes m)) 0 ∧
      Verifies m (tcpNullSynAck ticks m (ihlBytes m) tcb).2 0 ∧
      Verifies m (tcpSendAck m (ihlBytes m) tcb body).2 body.length ∧
      payload (tcpSendAck m (ihlBytes m) tcb body).2 (ihlBytes m) = body := by
  have hmtu : Bounded.MTU_SIZE = 1500 := rfl
  exact ⟨tcpNullRst_verifies hm,tcpNullSynAck_verifies hm ticks tcb,tcpSendAck_verifies hm tcb (by omega),
    tcpSendAck_payload m tcb body hm.ihl (Or.inr hm.offset) rfl (by omega)⟩

end Builders

/-- A request of three bytes, answered with five. -/
theorem replies_verify_request : payload (tcpSendAck (craft clientId (PSH ||| ACK) 101 78 [71,69,84]) 20
    (newTcb clientId) [1,2,3,4,5]).2 20 = [1,2,3,4,5] := by
  have hihl : ihlBytes (craft clientId (PSH ||| ACK) 101 78 [71,69,84]) = 20 := by decide +kernel
  have hhlen : tcpHlen (craft clientId (PSH ||| ACK) 101 78 [71,69,84]) 20 = 20 := by decide +kernel
  have hm : WholeSegment (craft clientId (PSH ||| ACK) 101 78 [71,69,84]) :=
    ⟨by decide +kernel,hihl.ge,by rw [hihl, hhlen]⟩
  have hfit : ihlBytes (craft clientId (PSH ||| ACK) 101 78 [71,69,84]) +
      tcpHlen (craft clientId (PSH ||| ACK) 101 78 [71,69,84])
        (ihlBytes (craft clientId (PSH ||| ACK) 101 78 [71,69,84])) + ([1,2,3,4,5] : List U8).length ≤
      Bounded.MTU_SIZE := by
    rw [hihl, hhlen]
    decide
  have h := (replies_verify hm 77 (newTcb clientId) hfit).2.2.2
  rwa [hihl] at h

end LazyTcp.Legacy
