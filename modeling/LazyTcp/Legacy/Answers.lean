import LazyTcp.Legacy.Machine
import LazyTcp.Legacy.Replies

/-! Which packets the first stack answers, and to whom. Every builder swaps the
addresses and signs the header; whether its datagram is written is decided by
the caller. -/
namespace LazyTcp.Legacy
open General General.Wire

/-- A datagram back to the sender of m, with a header that sums to zero. -/
structure Returned (m b : Mem) : Prop where
  src : ipSrc b = ipDst m
  dst : ipDst b = ipSrc m
  checksum : packetChecksum b 0 (ihlBytes b) = 0

/-- Echo requests call for a reply, and segments unless tcp_dispatch is silent. -/
def NoReply (env : Env) (s : Server) (m : Mem) : Prop :=
  match packetDeserialize m with
  | .ipv4Icmp => icmpType m (ihlBytes m) ≠ 8
  | .ipv4Tcp => ∃ out, tcpDispatch env s m (ihlBytes m) = some out ∧ out.code = .silent
  | .protoUndf | .ipv6 | .verUndf => True

/-- Whatever is written goes back to the sender, and nothing is written to a
packet that calls for no reply. -/
def RepliesToSender (env : Env) (s : Server) (m : Mem) : Prop :=
  ∀ p, parsePacket env s m = some p → (∀ w, p.written = some w → Returned m w.buf) ∧ (NoReply env s m → p.written = none)

section Builders
variable {m : Mem}

private theorem ipSwapDst_addresses (m : Mem) : ipSrc (ipSwapDst m) = ipDst m ∧ ipDst (ipSwapDst m) = ipSrc m := by
  simp only [ipSwapDst, ipSrc, ipDst, setIpSrc, setIpDst]
  rw [Mem.load32_store32_other _ _ (by omega), Mem.load32_store32, Mem.load32_store32]
  exact ⟨rfl,rfl⟩

private theorem ipSwapDst_agree {m' : Mem} (h : Mem.AgreeOn (· < 20) m' m) :
    Mem.AgreeOn (· < 20) (ipSwapDst m') (ipSwapDst m) := by
  have hsrc : ipSrc m' = ipSrc m := h.load32_lt (by omega)
  have hdst : ipDst m' = ipDst m := h.load32_lt (by omega)
  rw [ipSwapDst, ipSwapDst, hsrc, hdst]
  exact (h.store32 12 _).store32 16 _

/-- The header of the answer is that of h after ip_update_checksum, and h has
the swapped addresses and the header length of the request. -/
private theorem returned_of_header {h b : Mem} {n : Nat} (ho : 20 ≤ ihlBytes m) (hn : n = ihlBytes m)
    (hh : ∀ j, j = 0 ∨ 12 ≤ j ∧ j < 20 → h j = ipSwapDst m j)
    (hb : ∀ j, j < ihlBytes m → b j = ipUpdateChecksum h n j) : Returned m b := by
  subst hn
  have hmax := ihlBytes_le m
  have h0 : h 0 = m 0 := (hh 0 (Or.inl rfl)).trans (ipSwapDst_other m (by omega))
  have hbyte : ∀ j, 12 ≤ j → j < 20 → b j = ipSwapDst m j := by
    intro j hj hj'
    rw [hb j (by omega), ipUpdateChecksum_other _ _ (by omega), hh j (Or.inr ⟨hj,hj'⟩)]
  obtain ⟨hsrc,hdst⟩ := ipSwapDst_addresses m
  refine ⟨?_,?_,?_⟩
  · rw [← hsrc]
    exact Mem.load32_congr fun j hj hj' => hbyte j hj (by omega)
  · rw [← hdst]
    exact Mem.load32_congr fun j hj hj' => hbyte j (by omega) hj'
  · have hihl : ihlBytes b = ihlBytes m := by
      apply ihlBytes_congr
      rw [hb 0 (by omega), ipUpdateChecksum_other _ _ (by omega), h0]
    have hz := internetChecksum_verifies h 0 (k := 10) (by rfl) (by omega) (show ihlBytes m ≤ 131072 by omega)
    rw [hihl, ← hz]
    refine internetChecksum_congr fun k hk => ?_
    rw [Nat.zero_add, hb k hk, ipUpdateChecksum, setIpChecksum, setIpChecksum, Mem.store16_store16]
    rfl

variable (ho : 20 ≤ ihlBytes m)
include ho

private theorem icmpEchoReply_returned : Returned m (icmpEchoReply m (ihlBytes m)) := by
  have hkeep : ∀ j, j < 20 → setIcmpCode (setIcmpType m (ihlBytes m) 0) (ihlBytes m) 0 j = m j := by
    intro j hj
    simp (disch := omega) only [setIcmpCode, setIcmpType, Mem.store8_other]
  refine returned_of_header ho (ihlBytes_congr (hkeep 0 (by omega))) ?_ fun j _ => rfl
  intro j hj
  refine ipSwapDst_agree (fun k hk => ?_) j (by omega)
  simp only [icmpUpdateChecksum, setIcmpChecksum]
  rw [Mem.store16_other _ _ (by omega), Mem.store16_other _ _ (by omega), hkeep k hk]

theorem tcpNullRst_returned : Returned m (tcpNullRst m (ihlBytes m)) := by
  refine returned_of_header ho rfl ?_ fun j hj => tcpUpdateChecksum_other _ _ (Or.inl (by omega))
  intro j hj
  simp only [setTcpUrgentPtr, setTcpWindow, setTcpFlags, setTcpDataOffset, setTcpAckNum, setTcpSeqNum, setIpLen]
  simp (disch := omega) only [Mem.store16_other, Mem.store8_other, Mem.store32_other]
  rw [tcpSwitchPort_other _ (by omega)]

theorem tcpNullSynAck_returned (ticks : U32) (tcb : TCB) :
    Returned m (tcpNullSynAck ticks m (ihlBytes m) tcb).2 := by
  refine returned_of_header ho (ihlBytes_congr ?_) ?_ fun j hj => tcpUpdateChecksum_other _ _ (Or.inl (by omega))
  · simp only [setTcpUrgentPtr, setTcpWindow, setTcpFlags, setTcpDataOffset, setTcpAckNum, setTcpSeqNum]
    simp (disch := omega) only [Mem.store16_other, Mem.store8_other, Mem.store32_other]
    rw [tcpSwitchPort_other _ (by omega), ipSwapDst_other _ (by omega)]
  · intro j hj
    simp only [setTcpUrgentPtr, setTcpWindow, setTcpFlags, setTcpDataOffset, setTcpAckNum, setTcpSeqNum, setIpLen]
    simp (disch := omega) only [Mem.store16_other, Mem.store8_other, Mem.store32_other]
    rw [tcpSwitchPort_other _ (by omega)]

/-- The body is copied behind the IP header whatever the data offset says. -/
theorem tcpSendAck_returned (tcb : TCB) (body : List U8) :
    Returned m (tcpSendAck m (ihlBytes m) tcb body).2 := by
  refine returned_of_header ho (ihlBytes_congr ?_) ?_ fun j hj => tcpUpdateChecksum_other _ _ (Or.inl (by omega))
  · rw [tcpSwitchPort_other _ (by omega), ipSwapDst_other _ (by omega)]
  · intro j hj
    simp only [setTcpUrgentPtr, setTcpWindow, setTcpFlags, setTcpDataOffset, setTcpAckNum, setTcpSeqNum, setIpLen]
    simp (disch := omega) only [Mem.copy_other, Mem.store16_other, Mem.store8_other, Mem.store32_other]
    rw [tcpSwitchPort_other _ (by omega)]

private theorem answer_returned {env : Env} {s : Server} {b : Mem} (h : Answer env s m (ihlBytes m) b) :
    Returned m b := by
  cases h with
  | synAck tcb => exact tcpNullSynAck_returned ho env.ticks tcb
  | reset => exact tcpNullRst_returned ho
  | finAck tcb => exact tcpSendAck_returned ho tcb []
  | response con tcb => exact tcpSendAck_returned ho tcb _

end Builders

section Kinds
variable (env : Env) (s : Server) {m : Mem}

private theorem echo_returns (hk : packetDeserialize m = .ipv4Icmp) (htype : icmpType m (ihlBytes m) = 8) :
    RepliesToSender env s m := by
  intro p hp
  rw [parsePacket, hk] at hp
  cases hp
  refine ⟨fun w hw => ?_,fun hno => ?_⟩
  · cases hw
    rw [icmpDispatch, if_pos htype]
    exact icmpEchoReply_returned (packetDeserialize_icmp hk).1
  · rw [NoReply, hk] at hno
    exact absurd htype hno

/-- Any other ICMP message is written although it calls for no reply. -/
private theorem icmp_written (hk : packetDeserialize m = .ipv4Icmp) (htype : icmpType m (ihlBytes m) ≠ 8) :
    ¬ RepliesToSender env s m := by
  intro h
  have hno : NoReply env s m := by rwa [NoReply, hk]
  unfold RepliesToSender parsePacket at h
  rw [hk] at h
  cases (h _ rfl).2 hno

/-- A segment is written only after a builder returned it. -/
private theorem segment_returns (hk : packetDeserialize m = .ipv4Tcp) : RepliesToSender env s m := by
  intro p hp
  rw [parsePacket, hk] at hp
  simp only at hp
  cases hd : tcpDispatch env s m (ihlBytes m) with
  | none =>
    rw [hd] at hp
    cases hp
  | some out =>
    rw [hd] at hp
    obtain ⟨code,buf,server,request⟩ := out
    cases code with
    | fatal | silent =>
      cases hp
      exact ⟨nofun,fun _ => rfl⟩
    | ok =>
      cases hp
      refine ⟨fun w hw => ?_,fun hno => ?_⟩
      · cases hw
        exact answer_returned (packetDeserialize_tcp hk).1 (tcpDispatch_answer hd rfl)
      · rw [NoReply, hk] at hno
        obtain ⟨out,hout,hsilent⟩ := hno
        cases hd.symm.trans hout
        cases hsilent

end Kinds

/-- An echo reply from 10.0.0.1 to 10.0.0.2. -/
private def strayEchoReply : Mem :=
  let m : Mem := fun _ => 0
  let m := m.store8 0 0x45
  let m := setIpLen m (htons 28)
  let m := setIpProto m IP_ICMP_PROTO
  let m := setIpSrc m (htonl 0x0A000001)
  let m := setIpDst m (htonl 0x0A000002)
  let m := ipUpdateChecksum m 20
  icmpUpdateChecksum m 20 8

end LazyTcp.Legacy
