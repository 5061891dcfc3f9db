import LazyTcp.General.Bounded
import LazyTcp.Refactor.Demux

/-! The two ICMP answers as their receiver reads them: every byte they keep,
every field they set, and both checksums. -/
namespace LazyTcp.Refactor
open General General.Wire
variable {m : Mem} {len : Nat}

/-- What an echo reply b of the length of the request m has to satisfy. -/
structure EchoAnswer (m b : Mem) (len : Nat) : Prop where
  type : icmpType b (ihlBytes m) = 0
  code : b (ihlBytes m + 1) = 0
  src : ipSrc b = ipDst m
  dst : ipDst b = ipSrc m
  kept : ∀ j, j < 10 ∨ (20 ≤ j ∧ j < ihlBytes m) ∨ ihlBytes m + 4 ≤ j → b j = m j
  header : ipValidate b len = true
  message : icmpValidate b (ihlBytes m) (len - ihlBytes m) = true

/-- The reply before its addresses are swapped. -/
private def echoMessage (m : Mem) (len o : Nat) : Mem :=
  icmpChecksum (setIcmpCode (setIcmpType m o 0) o 0) o (len - o)

private theorem echoMessage_other {o j : Nat} (hj : j < o ∨ o + 4 ≤ j) : echoMessage m len o j = m j := by
  rw [echoMessage, icmpChecksum_other _ _ (by omega), setIcmpCode, setIcmpType, Mem.store8_other _ _ (by omega),
    Mem.store8_other _ _ (by omega)]

/-- The header is rewritten after the message, and neither touches the other. -/
private theorem echoReply_message {o j : Nat} (ho : 20 ≤ o) (hj : o ≤ j) :
    (icmpEchoReply m len o).2 j = echoMessage m len o j := by
  rw [← ipSwapDst_other (echoMessage m len o) (j := j) (by omega)]
  exact ipChecksum_other _ (by omega)

private theorem echoReply_addresses (m : Mem) (len : Nat) {o : Nat} (ho : 20 ≤ o) : ipSrc (icmpEchoReply m len o).2 = ipDst m ∧
    ipDst (icmpEchoReply m len o).2 = ipSrc m := by
  obtain ⟨hsrc,hdst⟩ := ipSwapDst_addresses (echoMessage m len o)
  have hs : ipSrc (icmpEchoReply m len o).2 = ipSrc (ipSwapDst (echoMessage m len o)) :=
    Mem.load32_congr fun j _ _ => ipChecksum_other _ (by omega)
  have hd : ipDst (icmpEchoReply m len o).2 = ipDst (ipSwapDst (echoMessage m len o)) :=
    Mem.load32_congr fun j _ _ => ipChecksum_other _ (by omega)
  have hs' : ipSrc (echoMessage m len o) = ipSrc m := Mem.load32_congr fun j _ _ => echoMessage_other (by omega)
  have hd' : ipDst (echoMessage m len o) = ipDst m := Mem.load32_congr fun j _ _ => echoMessage_other (by omega)
  rw [hs, hd, hsrc, hdst, hs', hd']
  exact ⟨rfl,rfl⟩

private theorem echoReply_answers (hlen : len ≤ MTU_SIZE) (hv : ipValidate m len = true)
    (hi : icmpValidate m (ihlBytes m) (len - ihlBytes m) = true) :
    EchoAnswer m (icmpEchoReply m len (ihlBytes m)).2 len := by
  obtain ⟨ho,hfits⟩ := ipValidate_header hv
  have hmin := ((icmpValidate_iff m _ _).mp hi).1
  have hmtu : MTU_SIZE = 1500 := rfl
  obtain ⟨hsrc,hdst⟩ := echoReply_addresses m len ho
  refine ⟨?_,?_,hsrc,hdst,fun j hj => ?_,?_,?_⟩
  · rw [icmpType, echoReply_message ho le_rfl, echoMessage, icmpChecksum_other _ _ (by omega), setIcmpCode, setIcmpType,
      Mem.store8_other _ _ (by omega), Mem.store8_same]
  · rw [echoReply_message ho (by omega), echoMessage, icmpChecksum_other _ _ (by omega), setIcmpCode, Mem.store8_same]
  · have hkeep : echoMessage m len (ihlBytes m) j = m j := echoMessage_other (by omega)
    rw [← hkeep, ← ipSwapDst_other (echoMessage m len (ihlBytes m)) (j := j) (by omega)]
    exact ipChecksum_other _ (by omega)
  · refine ipValidate_signed (h := ipSwapDst (echoMessage m len (ihlBytes m))) hv ?_ (fun j _ => rfl) hfits
    rw [ipSwapDst_other _ (by omega), echoMessage_other (by omega)]
  · exact icmpValidate_signed hmin (by omega) fun k _ => echoReply_message ho (by omega)

/-- Every echo request that passes both tests is answered at its own length with
its mirror image. -/
theorem echoReply_mirrors (env : Env) (ht : HashTable) (hlen : len ≤ MTU_SIZE) (hv : ipValidate m len = true)
    (hp : ipProto m = PROTO_ICMP) (hi : icmpValidate m (ihlBytes m) (len - ihlBytes m) = true)
    (htype : icmpType m (ihlBytes m) = ICMP_ECHO) :
    (netDemux env ht m len).ret = len ∧ EchoAnswer m (netDemux env ht m len).buf len := by
  have hd : icmpDispatch m len (ihlBytes m) = icmpEchoReply m len (ihlBytes m) := by
    simp only [icmpDispatch, hi, htype, Bool.not_true, Bool.false_eq_true, if_false, if_true]
  rw [netDemux_icmp env ht hv hp, hd]
  exact ⟨rfl,echoReply_answers hlen hv hi⟩

/-- A ping of 10.0.0.2 by 10.0.0.1 with one byte of payload. -/
private def ping : Mem :=
  let m : Mem := fun _ => 0
  let m := m.store8 0 0x45
  let m := setIpLen m (htons 29)
  let m := setIpProto m PROTO_ICMP
  let m := setIpSrc m (htonl 0x0A000001)
  let m := setIpDst m (htonl 0x0A000002)
  let m := ipChecksum m
  let m := setIcmpType m 20 ICMP_ECHO
  let m := setIcmpIdentifier m 20 (htons 7)
  let m := m.store8 28 0x41
  icmpChecksum m 20 9

theorem echoReply_mirrors_ping : (netDemux calmEnv .empty ping 29).ret = 29 ∧
    EchoAnswer ping (netDemux calmEnv .empty ping 29).buf 29 :=
  echoReply_mirrors calmEnv .empty (by decide) (by decide +kernel) (by decide +kernel) (by decide +kernel)
    (by decide +kernel)

section Unreachable

/-- Length of the quoted original: its header and up to eight bytes behind it. -/
def quotedLen (m : Mem) (len : Nat) : Nat := ihlBytes m + min 8 (len - ihlBytes m)

/-- What an unreachable message b of n bytes about the datagram m has to satisfy. -/
structure UnreachableAnswer (m b : Mem) (len n : Nat) : Prop where
  header : ipValidate b n = true
  totalLen : (ntohs (ipLen b)).toNat = n
  id : b.load16 4 = 0
  proto : ipProto b = PROTO_ICMP
  src : ipSrc b = ipDst m
  dst : ipDst b = ipSrc m
  kept : ∀ j, j < 2 ∨ (6 ≤ j ∧ j < 9) ∨ (20 ≤ j ∧ j < ihlBytes m) → b j = m j
  type : icmpType b (ihlBytes m) = ICMP_DST_UNREACHABLE
  code : b (ihlBytes m + 1) = ICMP_PROTO_UNREACHABLE
  unused : ∀ k, k < 4 → b (ihlBytes m + 4 + k) = 0
  message : icmpValidate b (ihlBytes m) (n - ihlBytes m) = true
  quoted : ∀ k, k < quotedLen m len → b (ihlBytes m + 8 + k) = m k

/-- The header of the answer before it is signed. -/
private def unreachableHeader (m : Mem) (n : Nat) : Mem :=
  ipSwapDst (setIpProto (setIpId (setIpLen m (htons (.ofNat 16 n))) 0) PROTO_ICMP)

/-- The scratch buffer after both copies. -/
private def scratch (m : Mem) (o n : Nat) : Mem := (Mem.copy (fun _ => 0) 0 m 0 o).copy o m o n

/-- The answer before its message is signed. -/
private def unreachableFields (m : Mem) (o n : Nat) : Mem :=
  let m' := ipChecksum (unreachableHeader m (o + 8 + (o + n)))
  let m' := setIcmpCode (setIcmpType m' o ICMP_DST_UNREACHABLE) o ICMP_PROTO_UNREACHABLE
  let m' := setIcmpSequenceNo (setIcmpIdentifier m' o 0) o 0
  m'.copy (o + 8) (scratch m o n) 0 (o + n)

private theorem icmpDestUnreachable_eq (m : Mem) (len : Nat) :
    icmpDestUnreachable m len (ihlBytes m) = (ihlBytes m + 8 + quotedLen m len,
      icmpChecksum (unreachableFields m (ihlBytes m) (min 8 (len - ihlBytes m))) (ihlBytes m) (8 + quotedLen m len)) := by
  have hmax := ihlBytes_le m
  have hmin : (if len - ihlBytes m < 8 then len - ihlBytes m else 8) = min 8 (len - ihlBytes m) := by
    split <;> omega
  have hmtu : ¬ ihlBytes m + 8 + quotedLen m len > MTU_SIZE := by
    rw [quotedLen, MTU_SIZE]
    omega
  simp only [icmpDestUnreachable, hmin]
  exact if_neg hmtu

private theorem icmpDestUnreachable_buf (m : Mem) (len : Nat) : (icmpDestUnreachable m len (ihlBytes m)).2 =
    icmpChecksum (unreachableFields m (ihlBytes m) (min 8 (len - ihlBytes m))) (ihlBytes m) (8 + quotedLen m len) :=
  congrArg Prod.snd (icmpDestUnreachable_eq m len)

section Fields
variable {o n : Nat}

private theorem unreachableHeader_other {j : Nat} (hj : j < 2 ∨ (6 ≤ j ∧ j < 9) ∨ (10 ≤ j ∧ j < 12) ∨ 20 ≤ j) :
    unreachableHeader m n j = m j := by
  rw [unreachableHeader, ipSwapDst_other _ (by omega), setIpProto, setIpId, setIpLen, Mem.store8_other _ _ (by omega),
    Mem.store16_other _ _ (by omega), Mem.store16_other _ _ (by omega)]

private theorem unreachableHeader_fields (m : Mem) (n : Nat) :
    ipLen (unreachableHeader m n) = htons (.ofNat 16 n) ∧ (unreachableHeader m n).load16 4 = 0 ∧
      ipProto (unreachableHeader m n) = PROTO_ICMP := by
  refine ⟨?_,?_,?_⟩
  · simp only [unreachableHeader, ipLen, ipSwapDst, setIpSrc, setIpDst, setIpProto, setIpId, setIpLen]
    simp (disch := omega) only [Mem.load16_store32_other, Mem.load16_store8_other, Mem.load16_store16_other,
      Mem.load16_store16]
  · simp only [unreachableHeader, ipSwapDst, setIpSrc, setIpDst, setIpProto, setIpId]
    simp (disch := omega) only [Mem.load16_store32_other, Mem.load16_store8_other, Mem.load16_store16]
  · rw [ipProto, unreachableHeader, ipSwapDst_other _ (by omega), setIpProto, Mem.store8_same]

private theorem unreachableHeader_addresses (m : Mem) (n : Nat) :
    ipSrc (unreachableHeader m n) = ipDst m ∧ ipDst (unreachableHeader m n) = ipSrc m := by
  have hkeep {j : Nat} (hj : 12 ≤ j) :
      setIpProto (setIpId (setIpLen m (htons (.ofNat 16 n))) 0) PROTO_ICMP j = m j := by
    rw [setIpProto, setIpId, setIpLen, Mem.store8_other _ _ (by omega), Mem.store16_other _ _ (by omega),
      Mem.store16_other _ _ (by omega)]
  obtain ⟨hsrc,hdst⟩ := ipSwapDst_addresses (setIpProto (setIpId (setIpLen m (htons (.ofNat 16 n))) 0) PROTO_ICMP)
  exact ⟨hsrc.trans (Mem.load32_congr fun j _ _ => hkeep (by omega)),
    hdst.trans (Mem.load32_congr fun j _ _ => hkeep (by omega))⟩

/-- The message does not reach into the header. -/
private theorem unreachableFields_header {j : Nat} (hj : j < o) :
    unreachableFields m o n j = ipChecksum (unreachableHeader m (o + 8 + (o + n))) j := by
  simp only [unreachableFields, setIcmpSequenceNo, setIcmpIdentifier, setIcmpCode, setIcmpType]
  rw [Mem.copy_other _ _ _ _ (by omega), Mem.store16_other _ _ (by omega), Mem.store16_other _ _ (by omega),
    Mem.store8_other _ _ (by omega), Mem.store8_other _ _ (by omega)]

/-- The quote is of the request: it was saved before the header was rewritten. -/
private theorem unreachableFields_quote {k : Nat} (hk : k < o + n) : unreachableFields m o n (o + 8 + k) = m k := by
  rw [unreachableFields, Mem.copy_inside _ _ _ _ (by omega) (by omega), scratch]
  by_cases hq : k < o
  · rw [Mem.copy_other _ _ _ _ (by omega), Mem.copy_inside _ _ _ _ (by omega) (by omega)]
    congr 1
    omega
  · rw [Mem.copy_inside _ _ _ _ (by omega) (by omega)]
    congr 1
    omega

private theorem unreachableFields_type : unreachableFields m o n o = ICMP_DST_UNREACHABLE ∧
    unreachableFields m o n (o+1) = ICMP_PROTO_UNREACHABLE := by
  simp only [unreachableFields, setIcmpSequenceNo, setIcmpIdentifier, setIcmpCode, setIcmpType]
  simp (disch := omega) only [Mem.copy_other, Mem.store16_other, Mem.store8_other, Mem.store8_same, true_and]

private theorem unreachableFields_unused {k : Nat} (hk : k < 4) : unreachableFields m o n (o + 4 + k) = 0 := by
  simp only [unreachableFields, setIcmpSequenceNo, setIcmpIdentifier]
  rw [Mem.copy_other _ _ _ _ (by omega)]
  by_cases hid : k < 2
  · rw [Mem.store16_other _ _ (by omega)]
    exact Mem.store16_zero _ (by omega) (by omega)
  · exact Mem.store16_zero _ (by omega) (by omega)

end Fields

/-- The header of the answer is the one that was signed. -/
private theorem answer_header {j : Nat} (hj : j < ihlBytes m) : (icmpDestUnreachable m len (ihlBytes m)).2 j =
    ipChecksum (unreachableHeader m (ihlBytes m + 8 + quotedLen m len)) j := by
  rw [icmpDestUnreachable_buf, icmpChecksum_other _ _ (by omega), unreachableFields_header hj, quotedLen]

private theorem answer_message {j : Nat} (hj : j < ihlBytes m + 2 ∨ ihlBytes m + 4 ≤ j) :
    (icmpDestUnreachable m len (ihlBytes m)).2 j =
      unreachableFields m (ihlBytes m) (min 8 (len - ihlBytes m)) j := by
  rw [icmpDestUnreachable_buf, icmpChecksum_other _ _ hj]

private theorem unreachable_answers (hv : ipValidate m len = true) :
    UnreachableAnswer m (icmpDestUnreachable m len (ihlBytes m)).2 len (ihlBytes m + 8 + quotedLen m len) := by
  obtain ⟨ho,-⟩ := ipValidate_header hv
  have hmax := ihlBytes_le m
  have hquote : quotedLen m len = ihlBytes m + min 8 (len - ihlBytes m) := rfl
  obtain ⟨hlen,hid,hproto⟩ := unreachableHeader_fields m (ihlBytes m + 8 + quotedLen m len)
  obtain ⟨hsrc,hdst⟩ := unreachableHeader_addresses m (ihlBytes m + 8 + quotedLen m len)
  have hkept {j : Nat} (hj : j < 10 ∨ (12 ≤ j ∧ j < ihlBytes m)) : (icmpDestUnreachable m len (ihlBytes m)).2 j =
      unreachableHeader m (ihlBytes m + 8 + quotedLen m len) j := by
    rw [answer_header (by omega), ipChecksum_other _ (by omega)]
  refine ⟨?_,?_,?_,?_,?_,?_,fun j hj => ?_,?_,?_,fun k hk => ?_,?_,fun k hk => ?_⟩
  · exact ipValidate_signed hv (unreachableHeader_other (by omega)) (fun j hj => answer_header hj) (by omega)
  · rw [ipLen, Mem.load16_congr fun j _ _ => hkept (by omega), ← ipLen, hlen, ntohs_ntohs, BitVec.toNat_ofNat,
      Nat.mod_eq_of_lt (by omega)]
  · rw [Mem.load16_congr fun j _ _ => hkept (by omega), hid]
  · exact (hkept (by omega)).trans hproto
  · rw [ipSrc, Mem.load32_congr fun j _ _ => hkept (by omega), ← ipSrc, hsrc]
  · rw [ipDst, Mem.load32_congr fun j _ _ => hkept (by omega), ← ipDst, hdst]
  · rw [hkept (by omega), unreachableHeader_other (by omega)]
  · rw [icmpType, answer_message (by omega), unreachableFields_type.1]
  · rw [answer_message (by omega), unreachableFields_type.2]
  · rw [answer_message (by omega), unreachableFields_unused hk]
  · rw [icmpDestUnreachable_buf, show ihlBytes m + 8 + quotedLen m len - ihlBytes m = 8 + quotedLen m len by omega]
    exact icmpValidate_signed (by omega) (by omega) fun k _ => rfl
  · rw [answer_message (by omega), unreachableFields_quote (by omega)]

/-- The two copies into the array icmp_pl of 68 bytes. -/
def fillScratch (m : Mem) (len offset : Nat) : Guarded Unit := do
  Guarded.fill 0 (m.bytes 0 offset)
  Guarded.fill offset (m.bytes offset (min 8 (len - offset)))

/-- They stay within it and leave the quote there, whatever it held before. -/
private theorem fillScratch_run (hih : ihlBytes m ≤ 60) (stack : Mem) :
    ∃ q, (fillScratch m len (ihlBytes m)).run 67 stack = some ((),q) ∧ ∀ k, k < quotedLen m len → q k = m k := by
  have hhead : Guarded.Within 67 0 (ihlBytes m) := fun k hk => by omega
  have htail : Guarded.Within 67 (ihlBytes m) (min 8 (len - ihlBytes m)) := fun k hk => by omega
  refine ⟨(stack.copy 0 m 0 (ihlBytes m)).copy (ihlBytes m) m (ihlBytes m) (min 8 (len - ihlBytes m)),?_,
    fun k hk => ?_⟩
  · rw [fillScratch, Guarded.run_bind_of (Guarded.fill_bytes_of hhead), Guarded.fill_bytes_of htail]
  · rw [quotedLen] at hk
    by_cases hq : k < ihlBytes m
    · rw [Mem.copy_other _ _ _ _ (by omega), Mem.copy_inside _ _ _ _ (by omega) (by omega)]
      congr 1
      omega
    · rw [Mem.copy_inside _ _ _ _ (by omega) (by omega)]
      congr 1
      omega

/-- For every packet of another protocol that ip_validate accepts: the answer has
the stated length, the scratch array is never left, and the answer quotes the
original. -/
theorem unreachable_quotes (env : Env) (ht : HashTable) (hv : ipValidate m len = true) (hi : ipProto m ≠ PROTO_ICMP)
    (hp : ipProto m ≠ PROTO_TCP) :
    (netDemux env ht m len).ret = 2 * ihlBytes m + 8 + min 8 (len - ihlBytes m) ∧
      (netDemux env ht m len).ret ≤ MTU_SIZE ∧
      (∀ stack, ∃ q, (fillScratch m len (ihlBytes m)).run 67 stack = some ((),q) ∧
        ∀ k, k < quotedLen m len → q k = m k) ∧
      UnreachableAnswer m (netDemux env ht m len).buf len (netDemux env ht m len).ret := by
  have hmax := ihlBytes_le m
  have hquote : quotedLen m len = ihlBytes m + min 8 (len - ihlBytes m) := rfl
  have hmtu : MTU_SIZE = 1500 := rfl
  have hret : (netDemux env ht m len).ret = ihlBytes m + 8 + quotedLen m len := by
    rw [netDemux_other env ht hv hi hp, icmpDestUnreachable_eq]
  refine ⟨by omega,by omega,fillScratch_run hmax,?_⟩
  rw [hret, netDemux_other env ht hv hi hp]
  exact unreachable_answers hv

/-- A datagram of protocol 17 with three bytes behind its header. -/
private def shortUdp : Mem :=
  let m : Mem := fun _ => 0
  let m := m.store8 0 0x45
  let m := setIpLen m (htons 23)
  let m := setIpId m (htons 77)
  let m := setIpProto m 17
  let m := setIpSrc m (htonl 0x0A000001)
  let m := setIpDst m (htonl 0x0A000002)
  let m := (m.store16 20 0x1234).store8 22 0x56
  ipChecksum m

theorem unreachable_quotes_short : (netDemux calmEnv .empty shortUdp 23).ret = 51 ∧
    UnreachableAnswer shortUdp (netDemux calmEnv .empty shortUdp 23).buf 23 51 := by
  have hv : ipValidate shortUdp 23 = true := by decide +kernel
  obtain ⟨hret,-,-,hanswer⟩ := unreachable_quotes calmEnv .empty hv (by decide +kernel) (by decide +kernel)
  have hn : (netDemux calmEnv .empty shortUdp 23).ret = 51 := by
    rw [hret]
    decide +kernel
  rw [hn] at hanswer
  exact ⟨hn,hanswer⟩

end Unreachable

end LazyTcp.Refactor
