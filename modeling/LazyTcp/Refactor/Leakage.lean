import LazyTcp.Refactor.Agree
import LazyTcp.Refactor.Quiet

/-! Two runs of the demultiplexer on buffers that differ only past the received
length. The TCP path trusts the data offset and reads a full header whatever
was received; the other paths read and send received bytes only. -/
namespace LazyTcp.Refactor
open General General.Wire

/-- Same length, same bytes up to it, same map. -/
structure SameResult (r r' : Reply) : Prop where
  ret : r.ret = r'.ret
  bytes : ∀ i, i < r.ret → r.buf i = r'.buf i
  find : ∀ id, hashFind r.table id = hashFind r'.table id

/-- No byte past the received length has an effect. -/
def NoLeak (ht : HashTable) (m : Mem) (len : Nat) : Prop :=
  ∀ env m', Mem.AgreeOn (· < len) m m' → SameResult (netDemux env ht m len) (netDemux env ht m' len)

/-- The packets whose handling depends on received bytes only. A segment of 18
bytes holds every field that is read, and its reply stays within the segment or
the 20 bytes that are rewritten, or there is no reply. A shorter one leaves its
checksum to the rest of the buffer, so it must be one that is ignored anyway or
that no completion of the checksum can make valid. -/
def SelfContained (ht : HashTable) (m : Mem) (len : Nat) : Prop :=
  let o := ihlBytes m
  ipValidate m len = false ∨ ipProto m ≠ PROTO_TCP ∨
    (o + 18 ≤ len ∧ (tcpHlen m o ≤ max (len - o) 20 ∨ checksumOk m len o = false ∨
      ¬ Answered (stateOf (hashFind ht (segId m o))) (segment m o))) ∨
    (o + 14 ≤ len ∧ len < o + 18 ∧ (Ignored (hashFind ht (segId m o)) (segment m o) ∨
      (len = o + 17 ∧ m (o+16) ≠ (tcpChecksum m len o).setWidth 8)))

section Enough
variable {ht : HashTable} {m m' : Mem} {len o : Nat}

/-- Replies to agreeing requests of at least 18 segment bytes, when a reply does
not reach past the segment and the rewritten header. -/
private theorem replyOf_agree (h : Mem.AgreeOn (· < len) m m') (hihl : ihlBytes m = o) (ho : 20 ≤ o)
    (hl : o + 18 ≤ len) (stale : Stale) (r : Edge × Option TCB)
    (hlen : r.1 = .syn ∨ r.1 = .sendRst → tcpHlen m o ≤ max (len - o) 20) :
    (replyOf stale r m len o).1 = (replyOf stale r m' len o).1 ∧
      ∀ i, i < (replyOf stale r m len o).1 → (replyOf stale r m len o).2 i = (replyOf stale r m' len o).2 i := by
  by_cases hsyn : ∃ t, r = (.syn,some t)
  · obtain ⟨t,rfl⟩ := hsyn
    have ha := tcpSynAck_agree h t (by omega) ho hl
    refine ⟨ha.1,fun i hi => ha.2 i ?_⟩
    have hret : i < ihlBytes m + tcpHlen m o := tcpSynAck_len t m len ho ▸ hi
    have := hlen (Or.inl rfl)
    omega
  by_cases hrst : r.1 = .sendRst
  · obtain ⟨e,c⟩ := r
    cases hrst
    have ha := rstReply_agree h stale ho hl
    refine ⟨ha.1,fun i hi => ha.2 i ?_⟩
    have hret : i < ihlBytes m + tcpHlen m o := hi
    have := hlen (Or.inr rfl)
    omega
  have hnone (b : Mem) : replyOf stale r b len o = (0,b) := by
    obtain ⟨e,c⟩ := r
    cases e with
    | syn =>
      cases c with
      | none => rfl
      | some t => exact absurd ⟨t,rfl⟩ hsyn
    | sendRst => exact absurd rfl hrst
    | data | ack | fin | rst | drop => rfl
  rw [hnone, hnone]
  exact ⟨rfl,fun i hi => absurd hi (Nat.not_lt_zero i)⟩

/-- Segments of at least 18 bytes whose reply, if any, stays within them. -/
private theorem tcpDispatch_agree (hw : ht.WF) (h : Mem.AgreeOn (· < len) m m') (hihl : ihlBytes m = o) (ho : 20 ≤ o)
    (hl : o + 18 ≤ len) (env : Env)
    (hc : tcpHlen m o ≤ max (len - o) 20 ∨ checksumOk m len o = false ∨
      ¬ Answered (stateOf (hashFind ht (segId m o))) (segment m o)) :
    SameResult (tcpDispatch env ht m len o).toReply (tcpDispatch env ht m' len o).toReply := by
  have hr := tcpDispatch_refines hw env m len o
  have hr' := tcpDispatch_refines hw env m' len o
  have hseg := segment_agree_16 h ho (by omega)
  have hid : segId m o = segId m' o := congrArg Segment.id hseg
  rw [← checksumOk_agree h ho hl, ← hid, ← hseg] at hr'
  generalize hd : dispatchCon (checksumOk m len o) (freshBlock env.allocs ht (segId m o)) env.iss (segment m o)
    (hashFind ht (segId m o)) = r at hr hr'
  have hlen : r.1 = .syn ∨ r.1 = .sendRst → tcpHlen m o ≤ max (len - o) 20 := by
    intro hedge
    obtain ⟨hv,ha⟩ := dispatchCon_answered hd hedge
    rcases hc with hc | hc | hc
    · exact hc
    · exact absurd (hc.symm.trans hv) (by decide)
    · exact absurd ha hc
  have ha := replyOf_agree h hihl ho hl env.stale r hlen
  rw [← hr.reply, ← hr'.reply] at ha
  exact ⟨ha.1,ha.2,fun id => by rw [hr.find, hr'.find]⟩

/-- Segments too short for their checksum that are ignored, or that have a wrong
first checksum byte, whatever completes them. -/
private theorem tcpDispatch_short_agree (hw : ht.WF) (h : Mem.AgreeOn (· < len) m m') (ho : 20 ≤ o)
    (hl : o + 14 ≤ len) (env : Env)
    (hc : Ignored (hashFind ht (segId m o)) (segment m o) ∨
      (len = o + 17 ∧ m (o+16) ≠ (tcpChecksum m len o).setWidth 8)) :
    SameResult (tcpDispatch env ht m len o).toReply (tcpDispatch env ht m' len o).toReply := by
  -- Both conditions hold of the other buffer as well.
  have hquiet (b : Mem) (hb : Mem.AgreeOn (· < len) m b) : (tcpDispatch env ht b len o).ret = 0 ∧
      ∀ id, hashFind (tcpDispatch env ht b len o).table id = hashFind ht id := by
    refine tcpDispatch_quiet hw env fun hv => ?_
    have hseg := segment_agree_14 hb.symm ho hl
    have hid : segId b o = segId m o := congrArg Segment.id hseg
    rcases hc with hc | ⟨hlen,hbyte⟩
    · rw [hid, hseg, ignored_window]
      exact hc
    · refine absurd ?_ hbyte
      have hfield : tcpChecksumField b o = tcpChecksum b len o := of_decide_eq_true hv
      rw [hb.byte_lt (by omega), tcpChecksum_agree hb (fun _ hj => hj) ho (by omega), ← hfield]
      apply BitVec.eq_of_toNat_eq
      simp only [tcpChecksumField, Mem.load16, BitVec.toNat_setWidth, BitVec.toNat_ofNat]
      have := (b (o+16)).isLt
      omega
  have h1 := hquiet m fun _ _ => rfl
  have h2 := hquiet m' h
  refine ⟨h1.1.trans h2.1.symm,fun i hi => ?_,fun id => (h1.2 id).trans (h2.2 id).symm⟩
  rw [h1.1] at hi
  exact absurd hi (Nat.not_lt_zero i)

theorem SelfContained.noLeak (hw : ht.WF) (hs : SelfContained ht m len) : NoLeak ht m len := by
  intro env m' h
  cases hv : ipValidate m len with
  | false =>
    rw [netDemux_invalid env ht hv, netDemux_invalid env ht (ipValidate_agree h ▸ hv)]
    exact ⟨rfl,fun i hi => absurd hi (Nat.not_lt_zero i),fun _ => rfl⟩
  | true =>
    obtain ⟨ho,hlen⟩ := ipValidate_header hv
    have hv' : ipValidate m' len = true := ipValidate_agree h ▸ hv
    have hihl := ihlBytes_agree h (show 0 < len by omega)
    have hproto : ipProto m = ipProto m' := h.byte_lt (by omega)
    by_cases hicmp : ipProto m = PROTO_ICMP
    · rw [netDemux_icmp env ht hv hicmp, netDemux_icmp env ht hv' (hproto ▸ hicmp), ← hihl]
      have ha := icmpDispatch_agree h hlen ho hlen
      exact ⟨ha.1,fun i hi => ha.2 i (lt_of_lt_of_le hi icmpDispatch_len),fun _ => rfl⟩
    by_cases htcp : ipProto m = PROTO_TCP
    · rw [netDemux_tcp env ht hv htcp, netDemux_tcp env ht hv' (hproto ▸ htcp)]
      simp only [Packet.dispatch, Packet.demuxed, ← hihl]
      rcases hs with hs | hs | ⟨hl,hc⟩ | ⟨hl,-,hc⟩
      · rw [hv] at hs
        cases hs
      · exact absurd htcp hs
      · exact tcpDispatch_agree hw h rfl ho hl env hc
      · exact tcpDispatch_short_agree hw h ho hl env hc
    · rw [netDemux_other env ht hv hicmp htcp, netDemux_other env ht hv' (hproto ▸ hicmp) (hproto ▸ htcp), ← hihl]
      have ha := icmpDestUnreachable_agree h ho hlen
      exact ⟨ha.1,ha.2,fun _ => rfl⟩

end Enough

section Necessary
variable {ht : HashTable} {m : Mem} {len : Nat}

/-- A buffer that agrees with the packet has the same demultiplexed segment. -/
private theorem netDemux_tcp_agree {b : Mem} (hv : ipValidate m len = true) (htcp : ipProto m = PROTO_TCP)
    (hb : Mem.AgreeOn (· < len) m b) (env : Env) :
    netDemux env ht b len = (tcpDispatch env ht b len (ihlBytes m)).toReply := by
  have ho := (ipValidate_header hv).1
  have hlen := (ipValidate_header hv).2
  have hproto : ipProto m = ipProto b := hb.byte_lt (by omega)
  rw [netDemux_tcp env ht (ipValidate_agree hb ▸ hv) (hproto ▸ htcp), ihlBytes_agree hb (show 0 < len by omega)]
  rfl

/-- A reply that reaches past the segment and the rewritten header carries the
last of its bytes over from the buffer. -/
private theorem answer_within (h : ht.WF) (hn : NoLeak ht m len) (hv : ipValidate m len = true)
    (htcp : ipProto m = PROTO_TCP) (hl : ihlBytes m + 18 ≤ len) (hc : checksumOk m len (ihlBytes m) = true)
    (ha : Answered (stateOf (hashFind ht (segId m (ihlBytes m)))) (segment m (ihlBytes m))) :
    tcpHlen m (ihlBytes m) ≤ max (len - ihlBytes m) 20 := by
  have ho := (ipValidate_header hv).1
  by_contra hlong
  generalize hj : ihlBytes m + tcpHlen m (ihlBytes m) - 1 = j
  have hb : Mem.AgreeOn (· < len) m (m.store8 j (m j + 1)) := fun i (hi : i < len) =>
    (m.store8_other _ (by omega)).symm
  have hsame := hn calmEnv _ hb
  rw [netDemux_tcp_agree hv htcp (fun _ _ => rfl), netDemux_tcp_agree hv htcp hb] at hsame
  have hseg := segment_agree_16 hb ho (by omega)
  have hm := tcpDispatch_answered h ho hc ha
  have hm' := tcpDispatch_answered (m := m.store8 j (m j + 1)) h ho (checksumOk_agree hb ho hl ▸ hc)
    (by rw [← hseg, ← show segId m (ihlBytes m) = segId _ (ihlBytes m) from congrArg Segment.id hseg]; exact ha)
  have hbyte := hsame.bytes j (by rw [hm.1]; omega)
  rw [hm.2 j (by omega), hm'.2 j (by omega), Mem.store8_same] at hbyte
  have := congrArg BitVec.toNat hbyte
  have hlt := (m j).isLt
  simp only [BitVec.toNat_add, BitVec.ofNat_eq_ofNat, BitVec.toNat_ofNat] at this
  omega

/-- When the buffer decides the second checksum byte, every completion of the
packet to a valid segment must be an ignored one. -/
private theorem completion_ignored (h : TableInv ht) (hn : NoLeak ht m len) (hv : ipValidate m len = true)
    (htcp : ipProto m = PROTO_TCP) (hl : len < ihlBytes m + 18) {b : Mem} (hb : Mem.AgreeOn (· < len) m b)
    (hc : checksumOk b len (ihlBytes m) = true) :
    Ignored (hashFind ht (segId b (ihlBytes m))) (segment b (ihlBytes m)) := by
  obtain ⟨ho,hlen⟩ := ipValidate_header hv
  generalize hcs : tcpChecksum m len (ihlBytes m) = cs
  -- The other completion has a second checksum byte that is wrong.
  have hbad : Mem.AgreeOn (· < len) m (m.store8 (ihlBytes m + 17) (.ofNat 8 (cs.toNat / 256 + 1))) :=
    fun i (hi : i < len) => (m.store8_other _ (by omega)).symm
  have hwrong : checksumOk (m.store8 (ihlBytes m + 17) (.ofNat 8 (cs.toNat / 256 + 1))) len (ihlBytes m) = false := by
    apply decide_eq_false
    rw [← tcpChecksum_agree hbad (fun _ hj => hj) ho hlen, hcs]
    intro hfield
    have hnat := congrArg BitVec.toNat hfield
    rw [tcpChecksumField, Mem.load16, Mem.store8_same, m.store8_other _ (by omega)] at hnat
    have h1 := (m (ihlBytes m + 16)).isLt
    have h2 := cs.isLt
    simp only [BitVec.toNat_ofNat] at hnat
    omega
  have hquiet := tcpDispatch_quiet h.wf calmEnv fun e => absurd (hwrong.symm.trans e) (by decide)
  have h1 := hn calmEnv _ hbad
  have h2 := hn calmEnv _ hb
  rw [netDemux_tcp_agree hv htcp (fun _ _ => rfl), netDemux_tcp_agree hv htcp hbad] at h1
  rw [netDemux_tcp_agree hv htcp (fun _ _ => rfl), netDemux_tcp_agree hv htcp hb] at h2
  refine ignored_of_quiet h ho (ihlBytes_agree hb (show 0 < len by omega) ▸ ho) hc ?_ fun id => ?_
  · exact h2.ret.symm.trans (h1.ret.trans hquiet.1)
  · exact (h2.find id).symm.trans ((h1.find id).trans (hquiet.2 id))

private theorem setTcpChecksum_ok {b : Mem} {o : Nat} (hb : Mem.AgreeOn (· < len) m b) (ho : 20 ≤ o) (hlen : o ≤ len) :
    checksumOk (setTcpChecksum b o (tcpChecksum m len o)) len o = true := by
  apply decide_eq_true
  rw [tcpChecksum_set _ _ ho, tcpChecksum_agree hb (fun _ hj => hj) ho hlen]
  exact Mem.load16_store16 ..

/-- A packet that ends before its flags can be completed to a SYN. -/
private theorem flags_within (h : TableInv ht) (hn : NoLeak ht m len) (hv : ipValidate m len = true)
    (htcp : ipProto m = PROTO_TCP) : ihlBytes m + 14 ≤ len := by
  obtain ⟨ho,hlen⟩ := ipValidate_header hv
  by_contra hshort
  have hsyn : Mem.AgreeOn (· < len) m (m.store8 (ihlBytes m + 13) SYN) := fun i (hi : i < len) =>
    (m.store8_other _ (by omega)).symm
  have hb : Mem.AgreeOn (· < len) m (setTcpChecksum (m.store8 (ihlBytes m + 13) SYN) (ihlBytes m)
      (tcpChecksum m len (ihlBytes m))) := fun i (hi : i < len) =>
    (hsyn i hi).trans (Mem.store16_other _ _ (by omega)).symm
  have hig := completion_ignored h hn hv htcp (by omega) hb (setTcpChecksum_ok hsyn ho hlen)
  have hflags : (segment (setTcpChecksum (m.store8 (ihlBytes m + 13) SYN) (ihlBytes m)
      (tcpChecksum m len (ihlBytes m))) (ihlBytes m)).flags = byteFlags SYN := by
    have hbyte : tcpFlags (setTcpChecksum (m.store8 (ihlBytes m + 13) SYN) (ihlBytes m)
        (tcpChecksum m len (ihlBytes m))) (ihlBytes m) = SYN := by
      rw [tcpFlags, setTcpChecksum, Mem.store16_other _ _ (by omega), Mem.store8_same]
    rw [segment, segFlags, hbyte]
    rfl
  have hig' := hig.2
  rw [hflags] at hig'
  revert hig'
  cases hashFind ht (segId (setTcpChecksum (m.store8 (ihlBytes m + 13) SYN) (ihlBytes m)
    (tcpChecksum m len (ihlBytes m))) (ihlBytes m)) <;> simp [byteFlags, hasFlag, SYN, RST, ACK]

theorem NoLeak.selfContained (h : TableInv ht) (hn : NoLeak ht m len) : SelfContained ht m len := by
  cases hv : ipValidate m len with
  | false => exact Or.inl hv
  | true =>
    by_cases htcp : ipProto m = PROTO_TCP
    case neg => exact Or.inr (Or.inl htcp)
    obtain ⟨ho,hlen⟩ := ipValidate_header hv
    by_cases hl : ihlBytes m + 18 ≤ len
    · refine Or.inr (Or.inr (Or.inl ⟨hl,?_⟩))
      by_cases hc : checksumOk m len (ihlBytes m) = true
      · by_cases ha : Answered (stateOf (hashFind ht (segId m (ihlBytes m)))) (segment m (ihlBytes m))
        · exact Or.inl (answer_within h.wf hn hv htcp hl hc ha)
        · exact Or.inr (Or.inr ha)
      · exact Or.inr (Or.inl (Bool.eq_false_iff.mpr hc))
    · have hf := flags_within h hn hv htcp
      refine Or.inr (Or.inr (Or.inr ⟨hf,Nat.not_le.mp hl,?_⟩))
      by_cases hbyte : len = ihlBytes m + 17 ∧ m (ihlBytes m + 16) ≠ (tcpChecksum m len (ihlBytes m)).setWidth 8
      · exact Or.inr hbyte
      left
      have hb : Mem.AgreeOn (· < len) m (setTcpChecksum m (ihlBytes m) (tcpChecksum m len (ihlBytes m))) := by
        intro i (hi : i < len)
        by_cases hi16 : i = ihlBytes m + 16
        · have hlast : len = ihlBytes m + 17 := by omega
          rw [not_and, not_not] at hbyte
          rw [hi16, hbyte hlast, setTcpChecksum, Mem.store16, Mem.store8_other _ _ (by omega), Mem.store8_same]
          apply BitVec.eq_of_toNat_eq
          simp only [BitVec.toNat_setWidth, BitVec.toNat_ofNat]
        · exact (Mem.store16_other _ _ (by omega)).symm
      have hig := completion_ignored h hn hv htcp (by omega) hb (setTcpChecksum_ok (fun _ _ => rfl) ho hlen)
      have hseg := segment_agree_14 hb.symm ho hf
      rwa [show segId (setTcpChecksum m (ihlBytes m) (tcpChecksum m len (ihlBytes m))) (ihlBytes m) =
        segId m (ihlBytes m) from congrArg Segment.id hseg, hseg, ignored_window] at hig

end Necessary

/-- A 40-byte SYN that declares a header of 60 bytes. -/
private def longOffset : Mem :=
  let m := setTcpDataOffset (craft clientId SYN 100 0) 20 0xF0
  setTcpChecksum m 20 (tcpChecksum m 40 20)

end LazyTcp.Refactor
