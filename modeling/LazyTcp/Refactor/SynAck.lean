import LazyTcp.General.Rfc1071
import LazyTcp.Refactor.Demux
import LazyTcp.Refactor.Replies

/-! The SYN-ACK as the peer receives it. Its header fields and its IP checksum
are always right; the TCP checksum is computed over the request's length. -/
namespace LazyTcp.Refactor
open General General.Wire

/-- The receiver's test of a segment of n bytes: pseudo-header and segment sum to zero. -/
def SegmentVerifies (m : Mem) (o n : Nat) : Prop :=
  checksum (pseudoSegment (ipSrc m) (ipDst m) (ipProto m) n m o) 0 (12 + n) = 0

/-- What the n bytes of an answer b to the request m have to satisfy on the wire. -/
structure ValidSynAck (con : TCB) (m b : Mem) (n : Nat) : Prop where
  header : ipValidate b n = true
  totalLen : (ntohs (ipLen b)).toNat = n
  src : ipSrc b = ipDst m
  dst : ipDst b = ipSrc m
  srcPort : tcpSrcPort b (ihlBytes m) = tcpDstPort m (ihlBytes m)
  dstPort : tcpDstPort b (ihlBytes m) = tcpSrcPort m (ihlBytes m)
  flags : tcpFlags b (ihlBytes m) = SYN ||| ACK
  seq : ntohl (tcpSeqNum b (ihlBytes m)) = con.send.iss
  ack : ntohl (tcpAckNum b (ihlBytes m)) = ntohl (tcpSeqNum m (ihlBytes m)) + 1
  window : (ntohs (tcpWindow b (ihlBytes m))).setWidth 32 = con.recv.window
  checksum : SegmentVerifies b (ihlBytes m) (n - ihlBytes m)

section Builder
variable (tcb : TCB) (m : Mem) (len : Nat) {o : Nat}

/-- The request with every field of the answer in place but the two checksums. -/
private def synAckFields (tcb : TCB) (m : Mem) (offset : Nat) : Mem :=
  let m := ipSwapDst m
  let m := tcpSwapPort m offset
  let hlen := tcpHlen m offset
  let m := setTcpSeqNum m offset (htonl tcb.send.iss)
  let m := setTcpAckNum m offset (htonl tcb.recv.next)
  let m := setTcpDataOffset m offset (dataOffsetByte hlen)
  let m := setTcpFlags m offset (SYN ||| ACK)
  let m := setTcpWindow m offset (htons (tcb.recv.window.setWidth 16))
  let m := setTcpUrgentPtr m offset 0
  setIpLen m (htons (.ofNat 16 (ihlBytes m + hlen)))

/-- The same with the IP checksum. -/
private def synAckUnsigned (tcb : TCB) (m : Mem) (o : Nat) : Mem := ipChecksum (synAckFields tcb m o)

private theorem tcpSynAck_buf : (tcpSynAck tcb m len o).2 =
    setTcpChecksum (synAckUnsigned tcb m o) o (tcpChecksum (synAckUnsigned tcb m o) len o) := rfl

theorem tcpSynAck_addresses (ho : 20 ≤ o) :
    ipSrc (tcpSynAck tcb m len o).2 = ipDst m ∧ ipDst (tcpSynAck tcb m len o).2 = ipSrc m := by
  simp only [tcpSynAck, ipChecksum, ipSrc, ipDst, setTcpChecksum, setIpChecksum, setIpLen, setTcpUrgentPtr,
    setTcpWindow, setTcpFlags, setTcpDataOffset, setTcpAckNum, setTcpSeqNum, tcpSwapPort, setTcpSrcPort,
    setTcpDstPort, ipSwapDst, setIpSrc, setIpDst]
  simp (disch := omega) only [Mem.load32_store16_other, Mem.load32_store8_other, Mem.load32_store32_other,
    Mem.load32_store32, true_and]

theorem tcpSynAck_ports (ho : 20 ≤ o) : tcpSrcPort (tcpSynAck tcb m len o).2 o = tcpDstPort m o ∧
    tcpDstPort (tcpSynAck tcb m len o).2 o = tcpSrcPort m o := by
  simp only [tcpSynAck, ipChecksum, tcpSrcPort, tcpDstPort, setTcpChecksum, setIpChecksum, setIpLen, setTcpUrgentPtr,
    setTcpWindow, setTcpFlags, setTcpDataOffset, setTcpAckNum, setTcpSeqNum, tcpSwapPort, setTcpSrcPort,
    setTcpDstPort, ipSwapDst, setIpSrc, setIpDst]
  simp (disch := omega) only [Mem.load16_store16_other, Mem.load16_store8_other, Mem.load16_store32_other,
    Mem.load16_store16, true_and]

theorem tcpSynAck_window (ho : 20 ≤ o) :
    ntohs (tcpWindow (tcpSynAck tcb m len o).2 o) = tcb.recv.window.setWidth 16 := by
  simp only [tcpSynAck, ipChecksum, tcpWindow, setTcpChecksum, setIpChecksum, setIpLen, setTcpUrgentPtr, setTcpWindow]
  simp (disch := omega) only [Mem.load16_store16_other]
  rw [Mem.load16_store16, ntohs_ntohs]

/-- Version, header length and protocol are the request's. -/
private theorem synAckUnsigned_fixed (ho : 20 ≤ o) :
    synAckUnsigned tcb m o 0 = m 0 ∧ synAckUnsigned tcb m o 9 = m 9 := by
  simp only [synAckUnsigned, synAckFields, ipChecksum, setIpChecksum, setIpLen, setTcpUrgentPtr, setTcpWindow,
    setTcpFlags, setTcpDataOffset, setTcpAckNum, setTcpSeqNum, tcpSwapPort, setTcpSrcPort, setTcpDstPort, ipSwapDst,
    setIpSrc, setIpDst]
  simp (disch := omega) only [Mem.store16_other, Mem.store8_other, Mem.store32_other, true_and]

/-- The header the peer reads: valid, and of the length that is sent. -/
private theorem tcpSynAck_header {k : Nat} (hv : ipValidate m k = true) (ho : 20 ≤ ihlBytes m) :
    ipValidate (tcpSynAck tcb m len (ihlBytes m)).2 (ihlBytes m + tcpHlen m (ihlBytes m)) = true := by
  obtain ⟨h0,-⟩ := synAckUnsigned_fixed tcb m ho
  have hunsummed : synAckFields tcb m (ihlBytes m) 0 = m 0 := by
    rw [← h0]
    simp (disch := omega) only [synAckUnsigned, ipChecksum, setIpChecksum, Mem.store16_other]
  refine ipValidate_signed hv hunsummed (fun j hj => ?_) (Nat.le_add_right _ _)
  rw [tcpSynAck_buf, setTcpChecksum, Mem.store16_other _ _ (by omega)]
  rfl

theorem tcpSynAck_totalLen (hihl : ihlBytes m = o) (ho : 20 ≤ o) :
    (ntohs (ipLen (tcpSynAck tcb m len o).2)).toNat = o + tcpHlen m o := by
  have hlen := tcpSynAck_len tcb m len ho
  have hfield : ipLen (tcpSynAck tcb m len o).2 = htons (.ofNat 16 (tcpSynAck tcb m len o).1) := by
    simp only [tcpSynAck, ipChecksum, ipLen, setTcpChecksum, setIpChecksum, setIpLen]
    simp (disch := omega) only [Mem.load16_store16_other, Mem.load16_store16]
  have h1 := ihlBytes_le m
  have h2 := tcpHlen_le m o
  rw [hfield, ntohs_ntohs, hlen, hihl, BitVec.toNat_ofNat]
  omega

private theorem htons_mod {n : Nat} (hn : n < 65536) : (htons (.ofNat 16 n)).toNat % 65535 = 256 * n % 65535 := by
  rw [ntohs_toNat, BitVec.toNat_ofNat, Nat.mod_eq_of_lt hn,
    show 256 * n = n % 256 * 256 + n / 256 + 65535 * (n / 256) by omega, Nat.add_mul_mod_self_left]

/-- Of the pseudo-header only the length word depends on the length. -/
private theorem pseudoSum_length (src dst : U32) {proto : U8} (hp : proto ≠ 0) :
    ∃ base, 0 < base ∧ ∀ n, pseudoSum src dst proto n = base + (htons (.ofNat 16 n)).toNat := by
  have hnat : proto.toNat ≠ 0 := fun e => hp (BitVec.eq_of_toNat_eq e)
  exact ⟨_,by omega,fun n => rfl⟩

/-- The sum of the signed segment is 256 times the surplus short of a multiple of 65535. -/
private theorem surplus_iff {base l1 l2 body payload words hlen extra norm : Nat} (hbase : 0 < base)
    (hl1 : l1 % 65535 = 256 * hlen % 65535) (hl2 : l2 % 65535 = 256 * (hlen + extra) % 65535)
    (hwords : 256 * words % 65535 = payload % 65535)
    (hnorm : norm % 65535 = (base + l2 + (body + payload)) % 65535) (hlt : norm < 65536) :
    0 < base + l1 + (body + (65535 - norm)) ∧ (base + l1 + (body + (65535 - norm))) % 65535 = 0 ↔
      (extra + words) % 65535 = 0 := by
  have hsum : (base + l1 + (body + (65535 - norm)) + 256 * (extra + words)) % 65535 = 0 := by omega
  constructor
  · rintro ⟨-,hz⟩
    omega
  · intro hz
    omega

/-- A checksum computed over hlen + extra bytes verifies over hlen bytes exactly
when the extra bytes and the two length words cancel. -/
private theorem signed_verifies_iff {b : Mem} {o hlen extra : Nat} (ho : 20 ≤ o) (hp : ipProto b ≠ 0)
    (heven : hlen % 2 = 0) (hmin : 20 ≤ hlen) (hmax : o + hlen + extra ≤ 65535) :
    SegmentVerifies (setTcpChecksum b o (tcpChecksum b (o + hlen + extra) o)) o hlen ↔
      (extra + rfcSum (b.bytes (o + hlen) extra)) % 65535 = 0 := by
  obtain ⟨base,hbase,hlength⟩ := pseudoSum_length (ipSrc b) (ipDst b) hp
  generalize hc : tcpChecksum b (o + hlen + extra) o = c
  have hsrc : ipSrc (setTcpChecksum b o c) = ipSrc b := Mem.load32_store16_other _ _ (by omega)
  have hdst : ipDst (setTcpChecksum b o c) = ipDst b := Mem.load32_store16_other _ _ (by omega)
  have hproto : ipProto (setTcpChecksum b o c) = ipProto b :=
    b.store16_other (i := o+16) (j := 9) c (by omega)
  have hsigned : byteSum (setTcpChecksum b o c) o hlen = byteSum (setTcpChecksum b o 0) o hlen + c.toNat := by
    have h := byteSum_store16 (setTcpChecksum b o 0) o c (k := 16) (by rfl) (n := hlen) (by omega)
    rw [setTcpChecksum, Mem.store16_store16, Mem.load16_store16] at h
    exact h
  have hextra : byteSum (setTcpChecksum b o 0) (o + hlen) extra = byteSum b (o + hlen) extra :=
    byteSum_congr fun k _ => Mem.store16_other _ _ (by omega)
  have hvalue := tcpChecksum_toNat b o (show o + hlen + extra ≤ 65536 by omega)
  rw [hc, show o + hlen + extra - o = hlen + extra by omega, byteSum_append _ _ heven, hextra, hlength] at hvalue
  rw [SegmentVerifies, checksum, internetChecksum_eq_zero _ _ (by omega), byteSum_pseudoSegment, hsrc, hdst, hproto,
    hlength, hsigned, hvalue]
  exact surplus_iff hbase (htons_mod (by omega)) (htons_mod (by omega)) (rfcSum_bytes b (o + hlen) extra).1
    (onesNorm_mod _) (onesNorm_lt _)

private theorem synAckUnsigned_tail {j : Nat} (ho : 20 ≤ o) (hj : o + 20 ≤ j) : synAckUnsigned tcb m o j = m j := by
  have ht := tcpSynAck_tail tcb m 0 ho hj
  rwa [tcpSynAck_buf, setTcpChecksum, Mem.store16_other _ _ (by omega)] at ht

/-- The answer to a request with payload behind its TCP header. -/
private theorem tcpSynAck_verifies_iff (hp : ipProto m ≠ 0) (ho : 20 ≤ o) (hmin : 20 ≤ tcpHlen m o)
    (hfits : o + tcpHlen m o ≤ len) (hlen : len ≤ 65535) :
    SegmentVerifies (tcpSynAck tcb m len o).2 o (tcpHlen m o) ↔
      (len - (o + tcpHlen m o) + rfcSum (m.bytes (o + tcpHlen m o) (len - (o + tcpHlen m o)))) % 65535 = 0 := by
  obtain ⟨extra,rfl⟩ := Nat.exists_eq_add_of_le hfits
  have hproto : ipProto (synAckUnsigned tcb m o) ≠ 0 := by
    rw [ipProto, (synAckUnsigned_fixed tcb m ho).2]
    exact hp
  have hpayload : (synAckUnsigned tcb m o).bytes (o + tcpHlen m o) extra = m.bytes (o + tcpHlen m o) extra := by
    refine List.map_congr_left fun k _ => ?_
    exact synAckUnsigned_tail tcb m ho (by omega)
  have heven : tcpHlen m o % 2 = 0 := by
    rw [tcpHlen]
    omega
  rw [tcpSynAck_buf, signed_verifies_iff ho hproto heven hmin hlen, hpayload, Nat.add_sub_cancel_left]

end Builder

/-- The receive window of the stored block of a connection, or of a new one. -/
def windowBefore (ht : HashTable) (id : ID) : U32 := (hashFind ht id).elim TCP_WIN_DEF fun con => con.recv.window

/-- Every block the program stores has the default window. -/
theorem windowBefore_reachable {ht : HashTable} (h : TableReachable ht) (id : ID) :
    windowBefore ht id = TCP_WIN_DEF := by
  rw [windowBefore]
  cases hf : hashFind ht id with
  | none => rfl
  | some con => exact (h.inv.con id con hf).1.window

/-- Only an opening segment makes the machine take the SYN edge. -/
private theorem conStep_syn {iss : U32} {seg : Segment} {con : TCB} (h : (conStep iss seg con).1 = .syn) :
    conStep iss seg con = (.syn,some (halfOpen iss seg con)) := by
  have hstep := conStep_transition iss seg con
  generalize conStep iss seg con = r at hstep h
  cases hstep with
  | opening => rfl
  | refuse | reset | ignoreReset | unknown | establish | badAck | abort | synOnOpen | payload | unused => cases h

/-- The half-open block is made of the stored one, or of a new one. -/
private theorem dispatchCon_syn {ht : HashTable} {env : Env} {p : Packet} (hs : (dispatchCon p.valid
      (freshBlock env.allocs ht p.seg.id) env.iss p.seg (hashFind ht p.seg.id)).1 = .syn) :
    ∃ con, dispatchCon p.valid (freshBlock env.allocs ht p.seg.id) env.iss p.seg (hashFind ht p.seg.id) =
      (.syn,some con) ∧ con.recv.next = p.seg.seq + 1 ∧ con.recv.window = windowBefore ht p.seg.id := by
  rw [windowBefore]
  rcases dispatchCon_cases (freshBlock env.allocs ht p.seg.id) env.iss p.seg p.valid (hashFind ht p.seg.id) with
    hd | ⟨-,c,hc,hd⟩ <;> rw [hd] at hs ⊢
  · cases hs
  · refine ⟨_,conStep_syn hs,rfl,?_⟩
    rcases hc with hf | ⟨hf,rfl⟩ <;> rw [hf] <;> rfl

/-- A segment answered with a SYN-ACK left the half-open block the answer was built from. -/
private theorem synAck_block {ht : HashTable} (h : ht.WF) (env : Env) (p : Packet)
    (hs : (p.dispatch env ht).edge = .syn) : ∃ con, hashFind (p.dispatch env ht).table p.seg.id = some con ∧
      con.recv.next = p.seg.seq + 1 ∧ con.recv.window = windowBefore ht p.seg.id ∧
      ((p.dispatch env ht).ret,(p.dispatch env ht).buf) = tcpSynAck con p.buf p.len p.offset := by
  have href := p.refines h env
  obtain ⟨con,hd,hnext,hwin⟩ := dispatchCon_syn (href.edge.symm.trans hs)
  have hown := href.own
  have hreply := href.reply
  rw [hd] at hown hreply
  exact ⟨con,hown,hnext,hwin,hreply⟩

/-- The 16-bit field carries the window exactly if it fits. -/
private theorem window_fits (w : U32) : (w.setWidth 16).setWidth 32 = w ↔ w.toNat < 65536 := by
  have hw := w.isLt
  rw [← BitVec.toNat_inj, BitVec.toNat_setWidth, BitVec.toNat_setWidth]
  omega

/-- The answer is valid exactly when the window fits its field and the bytes
behind the request's TCP header cancel: their number and their big-endian words
sum to zero in ones complement. -/
theorem synAck_valid_iff {ht : HashTable} (h : ht.WF) (env : Env) {m : Mem} {len : Nat}
    (hlen : len ≤ 65535) (hv : ipValidate m len = true) (hp : ipProto m = PROTO_TCP)
    (hs : (tcpDispatch env ht m len (ihlBytes m)).edge = .syn) (hmin : 20 ≤ tcpHlen m (ihlBytes m))
    (hfits : ihlBytes m + tcpHlen m (ihlBytes m) ≤ len) :
    ∃ con, hashFind (netDemux env ht m len).table (segId m (ihlBytes m)) = some con ∧
      (ValidSynAck con m (netDemux env ht m len).buf (netDemux env ht m len).ret ↔
        (windowBefore ht (segId m (ihlBytes m))).toNat < 65536 ∧
        (len - (ihlBytes m + tcpHlen m (ihlBytes m)) + rfcSum (m.bytes (ihlBytes m + tcpHlen m (ihlBytes m))
          (len - (ihlBytes m + tcpHlen m (ihlBytes m))))) % 65535 = 0) := by
  have ho := ((ipValidate_iff m len).mp hv).1
  obtain ⟨con,hf,hnext,hwin,hreply⟩ := synAck_block h env (.demuxed m len hv) hs
  rw [netDemux_tcp env ht hv hp]
  refine ⟨con,hf,?_⟩
  have hret : ((Packet.demuxed m len hv).dispatch env ht).ret = ihlBytes m + tcpHlen m (ihlBytes m) :=
    (congrArg Prod.fst hreply).trans (tcpSynAck_len con m len ho)
  have hbuf : ((Packet.demuxed m len hv).dispatch env ht).buf = (tcpSynAck con m len (ihlBytes m)).2 :=
    congrArg Prod.snd hreply
  have hverifies := tcpSynAck_verifies_iff con m len (show ipProto m ≠ 0 by rw [hp]; decide) ho hmin hfits hlen
  have hfield : (ntohs (tcpWindow (tcpSynAck con m len (ihlBytes m)).2 (ihlBytes m))).setWidth 32 = con.recv.window ↔
      (windowBefore ht (segId m (ihlBytes m))).toNat < 65536 := by
    rw [tcpSynAck_window con m len ho, window_fits, hwin]
    rfl
  rw [hret, hbuf, ← hverifies, ← hfield]
  constructor
  · intro hval
    have hsum := hval.checksum
    rw [Nat.add_sub_cancel_left] at hsum
    exact ⟨hval.window,hsum⟩
  · rintro ⟨hwindow,hsum⟩
    obtain ⟨hsrc,hdst⟩ := tcpSynAck_addresses con m len ho
    obtain ⟨hsp,hdp⟩ := tcpSynAck_ports con m len ho
    refine ⟨tcpSynAck_header con m len hv ho,tcpSynAck_totalLen con m len rfl ho,hsrc,hdst,hsp,hdp,
      tcpSynAck_flags con m len ho,tcpSynAck_seq con m len ho,(tcpSynAck_ack con m len ho).trans hnext,hwindow,?_⟩
    rwa [Nat.add_sub_cancel_left]

/-- The client's SYN carries nothing behind its header. -/
theorem synAck_valid_client : ∃ con, hashFind (netDemux calmEnv .empty (craft clientId SYN 100 0) 40).table clientId =
    some con ∧ ValidSynAck con (craft clientId SYN 100 0) (netDemux calmEnv .empty (craft clientId SYN 100 0) 40).buf
      (netDemux calmEnv .empty (craft clientId SYN 100 0) 40).ret := by
  have hid : segId (craft clientId SYN 100 0) (ihlBytes (craft clientId SYN 100 0)) = clientId := by decide +kernel
  obtain ⟨con,hf,hiff⟩ := synAck_valid_iff .empty calmEnv (m := craft clientId SYN 100 0)
    (show 40 ≤ 65535 by decide) (by decide +kernel) (by decide +kernel) (by decide +kernel) (by decide +kernel)
    (by decide +kernel)
  rw [hid] at hf
  exact ⟨con,hf,hiff.mpr (by decide +kernel)⟩

/-- The client's SYN with one byte of payload. -/
private def synWithByte : Mem :=
  let m := (craft clientId SYN 100 0).store8 40 0x41
  let m := setIpLen m (htons 41)
  let m := ipChecksum m
  setTcpChecksum m 20 (tcpChecksum m 41 20)

/-- Its answer is 40 bytes long and signed over 41. -/
theorem payload_synAck_unverifiable : TableReachable .empty ∧ ipValidate synWithByte 41 = true ∧
    ipProto synWithByte = PROTO_TCP ∧ (tcpDispatch calmEnv .empty synWithByte 41 20).edge = .syn ∧
    ihlBytes synWithByte = 20 ∧ tcpHlen synWithByte 20 = 20 ∧
    ¬ ∃ con, ValidSynAck con synWithByte (netDemux calmEnv .empty synWithByte 41).buf
      (netDemux calmEnv .empty synWithByte 41).ret := by
  refine ⟨Reachable.start _,by decide +kernel,by decide +kernel,by decide +kernel,by decide +kernel,
    by decide +kernel,?_⟩
  rintro ⟨con,hval⟩
  have hsum : ¬ SegmentVerifies (netDemux calmEnv .empty synWithByte 41).buf (ihlBytes synWithByte)
      ((netDemux calmEnv .empty synWithByte 41).ret - ihlBytes synWithByte) := by
    unfold SegmentVerifies
    decide +kernel
  exact hsum hval.checksum

end LazyTcp.Refactor
