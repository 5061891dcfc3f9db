import LazyTcp.General.Rfc1071
import LazyTcp.Refactor.Demux

/-! The checksum against RFC 1071, and what it protects: a datagram with one
flipped bit is dropped by whichever of the acceptance tests covers the bit. -/
namespace LazyTcp.Refactor
open General General.Wire

/-- The accumulator is exact after every word and at the end, the carry loop
ends, and the stored result is the RFC 1071 checksum in network order. -/
theorem checksum_rfc1071 (m : Mem) (i : Nat) {len : Nat} (hlen : len ≤ 131072) :
    (∀ k n, 2*k + n = len → wordSum m i len 0 = wordSum m (i + 2*k) n (wordSum m i (2*k) 0) ∧
        (wordSum m i (2*k) 0).toNat = byteSum m i (2*k)) ∧
      (wordSum m i len 0).toNat = byteSum m i len ∧
      (∀ rounds, foldCarry (rounds+3) (wordSum m i len 0) = foldCarry 3 (wordSum m i len 0)) ∧
      foldCarry 3 (wordSum m i len 0) >>> 16 = 0 ∧
      ∀ (b : Mem) (j : Nat), (b.store16 j (checksum m i len)).bytes j 2 = netBytes (rfcChecksum (m.bytes i len)) := by
  refine ⟨?_,wordSum_exact m i hlen,fun rounds => ?_,foldCarry_settled 1 _,fun b j => ?_⟩
  · intro k n hk
    rw [← hk, wordSum_append]
    exact ⟨rfl,wordSum_exact m i (by omega)⟩
  · rw [foldCarry_stable (rounds+1), foldCarry_stable 1]
  · exact store16_internetChecksum m b i j hlen

/-- Three bytes, the last one padded. -/
theorem checksum_rfc1071_odd : (Mem.store16 (fun _ => 0) 0 (checksum (fun k => .ofNat 8 (k+1)) 0 3)).bytes 0 2 =
    netBytes (rfcChecksum [1,2,3]) ∧ netBytes (rfcChecksum [1,2,3]) = [0xFB,0xFD] := by
  constructor
  · exact (checksum_rfc1071 (fun k => .ofNat 8 (k+1)) 0 (show 3 ≤ 131072 by decide)).2.2.2.2 _ 0
  · decide +kernel

section FillVerify
variable {m : Mem} {i len k : Nat}

/-- The rest of a range whose field was cleared. -/
private theorem rest_pos : 0 < byteSum (m.store16 (i+k) 0) i len ↔
    ∃ j, j < len ∧ j ≠ k ∧ j ≠ k + 1 ∧ m (i+j) ≠ 0 := by
  rw [byteSum_pos]
  refine exists_congr fun j => and_congr_right fun _ => ?_
  rcases eq_or_ne j k with rfl | hlow
  · simp [Mem.store16, Mem.store8]
  · rcases eq_or_ne j (k + 1) with rfl | hhigh
    · simp [Mem.store16, Mem.store8, Nat.add_assoc]
    · rw [Mem.store16_other _ _ (by omega)]
      exact ⟨fun h => ⟨hlow,hhigh,h⟩,fun h => h.2.2⟩

/-- With the computed value 0 the field is also accepted as 0xFFFF, the other
zero; the value 0xFFFF is computed of zeros only. -/
private theorem other_zero (v : U16) (hlen : len ≤ 131072) :
    (v = 0xFFFF ∧ 0 < byteSum m i len ∧ byteSum m i len % 65535 = 0) ↔
      ({v,checksum m i len} : Set U16) = {0x0000,0xFFFF} ∧ 0 < byteSum m i len := by
  have hc := internetChecksum_toNat m i hlen
  have hlt := onesNorm_lt (byteSum m i len)
  have hmax := onesNorm_eq_max (s := byteSum m i len)
  have hzero := onesNorm_eq_zero (s := byteSum m i len)
  have hlow : checksum m i len = 0x0000 ↔ onesNorm (byteSum m i len) = 65535 := by
    rw [← BitVec.toNat_inj, checksum, hc]
    change 65535 - _ = 0 ↔ _
    omega
  have hhigh : checksum m i len = 0xFFFF ↔ byteSum m i len = 0 := by
    rw [← BitVec.toNat_inj, checksum, hc]
    change 65535 - _ = 65535 ↔ _
    omega
  rw [Set.pair_eq_pair_iff, hlow, hhigh, hmax]
  constructor
  · rintro ⟨hv,hpos,hmod⟩
    exact ⟨Or.inr ⟨hv,hpos,hmod⟩,hpos⟩
  · rintro ⟨⟨-,hnone⟩ | ⟨hv,hpos,hmod⟩,hsome⟩
    · omega
    · exact ⟨hv,hpos,hmod⟩

/-- For every value stored in an even field of the buffer: it verifies if and
only if it is the computed one, or the two are the zeros and something else in
the buffer is not zero. So the tests accept what the builders store. -/
theorem checksum_fill_verify (m : Mem) (i : Nat) (hlen : len ≤ 131072) (hk : k % 2 = 0) (hkn : k + 2 ≤ len) :
    let c := checksum (m.store16 (i+k) 0) i len
    (∀ v : U16, checksum (m.store16 (i+k) v) i len = 0 ↔
        v = c ∨ ({v,c} : Set U16) = {0x0000,0xFFFF} ∧ ∃ j, j < len ∧ j ≠ k ∧ j ≠ k + 1 ∧ m (i+j) ≠ 0) ∧
      checksum (m.store16 (i+k) c) i len = 0 ∧
      (20 ≤ ihlBytes m → checksum (ipChecksum m) 0 (ihlBytes m) = 0) ∧
      (8 ≤ len → icmpValidate (icmpChecksum m i len) i len = true) := by
  intro c
  have hiff (v : U16) : checksum (m.store16 (i+k) v) i len = 0 ↔
      v = c ∨ ({v,c} : Set U16) = {0x0000,0xFFFF} ∧ ∃ j, j < len ∧ j ≠ k ∧ j ≠ k + 1 ∧ m (i+j) ≠ 0 := by
    have hc : c.toNat = 65535 - onesNorm (byteSum (m.store16 (i+k) 0) i len) := internetChecksum_toNat _ _ hlen
    rw [← rest_pos, ← other_zero v hlen, ← BitVec.toNat_inj (x := v), hc]
    exact internetChecksum_store16_eq_zero m i v hk hkn hlen
  exact ⟨hiff,(hiff c).mpr (Or.inl rfl),ipChecksum_verifies,fun hmin => icmpValidate_signed hmin hlen fun _ _ => rfl⟩

/-- Two bytes 0xFF and a field. The computed value is 0, and 0xFFFF is accepted too. -/
private def fullWord : Mem := fun j => if j < 2 then 0xFF else 0

theorem checksum_fill_verify_zeros : checksum (fullWord.store16 2 0) 0 4 = 0 ∧
    checksum (fullWord.store16 2 0xFFFF) 0 4 = 0 ∧ checksum (fullWord.store16 2 1) 0 4 ≠ 0 := by
  obtain ⟨hiff,-⟩ := checksum_fill_verify fullWord 0 (k := 2) (show 4 ≤ 131072 by decide) rfl (Nat.le_refl 4)
  have hc : checksum (fullWord.store16 (0+2) 0) 0 4 = 0 := by decide +kernel
  rw [hc] at hiff
  have hpair : ({0xFFFF,0} : Set U16) = {0x0000,0xFFFF} := Set.pair_comm ..
  refine ⟨(hiff 0).mpr (Or.inl rfl),(hiff 0xFFFF).mpr (Or.inr ⟨hpair,0,by decide⟩),fun h => ?_⟩
  rcases (hiff 1).mp h with h | ⟨h,-⟩
  · exact absurd h (by decide)
  · rw [Set.pair_eq_pair_iff] at h
    exact absurd h (by decide)

end FillVerify

section Corruption
variable {m : Mem} {len i : Nat} {b : Fin 8}

/-- A packet that passes the tests of its protocol, up to the checksum. -/
def Accepted (m : Mem) (len : Nat) : Prop :=
  ipValidate m len = true ∧
    ((ipProto m = PROTO_ICMP ∧ icmpValidate m (ihlBytes m) (len - ihlBytes m) = true) ∨
      (ipProto m = PROTO_TCP ∧ checksumOk m len (ihlBytes m) = true))

/-- A bit of the IP header outside the IHL nibble, or of the message behind it. -/
def Covered (m : Mem) (len i : Nat) (b : Fin 8) : Prop :=
  (i < ihlBytes m ∧ ¬ (i = 0 ∧ b.val < 4)) ∨ (ihlBytes m ≤ i ∧ i < len)

private theorem low_nibble (v : U8) (b : Fin 8) (hb : ¬ b.val < 4) :
    (v ^^^ .twoPow 8 b) &&& 0xf = v &&& 0xf := by
  revert v b
  decide +kernel

private theorem ihlBytes_flipBit (h : ¬ (i = 0 ∧ b.val < 4)) : ihlBytes (m.flipBit i b) = ihlBytes m := by
  rcases Nat.eq_zero_or_pos i with rfl | hi
  · rw [ihlBytes, ihlBytes, versionIhl, Mem.flipBit, Mem.store8_same, low_nibble _ _ fun hb => h ⟨rfl,hb⟩]
    rfl
  · exact ihlBytes_congr (m.flipBit_other b (by omega))

/-- A flipped header bit spoils the header checksum. -/
private theorem header_corrupted (hv : ipValidate m len = true) (hi : i < ihlBytes m)
    (hn : ¬ (i = 0 ∧ b.val < 4)) : ipValidate (m.flipBit i b) len = false := by
  have hmax := ihlBytes_le m
  have hflip := internetChecksum_flipBit m 0 b hi (by omega)
  rw [Nat.zero_add] at hflip
  rw [ipValidate_iff] at hv
  rw [Bool.eq_false_iff, ne_eq, ipValidate_iff, ihlBytes_flipBit hn]
  rintro ⟨-,-,-,hc⟩
  exact hflip (hc.trans hv.2.2.2.symm)

/-- The header test reads the header only. -/
private theorem ipValidate_flipBit (hv : ipValidate m len = true) (hi : ihlBytes m ≤ i) :
    ipValidate (m.flipBit i b) len = true ∧ ihlBytes (m.flipBit i b) = ihlBytes m := by
  rw [ipValidate_iff] at hv
  have h0 : m.flipBit i b 0 = m 0 := m.flipBit_other b (by omega)
  have hc : checksum (m.flipBit i b) 0 (ihlBytes m) = checksum m 0 (ihlBytes m) :=
    internetChecksum_congr fun k hk => m.flipBit_other b (by omega)
  have hl : ihlBytes (m.flipBit i b) = ihlBytes m := ihlBytes_congr h0
  rw [ipValidate_iff, hl, hc, versionIhl, h0]
  exact ⟨hv,rfl⟩

private theorem icmp_corrupted {o : Nat} (hv : icmpValidate m o (len - o) = true) (hl : len ≤ MTU_SIZE)
    (ho : o ≤ i) (hi : i < len) : icmpValidate (m.flipBit i b) o (len - o) = false := by
  obtain ⟨k,rfl⟩ := Nat.exists_eq_add_of_le ho
  have hmtu : MTU_SIZE = 1500 := rfl
  have hflip := internetChecksum_flipBit m o b (show k < len - o by omega) (by omega)
  rw [icmpValidate_iff] at hv
  rw [Bool.eq_false_iff, ne_eq, icmpValidate_iff]
  rintro ⟨-,hc⟩
  exact hflip (hc.trans hv.2.symm)

private theorem pseudo_flipBit (hi : 20 ≤ i) : ipSrc (m.flipBit i b) = ipSrc m ∧ ipDst (m.flipBit i b) = ipDst m ∧
    ipProto (m.flipBit i b) = ipProto m := by
  refine ⟨Mem.load32_congr fun j _ _ => ?_,Mem.load32_congr fun j _ _ => ?_,?_⟩ <;>
    exact m.flipBit_other b (by omega)

/-- A bit outside the checksum field shows in the computed checksum. -/
private theorem tcpChecksum_flipBit {o k : Nat} (ho : 20 ≤ o) (hk : k < len - o) (hl : len ≤ MTU_SIZE)
    (hout : k < 16 ∨ 18 ≤ k) : tcpChecksum (m.flipBit (o+k) b) len o ≠ tcpChecksum m len o := by
  have hmtu : MTU_SIZE = 1500 := rfl
  have hclear : setTcpChecksum (m.flipBit (o+k) b) o 0 = (setTcpChecksum m o 0).flipBit (o+k) b :=
    m.store16_flipBit 0 b (by omega)
  obtain ⟨hsrc,hdst,hproto⟩ := pseudo_flipBit (m := m) (b := b) (show 20 ≤ o+k by omega)
  have hapart := (byteSum_flipBit (setTcpChecksum m o 0) o b hk).mod_ne
  intro he
  have hnat := congrArg BitVec.toNat he
  rw [tcpChecksum_toNat _ _ (by omega), tcpChecksum_toNat _ _ (by omega), hclear, hsrc, hdst, hproto] at hnat
  generalize pseudoSum (ipSrc m) (ipDst m) (ipProto m) (len - o) = head at hnat
  generalize byteSum (setTcpChecksum m o 0) o (len - o) = body at hnat hapart
  generalize byteSum ((setTcpChecksum m o 0).flipBit (o+k) b) o (len - o) = body' at hnat hapart
  have hlt := onesNorm_lt (head + body)
  have hlt' := onesNorm_lt (head + body')
  have hnorm := (onesNorm_eq_iff.mp (show onesNorm (head + body) = onesNorm (head + body') by omega)).2
  omega

/-- In the checksum field the stored value moves, elsewhere the computed one;
bytes of the field beyond the segment are in neither. -/
private theorem tcp_corrupted {o : Nat} (hv : checksumOk m len o = true) (hl : len ≤ MTU_SIZE) (ho : 20 ≤ o)
    (hi : o ≤ i) (hi' : i < len) : checksumOk (m.flipBit i b) len o = false := by
  obtain ⟨k,rfl⟩ := Nat.exists_eq_add_of_le hi
  have hv : tcpChecksumField m o = tcpChecksum m len o := of_decide_eq_true hv
  refine decide_eq_false fun hv' => ?_
  by_cases hfield : k < 16 ∨ 18 ≤ k
  · refine tcpChecksum_flipBit (m := m) (b := b) ho (by omega) hl hfield ?_
    rw [← hv', ← hv]
    exact Mem.load16_congr fun j _ _ => m.flipBit_other b (by omega)
  · obtain ⟨k,rfl⟩ := Nat.exists_eq_add_of_le (show 16 ≤ k by omega)
    have hsame : tcpChecksum (m.flipBit (o+(16+k)) b) len o = tcpChecksum m len o := by
      obtain ⟨hsrc,hdst,hproto⟩ := pseudo_flipBit (m := m) (b := b) (show 20 ≤ o+(16+k) by omega)
      have hclear : setTcpChecksum (m.flipBit (o+(16+k)) b) o 0 = setTcpChecksum m o 0 :=
        m.store16_store8 _ 0 (by omega) (by omega)
      rw [tcpChecksum, tcpChecksum, hclear, hsrc, hdst, hproto]
    rw [hsame, ← hv, ← Nat.add_assoc] at hv'
    exact load16_flipBit m (o+16) b (show k < 2 by omega) hv'

/-- A packet with one flipped bit is not answered and changes no connection. -/
theorem corrupted_dropped (env : Env) (ht : HashTable) (hl : len ≤ MTU_SIZE) (ha : Accepted m len)
    (hc : Covered m len i b) : (netDemux env ht (m.flipBit i b) len).ret = 0 ∧
      (netDemux env ht (m.flipBit i b) len).table = ht := by
  obtain ⟨hv,hproto⟩ := ha
  rcases hc with ⟨hi,hn⟩ | ⟨hi,hi'⟩
  · rw [netDemux_invalid env ht (header_corrupted hv hi hn)]
    exact ⟨rfl,rfl⟩
  · obtain ⟨hv',hihl⟩ := ipValidate_flipBit (b := b) hv hi
    have ho := (ipValidate_header hv).1
    have hp : ipProto (m.flipBit i b) = ipProto m := m.flipBit_other b (by omega)
    rcases hproto with ⟨hproto,hok⟩ | ⟨hproto,hok⟩
    · have hbad := icmp_corrupted (b := b) hok hl hi hi'
      rw [netDemux_icmp env ht hv' (hp.trans hproto), hihl, icmpDispatch, hbad]
      exact ⟨rfl,rfl⟩
    · have hbad := tcp_corrupted (b := b) hok hl ho hi hi'
      have hdrop : tcpDispatch env ht (m.flipBit i b) len (ihlBytes m) = ⟨⟨0,m.flipBit i b,ht⟩,.drop⟩ := by
        rw [tcpDispatch, if_pos (of_decide_eq_false hbad)]
      have hsame : netDemux env ht (m.flipBit i b) len =
          (tcpDispatch env ht (m.flipBit i b) len (ihlBytes m)).toReply := by
        rw [netDemux_tcp env ht hv' (hp.trans hproto), ← hihl]
        rfl
      rw [hsame, hdrop]
      exact ⟨rfl,rfl⟩

/-- The client's SYN with the lowest bit of its destination port flipped. -/
theorem corrupted_dropped_client : (netDemux calmEnv .empty ((craft clientId SYN 100 0).flipBit 23 0) 40).ret = 0 ∧
    (netDemux calmEnv .empty ((craft clientId SYN 100 0).flipBit 23 0) 40).table = .empty :=
  corrupted_dropped calmEnv .empty (by decide) ⟨by decide +kernel,Or.inr (by decide +kernel)⟩
    (Or.inr (by decide +kernel))

end Corruption

end LazyTcp.Refactor
