import LazyTcp.General.Checksum
import LazyTcp.General.Wire

/-! Header validation and in-place rewriting of IPv4 and ICMP. The buffer is
rewritten in place, so every builder maps a memory to a memory. -/
namespace LazyTcp.Refactor
open General General.Wire

def PROTO_TCP : U8 := 6
def PROTO_ICMP : U8 := 1
def MTU_SIZE : Nat := 1500

def checksum (m : Mem) (i len : Nat) : U16 := internetChecksum m i len

def ipValidate (m : Mem) (len : Nat) : Bool :=
  if len < 20 then false
  else
    let ihl := ihlBytes m
    if ihl < 20 ∨ ihl > len then false
    else if versionIhl m >>> 4 ≠ 4 then false
    else if checksum m 0 ihl ≠ 0 then false
    else true

/-- What ip_validate accepts; the first length test is implied by the others. -/
theorem ipValidate_iff (m : Mem) (len : Nat) : ipValidate m len = true ↔
    20 ≤ ihlBytes m ∧ ihlBytes m ≤ len ∧ versionIhl m >>> 4 = 4 ∧ checksum m 0 (ihlBytes m) = 0 := by
  unfold ipValidate
  split
  case isTrue hlen => exact ⟨nofun,fun h => absurd (h.1.trans h.2.1) (by omega)⟩
  case isFalse =>
    simp only
    split
    case isTrue hihl => exact ⟨nofun,fun h => absurd h.1 (by omega)⟩
    case isFalse hihl =>
      rw [not_or, Nat.not_lt, Nat.not_lt] at hihl
      simp only [hihl, ne_eq, ite_not, true_and, decide_eq_true_eq, Bool.if_false_right,
        Bool.and_true, Bool.and_eq_true]

def ipSwapDst (m : Mem) : Mem :=
  let src := ipSrc m
  setIpDst (setIpSrc m (ipDst m)) src

def ipChecksum (m : Mem) : Mem :=
  let ihl := ihlBytes m
  let m := setIpChecksum m 0
  setIpChecksum m (checksum m 0 ihl)

/-- The header checksum that ip_checksum leaves sums to zero. -/
theorem ipChecksum_verifies {m : Mem} (hihl : 20 ≤ ihlBytes m) : checksum (ipChecksum m) 0 (ihlBytes m) = 0 := by
  have hmax := ihlBytes_le m
  have h := internetChecksum_verifies m 0 (k := 10) (by rfl) (by omega) (show ihlBytes m ≤ 131072 by omega)
  rw [ipChecksum, setIpChecksum, setIpChecksum, Mem.store16_store16]
  exact h

section Frames
variable (m : Mem) {j : Nat}

theorem ipSwapDst_other (hj : j < 12 ∨ 20 ≤ j) : ipSwapDst m j = m j := by
  rw [ipSwapDst, setIpDst, setIpSrc, Mem.store32_other _ _ (by omega), Mem.store32_other _ _ (by omega)]

theorem ipSwapDst_addresses : ipSrc (ipSwapDst m) = ipDst m ∧ ipDst (ipSwapDst m) = ipSrc m := by
  constructor
  · rw [ipSwapDst, ipSrc, setIpDst, setIpSrc, Mem.load32_store32_other _ _ (by omega), Mem.load32_store32]
  · exact Mem.load32_store32 ..

theorem ipChecksum_other (hj : j < 10 ∨ 12 ≤ j) : ipChecksum m j = m j := by
  rw [ipChecksum, setIpChecksum, setIpChecksum, Mem.store16_other _ _ (by omega), Mem.store16_other _ _ (by omega)]

end Frames

/-- A header signed by ip_checksum is accepted wherever it is as long as the one
it was built from, which was accepted. -/
theorem ipValidate_signed {m h b : Mem} {len n : Nat} (hv : ipValidate m len = true) (h0 : h 0 = m 0)
    (hb : ∀ j, j < ihlBytes m → b j = ipChecksum h j) (hn : ihlBytes m ≤ n) : ipValidate b n = true := by
  obtain ⟨hihl,-,hver,-⟩ := (ipValidate_iff m len).mp hv
  have hsum := ipChecksum_verifies (m := h) (by rwa [ihlBytes_congr h0])
  rw [ihlBytes_congr h0] at hsum
  have hfirst : b 0 = m 0 := by rw [hb 0 (by omega), ipChecksum_other _ (by omega), h0]
  rw [ipValidate_iff, ihlBytes_congr hfirst, versionIhl, hfirst]
  refine ⟨hihl,hn,hver,?_⟩
  rw [← hsum]
  refine internetChecksum_congr fun k hk => ?_
  rw [Nat.zero_add, hb k hk]

def ICMP_ECHO : U8 := 8
def ICMP_DST_UNREACHABLE : U8 := 3
def ICMP_PROTO_UNREACHABLE : U8 := 2

def icmpChecksum (m : Mem) (o len : Nat) : Mem :=
  let m := setIcmpChecksum m o 0
  setIcmpChecksum m o (checksum m o len)

theorem icmpChecksum_other (m : Mem) {o j : Nat} (len : Nat) (hj : j < o + 2 ∨ o + 4 ≤ j) :
    icmpChecksum m o len j = m j := by
  rw [icmpChecksum, setIcmpChecksum, setIcmpChecksum, Mem.store16_other _ _ (by omega),
    Mem.store16_other _ _ (by omega)]

def icmpValidate (m : Mem) (o len : Nat) : Bool :=
  if len < 8 then false
  else if checksum m o len ≠ 0 then false
  else true

theorem icmpValidate_iff (m : Mem) (o len : Nat) :
    icmpValidate m o len = true ↔ 8 ≤ len ∧ checksum m o len = 0 := by
  unfold icmpValidate
  split
  case isTrue hlen => exact ⟨nofun,fun h => absurd h.1 (by omega)⟩
  case isFalse hlen =>
    rw [Nat.not_lt] at hlen
    simp only [hlen, ne_eq, ite_not, true_and, decide_eq_true_eq, Bool.if_false_right, Bool.and_true]

/-- A message signed by icmp_checksum is accepted, also where later stores left it alone. -/
theorem icmpValidate_signed {m b : Mem} {o len : Nat} (hmin : 8 ≤ len) (hmax : len ≤ 131072)
    (hb : ∀ k, k < len → b (o+k) = icmpChecksum m o len (o+k)) : icmpValidate b o len = true := by
  have hsum := internetChecksum_verifies m o (k := 2) (n := len) (by rfl) (by omega) hmax
  rw [icmpValidate_iff]
  refine ⟨hmin,?_⟩
  rw [← hsum]
  refine internetChecksum_congr fun k hk => ?_
  rw [hb k hk, icmpChecksum, setIcmpChecksum, setIcmpChecksum, Mem.store16_store16]
  rfl

/-- The quoted header and datagram are saved before the request is overwritten. -/
def icmpDestUnreachable (m : Mem) (len offset : Nat) : Nat × Mem :=
  let dgramLen := if len - offset < 8 then len - offset else 8
  let icmpPlLen := offset + dgramLen
  let ipLen := offset + 8 + icmpPlLen
  if ipLen > MTU_SIZE then (0,m)
  else
    let icmpPl : Mem := fun _ => 0
    let icmpPl := icmpPl.copy 0 m 0 offset
    let icmpPl := icmpPl.copy offset m offset dgramLen
    let m := setIpLen m (htons (.ofNat 16 ipLen))
    let m := setIpId m 0
    let m := setIpProto m PROTO_ICMP
    let m := ipSwapDst m
    let m := ipChecksum m
    let m := setIcmpType m offset ICMP_DST_UNREACHABLE
    let m := setIcmpCode m offset ICMP_PROTO_UNREACHABLE
    let m := setIcmpIdentifier m offset 0
    let m := setIcmpSequenceNo m offset 0
    let m := m.copy (offset + 8) icmpPl 0 icmpPlLen
    let m := icmpChecksum m offset (8 + icmpPlLen)
    (ipLen,m)

def icmpEchoReply (m : Mem) (len offset : Nat) : Nat × Mem :=
  let m := setIcmpType m offset 0
  let m := setIcmpCode m offset 0
  let m := icmpChecksum m offset (len - offset)
  let m := ipSwapDst m
  let m := ipChecksum m
  (len,m)

def icmpDispatch (m : Mem) (len offset : Nat) : Nat × Mem :=
  if !icmpValidate m offset (len - offset) then (0,m)
  else if icmpType m offset = ICMP_ECHO then icmpEchoReply m len offset
  else (0,m)

end LazyTcp.Refactor
