import LazyTcp.General.Checksum
import LazyTcp.General.Wire

/-! The first stack: packet classification, the IPv4 helpers and ICMP. Lengths
are C ints; a negative one ends every loop at once, as the truncated natural
difference does. -/
namespace LazyTcp.Legacy
open General General.Wire

def IP_TCP_PROTO : U8 := 6
def IP_ICMP_PROTO : U8 := 1

def packetChecksum (m : Mem) (i packLen : Nat) : U16 := internetChecksum m i packLen

inductive PacketKind where
  | ipv4Icmp | ipv4Tcp | ipv6 | verUndf | protoUndf
  deriving DecidableEq, Repr

def packetDeserialize (m : Mem) : PacketKind :=
  let ipVersion := versionIhl m >>> 4
  let ihl := versionIhl m &&& 0xf
  if ipVersion = 4 then
    if ihl < 5 then .protoUndf
    else if ipProto m = IP_ICMP_PROTO then .ipv4Icmp
    else if ipProto m = IP_TCP_PROTO then .ipv4Tcp
    else .protoUndf
  else if ipVersion = 6 then .ipv6
  else .verUndf

def ipSwapDst (m : Mem) : Mem :=
  let src := ipSrc m
  setIpDst (setIpSrc m (ipDst m)) src

def ipUpdateChecksum (m : Mem) (packLen : Nat) : Mem :=
  let m := setIpChecksum m 0
  setIpChecksum m (packetChecksum m 0 packLen)

def icmpUpdateChecksum (m : Mem) (o packLen : Nat) : Mem :=
  let m := setIcmpChecksum m o 0
  setIcmpChecksum m o (packetChecksum m o packLen)

def icmpEchoReply (m : Mem) (o : Nat) : Mem :=
  let m := setIcmpType m o 0
  let m := setIcmpCode m o 0
  let ihl := ihlBytes m
  let icmpLen := (ntohs (ipLen m)).toNat - ihl
  let m := icmpUpdateChecksum m o icmpLen
  let m := ipSwapDst m
  ipUpdateChecksum m ihl

/-- Only echo requests are rewritten. -/
def icmpDispatch (m : Mem) (o : Nat) : Mem := if icmpType m o = 8 then icmpEchoReply m o else m

/-- A packet that is handed on has an IPv4 header of at least five words, and
its protocol field decides where it goes. -/
private theorem packetDeserialize_ipv4 {m : Mem} {k : PacketKind} (h : packetDeserialize m = k)
    (hk : k = .ipv4Icmp ∨ k = .ipv4Tcp) :
    20 ≤ ihlBytes m ∧ k = if ipProto m = IP_ICMP_PROTO then .ipv4Icmp
      else if ipProto m = IP_TCP_PROTO then .ipv4Tcp else .protoUndf := by
  simp only [packetDeserialize] at h
  split at h
  case isFalse =>
    split at h <;> subst h <;> rcases hk with e | e <;> cases e
  split at h
  case isTrue =>
    subst h
    rcases hk with e | e <;> cases e
  case isFalse hihl =>
    refine ⟨?_,h.symm⟩
    have hge : 5 ≤ (versionIhl m &&& 0xf).toNat := Nat.not_lt.mp hihl
    unfold ihlBytes
    omega

theorem packetDeserialize_tcp {m : Mem} (h : packetDeserialize m = .ipv4Tcp) :
    20 ≤ ihlBytes m ∧ ipProto m = IP_TCP_PROTO := by
  obtain ⟨hihl,hk⟩ := packetDeserialize_ipv4 h (Or.inr rfl)
  refine ⟨hihl,?_⟩
  by_contra hp
  rw [if_neg hp] at hk
  split at hk <;> cases hk

theorem packetDeserialize_icmp {m : Mem} (h : packetDeserialize m = .ipv4Icmp) :
    20 ≤ ihlBytes m ∧ ipProto m = IP_ICMP_PROTO := by
  obtain ⟨hihl,hk⟩ := packetDeserialize_ipv4 h (Or.inl rfl)
  refine ⟨hihl,?_⟩
  by_contra hp
  rw [if_neg hp] at hk
  split at hk <;> cases hk

end LazyTcp.Legacy
