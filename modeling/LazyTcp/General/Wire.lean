import LazyTcp.General.Checksum

/-! Packed header layouts of IPv4, ICMP and TCP over a byte memory. A field is
read as it is stored; conversion from network order is the reader's. An IPv4
header starts at 0, the transport header at offset o. -/
namespace LazyTcp.General.Wire

def versionIhl (m : Mem) : U8 := m 0
def ipLen (m : Mem) : U16 := m.load16 2
def ipProto (m : Mem) : U8 := m 9
def ipSrc (m : Mem) : U32 := m.load32 12
def ipDst (m : Mem) : U32 := m.load32 16

def setIpLen (m : Mem) (v : U16) : Mem := m.store16 2 v
def setIpId (m : Mem) (v : U16) : Mem := m.store16 4 v
def setIpProto (m : Mem) (b : U8) : Mem := m.store8 9 b
def setIpChecksum (m : Mem) (v : U16) : Mem := m.store16 10 v
def setIpSrc (m : Mem) (v : U32) : Mem := m.store32 12 v
def setIpDst (m : Mem) (v : U32) : Mem := m.store32 16 v

/-- Header length in bytes from the low nibble of the first byte. -/
def ihlBytes (m : Mem) : Nat := (versionIhl m &&& 0xf).toNat * 4

def icmpType (m : Mem) (o : Nat) : U8 := m o
def setIcmpType (m : Mem) (o : Nat) (b : U8) : Mem := m.store8 o b
def setIcmpCode (m : Mem) (o : Nat) (b : U8) : Mem := m.store8 (o+1) b
def setIcmpChecksum (m : Mem) (o : Nat) (v : U16) : Mem := m.store16 (o+2) v
def setIcmpIdentifier (m : Mem) (o : Nat) (v : U16) : Mem := m.store16 (o+4) v
def setIcmpSequenceNo (m : Mem) (o : Nat) (v : U16) : Mem := m.store16 (o+6) v

def tcpSrcPort (m : Mem) (o : Nat) : U16 := m.load16 o
def tcpDstPort (m : Mem) (o : Nat) : U16 := m.load16 (o+2)
def tcpSeqNum (m : Mem) (o : Nat) : U32 := m.load32 (o+4)
def tcpAckNum (m : Mem) (o : Nat) : U32 := m.load32 (o+8)
def tcpDataOffset (m : Mem) (o : Nat) : U8 := m (o+12)
def tcpFlags (m : Mem) (o : Nat) : U8 := m (o+13)
def tcpWindow (m : Mem) (o : Nat) : U16 := m.load16 (o+14)
def tcpChecksumField (m : Mem) (o : Nat) : U16 := m.load16 (o+16)

def setTcpSrcPort (m : Mem) (o : Nat) (v : U16) : Mem := m.store16 o v
def setTcpDstPort (m : Mem) (o : Nat) (v : U16) : Mem := m.store16 (o+2) v
def setTcpSeqNum (m : Mem) (o : Nat) (v : U32) : Mem := m.store32 (o+4) v
def setTcpAckNum (m : Mem) (o : Nat) (v : U32) : Mem := m.store32 (o+8) v
def setTcpDataOffset (m : Mem) (o : Nat) (b : U8) : Mem := m.store8 (o+12) b
def setTcpFlags (m : Mem) (o : Nat) (b : U8) : Mem := m.store8 (o+13) b
def setTcpWindow (m : Mem) (o : Nat) (v : U16) : Mem := m.store16 (o+14) v
def setTcpChecksum (m : Mem) (o : Nat) (v : U16) : Mem := m.store16 (o+16) v
def setTcpUrgentPtr (m : Mem) (o : Nat) (v : U16) : Mem := m.store16 (o+18) v

/-- Header length in bytes from the high nibble of the data offset byte. -/
def tcpHlen (m : Mem) (o : Nat) : Nat := (tcpDataOffset m o >>> 4).toNat * 4

theorem ihlBytes_congr {m m' : Mem} (h : m 0 = m' 0) : ihlBytes m = ihlBytes m' := by
  rw [ihlBytes, ihlBytes, versionIhl, versionIhl, h]

theorem ihlBytes_le (m : Mem) : ihlBytes m ≤ 60 := by
  have hand : (versionIhl m &&& 0xf).toNat ≤ 15 := by
    rw [BitVec.toNat_and]
    exact Nat.and_le_right
  unfold ihlBytes
  omega

theorem tcpHlen_congr {m m' : Mem} {o : Nat} (h : m (o+12) = m' (o+12)) : tcpHlen m o = tcpHlen m' o := by
  rw [tcpHlen, tcpHlen, tcpDataOffset, tcpDataOffset, h]

theorem tcpHlen_le (m : Mem) (o : Nat) : tcpHlen m o ≤ 60 := by
  have hlt := (tcpDataOffset m o).isLt
  rw [tcpHlen, BitVec.toNat_ushiftRight, Nat.shiftRight_eq_div_pow]
  omega

/-- The data offset byte written back from a header length in bytes. -/
def dataOffsetByte (hlen : Nat) : U8 := .ofNat 8 ((hlen / 4) <<< 4)

/-- A header length read from a data offset byte survives being written back. -/
theorem tcpHlen_written {m m' : Mem} {o : Nat} (h : m' (o+12) = dataOffsetByte (tcpHlen m o)) :
    tcpHlen m' o = tcpHlen m o := by
  have hlt := (tcpDataOffset m o >>> 4).isLt
  have hle := tcpHlen_le m o
  have hmul : tcpHlen m o = (tcpDataOffset m o >>> 4).toNat * 4 := rfl
  rw [tcpHlen, tcpDataOffset, h, dataOffsetByte, BitVec.toNat_ushiftRight, BitVec.toNat_ofNat,
    Nat.shiftLeft_eq, Nat.shiftRight_eq_div_pow]
  omega

def FIN : U8 := 0x01
def SYN : U8 := 0x02
def RST : U8 := 0x04
def PSH : U8 := 0x08
def ACK : U8 := 0x10

/-- A flag test as C converts it to bool. -/
def hasFlag (flags bit : U8) : Bool := flags &&& bit ≠ 0

/-- The 12-byte pseudo-header followed by a copy of the segment. -/
def pseudoSegment (src dst : U32) (proto : U8) (segLen : Nat) (m : Mem) (o : Nat) : Mem :=
  let p : Mem := fun _ => 0
  let p := p.store32 0 src
  let p := p.store32 4 dst
  let p := p.store8 8 0
  let p := p.store8 9 proto
  let p := p.store16 10 (htons (.ofNat 16 segLen))
  p.copy 12 m o segLen

/-- What the pseudo-header adds to the checksum of a segment. -/
def pseudoSum (src dst : U32) (proto : U8) (segLen : Nat) : Nat :=
  src.toNat % 65536 + src.toNat / 65536 + (dst.toNat % 65536 + dst.toNat / 65536) + 256 * proto.toNat +
    (htons (.ofNat 16 segLen)).toNat

section Pseudo
variable (src dst : U32) (proto : U8) (segLen : Nat) (m : Mem) (o : Nat)

private theorem pseudoSegment_head : byteSum (pseudoSegment src dst proto segLen m o) 0 12 =
    pseudoSum src dst proto segLen := by
  have hs := src.isLt
  have hd := dst.isLt
  have hproto : ((pseudoSegment src dst proto segLen m o).load16 8).toNat = 256 * proto.toNat := by
    rw [load16_toNat, pseudoSegment]
    simp (disch := omega) only [Mem.copy_other, Mem.store16_other, Mem.store8_other, Mem.store8_same]
    exact Nat.zero_add _
  have hlen : (pseudoSegment src dst proto segLen m o).load16 10 = htons (.ofNat 16 segLen) := by
    rw [pseudoSegment, Mem.load16_copy_other _ _ _ _ (by omega), Mem.load16_store16]
  have haddr : ∀ j, j + 2 ≤ 8 → (pseudoSegment src dst proto segLen m o).load16 j =
      ((Mem.store32 (fun _ => 0) 0 src).store32 4 dst).load16 j := by
    intro j hj
    simp (disch := omega) only [pseudoSegment, Mem.load16_copy_other, Mem.load16_store16_other,
      Mem.load16_store8_other]
  simp only [byteSum_words, Nat.zero_add, Nat.reduceAdd]
  rw [haddr 0 (by omega), haddr 2 (by omega), haddr 4 (by omega), haddr 6 (by omega), hproto, hlen]
  simp (disch := omega) only [Mem.store32, Nat.zero_add, Nat.reduceAdd, Mem.load16_store16_other, Mem.load16_store16]
  rw [pseudoSum, show byteSum (pseudoSegment src dst proto segLen m o) 12 0 = 0 from rfl]
  simp only [BitVec.toNat_ofNat]
  omega

/-- The sum of a segment behind its pseudo-header. -/
theorem byteSum_pseudoSegment : byteSum (pseudoSegment src dst proto segLen m o) 0 (12 + segLen) =
    pseudoSum src dst proto segLen + byteSum m o segLen := by
  rw [byteSum_append _ _ (by rfl), pseudoSegment_head]
  congr 1
  apply byteSum_congr
  intro k hk
  rw [pseudoSegment, Mem.copy_inside _ _ _ _ (by omega) (by omega)]
  congr 1
  omega

/-- A segment that holds the checksum of itself behind its pseudo-header sums to
zero behind that pseudo-header. -/
theorem pseudoSegment_verifies {n : Nat} (hmin : 18 ≤ n) (hmax : n ≤ 65535) {c : U16}
    (hc : c = internetChecksum (pseudoSegment src dst proto n (setTcpChecksum m o 0) o) 0 (12 + n)) :
    internetChecksum (pseudoSegment src dst proto n (setTcpChecksum m o c) o) 0 (12 + n) = 0 := by
  have hsum := byteSum_store16 (setTcpChecksum m o 0) o c (k := 16) (by rfl) (n := n) (by omega)
  rw [setTcpChecksum, Mem.store16_store16, Mem.load16_store16, show (0 : U16).toNat = 0 from rfl, Nat.add_zero]
    at hsum
  have hvalue := congrArg BitVec.toNat hc
  rw [internetChecksum_toNat _ _ (by omega), byteSum_pseudoSegment, setTcpChecksum] at hvalue
  rw [internetChecksum_eq_zero _ _ (by omega), byteSum_pseudoSegment, setTcpChecksum, hsum, ← Nat.add_assoc, hvalue]
  exact add_complement _

end Pseudo
end LazyTcp.General.Wire
