import LazyTcp.Legacy.Replies

/-! The interactive client of the packet cooking directory. Each of its methods
is cut at its sr1: what it does up to the call, and what it does with the answer.
scapy raises when a number does not fit its header field; that ends the program. -/
namespace LazyTcp.Legacy
open General General.Wire

inductive ClientState where
  | closed | established
  deriving DecidableEq, Repr

/-- The sequence numbers are Python integers. -/
structure TCPClient where
  id : ConnectionID
  mySeq : Nat
  theirSeq : Nat
  state : ClientState
  deriving DecidableEq, Repr

def TCPClient.init (id : ConnectionID) : TCPClient := ⟨id,1000,0,.closed⟩

/-- What scapy sends of IP / TCP / data, as far as the client sets it. -/
structure ClientSegment where
  flags : U8
  seq : U32
  ack : U32
  data : List U8
  deriving DecidableEq, Repr

def scapyTcp (flags : U8) (seq ack : Nat) (data : List U8) : Option ClientSegment :=
  if seq < 2^32 ∧ ack < 2^32 then some ⟨flags,.ofNat 32 seq,.ofNat 32 ack,data⟩ else none

/-- The fields the client reads of an answer. Scapy counts nine flag bits, the
first of them the last bit of the data offset byte. -/
structure Response where
  flags : Nat
  seq : U32
  ack : U32
  load : List U8
  deriving DecidableEq, Repr

def scapyResponse (d : Datagram) : Response :=
  let o := ihlBytes d.buf
  ⟨(tcpDataOffset d.buf o).toNat % 2 * 256 + (tcpFlags d.buf o).toNat,ntohl (tcpSeqNum d.buf o),
    ntohl (tcpAckNum d.buf o),payload d.buf o⟩

/-- Where the program stands: at its menu, in the sr1 of a method, or ended.
Choice 4 closes an open connection before it leaves. -/
inductive ClientPlace where
  | menu
  | handshake
  | sendData (data : List U8)
  | close (leaving : Bool)
  | ended
  deriving DecidableEq, Repr

inductive Choice where
  | handshake
  | sendData (data : List U8)
  | close
  | exit
  | invalid

/-- The client up to its next sr1 or input, and what it sent on the way. -/
structure ClientTurn where
  client : TCPClient
  place : ClientPlace
  sent : List ClientSegment

namespace TCPClient

/-- Send a segment and go to a place, unless scapy raises. -/
def transmit (self : TCPClient) (place : ClientPlace) : Option ClientSegment → ClientTurn
  | some segment => ⟨self,place,[segment]⟩
  | none => ⟨self,.ended,[]⟩

def after (leaving : Bool) : ClientPlace := if leaving then .ended else .menu

def handshake (self : TCPClient) : ClientTurn := self.transmit .handshake (scapyTcp SYN self.mySeq 0 [])

def handshakeResponse (self : TCPClient) (r : Response) : ClientTurn :=
  if r.flags ≠ 0x12 then ⟨self,.menu,[]⟩
  else
    let self := { self with theirSeq := r.seq.toNat + 1, mySeq := r.ack.toNat }
    match scapyTcp ACK self.mySeq self.theirSeq [] with
    | some ack => ⟨{ self with state := .established },.menu,[ack]⟩
    | none => ⟨self,.ended,[]⟩

def sendData (self : TCPClient) (data : List U8) : ClientTurn :=
  if self.state ≠ .established then ⟨self,.menu,[]⟩
  else self.transmit (.sendData data) (scapyTcp (PSH ||| ACK) self.mySeq self.theirSeq data)

def sendDataResponse (self : TCPClient) (data : List U8) (r : Response) : ClientTurn :=
  ⟨{ self with mySeq := self.mySeq + data.length, theirSeq := self.theirSeq + r.load.length },.menu,[]⟩

def close (self : TCPClient) (leaving : Bool) : ClientTurn :=
  if self.state ≠ .established then ⟨self,after leaving,[]⟩
  else self.transmit (.close leaving) (scapyTcp (FIN ||| ACK) self.mySeq self.theirSeq [])

def closeResponse (self : TCPClient) (leaving : Bool) (r : Response) : ClientTurn :=
  let self := { self with theirSeq := r.seq.toNat + 1 }
  match scapyTcp ACK (self.mySeq + 1) self.theirSeq [] with
  | some ack => ⟨{ self with state := .closed },after leaving,[ack]⟩
  | none => ⟨self,.ended,[]⟩

/-- One round of the menu, up to the sr1 of the method it calls. -/
def menu (self : TCPClient) : Choice → ClientTurn
  | .handshake => self.handshake
  | .sendData data => self.sendData data
  | .close => self.close false
  | .exit => self.close true
  | .invalid => ⟨self,.menu,[]⟩

/-- The rest of the method after sr1, which gives none when it times out. -/
def resume (self : TCPClient) : ClientPlace → Option Response → ClientTurn
  | .handshake, some r => self.handshakeResponse r
  | .sendData data, some r => self.sendDataResponse data r
  | .close leaving, some r => self.closeResponse leaving r
  | .handshake, none => ⟨self,.menu,[]⟩
  | .sendData _, none => ⟨self,.menu,[]⟩
  | .close leaving, none => ⟨self,after leaving,[]⟩
  | .menu, _ => ⟨self,.menu,[]⟩
  | .ended, _ => ⟨self,.ended,[]⟩

end TCPClient

/-- A buffer that holds a segment of the client: no options, and the fields the
server reads. The rest of the buffer is whatever it was. -/
structure HoldsSegment (id : ConnectionID) (g : ClientSegment) (m : Mem) : Prop where
  version : versionIhl m = 0x45
  proto : ipProto m = IP_TCP_PROTO
  id : segId m 20 = id
  hlen : tcpHlen m 20 = 20
  flags : tcpFlags m 20 = g.flags
  seq : ntohl (tcpSeqNum m 20) = g.seq
  ack : ntohl (tcpAckNum m 20) = g.ack
  len : (ntohs (ipLen m)).toNat = 40 + g.data.length
  data : ∀ k, k < g.data.length → m (40 + k) = g.data.getD k 0

instance (id : ConnectionID) (g : ClientSegment) (m : Mem) : Decidable (HoldsSegment id g m) :=
  decidable_of_iff (versionIhl m = 0x45 ∧ ipProto m = IP_TCP_PROTO ∧ segId m 20 = id ∧ tcpHlen m 20 = 20 ∧
      tcpFlags m 20 = g.flags ∧ ntohl (tcpSeqNum m 20) = g.seq ∧ ntohl (tcpAckNum m 20) = g.ack ∧
      (ntohs (ipLen m)).toNat = 40 + g.data.length ∧ ∀ k, k < g.data.length → m (40 + k) = g.data.getD k 0)
    ⟨fun ⟨a,b,c,d,e,f,g,h,i⟩ => ⟨a,b,c,d,e,f,g,h,i⟩,fun ⟨a,b,c,d,e,f,g,h,i⟩ => ⟨a,b,c,d,e,f,g,h,i⟩⟩

namespace HoldsSegment
variable {id : ConnectionID} {g : ClientSegment} {m : Mem}

theorem ihl (h : HoldsSegment id g m) : ihlBytes m = 20 := by
  rw [ihlBytes, h.version]
  decide

theorem tcp (h : HoldsSegment id g m) : packetDeserialize m = .ipv4Tcp := by
  have hicmp : IP_TCP_PROTO ≠ IP_ICMP_PROTO := by decide
  rw [packetDeserialize, h.version, if_pos (by decide), if_neg (by decide), h.proto, if_neg hicmp, if_pos rfl]

theorem dataLen_eq (h : HoldsSegment id g m) : dataLen m 20 = g.data.length := by
  rw [dataLen, h.len, h.ihl, h.hlen]
  omega

theorem payload_eq (h : HoldsSegment id g m) : payload m 20 = g.data := by
  rw [payload, h.dataLen_eq, h.ihl, h.hlen]
  refine List.ext_getElem (by simp) fun k hk hk' => ?_
  rw [List.getElem_map, List.getElem_range, h.data k hk', List.getD_eq_getElem?_getD, List.getElem?_eq_getElem hk',
    Option.getD_some]

end HoldsSegment

section Answers
variable {m : Mem} (tcb : TCB) (len : Nat)

/-- The SYN-ACK as the client reads it. -/
theorem tcpNullSynAck_response (ticks : U32) (hihl : ihlBytes m = 20) (hhlen : tcpHlen m 20 = 20) :
    scapyResponse ⟨(tcpNullSynAck ticks m 20 tcb).2,len⟩ = ⟨0x12,ticks,ntohl (tcpSeqNum m 20) + 1,[]⟩ := by
  have hihl' : ihlBytes (tcpNullSynAck ticks m 20 tcb).2 = 20 :=
    (ihlBytes_congr (tcpNullSynAck_head ticks m tcb le_rfl (Or.inl rfl))).trans hihl
  have hoff := tcpNullSynAck_offset ticks m tcb (le_refl 20)
  have hhlen' : tcpHlen (tcpNullSynAck ticks m 20 tcb).2 20 = tcpHlen m 20 := by
    apply tcpHlen_written
    exact hoff
  have hload : payload (tcpNullSynAck ticks m 20 tcb).2 20 = [] := by
    rw [payload, dataLen, tcpNullSynAck_len ticks m tcb le_rfl, hihl', hhlen', hihl, hhlen]
    rfl
  have hsyn : (SYN ||| ACK : U8).toNat = 0x12 := by decide
  have hbyte : (dataOffsetByte 20).toNat % 2 = 0 := by decide
  simp only [scapyResponse, hihl']
  rw [hoff, hhlen, tcpNullSynAck_flags ticks m tcb le_rfl, tcpNullSynAck_seq ticks m tcb le_rfl,
    tcpNullSynAck_ack ticks m tcb le_rfl, hload, hsyn, hbyte]

/-- The number and the body of an answer as the client reads them. -/
theorem tcpSendAck_response (body : List U8) (hihl : ihlBytes m = 20) (hhlen : tcpHlen m 20 = 20)
    (hfit : 40 + body.length < 65536) :
    (scapyResponse ⟨(tcpSendAck m 20 tcb body).2,len⟩).seq = tcb.send.next ∧
      (scapyResponse ⟨(tcpSendAck m 20 tcb body).2,len⟩).load = body := by
  have hh : body.length = 0 ∨ 20 ≤ tcpHlen m 20 := Or.inr hhlen.ge
  have hihl' : ihlBytes (tcpSendAck m 20 tcb body).2 = 20 :=
    (ihlBytes_congr (tcpSendAck_head m tcb body le_rfl (Or.inl rfl))).trans hihl
  simp only [scapyResponse, hihl']
  exact ⟨tcpSendAck_seq m tcb body le_rfl hh,tcpSendAck_payload m tcb body le_rfl hh hihl (by omega)⟩

end Answers

end LazyTcp.Legacy
