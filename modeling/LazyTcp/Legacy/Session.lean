import LazyTcp.General.Run
import LazyTcp.Legacy.Bounds
import LazyTcp.Legacy.Client

/-! The client and the server over a link that loses nothing and keeps the
client's segments in order. Packets of other connections come between any two of
them. -/
namespace LazyTcp.Legacy
open General General.Wire

/-- The client with its segments under way, and the server, none once it has
died, with the answer under way. Kept beside them: the requests of the
connection that http_handle_request was given, each with the page as it then
was, and what sr1 gave to each send_data. -/
structure Session where
  client : TCPClient
  place : ClientPlace
  wire : List ClientSegment
  server : Option Server
  reply : Option Datagram
  handled : List (HttpFile × List U8)
  returned : List (List U8 × Option (List U8))

def Session.start (id : ConnectionID) : Session := ⟨.init id,.menu,[],some tcpInitServerInstance,none,[],[]⟩

/-- The program runs to its next stop. An sr1 takes no answer from before its call. -/
def Session.go (s : Session) (t : ClientTurn) : Session :=
  { s with client := t.client, place := t.place, wire := s.wire ++ t.sent, reply := none }

inductive Happening where
  | choice (c : Choice)
  | respond
  | arrive (env : Env) (buf : Mem)
  | other (env : Env) (buf : Mem)

/-- What is handed to http_handle_request when the packet is parsed. -/
def handedOver (env : Env) (v : Server) (buf : Mem) : Option (List U8) :=
  match packetDeserialize buf with
  | .ipv4Tcp => (tcpDispatch env v buf (ihlBytes buf)).bind Outcome.request
  | _ => none

/-- What a return of send_data adds to the record. -/
def outcome (place : ClientPlace) (r : Option Response) : List (List U8 × Option (List U8)) :=
  match place with
  | .sendData data => [(data,r.map Response.load)]
  | _ => []

/-- The client's segments are read oldest first, and sr1 returns the first answer. -/
def sessionStep (s : Session) : Happening → Session
  | .choice c => if s.place = .menu then s.go (s.client.menu c) else s
  | .respond =>
    let r := s.reply.map scapyResponse
    { s.go (s.client.resume s.place r) with returned := s.returned ++ outcome s.place r }
  | .arrive env buf =>
    match s.wire, s.server with
    | _ :: wire, some v =>
      match parsePacket env v buf with
      | none => { s with wire := wire, server := none }
      | some p =>
        { s with
          wire := wire
          server := some p.server
          reply := s.reply.or p.written
          handled := s.handled ++ ((handedOver env v buf).map fun data => (env.file,data)).toList }
    | _, _ => s
  | .other env buf => { s with server := s.server.bind fun v => (parsePacket env v buf).map Parsed.server }

/-- The link delivers what was sent and nobody else speaks for the client, every
response fits the buffer, and sr1 gives up only when no answer can come. -/
def Feasible (s : Session) : Happening → Prop
  | .choice _ => True
  | .respond => s.reply = none → s.wire = [] ∨ s.server = none
  | .arrive env buf => ∀ g ∈ s.wire.head?, HoldsSegment s.client.id g buf ∧
      40 + (httpHandleRequest env.file g.data).length ≤ Bounded.MTU_SIZE
  | .other _ buf => packetDeserialize buf = .ipv4Tcp → segId buf (ihlBytes buf) ≠ s.client.id

instance (s : Session) : (i : Happening) → Decidable (Feasible s i)
  | .choice _ => .isTrue trivial
  | .respond => inferInstanceAs (Decidable (s.reply = none → s.wire = [] ∨ s.server = none))
  | .arrive env buf => inferInstanceAs (Decidable (∀ g ∈ s.wire.head?, HoldsSegment s.client.id g buf ∧
      40 + (httpHandleRequest env.file g.data).length ≤ Bounded.MTU_SIZE))
  | .other _ buf =>
    inferInstanceAs (Decidable (packetDeserialize buf = .ipv4Tcp → segId buf (ihlBytes buf) ≠ s.client.id))

section Arrivals
variable {env : Env} {v : Server} {buf : Mem} {id : ConnectionID} {p : Parsed}

/-- A packet of somebody else leaves the block of the connection. -/
theorem parsePacket_other (hu : v.Unique)
    (hne : packetDeserialize buf = .ipv4Tcp → segId buf (ihlBytes buf) ≠ id) (hp : parsePacket env v buf = some p) :
    p.server.Unique ∧ tcpGetState p.server id = tcpGetState v id := by
  unfold parsePacket at hp
  cases hk : packetDeserialize buf with
  | ipv4Icmp | protoUndf | ipv6 | verUndf =>
    rw [hk] at hp
    cases hp
    exact ⟨hu,rfl⟩
  | ipv4Tcp =>
    rw [hk] at hp
    simp only at hp
    cases hd : tcpDispatch env v buf (ihlBytes buf) with
    | none =>
      rw [hd] at hp
      cases hp
    | some out =>
      obtain ⟨r,-,href⟩ := tcpDispatch_transition hu hd
      have hserver : p.server = out.server := by
        rw [hd] at hp
        simp only at hp
        split at hp <;> cases hp <;> rfl
      rw [hserver, href.find, if_neg (Ne.symm (hne hk))]
      exact ⟨href.unique,rfl⟩

/-- A segment of the client is one transition of its block, unless there is no
memory for a new one. -/
theorem parsePacket_segment {g : ClientSegment} (hu : v.Unique) (hb : HoldsSegment id g buf)
    (hp : parsePacket env v buf = some p) :
    ∃ r len, Transition env buf 20 (tcpGetState v id) r ∧ p.server.Unique ∧ tcpGetState p.server id = r.con ∧
      p.written = (if r.code = .ok then some ⟨r.buf,len⟩ else none) ∧ handedOver env v buf = r.request := by
  simp only [parsePacket, hb.tcp, hb.ihl] at hp
  cases hd : tcpDispatch env v buf 20 with
  | none =>
    rw [hd] at hp
    cases hp
  | some out =>
    obtain ⟨r,htr,href⟩ := tcpDispatch_transition hu hd
    rw [hb.id] at htr href
    have hown : tcpGetState out.server id = r.con := (href.find id).trans (if_pos rfl)
    have hreq : handedOver env v buf = r.request := by
      simp only [handedOver, hb.tcp, hb.ihl, hd, Option.bind_some]
      exact href.request
    refine ⟨r,(ntohs (ipLen r.buf)).toNat,htr,?_⟩
    rw [hd] at hp
    simp only at hp
    rw [← href.code, ← href.buf, ← hown]
    cases hc : out.code with
    | ok | silent | fatal =>
      rw [hc] at hp
      cases hp
      exact ⟨href.unique,rfl,rfl,hreq⟩

end Arrivals

section Flags
variable {id : ConnectionID} {g : ClientSegment} {buf : Mem} (h : HoldsSegment id g buf)
include h

private theorem HoldsSegment.rst : rstFlag buf 20 = hasFlag g.flags RST := by rw [rstFlag, h.flags]

private theorem HoldsSegment.syn : synFlag buf 20 = hasFlag g.flags SYN := by rw [synFlag, h.flags]

private theorem HoldsSegment.ackBit : ackFlag buf 20 = hasFlag g.flags ACK := by rw [ackFlag, h.flags]

private theorem HoldsSegment.fin : finFlag buf 20 = hasFlag g.flags FIN := by rw [finFlag, h.flags]

end Flags

section Served
variable {id : ConnectionID} {env : Env} {buf : Mem} {con : TCB} {r : Result} {seq ack : U32} {data : List U8}

theorem syn_opens (hb : HoldsSegment id ⟨SYN,seq,ack,data⟩ buf) (ht : Transition env buf 20 none r) :
    r = ⟨.ok,some (synNumbers env.ticks buf 20 (newTcb (segId buf 20))),
      (tcpNullSynAck env.ticks buf 20 (newTcb (segId buf 20))).2,none⟩ := by
  have hrst : rstFlag buf 20 = false := hb.rst.trans (show hasFlag SYN RST = false by decide)
  have hsyn : synFlag buf 20 = true := hb.syn.trans (show hasFlag SYN SYN = true by decide)
  have hack : ackFlag buf 20 = false := hb.ackBit.trans (show hasFlag SYN ACK = false by decide)
  cases ht with
  | opening => rfl
  | strayReset h => exact absurd h (by rw [hrst]; decide)
  | refuse _ h => exact absurd h (by rw [hsyn, hack]; decide)

theorem plain_ack_establishes (hb : HoldsSegment id ⟨ACK,seq,ack,data⟩ buf) (hst : con.state = .synReceived)
    (hnext : con.send.next = ack) (ht : Transition env buf 20 (some con) r) :
    r = ⟨.silent,some (acknowledged buf 20 con),buf,none⟩ := by
  have hrst : rstFlag buf 20 = false := hb.rst.trans (show hasFlag ACK RST = false by decide)
  have hsyn : synFlag buf 20 = false := hb.syn.trans (show hasFlag ACK SYN = false by decide)
  have hack : ackFlag buf 20 = true := hb.ackBit.trans (show hasFlag ACK ACK = true by decide)
  cases ht with
  | establish => rfl
  | reset _ h | ignoreReset _ h => exact absurd h (by rw [hrst]; decide)
  | repeated _ _ _ h => exact absurd h (by rw [hsyn]; decide)
  | badAck _ _ _ _ _ h => exact absurd (hb.ack.trans hnext.symm) h
  | unexpected _ _ _ h => exact absurd h (by rw [hsyn, hack]; decide)
  | finish _ _ h | empty _ _ h | payload _ _ h => exact absurd (hst.symm.trans h) (by decide)
  | closed _ _ h => exact absurd hst h

/-- An established block passes a segment without RST and FIN by its length. -/
theorem established_takes {flags : U8} (hb : HoldsSegment id ⟨flags,seq,ack,data⟩ buf)
    (hst : con.state = .established) (hrst : hasFlag flags RST = false) (hfin : hasFlag flags FIN = false)
    (ht : Transition env buf 20 (some con) r) :
    r = if data = [] then ⟨.silent,some con,buf,none⟩
      else ⟨.ok,some (tcpSendAck buf 20 (advanced data.length con) (httpHandleRequest env.file data)).1,
        (tcpSendAck buf 20 (advanced data.length con) (httpHandleRequest env.file data)).2,some data⟩ := by
  have hlen : dataLen buf 20 = data.length := hb.dataLen_eq
  have hdata : payload buf 20 = data := hb.payload_eq
  have hrst : rstFlag buf 20 = false := hb.rst.trans hrst
  have hfin : finFlag buf 20 = false := hb.fin.trans hfin
  cases ht with
  | empty _ _ _ _ h =>
    rw [hlen] at h
    rw [if_pos (List.eq_nil_of_length_eq_zero h)]
  | payload _ _ _ _ h =>
    rw [hlen] at h
    rw [if_neg (fun e : data = [] => h (by rw [e]; rfl)), hlen, hdata]
  | reset _ h | ignoreReset _ h => exact absurd h (by rw [hrst]; decide)
  | finish _ _ _ h => exact absurd h (by rw [hfin]; decide)
  | repeated _ _ h | establish _ _ h | badAck _ _ h | unexpected _ _ h =>
    exact absurd (hst.symm.trans h) (by decide)
  | closed _ _ _ h => exact absurd hst h

theorem fin_closes (hb : HoldsSegment id ⟨FIN ||| ACK,seq,ack,data⟩ buf) (hst : con.state = .established)
    (ht : Transition env buf 20 (some con) r) : ∃ con' b, con'.state = .closeWait ∧ r = ⟨.ok,some con',b,none⟩ := by
  have hrst : rstFlag buf 20 = false := hb.rst.trans (show hasFlag (FIN ||| ACK) RST = false by decide)
  have hfin : finFlag buf 20 = true := hb.fin.trans (show hasFlag (FIN ||| ACK) FIN = true by decide)
  cases ht with
  | finish => exact ⟨_,_,rfl,rfl⟩
  | reset _ h | ignoreReset _ h => exact absurd h (by rw [hrst]; decide)
  | empty _ _ _ h | payload _ _ _ h => exact absurd h (by rw [hfin]; decide)
  | repeated _ _ h | establish _ _ h | badAck _ _ h | unexpected _ _ h =>
    exact absurd (hst.symm.trans h) (by decide)
  | closed _ _ _ h => exact absurd hst h

theorem closed_ignores {g : ClientSegment} (hb : HoldsSegment id g buf) (hst : con.state = .closeWait)
    (hrst : hasFlag g.flags RST = false) (ht : Transition env buf 20 (some con) r) :
    r = ⟨.silent,some con,buf,none⟩ := by
  have hrst : rstFlag buf 20 = false := hb.rst.trans hrst
  cases ht with
  | closed => rfl
  | reset _ h | ignoreReset _ h => exact absurd h (by rw [hrst]; decide)
  | repeated _ _ h | establish _ _ h | badAck _ _ h | unexpected _ _ h | finish _ _ h | empty _ _ h | payload _ _ h =>
    exact absurd (hst.symm.trans h) (by decide)

end Served

end LazyTcp.Legacy
