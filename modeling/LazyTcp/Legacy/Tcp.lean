import LazyTcp.General.Keyed
import LazyTcp.General.SeqNum
import LazyTcp.Legacy.Http
import LazyTcp.Legacy.Network

/-! Connections of the first stack: the list of control blocks, the reply
builders and the dispatcher. The linked list is the list of its nodes from the
head; a block is identified by its connection id. The int fields of a block are
read as 32-bit words. -/
namespace LazyTcp.Legacy
open General General.Wire

inductive TCPState where
  | synReceived | established | closeWait | closing | lastAck | timeWait
  deriving DecidableEq, Repr

/-- The four-tuple as it stands in the headers, in network order. -/
structure ConnectionID where
  srcIp : U32
  srcPort : U16
  dstIp : U32
  dstPort : U16
  deriving DecidableEq, Repr

structure SendState where
  unac : U32
  next : U32
  window : U32
  iss : U32
  deriving DecidableEq, Repr

structure RecvState where
  next : U32
  window : U32
  irs : U32
  deriving DecidableEq, Repr

structure TCB where
  id : ConnectionID
  state : TCPState
  send : SendState
  recv : RecvState
  deriving DecidableEq, Repr

structure Server where
  conns : List TCB
  size : Int

/-- What the outside decides during one dispatch: the clock, the answer of
malloc and the served file. -/
structure Env where
  ticks : U32
  alloc : Bool
  file : HttpFile

def tcpInitServerInstance : Server := ⟨[],0⟩

def tcpInitTcb (alloc : Bool) (id : ConnectionID) : Option TCB :=
  if alloc then some ⟨id,.synReceived,⟨0,0,0,0⟩,⟨0,8192,0⟩⟩ else none

/-- Append unless the id is listed. Comparing ids reads the new block, so a null
block is fatal unless the list is empty, and is counted then. -/
def tcpInsertTcb (tcb : Option TCB) (s : Server) : Option Server :=
  match tcb with
  | none => if s.conns = [] then some ⟨[],s.size + 1⟩ else none
  | some tcb =>
    if s.conns.any (fun c => c.id = tcb.id) then some s else some ⟨s.conns ++ [tcb],s.size + 1⟩

def tcpGetState (s : Server) (id : ConnectionID) : Option TCB := Keyed.find TCB.id id s.conns

def tcpRemoveConnection (s : Server) (tcb : TCB) : Server :=
  ⟨s.conns.eraseP (fun c => c.id = tcb.id),s.size - 1⟩

/-- Assignments through the pointer of a listed block. -/
def Server.store (s : Server) (tcb : TCB) : Server :=
  { s with conns := Keyed.update TCB.id tcb.id (fun _ => tcb) s.conns }

def tcpSwitchPort (m : Mem) (o : Nat) : Mem :=
  let dst := tcpDstPort m o
  setTcpSrcPort (setTcpDstPort m o (tcpSrcPort m o)) o dst

/-- Checksum over the pseudo-header and packLen bytes of the segment. -/
def tcpUpdateChecksum (m : Mem) (o packLen : Nat) : Mem :=
  let m := setTcpChecksum m o 0
  let buffer := pseudoSegment (ipSrc m) (ipDst m) IP_TCP_PROTO packLen m o
  setTcpChecksum m o (packetChecksum buffer 0 (12 + packLen))

def tcpNullRst (m : Mem) (o : Nat) : Mem :=
  let syn := hasFlag (tcpFlags m o) SYN
  let ack := hasFlag (tcpFlags m o) ACK
  let fin := hasFlag (tcpFlags m o) FIN
  let tcpHeaderLen := tcpHlen m o
  let ipHeaderLen := ihlBytes m
  let totalLen := (ntohs (ipLen m)).setWidth 32
  let segLen : U32 := totalLen - .ofNat 32 ipHeaderLen - .ofNat 32 tcpHeaderLen
  let seqNum := if ack then ntohl (tcpAckNum m o) else 0
  let ackNum := if ack then 0 else ntohl (tcpSeqNum m o) + (segLen + .ofNat 32 (fin.toNat + syn.toNat))
  let flags := if ack then RST else RST ||| ACK
  let m := ipSwapDst m
  let m := tcpSwitchPort m o
  let m := setIpLen m (htons (.ofNat 16 (ipHeaderLen + tcpHeaderLen)))
  let m := setTcpSeqNum m o (htonl seqNum)
  let m := setTcpAckNum m o (htonl ackNum)
  let m := setTcpDataOffset m o (dataOffsetByte tcpHeaderLen)
  let m := setTcpFlags m o flags
  let m := setTcpWindow m o 0
  let m := setTcpUrgentPtr m o 0
  let m := ipUpdateChecksum m ipHeaderLen
  tcpUpdateChecksum m o tcpHeaderLen

/-- The numbers a SYN gives its block, from the segment and the clock. -/
def synNumbers (ticks : U32) (m : Mem) (o : Nat) (tcb : TCB) : TCB :=
  let irs := ntohl (tcpSeqNum m o)
  { tcb with
    recv := { tcb.recv with irs := irs, next := irs + 1 }
    send := ⟨ticks,ticks + 1,(ntohs (tcpWindow m o)).setWidth 32,ticks⟩ }

def tcpNullSynAck (ticks : U32) (m : Mem) (o : Nat) (tcb : TCB) : TCB × Mem :=
  let tcb := synNumbers ticks m o tcb
  let m := ipSwapDst m
  let m := tcpSwitchPort m o
  let tcpHeaderLen := tcpHlen m o
  let m := setTcpSeqNum m o (htonl tcb.send.iss)
  let m := setTcpAckNum m o (htonl tcb.recv.next)
  let m := setTcpDataOffset m o (dataOffsetByte tcpHeaderLen)
  let m := setTcpFlags m o (SYN ||| ACK)
  let m := setTcpWindow m o (htons (tcb.recv.window.setWidth 16))
  let m := setTcpUrgentPtr m o 0
  let ipHeaderLen := ihlBytes m
  let m := setIpLen m (htons (.ofNat 16 (ipHeaderLen + tcpHeaderLen)))
  let m := ipUpdateChecksum m ipHeaderLen
  (tcb,tcpUpdateChecksum m o tcpHeaderLen)

/-- The window test takes the sequence number as it stands in the header. The
result is true when the reset is not honoured. -/
def tcpGotRst (m : Mem) (o : Nat) (tcb : TCB) (s : Server) : Bool × Server :=
  let rstSeq := tcpSeqNum m o
  if seqGeq rstSeq tcb.recv.next && seqLt rstSeq (tcb.recv.next + tcb.recv.window) then
    (false,tcpRemoveConnection s tcb)
  else (true,s)

/-- An acknowledgement with an optional body, written over the request. -/
def tcpSendAck (m : Mem) (o : Nat) (tcb : TCB) (body : List U8) : TCB × Mem :=
  let m := ipSwapDst m
  let m := tcpSwitchPort m o
  let ipHl := ihlBytes m
  let tcpHl := tcpHlen m o
  let m := setTcpSeqNum m o (htonl tcb.send.next)
  let m := setTcpAckNum m o (htonl tcb.recv.next)
  let m := setTcpDataOffset m o (dataOffsetByte tcpHl)
  let m := setTcpWindow m o (htons (tcb.recv.window.setWidth 16))
  let m := setTcpUrgentPtr m o 0
  let m := setTcpFlags m o (if body = [] then ACK else PSH ||| ACK)
  let m := m.copy (o + tcpHl) (fun k => body.getD k 0) 0 body.length
  let m := setIpLen m (htons (.ofNat 16 (ipHl + tcpHl + body.length)))
  let tcb := { tcb with send := { tcb.send with next := tcb.send.next + .ofNat 32 body.length } }
  let m := ipUpdateChecksum m ipHl
  (tcb,tcpUpdateChecksum m o (tcpHl + body.length))

/-- Payload length by the two header lengths and the IP total length. -/
def dataLen (m : Mem) (o : Nat) : Nat := (ntohs (ipLen m)).toNat - ihlBytes m - tcpHlen m o

def payload (m : Mem) (o : Nat) : List U8 :=
  (List.range (dataLen m o)).map fun k => m (ihlBytes m + tcpHlen m o + k)

/-- Return codes of tcp_dispatch; 0 is ok. -/
inductive Code where
  | ok | fatal | silent
  deriving DecidableEq, Repr

/-- The code with the buffer and the server left behind, and the bytes handed
to http_handle_request if it was called. -/
structure Outcome where
  code : Code
  buf : Mem
  server : Server
  request : Option (List U8)

def tcpHandleData (file : HttpFile) (m : Mem) (o : Nat) (tcb : TCB) : Code × TCB × Mem × Option (List U8) :=
  if dataLen m o = 0 then (.silent,tcb,m,none)
  else
    let data := payload m o
    let httpResponse := httpHandleRequest file data
    let tcb := { tcb with recv := { tcb.recv with next := tcb.recv.next + .ofNat 32 (dataLen m o) } }
    let (tcb,m) := tcpSendAck m o tcb httpResponse
    (.ok,tcb,m,some data)

def segId (m : Mem) (o : Nat) : ConnectionID := ⟨ipSrc m,tcpSrcPort m o,ipDst m,tcpDstPort m o⟩

/-- The dispatcher; none is a write through a null block. -/
def tcpDispatch (env : Env) (s : Server) (m : Mem) (o : Nat) : Option Outcome :=
  let id := segId m o
  let flags := tcpFlags m o
  let syn := hasFlag flags SYN
  let ack := hasFlag flags ACK
  let fin := hasFlag flags FIN
  let rst := hasFlag flags RST
  match tcpGetState s id with
  | none =>
    if rst then some ⟨.silent,m,s,none⟩
    else if syn && !ack then
      let tcb := tcpInitTcb env.alloc id
      match tcpInsertTcb tcb s, tcb with
      | some s, some tcb =>
        let (tcb,m) := tcpNullSynAck env.ticks m o tcb
        some ⟨.ok,m,s.store tcb,none⟩
      -- The block is tested for null only after tcp_null_syn_ack has written to it.
      | _, _ => none
    else some ⟨.ok,tcpNullRst m o,s,none⟩
  | some con =>
    if rst then some ⟨.silent,m,(tcpGotRst m o con s).2,none⟩
    else match con.state with
      | .synReceived =>
        if syn && !ack then
          let (con,m) := tcpNullSynAck env.ticks m o con
          some ⟨.silent,m,s.store con,none⟩
        else if ack && !syn then
          let ackNum := ntohl (tcpAckNum m o)
          if ackNum = con.send.next then
            some ⟨.silent,m,s.store { con with state := .established, send := { con.send with unac := ackNum } },none⟩
          else some ⟨.silent,m,s,none⟩
        else some ⟨.silent,m,s,none⟩
      | .established =>
        if fin then
          let con := { con with recv := { con.recv with next := ntohl (tcpSeqNum m o) + 1 } }
          let (con,m) := tcpSendAck m o con []
          some ⟨.ok,m,s.store { con with state := .closeWait },none⟩
        else
          let (code,con,m,request) := tcpHandleData env.file m o con
          some ⟨code,m,s.store con,request⟩
      | _ => some ⟨.silent,m,s,none⟩

/-- A datagram handed to write: the buffer and the length it was given. -/
structure Datagram where
  buf : Mem
  len : Nat

/-- What parse_packet leaves: its return value, the server and what it wrote. -/
structure Parsed where
  ret : Nat
  server : Server
  written : Option Datagram

def parsePacket (env : Env) (s : Server) (m : Mem) : Option Parsed :=
  match packetDeserialize m with
  | .ipv4Icmp =>
    let m := icmpDispatch m (ihlBytes m)
    some ⟨0,s,some ⟨m,(ntohs (ipLen m)).toNat⟩⟩
  | .ipv4Tcp =>
    match tcpDispatch env s m (ihlBytes m) with
    | none => none
    | some out =>
      match out.code with
      | .fatal => some ⟨1,out.server,none⟩
      | .silent => some ⟨0,out.server,none⟩
      | .ok => some ⟨0,out.server,some ⟨out.buf,(ntohs (ipLen out.buf)).toNat⟩⟩
  | .protoUndf | .ipv6 | .verUndf => some ⟨0,s,none⟩

/-- The datagram of a segment without options, as a peer with a window of 8192
bytes sends it. -/
def craft (id : ConnectionID) (flags : U8) (seq ack : U32) (data : List U8) : Mem :=
  let m : Mem := fun _ => 0
  let m := m.store8 0 0x45
  let m := setIpLen m (htons (.ofNat 16 (40 + data.length)))
  let m := setIpProto m IP_TCP_PROTO
  let m := setIpSrc m id.srcIp
  let m := setIpDst m id.dstIp
  let m := setTcpSrcPort m 20 id.srcPort
  let m := setTcpDstPort m 20 id.dstPort
  let m := setTcpSeqNum m 20 (htonl seq)
  let m := setTcpAckNum m 20 (htonl ack)
  let m := setTcpDataOffset m 20 (dataOffsetByte 20)
  let m := setTcpFlags m 20 flags
  let m := setTcpWindow m 20 (htons 8192)
  let m := m.copy 40 (fun k => data.getD k 0) 0 data.length
  let m := ipUpdateChecksum m 20
  tcpUpdateChecksum m 20 (20 + data.length)

/-- Port 5000 of 10.0.0.1 to port 8080 of 10.0.0.2. -/
def clientId : ConnectionID := ⟨htonl 0x0A000001,htons 5000,htonl 0x0A000002,htons 8080⟩

end LazyTcp.Legacy
