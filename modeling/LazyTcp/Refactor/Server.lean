import LazyTcp.General.Run
import LazyTcp.Refactor.Agree
import LazyTcp.Refactor.Log

/-! The loop of server_run over its one buffer, the log it writes into the FIFO
and the viewer at the other end. The viewer may read, or be interrupted, between
any two actions of the server; the signal and the end of the process may come at
any time. An event is smaller than PIPE_BUF, so a write of one is atomic. -/
namespace LazyTcp.Refactor
open General General.Wire

/-- What the device and the environment do in one turn of the loop; the packet
is empty when tun_read fails. -/
structure Turn where
  packet : List U8
  fits : packet.length ≤ MTU_SIZE
  env : Env

/-- The next action of the server: the loop test, tun_read, net_demux, tun_write.
It faults when log_event overruns its event. -/
inductive Place where
  | head
  | reading
  | demuxing (t : Turn)
  | writing (nwrite : Nat)
  | done
  | faulted

/-- The state of the process, with the turns whose packet was read and the
packets that passed the device so far, those read marked true. -/
structure Server where
  tu : Mem
  table : HashTable
  shutdown : Bool
  logging : Bool
  place : Place
  turns : List Turn
  traffic : List (Bool × List U8)

structure Session where
  server : Server
  pipe : List U8
  viewer : Viewer
  exited : Bool

namespace Session

def start (verbose : Bool) : Session := ⟨⟨fun _ => 0,.empty,false,verbose,.head,[],[]⟩,[],.start,false⟩

/-- LOG_EVENT. The write fails when nobody reads the FIFO any more, or for a
reason of its own, and the log stays off from then on. -/
def log (s : Session) (tu : Option Mem) (len : Nat) (dir : U8) (now : BitVec 64) (written : Bool) : Session :=
  if s.server.logging then
    match logEvent tu (.ofNat 16 len) dir now with
    | none => { s with server := { s.server with place := .faulted } }
    | some e =>
      if written && s.viewer.closed.isNone then { s with pipe := s.pipe ++ e.toBytes }
      else { s with server := { s.server with logging := false } }
  else s

end Session

def tunRead (tu : Mem) (packet : List U8) : Mem := fun i => packet.getD i (tu i)

theorem tunRead_bytes (tu : Mem) (packet : List U8) : (tunRead tu packet).bytes 0 packet.length = packet := by
  refine List.ext_getElem (Mem.length_bytes _ 0 _) fun k hk hk' => ?_
  simp [Mem.bytes, tunRead, hk']

/-- One action of server_run. -/
def serverRun (s : Session) (t : Turn) (now : BitVec 64) (written : Bool) : Session :=
  let v := s.server
  match v.place with
  | .head =>
    if v.shutdown then Session.log { s with server := { v with place := .done } } none 0 LOG_SHUTDOWN now written
    else { s with server := { v with place := .reading } }
  | .reading =>
    let nread := t.packet.length
    if nread = 0 then { s with server := { v with place := .head } }
    else
      let tu := tunRead v.tu t.packet
      let v := { v with tu := tu, place := .demuxing t, turns := v.turns ++ [t], traffic := v.traffic ++ [(true,t.packet)] }
      Session.log { s with server := v } (some tu) nread LOG_READ now written
  | .demuxing t =>
    let r := netDemux t.env v.table v.tu t.packet.length
    let v := { v with tu := r.buf, table := r.table }
    if r.ret = 0 then { s with server := { v with place := .head } }
    else Session.log { s with server := { v with place := .writing r.ret } } (some r.buf) r.ret LOG_WRITE now written
  | .writing nwrite =>
    { s with server := { v with place := .head, traffic := v.traffic ++ [(false,v.tu.bytes 0 nwrite)] } }
  | .done | .faulted => s

inductive Happening where
  | server (t : Turn) (now : BitVec 64) (written : Bool)
  | sigusr1
  | exit
  | view
  | interrupt

/-- os.read blocks on an empty FIFO that the server still holds open. -/
def sessionStep (s : Session) : Happening → Session
  | .server t now written => if s.exited then s else serverRun s t now written
  | .sigusr1 => { s with server := { s.server with shutdown := true } }
  | .exit => { s with exited := true }
  | .view =>
    if s.viewer.closed.isSome ∨ (s.pipe.isEmpty ∧ !s.exited) then s
    else { s with viewer := viewerRead s.viewer (s.pipe.take EVENT_SIZE), pipe := s.pipe.drop EVENT_SIZE }
  | .interrupt =>
    if s.viewer.closed.isSome then s
    else { s with viewer := { s.viewer with closed := some .interrupted } }

/-- The packet on its way to tun_write. -/
def Server.outgoing (v : Server) : List (Bool × List U8) :=
  match v.place with
  | .writing nwrite => [(false,v.tu.bytes 0 nwrite)]
  | _ => []

/-- What a viewer that keeps up shows: each packet, then the shutdown. -/
def Server.expected (v : Server) : List (Option (Bool × List U8)) :=
  (v.traffic ++ v.outgoing).map some ++ match v.place with | .done => [none] | _ => []

def Viewer.seen (v : Viewer) : List (Bool × List U8) := v.shown.map fun d => (d.recv,d.packet)

/-- The same for what it has shown. -/
def Viewer.viewed (v : Viewer) : List (Option (Bool × List U8)) :=
  v.seen.map some ++ if v.closed = some .detached then [none] else []

/-- The packet of an event, none for a shutdown. -/
def Event.entry (e : Event) : Option (Bool × List U8) := (displayEvent 0 e.toBytes).map fun d => (d.recv,d.packet)

section Bounds
variable {m : Mem} {len : Nat}

private theorem tcpSwitch_ret (stale : Stale) {o : Nat} (ho : 20 ≤ o) (edge : Edge) (r : Bool × TCB × HashTable) :
    (tcpSwitch stale m len o edge r).ret ≤ ihlBytes m + tcpHlen m o := by
  obtain ⟨ok,tcb,ht⟩ := r
  cases ok with
  | false => exact Nat.zero_le _
  | true =>
    cases edge with
    | syn => exact le_of_eq (tcpSynAck_len tcb m len ho)
    | sendRst => exact le_rfl
    | data | ack | fin | rst | drop => exact Nat.zero_le _

private theorem tcpDispatch_ret (env : Env) (ht : HashTable) {o : Nat} (ho : 20 ≤ o) :
    (tcpDispatch env ht m len o).ret ≤ ihlBytes m + tcpHlen m o := by
  rw [tcpDispatch_eq]
  split
  case isFalse => exact Nat.zero_le _
  case isTrue =>
    cases hashFind ht (segId m o) with
    | some con => exact tcpSwitch_ret env.stale ho _ _
    | none =>
      rw [Option.elim_none]
      split
      case isFalse => exact Nat.zero_le _
      case isTrue =>
        rcases hashInsert env.allocs ht (tcbInit (segId m o)) with ⟨ok,ht'⟩
        cases ok with
        | false => exact Nat.zero_le _
        | true => exact tcpSwitch_ret env.stale ho _ _

private theorem icmpDestUnreachable_ret (o : Nat) : (icmpDestUnreachable m len o).1 ≤ MTU_SIZE := by
  simp only [icmpDestUnreachable]
  generalize (if len - o < 8 then len - o else 8) = d
  split
  case isTrue => exact Nat.zero_le _
  case isFalse h => exact Nat.le_of_not_lt h

/-- No reply is longer than the buffer. -/
theorem netDemux_ret_le (env : Env) (ht : HashTable) (hlen : len ≤ MTU_SIZE) : (netDemux env ht m len).ret ≤ MTU_SIZE := by
  have hmtu : MTU_SIZE = 1500 := rfl
  unfold netDemux
  split
  · exact Nat.zero_le _
  case isFalse hv =>
    have hv : ipValidate m len = true := by simpa using hv
    have ho := (ipValidate_iff m len).mp hv
    simp only
    split
    · exact Nat.le_trans icmpDispatch_len hlen
    · split
      · have hret : (tcpDispatch env ht m len (ihlBytes m)).ret ≤ ihlBytes m + tcpHlen m (ihlBytes m) :=
          tcpDispatch_ret env ht ho.1
        have hihl := ihlBytes_le m
        have hhlen := tcpHlen_le m (ihlBytes m)
        omega
      · exact icmpDestUnreachable_ret _

end Bounds

end LazyTcp.Refactor
