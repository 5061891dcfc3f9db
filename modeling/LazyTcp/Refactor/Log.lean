import LazyTcp.General.Records
import LazyTcp.Refactor.Ip

/-! The events of the log, and the viewer that unpacks them at the other end of
the FIFO. The host is little-endian; how the viewer prints a packet is left out. -/
namespace LazyTcp.Refactor
open General

def LOG_READ : U8 := 1
def LOG_WRITE : U8 := 0
def LOG_SHUTDOWN : U8 := 2

structure Event where
  dir : U8
  timestampNs : BitVec 64
  tuLen : U16
  tu : List U8
  size : tu.length = MTU_SIZE

/-- The size of the packed struct, and of the viewer's reads. -/
def EVENT_SIZE : Nat := 1 + 8 + 2 + MTU_SIZE

/-- The zero-filled event with len bytes of the packet copied in; none when the
memcpy would run past the array. -/
def logEvent (tu : Option Mem) (len : U16) (dir : U8) (now : BitVec 64) : Option Event :=
  let copied := tu.elim [] fun m => m.bytes 0 len.toNat
  if h : copied.length ≤ MTU_SIZE then
    some ⟨dir,now,len,copied ++ List.replicate (MTU_SIZE - copied.length) 0,by
      rw [List.length_append, List.length_replicate, Nat.add_sub_cancel' h]⟩
  else none

def Event.toBytes (e : Event) : List U8 :=
  e.dir :: (leBytes 8 e.timestampNs.toNat ++ (leBytes 2 e.tuLen.toNat ++ e.tu))

/-- What display_event unpacks of an event before it prints it. -/
structure Shown where
  num : Nat
  recv : Bool
  timestampNs : Nat
  packet : List U8
  deriving DecidableEq, Repr

/-- The result is none where display_event closes the viewer. -/
def displayEvent (eventNum : Nat) (eventData : List U8) : Option Shown :=
  let direction := eventData.getD 0 0
  let timestampNs := leValue ((eventData.drop 1).take 8)
  let tuLen := leValue ((eventData.drop 9).take 2)
  if tuLen = 0 then none
  else some ⟨eventNum,direction = 1,timestampNs,(eventData.drop 11).take tuLen⟩

/-- The messages the viewer goes away with: a shutdown event, an end of file, a
keyboard interrupt. -/
inductive Goodbye where
  | detached
  | abruptly
  | interrupted
  deriving DecidableEq, Repr

structure Viewer where
  eventNum : Nat
  shown : List Shown
  closed : Option Goodbye

def Viewer.start : Viewer := ⟨0,[],none⟩

/-- One round of the viewer's loop, on what os.read returned. A read that is not
of a whole event is skipped. -/
def viewerRead (v : Viewer) (data : List U8) : Viewer :=
  if data.isEmpty then { v with closed := some .abruptly }
  else if data.length = EVENT_SIZE then
    match displayEvent (v.eventNum + 1) data with
    | none => { v with eventNum := v.eventNum + 1, closed := some .detached }
    | some s => { v with eventNum := v.eventNum + 1, shown := v.shown ++ [s] }
  else v

theorem length_toBytes (e : Event) : e.toBytes.length = EVENT_SIZE := by
  simp only [Event.toBytes, List.length_cons, List.length_append, length_leBytes, e.size, EVENT_SIZE]
  omega

/-- The viewer unpacks what log_event packed. -/
theorem displayEvent_toBytes (num : Nat) (e : Event) : displayEvent num e.toBytes =
    if e.tuLen.toNat = 0 then none
    else some ⟨num,e.dir = 1,e.timestampNs.toNat,e.tu.take e.tuLen.toNat⟩ := by
  have hstamp : leValue ((e.toBytes.drop 1).take 8) = e.timestampNs.toNat := by
    rw [Event.toBytes, List.drop_one, List.tail_cons, List.take_left' (length_leBytes 8 _)]
    exact leValue_leBytes e.timestampNs.isLt
  have hrest : e.toBytes.drop 9 = leBytes 2 e.tuLen.toNat ++ e.tu := by
    rw [Event.toBytes, List.drop_succ_cons, List.drop_left' (length_leBytes 8 _)]
  have hlen : leValue ((e.toBytes.drop 9).take 2) = e.tuLen.toNat := by
    rw [hrest, List.take_left' (length_leBytes 2 _)]
    exact leValue_leBytes e.tuLen.isLt
  have htu : e.toBytes.drop 11 = e.tu := by
    rw [show (11 : Nat) = 9 + 2 from rfl, ← List.drop_drop, hrest, List.drop_left' (length_leBytes 2 _)]
  simp only [displayEvent, hstamp, hlen, htu]
  rfl

/-- A logged packet comes out of the viewer as it went in. -/
theorem logEvent_packet (m : Mem) {len : Nat} (hpos : 0 < len) (hlen : len ≤ MTU_SIZE) (dir : U8) (now : BitVec 64) :
    ∃ e, logEvent (some m) (.ofNat 16 len) dir now = some e ∧
      ∀ num, displayEvent num e.toBytes = some ⟨num,dir = 1,now.toNat,m.bytes 0 len⟩ := by
  have hmtu : MTU_SIZE = 1500 := rfl
  have hsize : (BitVec.ofNat 16 len).toNat = len := by
    rw [BitVec.toNat_ofNat]
    omega
  refine ⟨⟨dir,now,.ofNat 16 len,m.bytes 0 len ++ List.replicate (MTU_SIZE - len) 0,?_⟩,?_,fun num => ?_⟩
  · rw [List.length_append, List.length_replicate, Mem.length_bytes, Nat.add_sub_cancel' hlen]
  · simp only [logEvent, Option.elim_some, hsize, Mem.length_bytes, dif_pos hlen]
  · rw [displayEvent_toBytes]
    simp only [hsize]
    rw [if_neg (by omega), List.take_left' (Mem.length_bytes m 0 len)]

/-- The shutdown event has no packet, which is what closes the viewer. -/
theorem logEvent_shutdown (now : BitVec 64) : ∃ e, logEvent none 0 LOG_SHUTDOWN now = some e ∧
    ∀ num, displayEvent num e.toBytes = none := by
  refine ⟨⟨LOG_SHUTDOWN,now,0,List.replicate MTU_SIZE 0,List.length_replicate⟩,rfl,fun num => ?_⟩
  rw [displayEvent_toBytes]
  rfl

end LazyTcp.Refactor
