import LazyTcp.General.Keyed
import LazyTcp.General.SeqNum
import LazyTcp.General.Wire

/-! Transmission control blocks and the table of 256 growable vectors they
are stored in. A TCB pointer is represented by the stored value; the receive
buffer and its counters are never read and are left out. -/
namespace LazyTcp.Refactor
open General

inductive Edge where
  | syn | data | ack | fin | rst | drop | sendRst
  deriving DecidableEq, Repr

inductive ConState where
  | closed | synReceived | established | closeWait | closing | lastAck | timeWait
  deriving DecidableEq, Repr

structure ID where
  srcPort : U16
  dstPort : U16
  srcIp : U32
  dstIp : U32
  deriving DecidableEq, Repr

structure SendState where
  unac : U32
  next : U32
  window : U32
  iss : U32
  deriving DecidableEq, Repr

structure ReceiveState where
  next : U32
  window : U32
  irs : U32
  deriving DecidableEq, Repr

structure TCB where
  id : ID
  send : SendState
  recv : ReceiveState
  state : ConState
  deriving DecidableEq, Repr

def TCP_WIN_DEF : U32 := 8192

/-- The zeroed block of a connection that is not open yet. -/
def tcbInit (id : ID) : TCB := ⟨id,⟨0,0,0,0⟩,⟨0,TCP_WIN_DEF,0⟩,.closed⟩

def DEF_CAP : Nat := 16
def HT_SIZE : Nat := 256

/-- The live entries data[0..size) and the allocated capacity, a uint32. -/
structure Vec where
  data : List TCB
  capacity : Nat

def Vec.size (v : Vec) : Nat := v.data.length

/-- Results of the allocator calls one dispatch can make: the TCB's malloc, the
malloc of each bucket in hash_init and the realloc of a full vector. -/
structure Allocs where
  tcb : Bool
  vec : Fin HT_SIZE → Bool
  grow : Bool

def Allocs.succeed : Allocs := ⟨true,fun _ => true,true⟩

def vecInit : Vec := ⟨[],DEF_CAP⟩

/-- The doubled capacity is a uint32 product; it wraps to 0 at 2^31 entries. -/
def vecPush (grow : Bool) (v : Vec) (tcb : TCB) : Option Vec :=
  if v.size = v.capacity then
    if grow then some ⟨v.data ++ [tcb],v.capacity * 2 % 2^32⟩ else none
  else some ⟨v.data ++ [tcb],v.capacity⟩

def vecFind (v : Vec) (id : ID) : Option TCB := Keyed.find TCB.id id v.data

def vecDelete (v : Vec) (tcb : TCB) : Vec := { v with data := Keyed.swapDelete TCB.id tcb.id v.data }

def vecDestroy : Vec := ⟨[],0⟩

structure HashTable where
  buckets : Fin HT_SIZE → Vec
  size : BitVec 64
  init : Bool

namespace HashTable

/-- The zero-initialised globals: no bucket is allocated yet. -/
def empty : HashTable := ⟨fun _ => ⟨[],0⟩,0,false⟩

end HashTable

def hashId (id : ID) : Fin HT_SIZE :=
  let hash := id.srcIp ^^^ id.dstIp
  let hash := hash ^^^ ((id.srcPort.setWidth 32 <<< 16) ||| id.dstPort.setWidth 32)
  let hash := hash + (hash <<< 10)
  let hash := hash ^^^ (hash >>> 6)
  let hash := hash + (hash <<< 3)
  let hash := hash ^^^ (hash >>> 11)
  let hash := hash + (hash <<< 15)
  ⟨hash.toNat % HT_SIZE,Nat.mod_lt _ (by decide)⟩

/-- The allocation loop stops at the first bucket whose malloc fails. -/
def hashInitLoop (vec : Fin HT_SIZE → Bool) :
    List (Fin HT_SIZE) → (Fin HT_SIZE → Vec) → Bool × (Fin HT_SIZE → Vec)
  | [], buckets => (true,buckets)
  | i :: is, buckets =>
    if vec i then hashInitLoop vec is (Function.update buckets i vecInit) else (false,buckets)

def hashInit (a : Allocs) (ht : HashTable) : Bool × HashTable :=
  match hashInitLoop a.vec (List.finRange HT_SIZE) ht.buckets with
  | (false,buckets) => (false,{ ht with buckets := buckets })
  | (true,buckets) => (true,⟨buckets,0,true⟩)

def hashFind (ht : HashTable) (id : ID) : Option TCB :=
  if !ht.init then none else vecFind (ht.buckets (hashId id)) id

def hashInsert (a : Allocs) (ht : HashTable) (tcb : TCB) : Bool × HashTable :=
  match if ht.init then (true,ht) else hashInit a ht with
  | (false,ht) => (false,ht)
  | (true,ht) =>
    let idx := hashId tcb.id
    match vecPush a.grow (ht.buckets idx) tcb with
    | none => (false,ht)
    | some cons => (true,⟨Function.update ht.buckets idx cons,ht.size + 1,ht.init⟩)

def hashDelete (ht : HashTable) (tcb : TCB) : HashTable :=
  if !ht.init then ht
  else
    let idx := hashId tcb.id
    let cons := vecDelete (ht.buckets idx) tcb
    ⟨Function.update ht.buckets idx cons,ht.size - 1,ht.init⟩

def hashDestroy (ht : HashTable) : HashTable :=
  if !ht.init then ht else ⟨fun _ => vecDestroy,0,false⟩

/-- Assignments through a TCB pointer that hash_find or hash_insert handed out:
the pointer is the first entry with that id in the id's bucket. -/
def tcbStore (ht : HashTable) (tcb : TCB) : HashTable :=
  let idx := hashId tcb.id
  let data := Keyed.update TCB.id tcb.id (fun _ => tcb) (ht.buckets idx).data
  ⟨Function.update ht.buckets idx ⟨data,(ht.buckets idx).capacity⟩,ht.size,ht.init⟩

end LazyTcp.Refactor
