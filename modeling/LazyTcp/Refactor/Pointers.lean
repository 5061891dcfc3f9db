import LazyTcp.General.Blocks
import LazyTcp.Refactor.Tcp

/-! The connection table with its pointers: the heap that malloc, realloc and
free work on, vector.c and hash.c over it, and the dispatcher that hands out
pointers to blocks. A step that reads or frees a block that is not live, reads a
cell that was never written or goes past the end of an array is stuck, none. -/
namespace LazyTcp.Refactor.Pointers
open General General.Wire General.Blocks

/-- What malloc was asked for: a TCB, or the array of a vector, whose cells have
no value until they are written. -/
inductive Block where
  | tcb (tcb : TCB)
  | array (cells : List (Option Addr))
  deriving DecidableEq, Repr

def Block.tcb? : Block → Option TCB
  | .tcb con => some con
  | .array _ => none

structure Vector where
  data : Option Addr
  capacity : Nat
  size : Nat
  deriving DecidableEq, Repr

/-- Hash_Table and the flag, with the heap. -/
structure HashTable where
  heap : Heap Block
  buckets : Fin HT_SIZE → Vector
  size : BitVec 64
  init : Bool

def HashTable.empty : HashTable := ⟨.empty,fun _ => ⟨none,0,0⟩,0,false⟩

/-- The answers of malloc and realloc during one dispatch. -/
structure Mallocs where
  tcb : Option Addr
  vec : Fin HT_SIZE → Option Addr
  grow : Option Addr

/-- Which of them succeed. -/
def Mallocs.allocs (a : Mallocs) : Allocs := ⟨a.tcb.isSome,fun i => (a.vec i).isSome,a.grow.isSome⟩

def readTcb (h : Heap Block) (tcb : Addr) : Option TCB := (h tcb).bind Block.tcb?

def readCell (h : Heap Block) (data : Option Addr) (i : Nat) : Option Addr :=
  match data.bind h with
  | some (.array cells) => cells[i]?.join
  | _ => none

def writeCell (h : Heap Block) (data : Option Addr) (i : Nat) (tcb : Addr) : Option (Heap Block) :=
  match data, data.bind h with
  | some d, some (.array cells) => if i < cells.length then some (h.put d (.array (cells.set i (some tcb)))) else none
  | _, _ => none

/-- The array moves to the address realloc gave, which may be its own. -/
def realloc (h : Heap Block) (data : Option Addr) (d : Addr) (n : Nat) : Option (Heap Block) :=
  match data, data.bind h with
  | some p, some (.array cells) =>
    some (Heap.put (Function.update h p none) d (.array (cells.take n ++ List.replicate (n - cells.length) none)))
  | none, _ => some (h.put d (.array (List.replicate n none)))
  | _, _ => none

/-- vec->data[vec->size++] = tcb. -/
def vecAppend (h : Heap Block) (vec : Vector) (tcb : Addr) : Option (Option (Heap Block × Vector)) :=
  (writeCell h vec.data vec.size tcb).map fun h => some (h,{ vec with size := (vec.size + 1) % 2^32 })

def vecPush (grow : Option Addr) (h : Heap Block) (vec : Vector) (tcb : Addr) : Option (Option (Heap Block × Vector)) :=
  if vec.size = vec.capacity then
    let capNew := vec.capacity * 2 % 2^32
    match grow with
    | none => some none
    | some data => (realloc h vec.data data capNew).bind fun h => vecAppend h ⟨some data,capNew,vec.size⟩ tcb
  else vecAppend h vec tcb

/-- The loop of vec_find and of vec_delete: the first of the next n entries with
the id, which vec_delete reads through its pointer each time. -/
def vecScan (h : Heap Block) (data : Option Addr) (id : Option ID) : Nat → Nat → Option (Option Nat)
  | 0, _ => some none
  | n+1, i =>
    match (readCell h data i).bind (readTcb h), id with
    | some tcb, some k => if tcb.id = k then some (some i) else vecScan h data id n (i + 1)
    | _, _ => none

def vecFind (h : Heap Block) (vec : Vector) (id : ID) : Option (Option Addr) :=
  match vecScan h vec.data (some id) vec.size 0 with
  | none => none
  | some none => some none
  | some (some i) => (readCell h vec.data i).map some

def vecDelete (h : Heap Block) (vec : Vector) (tcb : Addr) : Option (Heap Block × Vector) :=
  match vecScan h vec.data ((readTcb h tcb).map TCB.id) vec.size 0 with
  | none => none
  | some none => some (h,vec)
  | some (some i) =>
    (readCell h vec.data i).bind fun p => (h.free p).bind fun h =>
      (readCell h vec.data (vec.size - 1)).bind fun last =>
        (writeCell h vec.data i last).map fun h => (h,{ vec with size := vec.size - 1 })

/-- vec_init of bucket i with the array that malloc gave. -/
def vecInit (t : HashTable) (i : Fin HT_SIZE) (data : Addr) : HashTable :=
  { t with
    heap := t.heap.put data (.array (List.replicate DEF_CAP none))
    buckets := Function.update t.buckets i ⟨some data,DEF_CAP,0⟩ }

/-- The allocation loop stops at the first bucket whose malloc fails. -/
def hashInitLoop (vec : Fin HT_SIZE → Option Addr) : List (Fin HT_SIZE) → HashTable → Bool × HashTable
  | [], t => (true,t)
  | i :: is, t =>
    match vec i with
    | none => (false,t)
    | some data => hashInitLoop vec is (vecInit t i data)

def hashInit (a : Mallocs) (t : HashTable) : Bool × HashTable :=
  match hashInitLoop a.vec (List.finRange HT_SIZE) t with
  | (false,t) => (false,t)
  | (true,t) => (true,{ t with size := 0, init := true })

def hashFind (t : HashTable) (id : ID) : Option (Option Addr) :=
  if !t.init then some none else vecFind t.heap (t.buckets (hashId id)) id

def hashInsert (a : Mallocs) (t : HashTable) (tcb : Addr) : Option (Bool × HashTable) :=
  match if t.init then (true,t) else hashInit a t with
  | (false,t) => some (false,t)
  | (true,t) =>
    (readTcb t.heap tcb).bind fun con =>
      let idx := hashId con.id
      (vecPush a.grow t.heap (t.buckets idx) tcb).map fun
        | none => (false,t)
        | some (heap,cons) => (true,⟨heap,Function.update t.buckets idx cons,t.size + 1,t.init⟩)

def hashDelete (t : HashTable) (tcb : Addr) : Option HashTable :=
  if !t.init then some t
  else (readTcb t.heap tcb).bind fun con =>
    let idx := hashId con.id
    (vecDelete t.heap (t.buckets idx) tcb).map fun (heap,cons) =>
      ⟨heap,Function.update t.buckets idx cons,t.size - 1,t.init⟩

/-- The loop of vec_destroy over its entries. -/
def vecFreeLoop (data : Option Addr) : Nat → Nat → Heap Block → Option (Heap Block)
  | 0, _, h => some h
  | n+1, i, h => (readCell h data i).bind fun p => (h.free p).bind (vecFreeLoop data n (i + 1))

/-- Freeing the null pointer does nothing. -/
def vecDestroy (h : Heap Block) (vec : Vector) : Option (Heap Block × Vector) :=
  (vecFreeLoop vec.data vec.size 0 h).bind fun h =>
    (match vec.data with | none => some h | some d => h.free d).map fun h => (h,⟨none,0,0⟩)

def hashDestroyLoop : List (Fin HT_SIZE) → HashTable → Option HashTable
  | [], t => some t
  | i :: is, t => (vecDestroy t.heap (t.buckets i)).bind fun (heap,vec) =>
      hashDestroyLoop is { t with heap := heap, buckets := Function.update t.buckets i vec }

def hashDestroy (t : HashTable) : Option HashTable :=
  if !t.init then some t
  else (hashDestroyLoop (List.finRange HT_SIZE) t).map fun t => { t with size := 0, init := false }

/-- The end of tcp_parse_edge, once it holds a block. -/
def parsed (flags : Flags) (id : ID) (con : Addr) (t : HashTable) : Option (Edge × Option Addr × HashTable) :=
  (readTcb t.heap con).map fun tcb =>
    let edge := edgeOf flags id.dstPort tcb.state
    (edge,if edge = .drop then none else some con,t)

/-- A block that cannot be inserted is freed again. -/
def tcpParseEdge (a : Mallocs) (t : HashTable) (flags : Flags) (id : ID) : Option (Edge × Option Addr × HashTable) :=
  (hashFind t id).bind fun
    | some con => parsed flags id con t
    | none =>
      match a.tcb with
      | none => some (.drop,none,t)
      | some con =>
        (hashInsert a { t with heap := t.heap.put con (.tcb (tcbInit id)) } con).bind fun
          | (false,t) => (t.heap.free con).map fun heap => (.drop,none,{ t with heap := heap })
          | (true,t) => parsed flags id con t

/-- The assignments go through the pointer. -/
def tcbStateUpdate (iss : U32) (m : Mem) (offset : Nat) (t : HashTable) (tcb : Option Addr) (edge : Edge) :
    Option (Bool × HashTable) :=
  match edge with
  | .syn => tcb.bind fun a => (readTcb t.heap a).map fun con =>
      let irs := ntohl (tcpSeqNum m offset)
      let recv := { con.recv with irs := irs, next := irs + 1 }
      let send := { con.send with window := (ntohs (tcpWindow m offset)).setWidth 32 }
      let send := if con.state = .closed then { send with iss := iss, next := iss + 1, unac := iss } else send
      let con := { con with recv := recv, send := send, state := .synReceived }
      (true,{ t with heap := t.heap.put a (.tcb con) })
  | .ack => tcb.bind fun a => (readTcb t.heap a).map fun con =>
      let ackNo := ntohl (tcpAckNum m offset)
      if ackNo = con.send.next then
        let con := { con with state := .established, send := { con.send with unac := ackNo } }
        (true,{ t with heap := t.heap.put a (.tcb con) })
      else (false,t)
  | .rst => tcb.bind fun a => (readTcb t.heap a).bind fun con =>
      let seqNo := ntohl (tcpSeqNum m offset)
      if seqGeq seqNo con.recv.next && seqLt seqNo (con.recv.next + con.recv.window) then
        (hashDelete t a).map fun t => (true,t)
      else some (false,t)
  | _ => some (true,t)

/-- The returned length with the buffer and the table left behind. -/
structure Reply where
  ret : Nat
  buf : Mem
  table : HashTable

/-- The SYN-ACK reads the block through the pointer, and the reset builder frees it. -/
def tcpSwitch (stale : Stale) (m : Mem) (len offset : Nat) (t : HashTable) (tcb : Option Addr) (edge : Edge) :
    Option Reply :=
  match edge with
  | .syn => tcb.bind fun a => (readTcb t.heap a).map fun con =>
      let (n,m) := tcpSynAck con m len offset
      ⟨n,m,t⟩
  | .sendRst => tcb.bind fun a =>
      let (n,m) := rstReply stale m offset
      (hashDelete t a).map fun t => ⟨n,m,t⟩
  | _ => some ⟨0,m,t⟩

def tcpDispatch (env : Env) (a : Mallocs) (t : HashTable) (m : Mem) (len offset : Nat) : Option Reply :=
  if tcpChecksumField m offset ≠ tcpChecksum m len offset then some ⟨0,m,t⟩
  else (tcpParseEdge a t (segFlags m offset) (segId m offset)).bind fun (edge,tcb,t) =>
    (tcbStateUpdate env.iss m offset t tcb edge).bind fun (ok,t) =>
      tcpSwitch env.stale m len offset t tcb (if ok then edge else .drop)

end LazyTcp.Refactor.Pointers
