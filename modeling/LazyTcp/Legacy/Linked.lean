import LazyTcp.General.Linked
import LazyTcp.Legacy.Machine

/-! The connection list of the first stack with its pointers. A loop over the
list takes fuel; it is stuck, none, when the fuel runs out or a pointer it
follows is not allocated. -/
namespace LazyTcp.Legacy.Linked
open General General.Wire General.Linked

/-- TCP_Server_Instance with the heap its blocks are in. -/
structure Instance where
  heap : Heap TCB
  head : Option Addr
  size : Int

def tcpInitServerInstance : Instance := ⟨fun _ => none,none,0⟩

/-- Assignments through a pointer; the link of the block stays. -/
def Instance.write (s : Instance) (a : Addr) (tcb : TCB) : Instance :=
  { s with heap := Function.update s.heap a ((s.heap a).map fun c => { c with val := tcb }) }

/-- The answer of malloc is null or the address of a new block. -/
def tcpInitTcb (malloc : Option Addr) (id : ConnectionID) (s : Instance) : Option Addr × Instance :=
  match malloc with
  | none => (none,s)
  | some a => (some a,{ s with heap := Function.update s.heap a (some ⟨newTcb id,none⟩) })

/-- The loop of tcp_get_state. -/
def searchLoop (h : Heap TCB) (id : ConnectionID) : Nat → Option Addr → Option (Option Addr)
  | _, none => some none
  | 0, some _ => none
  | fuel+1, some a =>
    match h a with
    | none => none
    | some c => if c.val.id = id then some (some a) else searchLoop h id fuel c.next

def tcpGetState (fuel : Nat) (id : ConnectionID) (s : Instance) : Option (Option Addr) :=
  searchLoop s.heap id fuel s.head

/-- The loop of tcp_insert_tcb: none when the id is listed, else the last block.
Comparing the ids reads the new block. -/
def insertLoop (h : Heap TCB) (tcb : Option Addr) : Nat → Option Addr → Option Addr → Option (Option (Option Addr))
  | _, none, tail => some (some tail)
  | 0, some _, _ => none
  | fuel+1, some a, _ =>
    match h a, tcb.bind h with
    | some c, some new => if c.val.id = new.val.id then some none else insertLoop h tcb fuel c.next (some a)
    | _, _ => none

def tcpInsertTcb (fuel : Nat) (tcb : Option Addr) (s : Instance) : Option Instance :=
  match insertLoop s.heap tcb fuel s.head none with
  | none => none
  | some none => some s
  | some (some tail) =>
    if s.head = none then some { s with head := tcb, size := s.size + 1 }
    else match tail with
      | none => none
      | some t =>
        match s.heap t with
        | none => none
        | some c => some { s with heap := Function.update s.heap t (some { c with next := tcb }), size := s.size + 1 }

/-- The loop of tcp_remove_connection: the block before the given one. -/
def removeLoop (h : Heap TCB) (tcb : Addr) : Nat → Option Addr → Option (Option Addr)
  | _, none => some none
  | 0, some _ => none
  | fuel+1, some a =>
    match h a with
    | none => none
    | some c => if c.next = some tcb then some (some a) else removeLoop h tcb fuel c.next

def tcpRemoveConnection (fuel : Nat) (s : Instance) (tcb : Addr) : Option Instance :=
  if s.head = some tcb then
    match s.heap tcb with
    | none => none
    | some c => some ⟨Function.update s.heap tcb none,c.next,s.size - 1⟩
  else match removeLoop s.heap tcb fuel s.head with
    | none => none
    | some none => some ⟨Function.update s.heap tcb none,s.head,s.size - 1⟩
    | some (some prev) =>
      match s.heap prev, s.heap tcb with
      | some p, some c =>
        let heap := Function.update s.heap prev (some { p with next := c.next })
        some ⟨Function.update heap tcb none,s.head,s.size - 1⟩
      | _, _ => none

def tcpGotRst (fuel : Nat) (m : Mem) (o : Nat) (a : Addr) (con : TCB) (s : Instance) : Option Instance :=
  let rstSeq := tcpSeqNum m o
  if seqGeq rstSeq con.recv.next && seqLt rstSeq (con.recv.next + con.recv.window) then tcpRemoveConnection fuel s a
  else some s

/-- The code with the buffer and the instance left behind. -/
structure Outcome where
  code : Code
  buf : Mem
  server : Instance

/-- The switch of tcp_dispatch on a block that was found. -/
def tcpSwitch (env : Env) (s : Instance) (m : Mem) (o : Nat) (a : Addr) (con : TCB) : Outcome :=
  let flags := tcpFlags m o
  let syn := hasFlag flags SYN
  let ack := hasFlag flags ACK
  let fin := hasFlag flags FIN
  match con.state with
  | .synReceived =>
    if syn && !ack then
      let (con,m) := tcpNullSynAck env.ticks m o con
      ⟨.silent,m,s.write a con⟩
    else if ack && !syn then
      let ackNum := ntohl (tcpAckNum m o)
      if ackNum = con.send.next then
        ⟨.silent,m,s.write a { con with state := .established, send := { con.send with unac := ackNum } }⟩
      else ⟨.silent,m,s⟩
    else ⟨.silent,m,s⟩
  | .established =>
    if fin then
      let con := { con with recv := { con.recv with next := ntohl (tcpSeqNum m o) + 1 } }
      let (con,m) := tcpSendAck m o con []
      ⟨.ok,m,s.write a { con with state := .closeWait }⟩
    else
      let (code,con,m,_) := tcpHandleData env.file m o con
      ⟨code,m,s.write a con⟩
  | _ => ⟨.silent,m,s⟩

def tcpDispatch (fuel : Nat) (env : Env) (malloc : Option Addr) (s : Instance) (m : Mem) (o : Nat) : Option Outcome :=
  let id := segId m o
  let flags := tcpFlags m o
  let syn := hasFlag flags SYN
  let ack := hasFlag flags ACK
  let rst := hasFlag flags RST
  match tcpGetState fuel id s with
  | none => none
  | some none =>
    if rst then some ⟨.silent,m,s⟩
    else if syn && !ack then
      let (tcb,s) := tcpInitTcb malloc id s
      match tcpInsertTcb fuel tcb s, tcb with
      | some s, some a =>
        match s.heap a with
        | none => none
        | some c =>
          let (con,m) := tcpNullSynAck env.ticks m o c.val
          some ⟨.ok,m,s.write a con⟩
      | _, _ => none
    else some ⟨.ok,tcpNullRst m o,s⟩
  | some (some a) =>
    match s.heap a with
    | none => none
    | some c =>
      if rst then (tcpGotRst fuel m o a c.val s).map fun s => ⟨.silent,m,s⟩
      else some (tcpSwitch env s m o a c.val)

/-- The instance holds the blocks of l in this order: a list that ends, with
one block for an id and the right count. -/
structure Rep (s : Instance) (l : List (Addr × TCB)) : Prop where
  path : Path s.heap s.head l none
  ids : (l.map fun e => e.2.id).Nodup
  size : s.size = l.length

theorem Rep.init : Rep tcpInitServerInstance [] := ⟨rfl,List.nodup_nil,rfl⟩

section Loops
variable {h : Heap TCB} {p : Option Addr} {l : List (Addr × TCB)} {fuel : Nat}

private theorem searchLoop_eq (hp : Path h p l none) (hf : l.length ≤ fuel) (id : ConnectionID) :
    searchLoop h id fuel p = some ((l.find? fun e => e.2.id = id).map Prod.fst) := by
  induction l generalizing p fuel with
  | nil =>
    cases hp
    cases fuel <;> rfl
  | cons e l ih =>
    obtain ⟨a,con⟩ := e
    obtain ⟨rfl,next,hc,hrest⟩ := hp
    obtain ⟨fuel,rfl⟩ := Nat.exists_eq_add_of_le' (show 1 ≤ fuel from (Nat.le_add_left ..).trans hf)
    rw [searchLoop, hc]
    simp only
    split
    case isTrue hid => simp [List.find?, hid]
    case isFalse hid =>
      rw [ih hrest (by simpa using hf)]
      simp [List.find?, hid]

/-- No id matches: the loop runs to the end and returns the last block. -/
private theorem insertLoop_eq {b t : Addr} {y : TCB} {new : Cell TCB} (hb : h b = some new)
    (hp : Path h p (l ++ [(t,y)]) none) (hid : ∀ e ∈ l ++ [(t,y)], e.2.id ≠ new.val.id) (hf : l.length < fuel)
    (tail : Option Addr) : insertLoop h (some b) fuel p tail = some (some (some t)) := by
  induction l generalizing p fuel tail with
  | nil =>
    obtain ⟨rfl,next,hc,rfl⟩ := hp
    obtain ⟨fuel,rfl⟩ := Nat.exists_eq_add_of_le' (show 1 ≤ fuel from hf)
    have hne : y.id ≠ new.val.id := hid (t,y) (List.mem_append_right _ List.mem_cons_self)
    rw [insertLoop, hc, Option.bind_some, hb]
    simp only [hne, if_false]
    cases fuel <;> rfl
  | cons e l ih =>
    obtain ⟨a,con⟩ := e
    obtain ⟨rfl,next,hc,hrest⟩ := hp
    obtain ⟨fuel,rfl⟩ := Nat.exists_eq_add_of_le' (show 1 ≤ fuel from Nat.one_le_of_lt hf)
    have hne : con.id ≠ new.val.id := hid (a,con) List.mem_cons_self
    rw [insertLoop, hc, Option.bind_some, hb]
    simp only [hne, if_false]
    exact ih hrest (fun e he => hid e (List.mem_cons_of_mem _ he)) (by simpa using hf) (some a)

/-- The loop stops at the block whose link is the given one. -/
private theorem removeLoop_eq {a b : Addr} {x y : TCB} {post : List (Addr × TCB)}
    (hp : Path h p (l ++ (b,y) :: (a,x) :: post) none) (hf : l.length < fuel) :
    removeLoop h a fuel p = some (some b) := by
  induction l generalizing p fuel with
  | nil =>
    obtain ⟨rfl,next,hc,rfl,-⟩ := hp
    obtain ⟨fuel,rfl⟩ := Nat.exists_eq_add_of_le' (show 1 ≤ fuel from hf)
    rw [removeLoop, hc]
    simp
  | cons e l ih =>
    obtain ⟨c,con⟩ := e
    obtain ⟨rfl,next,hc,hrest⟩ := hp
    obtain ⟨fuel,rfl⟩ := Nat.exists_eq_add_of_le' (show 1 ≤ fuel from Nat.one_le_of_lt hf)
    have hne : next ≠ some a := path_start_ne hrest
    rw [removeLoop, hc]
    simp only [hne, if_false]
    exact ih hrest (by simpa using hf)

end Loops

section Operations
variable {s : Instance} {l : List (Addr × TCB)} {fuel : Nat} (h : Rep s l)
include h

/-- tcp_get_state returns the block with the id, or null. -/
theorem tcpGetState_eq (hf : l.length ≤ fuel) (id : ConnectionID) :
    tcpGetState fuel id s = some ((l.find? fun e => e.2.id = id).map Prod.fst) :=
  searchLoop_eq h.path hf id

theorem Rep.not_allocated {a : Addr} (ha : s.heap a = none) : a ∉ addrs l := by
  intro hmem
  obtain ⟨⟨b,con⟩,hm,rfl⟩ := List.mem_map.mp hmem
  obtain ⟨next,hc⟩ := path_mem h.path hm
  rw [ha] at hc
  cases hc

/-- tcp_insert_tcb puts a new block with an unlisted id behind the others. -/
theorem tcpInsertTcb_appends {a : Addr} (tcb : TCB) (ha : s.heap a = none) (hid : ∀ e ∈ l, e.2.id ≠ tcb.id)
    (hf : l.length ≤ fuel) :
    ∃ s', tcpInsertTcb fuel (some a) { s with heap := Function.update s.heap a (some ⟨tcb,none⟩) } = some s' ∧
      Rep s' (l ++ [(a,tcb)]) ∧ s'.heap a = some ⟨tcb,none⟩ := by
  have hnew := h.not_allocated ha
  have hpath := path_frame (c := some ⟨tcb,none⟩) h.path hnew
  have hself : Function.update s.heap a (some ⟨tcb,none⟩) a = some ⟨tcb,none⟩ := Function.update_self ..
  have hids : ((l ++ [(a,tcb)]).map fun e => e.2.id).Nodup := by
    rw [List.map_append, List.map_singleton, List.nodup_append]
    refine ⟨h.ids,List.nodup_singleton _,fun x hx y hy e => ?_⟩
    obtain ⟨e',he',rfl⟩ := List.mem_map.mp hx
    exact hid e' he' (e.trans (List.mem_singleton.mp hy))
  have hsize : s.size + 1 = ((l ++ [(a,tcb)]).length : Nat) := by
    rw [h.size, List.length_append, List.length_singleton]
    rfl
  rcases List.eq_nil_or_concat l with rfl | ⟨pre,⟨t,y⟩,rfl⟩
  · have hhead : s.head = none := h.path
    refine ⟨⟨Function.update s.heap a (some ⟨tcb,none⟩),some a,s.size + 1⟩,?_,⟨⟨rfl,none,hself,rfl⟩,hids,hsize⟩,hself⟩
    rw [tcpInsertTcb, hhead]
    cases fuel <;> rfl
  · rw [List.concat_eq_append] at hpath hid hf hids hsize hnew ⊢
    have hloop := insertLoop_eq hself hpath hid (by simpa using hf) none
    obtain ⟨next,hlast⟩ := path_mem hpath (a := t) (x := y) (by simp)
    have hat : a ≠ t := fun e => hnew (by simp [addrs, e])
    have hhead : s.head ≠ none := by
      intro e
      have hp := h.path
      rw [e] at hp
      cases pre <;> cases hp.1
    refine ⟨⟨Function.update (Function.update s.heap a (some ⟨tcb,none⟩)) t (some ⟨y,some a⟩),s.head,s.size + 1⟩,?_,
      ⟨path_snoc hpath hself hat,hids,hsize⟩,?_⟩
    · rw [tcpInsertTcb, hloop]
      simp only [hhead, if_false, hlast]
    · exact (Function.update_of_ne hat _ _).trans hself

/-- tcp_remove_connection takes the given block out and keeps the others in order. -/
theorem tcpRemoveConnection_removes {pre post : List (Addr × TCB)} {a : Addr} {tcb : TCB}
    (hl : l = pre ++ (a,tcb) :: post) (hf : l.length ≤ fuel) :
    ∃ s', tcpRemoveConnection fuel s a = some s' ∧ Rep s' (pre ++ post) ∧ s'.heap a = none := by
  subst hl
  obtain ⟨next,hc⟩ := path_mem h.path (a := a) (x := tcb) (by simp)
  have hids : ((pre ++ post).map fun e => e.2.id).Nodup :=
    h.ids.sublist ((List.sublist_cons_self ..).append_left pre |>.map _)
  have hsize : s.size - 1 = ((pre ++ post).length : Nat) := by
    have hs := h.size
    simp only [List.length_append, List.length_cons] at hs ⊢
    omega
  rcases List.eq_nil_or_concat pre with rfl | ⟨pre,⟨b,y⟩,rfl⟩
  · obtain ⟨hhead,next',hc',hrest⟩ := h.path
    rw [hc] at hc'
    cases hc'
    have hnot := (not_mem_of_nodup (path_acyclic h.path)).2
    refine ⟨⟨Function.update s.heap a none,next,s.size - 1⟩,?_,⟨path_frame hrest hnot,hids,hsize⟩,Function.update_self ..⟩
    rw [tcpRemoveConnection, if_pos hhead, hc]
  · rw [List.concat_eq_append] at h hf hids hsize ⊢
    simp only [List.append_assoc, List.singleton_append] at h hf hids hsize ⊢
    have hpath := h.path
    obtain ⟨next',hb⟩ := path_mem hpath (a := b) (x := y) (by simp)
    have hloop := removeLoop_eq hpath (show pre.length < fuel by simp at hf; omega)
    refine ⟨⟨Function.update (Function.update s.heap b (some ⟨y,next⟩)) a none,s.head,s.size - 1⟩,?_,
      ⟨path_unlink hpath hc,hids,hsize⟩,Function.update_self ..⟩
    rw [tcpRemoveConnection, if_neg (path_start_ne hpath), hloop]
    simp only [hb, hc]

/-- Writing through the pointer of a listed block changes that block only. -/
theorem Rep.write {pre post : List (Addr × TCB)} {a : Addr} {con con' : TCB} (hl : l = pre ++ (a,con) :: post)
    (hid : con'.id = con.id) : Rep (s.write a con') (pre ++ (a,con') :: post) := by
  subst hl
  obtain ⟨next,hc⟩ := path_mem h.path (a := a) (x := con) (by simp)
  refine ⟨?_,?_,?_⟩
  · rw [Instance.write, hc]
    exact path_write h.path hc
  · have hids := h.ids
    rw [List.map_append, List.map_cons] at hids ⊢
    rwa [hid]
  · have hsize := h.size
    simp only [List.length_append, List.length_cons] at hsize ⊢
    exact hsize

end Operations

end LazyTcp.Legacy.Linked
