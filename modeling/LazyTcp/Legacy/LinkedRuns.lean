import LazyTcp.General.Run
import LazyTcp.Legacy.Linked

/-! Runs of the dispatcher over the linked list. It behaves as the dispatcher
over the list of blocks does, and the list stays well formed. -/
namespace LazyTcp.Legacy.Linked
open General General.Wire General.Linked

/-- The server without its pointers. -/
def abstract (s : Instance) (l : List (Addr × TCB)) : Server := ⟨l.map Prod.snd,s.size⟩

section Lists
variable {s : Instance} {l pre post : List (Addr × TCB)} {id : ConnectionID} {a : Addr} {con : TCB}

private theorem abstract_find (s : Instance) (l : List (Addr × TCB)) (id : ConnectionID) :
    Legacy.tcpGetState (abstract s l) id = (l.find? fun e => e.2.id = id).map Prod.snd := by
  rw [Legacy.tcpGetState, Keyed.find, abstract, List.find?_map]
  rfl

/-- The blocks before one with unique id do not have its id. -/
private theorem ids_before (hids : ((pre ++ (a,con) :: post).map fun e => e.2.id).Nodup) {e : Addr × TCB}
    (he : e ∈ pre) : e.2.id ≠ con.id := by
  rw [List.map_append, List.map_cons, List.nodup_middle, List.nodup_cons, List.mem_append, not_or] at hids
  intro heq
  exact hids.1.1 (heq ▸ List.mem_map_of_mem he)

private theorem abstract_store (s : Instance) {con' : TCB} (hids : ((pre ++ (a,con) :: post).map fun e => e.2.id).Nodup)
    (hid : con'.id = con.id) : (abstract s (pre ++ (a,con) :: post)).store con' =
      abstract (s.write a con') (pre ++ (a,con') :: post) := by
  have hupdate : Keyed.update TCB.id con'.id (fun _ => con') (pre.map Prod.snd ++ con :: post.map Prod.snd) =
      pre.map Prod.snd ++ con' :: post.map Prod.snd := by
    refine Keyed.update_append (fun b hb => ?_) hid.symm
    obtain ⟨e,he,rfl⟩ := List.mem_map.mp hb
    rw [hid]
    exact ids_before hids he
  rw [abstract, abstract, Server.store, List.map_append, List.map_cons, List.map_append, List.map_cons, hupdate]
  rfl

private theorem abstract_remove (s : Instance) (hids : ((pre ++ (a,con) :: post).map fun e => e.2.id).Nodup) :
    Legacy.tcpRemoveConnection (abstract s (pre ++ (a,con) :: post)) con =
      ⟨(pre ++ post).map Prod.snd,s.size - 1⟩ := by
  rw [Legacy.tcpRemoveConnection, abstract, List.map_append, List.map_cons, List.eraseP_append_right,
    List.eraseP_cons_of_pos (by simp), List.map_append]
  intro b hb
  obtain ⟨e,he,rfl⟩ := List.mem_map.mp hb
  simpa using ids_before hids he

end Lists

section Dispatch
variable {env : Env} {s : Instance} {l pre post : List (Addr × TCB)} {m : Mem} {o fuel : Nat} {a : Addr} {con : TCB}

/-- One outcome with pointers and without. -/
def Matches (out : Outcome) (l : List (Addr × TCB)) (out' : Option Legacy.Outcome) : Prop :=
  Rep out.server l ∧ ∃ request, out' = some ⟨out.code,out.buf,abstract out.server l,request⟩

/-- A block that was found and not reset is read, and written in place. -/
private theorem tcpSwitch_matches (env : Env) (h : Rep s (pre ++ (a,con) :: post))
    (hfind : Legacy.tcpGetState (abstract s (pre ++ (a,con) :: post)) (segId m o) = some con)
    (hrst : hasFlag (tcpFlags m o) RST = false) :
    ∃ con', Matches (tcpSwitch env s m o a con) (pre ++ (a,con') :: post)
      (Legacy.tcpDispatch env (abstract s (pre ++ (a,con) :: post)) m o) := by
  have hkeep (code : Code) (request : Option (List U8)) :
      Matches ⟨code,m,s⟩ (pre ++ (a,con) :: post) (some ⟨code,m,abstract s (pre ++ (a,con) :: post),request⟩) :=
    ⟨h,request,rfl⟩
  have hwrite (code : Code) (b : Mem) (con' : TCB) (hid : con'.id = con.id) (request : Option (List U8)) :
      Matches ⟨code,b,s.write a con'⟩ (pre ++ (a,con') :: post)
        (some ⟨code,b,(abstract s (pre ++ (a,con) :: post)).store con',request⟩) := by
    refine ⟨h.write rfl hid,request,?_⟩
    rw [abstract_store s h.ids hid]
  simp only [Legacy.tcpDispatch, hfind, hrst, Bool.false_eq_true, if_false]
  obtain ⟨cid,state,send,recv⟩ := con
  cases state with
  | synReceived =>
    unfold tcpSwitch
    simp only
    split
    · refine ⟨_,hwrite _ _ _ ?_ _⟩
      rfl
    · split
      · split
        · refine ⟨_,hwrite _ _ _ ?_ _⟩
          rfl
        · exact ⟨_,hkeep _ _⟩
      · exact ⟨_,hkeep _ _⟩
  | established =>
    unfold tcpSwitch
    simp only
    split
    · refine ⟨_,hwrite _ _ _ ?_ _⟩
      rfl
    · refine ⟨_,hwrite _ _ _ ?_ _⟩
      unfold tcpHandleData
      split <;> rfl
  | closeWait | closing | lastAck | timeWait => exact ⟨_,hkeep _ _⟩

/-- No block has the id: a SYN opens one at the address malloc gives. -/
private theorem dispatch_absent_matches (h : Rep s l) (hf : l.length ≤ fuel) (hfind : ∀ e ∈ l, e.2.id ≠ segId m o)
    (halloc : env.alloc = true) (ha : s.heap a = none) :
    ∃ out l', tcpDispatch fuel env (some a) s m o = some out ∧ l'.length ≤ l.length + 1 ∧
      Matches out l' (Legacy.tcpDispatch env (abstract s l) m o) := by
  have hnone : (l.find? fun e => e.2.id = segId m o) = none := by simpa using hfind
  have hget : tcpGetState fuel (segId m o) s = some none := by rw [tcpGetState_eq h hf, hnone, Option.map_none]
  have hget' : Legacy.tcpGetState (abstract s l) (segId m o) = none := by
    rw [abstract_find, hnone, Option.map_none]
  simp only [tcpDispatch, Legacy.tcpDispatch, hget, hget']
  split
  · exact ⟨_,l,rfl,Nat.le_succ _,h,none,rfl⟩
  · split
    · obtain ⟨s',hins,hrep,hnew⟩ := tcpInsertTcb_appends h (newTcb (segId m o)) ha hfind hf
      have hid : (tcpNullSynAck env.ticks m o (newTcb (segId m o))).1.id = (newTcb (segId m o)).id := rfl
      have hins' : Legacy.tcpInsertTcb (some (newTcb (segId m o))) (abstract s l) =
          some (abstract s' (l ++ [(a,newTcb (segId m o))])) := by
        have hany : ((abstract s l).conns.any fun c => c.id = (newTcb (segId m o)).id) = false := by
          refine List.any_eq_false.mpr fun c hc => ?_
          obtain ⟨e,he,rfl⟩ := List.mem_map.mp hc
          exact fun hd => hfind e he (of_decide_eq_true hd)
        have hsize : s.size + 1 = s'.size := by
          rw [h.size, hrep.size, List.length_append, List.length_singleton]
          rfl
        rw [Legacy.tcpInsertTcb, hany, abstract, abstract, List.map_append, ← hsize]
        rfl
      refine ⟨⟨.ok,(tcpNullSynAck env.ticks m o (newTcb (segId m o))).2,
        s'.write a (tcpNullSynAck env.ticks m o (newTcb (segId m o))).1⟩,_,?_,?_,hrep.write rfl hid,none,?_⟩
      · simp only [tcpInitTcb, hins, hnew]
      · simp
      · rw [halloc, show Legacy.tcpInitTcb true (segId m o) = some (newTcb (segId m o)) from rfl, hins']
        simp only [abstract_store s' hrep.ids hid]
    · exact ⟨_,l,rfl,Nat.le_succ _,h,none,rfl⟩

/-- A block has the id: it is reset, or read and written in place. -/
theorem dispatch_stored_matches (env : Env) (malloc : Option Addr) (h : Rep s (pre ++ (a,con) :: post))
    (hf : (pre ++ (a,con) :: post).length ≤ fuel) (hid : con.id = segId m o) :
    ∃ out l', tcpDispatch fuel env malloc s m o = some out ∧ l'.length ≤ (pre ++ (a,con) :: post).length + 1 ∧
      Matches out l' (Legacy.tcpDispatch env (abstract s (pre ++ (a,con) :: post)) m o) := by
  have hfound : ((pre ++ (a,con) :: post).find? fun e => e.2.id = segId m o) = some (a,con) := by
    rw [List.find?_append, List.find?_eq_none.mpr fun e he => ?_]
    · simp [List.find?, hid]
    · simpa [← hid] using ids_before h.ids he
  obtain ⟨next,hc⟩ := path_mem h.path (a := a) (x := con) (by simp)
  have hget : tcpGetState fuel (segId m o) s = some (some a) := by rw [tcpGetState_eq h hf, hfound, Option.map_some]
  have hget' : Legacy.tcpGetState (abstract s (pre ++ (a,con) :: post)) (segId m o) = some con := by
    rw [abstract_find, hfound, Option.map_some]
  cases hrst : hasFlag (tcpFlags m o) RST with
  | false =>
    obtain ⟨con',hmatch⟩ := tcpSwitch_matches env h hget' hrst
    refine ⟨_,_,?_,?_,hmatch⟩
    · simp only [tcpDispatch, hget, hc, hrst, Bool.false_eq_true, if_false]
    · simp
  | true =>
    simp only [tcpDispatch, Legacy.tcpDispatch, hget, hget', hc, hrst, if_true, tcpGotRst, Legacy.tcpGotRst]
    split
    · obtain ⟨s',hrem,hrep,-⟩ := tcpRemoveConnection_removes h rfl hf
      have hsize : s.size - 1 = s'.size := by
        rw [h.size, hrep.size]
        simp only [List.length_append, List.length_cons]
        omega
      refine ⟨⟨.silent,m,s'⟩,pre ++ post,by rw [hrem]; rfl,?_,hrep,none,?_⟩
      · simp only [List.length_append, List.length_cons]
        omega
      · rw [abstract_remove s h.ids, hsize]
        rfl
    · exact ⟨⟨.silent,m,s⟩,_,rfl,Nat.le_succ _,h,none,rfl⟩

/-- Simulation: with fuel for the list and memory for a block, the dispatcher
over the linked list returns, and does what the one over the list of blocks does. -/
theorem tcpDispatch_simulates (h : Rep s l) (hf : l.length ≤ fuel) (halloc : env.alloc = true) (ha : s.heap a = none)
    (m : Mem) (o : Nat) : ∃ out l', tcpDispatch fuel env (some a) s m o = some out ∧ l'.length ≤ l.length + 1 ∧
      Matches out l' (Legacy.tcpDispatch env (abstract s l) m o) := by
  cases hfind : l.find? (fun e => e.2.id = segId m o) with
  | none => exact dispatch_absent_matches h hf (by simpa using hfind) halloc ha
  | some e =>
    obtain ⟨b,con⟩ := e
    obtain ⟨hid,pre,post,rfl,-⟩ := List.find?_eq_some_iff_append.mp hfind
    exact dispatch_stored_matches env (some a) h hf (by simpa using hid)

end Dispatch

/-- A packet that reaches tcp_dispatch, with the address malloc gives if it is called. -/
structure Input where
  buf : Mem
  offset : Nat
  env : Env
  addr : Addr

/-- One dispatch; none once the process is stuck or dead. -/
def linkedStep (fuel : Nat) (s : Option Instance) (i : Input) : Option Instance :=
  s.bind fun s => (tcpDispatch fuel i.env (if i.env.alloc then some i.addr else none) s i.buf i.offset).map Outcome.server

/-- malloc does not fail, and gives memory that is not in use. -/
def AllocSucceeds (s : Option Instance) (i : Input) : Prop :=
  i.env.alloc = true ∧ ∀ t, s = some t → t.heap i.addr = none

/-- The connection list and the three functions on it: the blocks of l, in
order, each at its address. -/
structure ListInvariant (fuel : Nat) (s : Instance) (l : List (Addr × TCB)) : Prop where
  finite : Path s.heap s.head l none
  acyclic : (addrs l).Nodup
  distinct : (l.map fun e => e.2.id).Nodup
  counted : s.size = l.length
  lookup : ∀ id, (∃ a tcb, tcpGetState fuel id s = some (some a) ∧ (a,tcb) ∈ l ∧ tcb.id = id) ∨
    (tcpGetState fuel id s = some none ∧ ∀ e ∈ l, e.2.id ≠ id)
  insert : ∀ a tcb, s.heap a = none → (∀ e ∈ l, e.2.id ≠ tcb.id) →
    ∃ s', tcpInsertTcb fuel (some a) { s with heap := Function.update s.heap a (some ⟨tcb,none⟩) } = some s' ∧
      Path s'.heap s'.head (l ++ [(a,tcb)]) none ∧ s'.size = s.size + 1
  remove : ∀ pre a tcb post, l = pre ++ (a,tcb) :: post →
    ∃ s', tcpRemoveConnection fuel s a = some s' ∧ Path s'.heap s'.head (pre ++ post) none ∧ s'.heap a = none ∧
      s'.size = s.size - 1

private theorem Rep.invariant {fuel : Nat} {s : Instance} {l : List (Addr × TCB)} (h : Rep s l) (hf : l.length ≤ fuel) :
    ListInvariant fuel s l where
  finite := h.path
  acyclic := path_acyclic h.path
  distinct := h.ids
  counted := h.size
  lookup := by
    intro id
    rw [tcpGetState_eq h hf]
    cases hfind : l.find? (fun e => e.2.id = id) with
    | none => exact Or.inr ⟨rfl,by simpa using hfind⟩
    | some e => exact Or.inl ⟨e.1,e.2,rfl,List.mem_of_find?_eq_some hfind,by simpa using List.find?_some hfind⟩
  insert := by
    intro a tcb ha hid
    obtain ⟨s',hins,hrep,-⟩ := tcpInsertTcb_appends h tcb ha hid hf
    refine ⟨s',hins,hrep.path,?_⟩
    rw [hrep.size, h.size, List.length_append, List.length_singleton]
    rfl
  remove := by
    intro pre a tcb post hl
    obtain ⟨s',hrem,hrep,hfree⟩ := tcpRemoveConnection_removes h hl hf
    refine ⟨s',hrem,hrep.path,hfree,?_⟩
    rw [hrep.size, h.size, hl]
    simp only [List.length_append, List.length_cons]
    omega

/-- The run is alive, on a list no longer than the packets it has seen. -/
private def Running (fuel : Nat) (inputs : List Input) (t : Option Instance) : Prop :=
  inputs.length ≤ fuel → ∃ s l, t = some s ∧ Rep s l ∧ l.length ≤ inputs.length

/-- Step lemma. -/
private theorem linkedStep_running {fuel : Nat} {inputs : List Input} {t : Option Instance} {i : Input}
    (h : Running fuel inputs t) (ha : AllocSucceeds t i) : Running fuel (inputs ++ [i]) (linkedStep fuel t i) := by
  intro hle
  rw [List.length_append, List.length_singleton] at hle
  obtain ⟨s,l,rfl,hrep,hlen⟩ := h (by omega)
  obtain ⟨out,l',hout,hlen',hmatch,-⟩ := tcpDispatch_simulates hrep (show l.length ≤ fuel by omega) ha.1 (ha.2 s rfl)
    i.buf i.offset
  refine ⟨out.server,l',?_,hmatch,?_⟩
  · rw [linkedStep, Option.bind_some, ha.1, if_pos rfl, hout, Option.map_some]
  · rw [List.length_append, List.length_singleton]
    omega

/-- For every run from the empty list in which allocation succeeds: with fuel
for the packets of the run nothing gets stuck, and the list has the invariant. -/
theorem connectionList_invariant {fuel : Nat} {inputs : List Input} (hfuel : inputs.length ≤ fuel)
    (halloc : Along (linkedStep fuel) AllocSucceeds (some tcpInitServerInstance) inputs) :
    ∃ s l, run (linkedStep fuel) (some tcpInitServerInstance) inputs = some s ∧ ListInvariant fuel s l := by
  have hstart : Running fuel [] (some tcpInitServerInstance) := fun _ => ⟨_,[],rfl,.init,Nat.le_refl _⟩
  have hrun := halloc.history hstart fun _ _ h ha => linkedStep_running h ha
  obtain ⟨s,l,hs,hrep,hlen⟩ := hrun hfuel
  exact ⟨s,l,hs,hrep.invariant (hlen.trans hfuel)⟩

/-- The client's SYN, with its block at address 64. -/
theorem connectionList_client : ∃ s l,
    run (linkedStep 1) (some tcpInitServerInstance) [⟨craft clientId SYN 100 0 [],20,⟨77,true,.missing⟩,64⟩] = some s ∧
      ListInvariant 1 s l :=
  connectionList_invariant (Nat.le_refl 1) ⟨⟨rfl,fun _ ht => by cases ht; rfl⟩,trivial⟩

end LazyTcp.Legacy.Linked
