import LazyTcp.Refactor.Craft
import LazyTcp.Refactor.Represented

/-! A dispatch during which an allocation fails: the allocator calls it makes,
what it leaves behind, and why no later packet can tell. -/
namespace LazyTcp.Refactor
open General General.Wire

/-- The answers of the vec_init calls of one hash_init, which stops at the first
failure. -/
def hashInitCalls (vec : Fin HT_SIZE → Bool) : List (Fin HT_SIZE) → List Bool
  | [] => []
  | i :: is => vec i :: if vec i then hashInitCalls vec is else []

/-- The answers of all allocator calls of one hash_insert, in the order made. -/
def hashInsertCalls (a : Allocs) (ht : HashTable) (tcb : TCB) : List Bool :=
  let opening := if ht.init then [] else hashInitCalls a.vec (List.finRange HT_SIZE)
  match if ht.init then (true,ht) else hashInit a ht with
  | (false,_) => opening
  | (true,ht) =>
    let cons := ht.buckets (hashId tcb.id)
    opening ++ if cons.size = cons.capacity then [a.grow] else []

/-- The same for tcp_parse_edge: a known connection allocates nothing. -/
def tcpParseEdgeCalls (a : Allocs) (ht : HashTable) (id : ID) : List Bool :=
  match hashFind ht id with
  | some _ => []
  | none => a.tcb :: if a.tcb then hashInsertCalls a ht (tcbInit id) else []

/-- A segment with a bad checksum is dropped before anything is allocated. -/
def Input.allocCalls (ht : HashTable) (i : Input) : List Bool :=
  if i.pkt.valid then tcpParseEdgeCalls i.env.allocs ht i.pkt.seg.id else []

/-- Some allocation made while the segment is dispatched fails. -/
def AllocFails (ht : HashTable) (i : Input) : Prop := false ∈ i.allocCalls ht

instance (ht : HashTable) (i : Input) : Decidable (AllocFails ht i) := inferInstanceAs (Decidable (false ∈ _))

private theorem hashInitCalls_ok {vec : Fin HT_SIZE → Bool} (h : ∀ i, vec i = true) (is : List (Fin HT_SIZE)) :
    false ∉ hashInitCalls vec is := by
  induction is with
  | nil => exact List.not_mem_nil
  | cons i is ih =>
    rw [hashInitCalls, h i, if_pos rfl, List.mem_cons]
    rintro (hc | hc)
    · cases hc
    · exact ih hc

/-- hash_insert has no way to go on after a failed allocation. -/
private theorem hashInsertCalls_refused {a : Allocs} {ht : HashTable} {tcb : TCB}
    (hf : false ∈ hashInsertCalls a ht tcb) : (hashInsert a ht tcb).1 = false := by
  cases hi : ht.init with
  | true =>
    simp only [hashInsertCalls, hi, if_true, List.nil_append] at hf
    rw [hashInsert_initialised hi]
    split at hf
    case isTrue hs => rw [if_pos ⟨hs,(List.mem_singleton.mp hf).symm⟩]
    case isFalse => cases hf
  | false =>
    rcases hashInsert_uninitialised hi a tcb with ⟨hv,-⟩ | ⟨-,buckets,he,-⟩
    · simp only [hashInsertCalls, hi, hashInit_ok hv, Bool.false_eq_true, if_false, List.mem_append] at hf
      rcases hf with hf | hf
      · exact absurd hf (hashInitCalls_ok hv _)
      · cases hf
    · rw [he]

/-- The one exit of a dispatch in which an allocation failed: the block is given
back and the segment dropped, with whatever hash_insert left of the table. -/
private theorem failed_exit {ht : HashTable} {i : Input} (hf : AllocFails ht i) :
    hashFind ht i.pkt.seg.id = none ∧ ∃ ht', i.outcome ht = ⟨⟨0,i.pkt.buf,ht'⟩,.drop⟩ ∧
      (ht' = ht ∨ (hashInsert i.env.allocs ht (tcbInit i.pkt.seg.id)).1 = false ∧
        ht' = (hashInsert i.env.allocs ht (tcbInit i.pkt.seg.id)).2) := by
  have hseg : i.pkt.seg.id = segId i.pkt.buf i.pkt.offset := rfl
  unfold AllocFails Input.allocCalls tcpParseEdgeCalls at hf
  rw [Input.outcome, Packet.dispatch, tcpDispatch_eq]
  split at hf
  case isFalse => cases hf
  case isTrue hv =>
    rw [show checksumOk i.pkt.buf i.pkt.len i.pkt.offset = true from hv, if_pos rfl, ← hseg]
    cases hn : hashFind ht i.pkt.seg.id with
    | some con => simp [hn] at hf
    | none =>
      refine ⟨rfl,?_⟩
      simp only [hn] at hf
      cases ha : i.env.allocs.tcb with
      | false => exact ⟨ht,rfl,Or.inl rfl⟩
      | true =>
        rw [ha, if_pos rfl, List.mem_cons] at hf
        have hr := hashInsertCalls_refused (hf.resolve_left Bool.false_ne_true)
        rcases he : hashInsert i.env.allocs ht (tcbInit i.pkt.seg.id) with ⟨ok,ht'⟩
        rw [he] at hr
        subst hr
        exact ⟨ht',rfl,Or.inr ⟨rfl,rfl⟩⟩

/-- A refused insertion takes nothing from what the table represents. -/
private theorem Represents.refused {ht : HashTable} {M : ConMap} (h : Represents ht M) (hw : ht.WF) {a : Allocs}
    {tcb : TCB} (hn : hashFind ht tcb.id = none) (hr : (hashInsert a ht tcb).1 = false) :
    Represents (hashInsert a ht tcb).2 M := by
  obtain ⟨hw',hf⟩ := hashInsert_spec hw a tcb hn
  have hfind (id : ID) : hashFind (hashInsert a ht tcb).2 id = M id := by
    rw [hf id, hr, ← h.find]
    simp
  rcases hashInsert_refused hr with he | ⟨hi,buckets,he,-⟩
  · rwa [he]
  · refine ⟨hfind,hw'.placed.home,hw'.once,fun hinit => ?_,?_⟩
    · rw [he, hi] at hinit
      cases hinit
    · rw [he]
      exact h.size

section Alike
variable {ht ht' : HashTable}

/-- Tables no dispatch can tell apart: what a failed hash_init left in the
buckets is overwritten before it is read. -/
def Alike (ht ht' : HashTable) : Prop := ht = ht' ∨ ht.init = false ∧ ht'.init = false

private theorem Alike.find (h : Alike ht ht') (id : ID) : hashFind ht id = hashFind ht' id := by
  rcases h with rfl | ⟨hi,hi'⟩
  · rfl
  · simp [hashFind, hi, hi']

/-- Both insertions succeed and leave one table, or both are refused. -/
private theorem Alike.insert (h : Alike ht ht') (a : Allocs) (tcb : TCB) :
    hashInsert a ht tcb = hashInsert a ht' tcb ∨
      ∃ t t', Alike t t' ∧ hashInsert a ht tcb = (false,t) ∧ hashInsert a ht' tcb = (false,t') := by
  rcases h with rfl | ⟨hi,hi'⟩
  · exact Or.inl rfl
  rcases hashInsert_uninitialised hi a tcb with ⟨hv,he⟩ | ⟨hv,buckets,he,-⟩
  · rcases hashInsert_uninitialised hi' a tcb with ⟨-,he'⟩ | ⟨hv',-⟩
    · left
      have hopen : opened ht = opened ht' := by simp [opened, hi, hi']
      rw [he, he', hashInsert_succeed, hashInsert_succeed, hopen]
    · exact absurd hv hv'
  · rcases hashInsert_uninitialised hi' a tcb with ⟨hv',-⟩ | ⟨-,buckets',he',-⟩
    · exact absurd hv' hv
    · exact Or.inr ⟨{ ht with buckets := buckets },{ ht' with buckets := buckets' },Or.inr ⟨hi,hi'⟩,he,he'⟩

private theorem Alike.dispatch (h : Alike ht ht') (env : Env) (m : Mem) (len offset : Nat) :
    SameReply (tcpDispatch env ht m len offset) (tcpDispatch env ht' m len offset) ∧
      Alike (tcpDispatch env ht m len offset).table (tcpDispatch env ht' m len offset).table := by
  have hfind : hashFind ht' (segId m offset) = hashFind ht (segId m offset) := (h.find _).symm
  rw [tcpDispatch_eq, tcpDispatch_eq, hfind]
  cases checksumOk m len offset with
  | false =>
    rw [if_neg Bool.false_ne_true, if_neg Bool.false_ne_true]
    exact ⟨⟨rfl,rfl,rfl⟩,h⟩
  | true =>
    rw [if_pos rfl, if_pos rfl]
    cases hf : hashFind ht (segId m offset) with
    | some con =>
      rcases h with rfl | ⟨hi,-⟩
      · exact ⟨⟨rfl,rfl,rfl⟩,Or.inl rfl⟩
      · simp [hashFind, hi] at hf
    | none =>
      cases env.allocs.tcb with
      | false =>
        simp only [Option.elim_none, Bool.false_eq_true, if_false]
        exact ⟨⟨rfl,rfl,rfl⟩,h⟩
      | true =>
        simp only [Option.elim_none, if_true]
        rcases h.insert env.allocs (tcbInit (segId m offset)) with he | ⟨t,t',ha,he,he'⟩
        · rw [he]
          exact ⟨⟨rfl,rfl,rfl⟩,Or.inl rfl⟩
        · rw [he, he', dispatchFresh, dispatchFresh]
          exact ⟨⟨rfl,rfl,rfl⟩,ha⟩

end Alike

/-- A buffer handed to net_demux, of whatever protocol. -/
structure Arrival where
  env : Env
  buf : Mem
  len : Nat

def netStep (ht : HashTable) (r : Arrival) : HashTable := (netDemux r.env ht r.buf r.len).table

/-- What net_demux hands back for it: the length and the buffer. -/
def netAnswer (ht : HashTable) (r : Arrival) : Nat × Mem :=
  ((netDemux r.env ht r.buf r.len).ret,(netDemux r.env ht r.buf r.len).buf)

private theorem Alike.net {ht ht' : HashTable} (h : Alike ht ht') (r : Arrival) :
    netAnswer ht r = netAnswer ht' r ∧ Alike (netStep ht r) (netStep ht' r) := by
  obtain ⟨⟨-,hret,hbuf⟩,htable⟩ := h.dispatch r.env r.buf r.len (ihlBytes r.buf)
  simp only [netAnswer, netStep, netDemux]
  split
  case isTrue => exact ⟨rfl,h⟩
  case isFalse =>
    split
    case isTrue => exact ⟨rfl,h⟩
    case isFalse =>
      split
      case isTrue => exact ⟨by rw [hret, hbuf],htable⟩
      case isFalse => exact ⟨rfl,h⟩

/-- For every table some run of the dispatcher leaves and every segment during
whose dispatch an allocation fails: nothing is sent, the map stays what it was
in a table that still represents it, and whatever arrives later is answered as
if the segment had never come. -/
theorem alloc_failure_invisible {inputs : List Input} {ht : HashTable} (hr : run tcpStep .empty inputs = ht)
    {i : Input} (hf : AllocFails ht i) :
    (i.outcome ht).ret = 0 ∧ (i.outcome ht).buf = i.pkt.buf ∧
    (∀ id, hashFind (tcpStep ht i) id = hashFind ht id) ∧
    (tcpStep ht i).WF ∧ (∀ M, Represents ht M → Represents (tcpStep ht i) M) ∧
    (SmallRun inputs → Represents (tcpStep ht i) (hashFind ht)) ∧
    ∀ later : List Arrival,
      shown netStep netAnswer (tcpStep ht i) later = shown netStep netAnswer ht later ∧
      ∀ id, hashFind (run netStep (tcpStep ht i) later) id = hashFind (run netStep ht later) id := by
  have hw : ht.WF := TableReachable.inv ⟨inputs,hr⟩ |>.wf
  obtain ⟨hn,ht',he,hcase⟩ := failed_exit hf
  have hstep : tcpStep ht i = ht' := by rw [tcpStep, he]
  have hkeep (M : ConMap) (h : Represents ht M) : Represents ht' M := by
    rcases hcase with rfl | ⟨hrefused,rfl⟩
    · exact h
    · exact h.refused hw hn hrefused
  have halike : Alike ht' ht := by
    rcases hcase with rfl | ⟨hrefused,rfl⟩
    · exact Or.inl rfl
    · rcases hashInsert_refused hrefused with hsame | ⟨hi,buckets,hb,-⟩
      · exact Or.inl hsame
      · exact Or.inr ⟨by rw [hb, hi],hi⟩
  rw [hstep, he]
  refine ⟨rfl,rfl,halike.find,?_,hkeep,fun small => hkeep _ ?_,fun later => ?_⟩
  · rw [← hstep]
    exact (tcpStep_inv (TableReachable.inv ⟨inputs,hr⟩) i).wf
  · subst hr
    exact (tracked_run small).represents (small inputs List.prefix_rfl)
  · have hlock (s s' : HashTable) (r : Arrival) (h : Alike s s') :
        netAnswer s r = netAnswer s' r ∧ Alike (netStep s r) (netStep s' r) := h.net r
    obtain ⟨hshown,hlast⟩ := run_related hlock halike later
    exact ⟨hshown,hlast.find⟩

/-- The SYN of the client when the malloc of the hundredth bucket fails. -/
private def midwaySyn : Input := ⟨clientSyn.pkt,⟨77,⟨true,fun b => b.val ≠ 100,true⟩,⟨0,0,0⟩⟩⟩

theorem alloc_failure_invisible_midway : (midwaySyn.outcome .empty).ret = 0 ∧
    netAnswer (tcpStep .empty midwaySyn) ⟨calmEnv,clientSyn.pkt.buf,40⟩ =
      netAnswer .empty ⟨calmEnv,clientSyn.pkt.buf,40⟩ := by
  have h := alloc_failure_invisible (run_nil HashTable.empty) (i := midwaySyn) (by decide +kernel)
  exact ⟨h.1,List.head_eq_of_cons_eq (h.2.2.2.2.2.2 [⟨calmEnv,clientSyn.pkt.buf,40⟩]).1⟩

end LazyTcp.Refactor
