import LazyTcp.Refactor.Craft
import LazyTcp.Refactor.PointerDestroy

/-! The dispatcher over the heap refines the dispatcher over blocks, step by step
and along whole runs, so no run is ever stuck. -/
namespace LazyTcp.Refactor.Pointers
open General General.Wire General.Blocks

section Dispatch
variable {L : Set Addr} {t : HashTable} {ht : Refactor.HashTable} {B : Fin HT_SIZE → List (Addr × TCB)}
  {a : Addr} {x : TCB}

/-- A block that malloc gave, before the table has it. -/
private theorem Rep.malloc (h : Rep L [] t ht B) (ha : t.heap a = none) (x : TCB) :
    Rep L [(a,x)] { t with heap := t.heap.put a (.tcb x) } ht B := by
  refine ⟨h.wf,h.init,h.size,h.values,h.capacity,h.length,fun b y => ?_,fun hi i => ?_,h.separate,fun b c hb => ?_⟩
  · rw [readTcb_put]
    constructor
    · intro hb
      split at hb
      case isTrue hba =>
        cases hb
        exact Or.inl (List.mem_singleton.mpr (by rw [hba]))
      case isFalse => exact Or.inr (((h.live b y).mp hb).resolve_left List.not_mem_nil)
    · rintro (hb | hb)
      · cases List.mem_singleton.mp hb
        rw [if_pos rfl]
      · have hy := (h.live b y).mpr (Or.inr hb)
        rw [if_neg]
        · exact hy
        · rintro rfl
          rw [readTcb, ha] at hy
          cases hy
  · obtain ⟨d,cells,harr⟩ := h.arrays hi i
    exact ⟨d,cells,harr.frame (Heap.put_other (Heap.ne_of_live ha harr.live))⟩
  · by_cases hba : b = a
    · rw [hba] at hb
      cases Heap.put_self.symm.trans hb
    · exact h.owned b c ((Heap.put_other hba).symm.trans hb)

/-- free of a block that hash_insert refused. -/
private theorem Rep.discard (h : Rep L [(a,x)] t ht B) (hn : Refactor.hashFind ht x.id = none) :
    ∃ heap, t.heap.free a = some heap ∧ Rep L [] { t with heap := heap } ht B := by
  have hx : readTcb t.heap a = some x := (h.live a x).mpr (Or.inl (List.mem_singleton.mpr rfl))
  obtain ⟨b,hb⟩ : ∃ b, t.heap a = some b := by
    rw [readTcb] at hx
    obtain ⟨b,hb,-⟩ := Option.bind_eq_some_iff.mp hx
    exact ⟨b,hb⟩
  have hread (b : Addr) : readTcb (Function.update t.heap a none) b = if b = a then none else readTcb t.heap b := by
    by_cases hba : b = a
    · rw [hba, if_pos rfl, readTcb, Function.update_self]
      rfl
    · rw [if_neg hba, readTcb, Function.update_of_ne hba]
      rfl
  -- A refused block is no entry: its id is not in the table.
  have hfresh : ∀ i y, (a,y) ∉ B i := by
    intro i y hm
    obtain rfl : x = y := Option.some.inj (hx.symm.trans (h.owns i _ hm))
    have hhome := h.home hm
    rw [h.find_value, hhome, (Keyed.find_eq_some_iff (h.ids i)).mpr ⟨hm,rfl⟩] at hn
    cases hn
  refine ⟨_,Heap.free_live hb,h.wf,h.init,h.size,h.values,h.capacity,h.length,fun b y => ?_,fun hi i => ?_,h.separate,
    fun b c hb => ?_⟩
  · rw [hread]
    constructor
    · intro hy
      split at hy
      case isTrue => cases hy
      case isFalse hba =>
        refine Or.inr (((h.live b y).mp hy).resolve_left fun hm => hba ?_)
        exact congrArg Prod.fst (List.mem_singleton.mp hm)
    · rintro (hm | ⟨i,hm⟩)
      · cases hm
      · rw [if_neg]
        · exact h.owns i _ hm
        · rintro rfl
          exact hfresh i y hm
  · obtain ⟨d,cells,harr⟩ := h.arrays hi i
    exact ⟨d,cells,harr.frame (Function.update_of_ne (harr.ne_entry hx) ..)⟩
  · by_cases hba : b = a
    · rw [hba] at hb
      cases (Function.update_self (f := t.heap) ..).symm.trans hb
    · exact h.owned b c ((Function.update_of_ne hba ..).symm.trans hb)

/-- A reply and the table behind it stand for those of the dispatcher over blocks. -/
def Matches (L : Set Addr) (r : Option Reply) (o : Refactor.Reply) : Prop :=
  ∃ t B, r = some ⟨o.ret,o.buf,t⟩ ∧ Rep L [] t o.table B

/-- The dispatch from the block at a on. -/
private def dispatchAt (env : Env) (m : Mem) (len offset : Nat) (a : Addr) (t : HashTable) : Option Reply :=
  (parsed (segFlags m offset) (segId m offset) a t).bind fun (edge,tcb,t) =>
    (tcbStateUpdate env.iss m offset t tcb edge).bind fun (ok,t) =>
      tcpSwitch env.stale m len offset t tcb (if ok then edge else .drop)

private theorem readTcb_written (h : Heap Block) (a : Addr) (y : TCB) : readTcb (h.put a (.tcb y)) a = some y := by
  rw [readTcb_put, if_pos rfl]

private theorem dispatchAt_matches (h : Rep L [] t ht B) {i : Fin HT_SIZE} (hm : (a,x) ∈ B i) (env : Env) (m : Mem)
    (len offset : Nat) : Matches L (dispatchAt env m len offset a t) (dispatchOn env m len offset x ht).toReply := by
  have hx : readTcb t.heap a = some x := h.owns i _ hm
  obtain ⟨td,hdel,hrep⟩ := h.delete hm
  unfold dispatchAt dispatchOn parsed
  rw [hx, Option.map_some, Option.bind_some]
  -- Each edge writes through the pointer, deletes it or leaves the table alone.
  cases edgeOf (segFlags m offset) (segId m offset).dstPort x.state with
  | syn =>
    have hu : Refactor.tcbStateUpdate env.iss m offset ht x .syn =
        (true,halfOpen env.iss (segment m offset) x,tcbStore ht (halfOpen env.iss (segment m offset) x)) := by
      unfold Refactor.tcbStateUpdate halfOpen
      cases hc : x.state <;> rfl
    have hp : tcbStateUpdate env.iss m offset t (some a) .syn =
        some (true,{ t with heap := t.heap.put a (.tcb (halfOpen env.iss (segment m offset) x)) }) := by
      simp only [tcbStateUpdate, Option.bind_some, hx, Option.map_some]
      unfold halfOpen
      cases hc : x.state <;> rfl
    rw [hu]
    simp only [reduceCtorEq, if_false, hp, Option.bind_some, if_true, tcpSwitch, readTcb_written, Option.map_some]
    exact ⟨_,_,rfl,h.write hm (halfOpen_id ..)⟩
  | ack =>
    by_cases hack : ntohl (tcpAckNum m offset) = x.send.next
    · have hu : Refactor.tcbStateUpdate env.iss m offset ht x .ack =
          (true,acknowledged (segment m offset) x,tcbStore ht (acknowledged (segment m offset) x)) := if_pos hack
      rw [hu]
      simp only [reduceCtorEq, if_false, tcbStateUpdate, Option.bind_some, hx, Option.map_some, if_pos hack, if_true,
        tcpSwitch]
      exact ⟨_,_,rfl,h.write hm (acknowledged_id (segment m offset) x)⟩
    · have hu : Refactor.tcbStateUpdate env.iss m offset ht x .ack = (false,x,ht) := if_neg hack
      rw [hu]
      simp only [reduceCtorEq, if_false, tcbStateUpdate, Option.bind_some, hx, Option.map_some, if_neg hack,
        Bool.false_eq_true, tcpSwitch]
      exact ⟨_,_,rfl,h⟩
  | rst =>
    by_cases hw : inWindow (ntohl (tcpSeqNum m offset)) x.recv
    · have hu : Refactor.tcbStateUpdate env.iss m offset ht x .rst = (true,x,Refactor.hashDelete ht x) := if_pos hw
      have hp : tcbStateUpdate env.iss m offset t (some a) .rst = some (true,td) := by
        simp only [tcbStateUpdate, Option.bind_some, hx, hdel, Option.map_some]
        exact if_pos hw
      rw [hu]
      simp only [reduceCtorEq, if_false, hp, Option.bind_some, if_true, tcpSwitch]
      exact ⟨_,_,rfl,hrep⟩
    · have hu : Refactor.tcbStateUpdate env.iss m offset ht x .rst = (false,x,ht) := if_neg hw
      have hp : tcbStateUpdate env.iss m offset t (some a) .rst = some (false,t) := by
        simp only [tcbStateUpdate, Option.bind_some, hx, hdel, Option.map_some]
        exact if_neg hw
      rw [hu]
      simp only [reduceCtorEq, if_false, hp, Option.bind_some, Bool.false_eq_true, tcpSwitch]
      exact ⟨_,_,rfl,h⟩
  | sendRst =>
    simp only [reduceCtorEq, if_false, tcbStateUpdate, Option.bind_some, if_true, tcpSwitch, hdel, Option.map_some]
    exact ⟨_,_,rfl,hrep⟩
  | data | fin | drop => exact ⟨_,_,rfl,h⟩

/-- The answers of malloc and realloc during the dispatch of a segment with the
id are fresh, each when it is given. -/
structure Fresh (t : HashTable) (id : ID) (m : Mallocs) : Prop where
  tcb : ∀ p, m.tcb = some p → t.heap p = none
  insert : ∀ p, m.tcb = some p → FreshFor (hashId id) m { t with heap := t.heap.put p (.tcb (tcbInit id)) }

/-- Entries the doubled capacity can hold. -/
private theorem Rep.small (h : Rep L [] t ht B) (hs : Small ht) (i : Fin HT_SIZE) : (B i).length < 2^31 := by
  have hl := congrArg List.length (h.values i)
  rw [List.length_map] at hl
  rw [hl]
  exact hs i

/-- The dispatcher over the heap does what the dispatcher over blocks does. -/
theorem tcpDispatch_matches (h : Rep L [] t ht B) (hs : Small ht) (env : Env) {ms : Mallocs} (m : Mem) (len offset : Nat)
    (ha : env.allocs = ms.allocs) (hf : Fresh t (segId m offset) ms) :
    Matches (L ∪ stranded ms) (tcpDispatch env ms t m len offset) (Refactor.tcpDispatch env ht m len offset).toReply := by
  have hmore : Rep (L ∪ stranded ms) [] t ht B := h.mono Set.subset_union_left
  rw [tcpDispatch_eq, checksumOk]
  by_cases hv : tcpChecksumField m offset = tcpChecksum m len offset
  case neg =>
    rw [tcpDispatch, if_pos hv, decide_eq_false hv]
    exact ⟨t,B,rfl,hmore⟩
  rw [tcpDispatch, if_neg (not_not_intro hv), decide_eq_true hv, if_pos rfl, tcpParseEdge, h.find, h.find_value,
    Option.bind_some]
  cases hk : Keyed.find key (segId m offset) (B (hashId (segId m offset))) with
  | some e =>
    have hm := (Keyed.find_eq_some_iff (h.ids _)).mp hk
    exact dispatchAt_matches hmore hm.1 env m len offset
  | none =>
    simp only [Option.map_none, Option.elim_none, ha]
    cases hp : ms.tcb with
    | none =>
      have hfail : ms.allocs.tcb = false := by rw [Mallocs.allocs, hp]; rfl
      rw [hfail]
      exact ⟨t,B,rfl,hmore⟩
    | some p =>
      have hgiven : ms.allocs.tcb = true := by rw [Mallocs.allocs, hp]; rfl
      rw [hgiven, if_pos rfl]
      have hn : Refactor.hashFind ht (tcbInit (segId m offset)).id = none := by
        rw [h.find_value, show (tcbInit (segId m offset)).id = segId m offset from rfl, hk]
        rfl
      have hbeside := h.malloc (hf.tcb p hp) (tcbInit (segId m offset))
      obtain ⟨⟨ok,t'⟩,hins,hok,hrep⟩ := hbeside.insert hn (h.small hs _) (hf.insert p hp)
      have hw := (hashInsert_spec h.wf ms.allocs (tcbInit (segId m offset)) hn).2 (tcbInit (segId m offset)).id
      simp only [hins, Option.bind_some]
      rcases hr : Refactor.hashInsert ms.allocs ht (tcbInit (segId m offset)) with ⟨ok',ht'⟩
      rw [hr] at hok hrep hw
      obtain rfl : ok = ok' := hok
      cases ok with
      | false =>
        have hn' : Refactor.hashFind ht' (tcbInit (segId m offset)).id = none := by
          refine Eq.trans ?_ hn
          simpa using hw
        obtain ⟨heap,hfree,hback⟩ := Rep.discard hrep hn'
        simp only [hfree, Option.map_some, Option.bind_some]
        exact ⟨_,B,rfl,hback⟩
      | true =>
        have hm : (p,tcbInit (segId m offset)) ∈ Function.update B (hashId (segId m offset))
            (B (hashId (segId m offset)) ++ [(p,tcbInit (segId m offset))]) (hashId (segId m offset)) := by
          rw [Function.update_self]
          exact List.mem_append_right _ (List.mem_singleton.mpr rfl)
        exact dispatchAt_matches hrep hm env m len offset

end Dispatch

/-- One call of tcp_dispatch, with what the outside decides during it. -/
structure Call where
  pkt : Packet
  iss : U32
  stale : Stale
  mallocs : Mallocs

namespace Call

def input (c : Call) : Input := ⟨c.pkt,c.iss,c.mallocs.allocs,c.stale⟩

def dispatch (t : HashTable) (c : Call) : Option Reply :=
  tcpDispatch c.input.env c.mallocs t c.pkt.buf c.pkt.len c.pkt.offset

end Call

/-- A run that is stuck stays stuck. -/
def pointerStep (t : Option HashTable) (c : Call) : Option HashTable := t.bind fun t => (c.dispatch t).map Reply.table

def FreshCall (t : Option HashTable) (c : Call) : Prop := ∀ t' ∈ t, Fresh t' c.pkt.seg.id c.mallocs

/-- What the dispatcher over blocks is left with after the same segments. -/
def blocksAfter (calls : List Call) : Refactor.HashTable := run tcpStep .empty (calls.map Call.input)

/-- The arrays that a failed hash_init of the run left behind. -/
def leftBehind (calls : List Call) : Set Addr := {a | ∃ c ∈ calls, a ∈ stranded c.mallocs}

section Runs
variable {calls : List Call}

private theorem dispatch_matches {L : Set Addr} {t : HashTable} {ht : Refactor.HashTable}
    {B : Fin HT_SIZE → List (Addr × TCB)} (h : Rep L [] t ht B) (hs : Small ht) {c : Call}
    (hf : Fresh t c.pkt.seg.id c.mallocs) : Matches (L ∪ stranded c.mallocs) (c.dispatch t) (c.input.outcome ht).toReply :=
  tcpDispatch_matches h hs c.input.env c.pkt.buf c.pkt.len c.pkt.offset rfl hf

/-- The two levels stay together along every run. -/
theorem run_matches (fresh : Along pointerStep FreshCall (some .empty) calls) (small : SmallRun (calls.map Call.input)) :
    ∃ t B, run pointerStep (some .empty) calls = some t ∧ Rep (leftBehind calls) [] t (blocksAfter calls) B := by
  induction calls using List.reverseRecOn with
  | nil => exact ⟨.empty,_,run_nil _,Rep.empty.mono (Set.empty_subset _)⟩
  | append_singleton calls c ih =>
    rw [Along.append] at fresh
    rw [List.map_append] at small
    have hpre := List.prefix_append (calls.map Call.input) ([c].map Call.input)
    obtain ⟨t,B,hrun,hrep⟩ := ih fresh.1 fun pre hp => small pre (hp.trans hpre)
    have hfresh : FreshCall (run pointerStep (some .empty) calls) c := fresh.2.1
    obtain ⟨t',B',hstep,hrep'⟩ := dispatch_matches hrep (small _ hpre) (hfresh t hrun)
    refine ⟨t',B',?_,?_⟩
    · rw [run_snoc, hrun, pointerStep, Option.bind_some, hstep]
      rfl
    · have hlast : blocksAfter (calls ++ [c]) = (c.input.outcome (blocksAfter calls)).table := by
        rw [blocksAfter, List.map_append]
        exact run_snoc ..
      rw [hlast]
      refine hrep'.mono ?_
      rintro a (⟨c',hc',ha⟩ | ha)
      · exact ⟨c',List.mem_append_left _ hc',ha⟩
      · exact ⟨c,List.mem_append_right _ (List.mem_singleton.mpr rfl),ha⟩

/-- The client's SYN and its reset, with one block for the connection and one
array for each bucket. -/
private def clientMallocs : Mallocs := ⟨some 1,fun i => some (i.val + 2),none⟩

private def clientCalls : List Call :=
  [⟨.crafted clientId SYN 100 0,77,⟨0,0,0⟩,clientMallocs⟩,⟨.crafted clientId RST 101 0,77,⟨0,0,0⟩,⟨none,fun _ => none,none⟩⟩]

private theorem clientCalls_fresh : Along pointerStep FreshCall (some .empty) clientCalls := by
  refine ⟨?_,?_,trivial⟩
  · rintro t ⟨⟩
    refine ⟨fun p _ => rfl,fun p hp => ⟨fun _ i q hq => ?_,fun i j q hi hj => ?_,fun hinit => nomatch hinit⟩⟩
    · cases hp
      cases hq
      rfl
    · have hij : i.val + 2 = j.val + 2 := Option.some.inj (hi.trans hj.symm)
      exact Fin.ext (by omega)
  · exact fun t _ => ⟨nofun,nofun⟩

end Runs

end LazyTcp.Refactor.Pointers
