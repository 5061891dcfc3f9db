import LazyTcp.Refactor.Reach
import LazyTcp.Refactor.TableMap

/-! The representation invariant along runs of the dispatcher, whatever the
allocator answers. -/
namespace LazyTcp.Refactor
open General General.Wire

/-- A refused insertion keeps the representation, whatever map it is of. -/
theorem Tracks.refused {ht : HashTable} {M : ConMap} (h : Tracks ht M) {a : Allocs} {tcb : TCB}
    (hn : M tcb.id = none) (hr : (hashInsert a ht tcb).1 = false) : Tracks (hashInsert a ht tcb).2 M := by
  rcases hashInsert_refused hr with he | ⟨hi,buckets,he,-⟩
  · rwa [he]
  · obtain ⟨hw,hf⟩ := hashInsert_spec h.wf a tcb (by rw [h.find, hn])
    have hdata (i : Fin HT_SIZE) : (hashInsert a ht tcb).2.data i = ht.data i := by
      rw [h.wf.idle hi, hw.idle (by rw [he, hi])]
    refine ⟨hw,fun id => ?_,fun hinit => ?_,?_⟩
    · rw [hf id, hr, h.find]
      simp
    · rw [he, hi] at hinit
      cases hinit
    · have hsize : (hashInsert a ht tcb).2.size = ht.size := by rw [he]
      simp only [hdata, hsize]
      exact h.count

/-- A write through the pointer of a stored block changes no length. -/
private theorem Tracks.store {ht : HashTable} {M : ConMap} (h : Tracks ht M) {tcb : TCB} (hs : M tcb.id ≠ none) :
    Tracks (tcbStore ht tcb) (Function.update M tcb.id (some tcb)) := by
  obtain ⟨hw,hf⟩ := tcbStore_spec h.wf tcb (by rwa [h.find])
  have hlen (i : Fin HT_SIZE) : ((tcbStore ht tcb).buckets i).size = (ht.buckets i).size ∧
      ((tcbStore ht tcb).buckets i).capacity = (ht.buckets i).capacity := by
    by_cases hi : i = hashId tcb.id
    · subst hi
      have hkeys : (Keyed.update TCB.id tcb.id (fun _ => tcb) (ht.buckets (hashId tcb.id)).data).map TCB.id =
          (ht.buckets (hashId tcb.id)).data.map TCB.id := Keyed.update_keys (fun _ _ => rfl) _
      have hk := congrArg List.length hkeys
      rw [List.length_map, List.length_map] at hk
      simp only [tcbStore, Function.update_self, Vec.size, hk, and_self]
    · simp only [tcbStore, Function.update_of_ne hi, and_self]
  refine ⟨hw,fun id => ?_,fun hi i => ?_,?_⟩
  · rw [hf id, h.find, Function.update_apply]
  · rw [(hlen i).1, (hlen i).2]
    exact h.capacity hi i
  · have hdata (i : Fin HT_SIZE) : ((tcbStore ht tcb).data i).length = (ht.data i).length := (hlen i).1
    simp only [hdata]
    exact h.count

/-- What the state update and the final switch can do to the table that holds
the segment's block. -/
inductive Touched (ht : HashTable) : HashTable → Prop where
  | same : Touched ht ht
  | store (tcb : TCB) : hashFind ht tcb.id ≠ none → Touched ht (tcbStore ht tcb)
  | delete (tcb : TCB) : hashFind ht tcb.id = some tcb → Touched ht (hashDelete ht tcb)

private theorem dispatchOn_touched {ht : HashTable} (env : Env) (m : Mem) (len offset : Nat) {con : TCB}
    (hf : hashFind ht con.id = some con) : Touched ht (dispatchOn env m len offset con ht).table := by
  have hstored : hashFind ht con.id ≠ none := by simp [hf]
  unfold dispatchOn
  cases edgeOf (segFlags m offset) (segId m offset).dstPort con.state with
  | syn => exact .store _ (by split <;> exact hstored)
  | ack =>
    rw [tcbStateUpdate]
    split
    · exact .store _ hstored
    · exact .same
  | rst =>
    rw [tcbStateUpdate]
    split
    · exact .delete con hf
    · exact .same
  | sendRst => exact .delete con hf
  | data | fin | drop => exact .same

/-- Every dispatch touches the table it found, or the one hash_insert left for a
segment whose connection was unknown. -/
theorem dispatch_touched {ht : HashTable} (h : ht.WF) (p : Packet) (env : Env) :
    Touched ht (p.dispatch env ht).table ∨ hashFind ht p.seg.id = none ∧
      Touched (hashInsert env.allocs ht (tcbInit p.seg.id)).2 (p.dispatch env ht).table := by
  rw [show p.seg.id = segId p.buf p.offset from rfl, Packet.dispatch, tcpDispatch_eq]
  cases checksumOk p.buf p.len p.offset with
  | false => exact Or.inl .same
  | true =>
    cases hf : hashFind ht (segId p.buf p.offset) with
    | some con =>
      have hid : con.id = segId p.buf p.offset := h.find_id hf
      exact Or.inl (dispatchOn_touched env p.buf p.len p.offset (by rw [hid, hf]))
    | none =>
      obtain ⟨-,hi⟩ := hashInsert_spec h env.allocs (tcbInit (segId p.buf p.offset)) hf
      cases env.allocs.tcb with
      | false => exact Or.inl .same
      | true =>
        right
        refine ⟨rfl,?_⟩
        rcases hr : hashInsert env.allocs ht (tcbInit (segId p.buf p.offset)) with ⟨ok,ht'⟩
        rw [hr] at hi
        cases ok with
        | false => exact .same
        | true => exact dispatchOn_touched env p.buf p.len p.offset (by rw [hi]; exact if_pos ⟨rfl,rfl⟩)

/-- No bucket has reached the size at which its doubled capacity wraps. -/
def Small (ht : HashTable) : Prop := ∀ b, (ht.buckets b).size < 2^31

/-- The table is a representation of the map hash_find reads from it. -/
def Tracked (ht : HashTable) : Prop := Tracks ht (hashFind ht)

theorem Tracks.tracked {ht : HashTable} {M : ConMap} (h : Tracks ht M) : Tracked ht :=
  ⟨h.wf,fun _ => rfl,h.capacity,h.count⟩

private theorem Tracked.touched {ht ht' : HashTable} (h : Tracked ht) (hm : Touched ht ht') : Tracked ht' := by
  cases hm with
  | same => exact h
  | store tcb hs => exact (h.store hs).tracked
  | delete tcb hs => exact (h.delete hs).tracked

private theorem Tracked.insert {ht : HashTable} (h : Tracked ht) {a : Allocs} {tcb : TCB} (hn : hashFind ht tcb.id = none)
    (hb : Small ht) : Tracked (hashInsert a ht tcb).2 := by
  cases hr : (hashInsert a ht tcb).1 with
  | true =>
    rw [hashInsert_accepted hr]
    exact (Tracks.insert h hn hb).tracked
  | false => exact (Tracks.refused h hn hr).tracked

private theorem Tracked.step {ht : HashTable} (h : Tracked ht) (i : Input) (hb : Small ht) :
    Tracked (tcpStep ht i) := by
  rw [tcpStep, Input.outcome]
  rcases dispatch_touched h.wf i.pkt i.env with hm | ⟨hn,hm⟩
  · exact h.touched hm
  · have hins : Tracked (hashInsert i.env.allocs ht (tcbInit i.pkt.seg.id)).2 := h.insert hn hb
    exact hins.touched hm

/-- Every table of a run, the last one included, is small. -/
def SmallRun (inputs : List Input) : Prop := ∀ pre, pre <+: inputs → Small (run tcpStep .empty pre)

/-- Whatever segments arrive and whatever the allocator answers, the table stays
a representation of its map. -/
theorem tracked_run {inputs : List Input} (small : SmallRun inputs) : Tracked (run tcpStep .empty inputs) := by
  induction inputs using List.reverseRecOn with
  | nil =>
    rw [run_nil]
    exact Tracks.empty.tracked
  | append_singleton inputs i ih =>
    rw [run_snoc]
    exact (ih fun pre hp => small pre (hp.trans (List.prefix_append inputs [i]))).step i
      (small inputs (List.prefix_append inputs [i]))

private theorem Touched.size_le {ht ht' : HashTable} (hm : Touched ht ht') (b : Fin HT_SIZE) :
    (ht'.buckets b).size ≤ (ht.buckets b).size := by
  cases hm with
  | same => exact le_rfl
  | store tcb =>
    by_cases hb : b = hashId tcb.id
    · subst hb
      have hkeys : (Keyed.update TCB.id tcb.id (fun _ => tcb) (ht.buckets (hashId tcb.id)).data).map TCB.id =
          (ht.buckets (hashId tcb.id)).data.map TCB.id := Keyed.update_keys (fun _ _ => rfl) _
      have hlen := congrArg List.length hkeys
      rw [List.length_map, List.length_map] at hlen
      simp only [tcbStore, Function.update_self, Vec.size, hlen, le_rfl]
    · simp only [tcbStore, Function.update_of_ne hb, le_rfl]
  | delete tcb =>
    rw [hashDelete]
    split
    · exact le_rfl
    · by_cases hb : b = hashId tcb.id
      · subst hb
        simp only [Function.update_self]
        exact vecDelete_size _ tcb
      · simp only [Function.update_of_ne hb, le_rfl]

/-- A segment adds at most one entry to a bucket. -/
private theorem tcpStep_size {ht : HashTable} (h : ht.WF) (i : Input) (b : Fin HT_SIZE) :
    ((tcpStep ht i).buckets b).size ≤ (ht.buckets b).size + 1 := by
  rcases dispatch_touched h i.pkt i.env with hm | ⟨hn,hm⟩
  · exact (hm.size_le b).trans (Nat.le_succ _)
  · refine (hm.size_le b).trans ?_
    cases hr : (hashInsert i.env.allocs ht (tcbInit i.pkt.seg.id)).1 with
    | true =>
      rw [hashInsert_accepted hr]
      exact tableStep_size ht (.insert _) b
    | false =>
      rcases hashInsert_refused hr with he | ⟨hi,buckets,he,hd⟩
      · rw [he]
        exact Nat.le_succ _
      · rw [he, Vec.size, hd (h.idle hi) b]
        exact Nat.zero_le _

/-- The table stays small for 2^31 segments at least. -/
theorem smallRun_of_length {inputs : List Input} (h : inputs.length < 2^31) : SmallRun inputs := by
  have hsize (pre : List Input) (b : Fin HT_SIZE) : ((run tcpStep .empty pre).buckets b).size ≤ pre.length := by
    induction pre using List.reverseRecOn with
    | nil => exact le_rfl
    | append_singleton pre i ih =>
      have hstep := tcpStep_size (TableReachable.inv ⟨pre,rfl⟩).wf i b
      rw [run_snoc, List.length_append, List.length_singleton]
      omega
  intro pre hp b
  exact ((hsize pre b).trans hp.length_le).trans_lt h

end LazyTcp.Refactor
