import Mathlib.Algebra.Order.BigOperators.Group.Finset
import LazyTcp.Refactor.Table

/-! Sequences of table operations against the map from ID to TCB they stand
for. Every allocation succeeds here. -/
namespace LazyTcp.Refactor
open General

inductive TableOp where
  | insert (tcb : TCB)
  | delete (tcb : TCB)
  | find (id : ID)
  | destroy

def tableStep (ht : HashTable) : TableOp → HashTable
  | .insert tcb => (hashInsert .succeed ht tcb).2
  | .delete tcb => hashDelete ht tcb
  | .find _ => ht
  | .destroy => hashDestroy ht

abbrev ConMap := ID → Option TCB

/-- The map the operations stand for. -/
def mapStep (M : ConMap) : TableOp → ConMap
  | .insert tcb => Function.update M tcb.id (some tcb)
  | .delete tcb => Function.update M tcb.id none
  | .find _ => M
  | .destroy => fun _ => none

/-- Inserts are of absent ids and deletes of stored TCBs. -/
def Legal (M : ConMap) : TableOp → Prop
  | .insert tcb => M tcb.id = none
  | .delete tcb => M tcb.id = some tcb
  | _ => True

/-- The table holds exactly the map, in a representation hash.c and vector.c
can work with. -/
structure Represents (ht : HashTable) (M : ConMap) : Prop where
  find : ∀ id, hashFind ht id = M id
  home : ∀ i, ∀ tcb ∈ (ht.buckets i).data, hashId tcb.id = i
  once : ((List.finRange HT_SIZE).flatMap fun i => (ht.buckets i).data.map TCB.id).Nodup
  capacity : ht.init = true → ∀ i, (ht.buckets i).size ≤ (ht.buckets i).capacity ∧
    ∃ k, (ht.buckets i).capacity = DEF_CAP * 2^k
  size : ht.size.toNat = Set.ncard {id | (M id).isSome}

/-- What one operation preserves: the counter is tracked against the bucket
lengths, which no allocation bound is needed for. -/
structure Tracks (ht : HashTable) (M : ConMap) : Prop where
  wf : ht.WF
  find : ∀ id, hashFind ht id = M id
  capacity : ht.init = true → ∀ i, (ht.buckets i).size ≤ (ht.buckets i).capacity ∧
    ∃ k, (ht.buckets i).capacity = DEF_CAP * 2^k
  count : ht.size = BitVec.ofNat 64 (∑ i, (ht.data i).length)

/-- The counter is the number of entries in all buckets, modulo its width. -/
def CountExact (ht : HashTable) : Prop := ht.size = BitVec.ofNat 64 (∑ i, (ht.data i).length)

theorem CountExact.empty : CountExact .empty := by simp [CountExact, HashTable.empty, HashTable.data]

/-- hash_insert counts what vec_push appended, whether or not the id is stored. -/
theorem CountExact.insert {ht : HashTable} (h : CountExact ht) (tcb : TCB) :
    CountExact (hashInsert .succeed ht tcb).2 := by
  have hopen : CountExact (opened ht) := by
    unfold opened
    split
    case isTrue => exact h
    case isFalse => exact CountExact.empty
  have hsum := Keyed.sum_length_update (B := (opened ht).data) (hashId tcb.id)
    ((opened ht).data (hashId tcb.id) ++ [tcb])
  have hdata : (hashInsert .succeed ht tcb).2.data =
      Function.update (opened ht).data (hashId tcb.id) ((opened ht).data (hashId tcb.id) ++ [tcb]) := by
    rw [hashInsert_succeed, data_update]
    rfl
  have hone : ∑ i, ((hashInsert .succeed ht tcb).2.data i).length = ∑ i, ((opened ht).data i).length + 1 := by
    rw [hdata]
    rw [List.length_append, List.length_singleton] at hsum
    omega
  have hsize : (hashInsert .succeed ht tcb).2.size = (opened ht).size + 1 := by rw [hashInsert_succeed]
  rw [CountExact, hsize, hone, hopen, BitVec.ofNat_add]
  rfl

/-- hash_delete counts an entry off whether or not vec_delete found one. -/
theorem CountExact.delete_iff {ht : HashTable} (h : CountExact ht) (hi : ht.init = true) (tcb : TCB) :
    CountExact (hashDelete ht tcb) ↔ hashFind ht tcb.id ≠ none := by
  have hsize : (hashDelete ht tcb).size = ht.size - 1 := by rw [hashDelete_initialised hi]
  have hfind : hashFind ht tcb.id = Keyed.find TCB.id tcb.id (ht.data (hashId tcb.id)) := by
    simp [hashFind, hi, vecFind, HashTable.data]
  rw [CountExact, hsize, hashDelete_data hi, h, hfind]
  cases hf : Keyed.find TCB.id tcb.id (ht.data (hashId tcb.id)) with
  | some t =>
    have hlen := Keyed.length_swapDelete hf
    have hsum := Keyed.sum_length_update (B := ht.data) (hashId tcb.id)
      (Keyed.swapDelete TCB.id tcb.id (ht.data (hashId tcb.id)))
    have hprev : ∑ i, (ht.data i).length = ∑ i, (Function.update ht.data (hashId tcb.id)
        (Keyed.swapDelete TCB.id tcb.id (ht.data (hashId tcb.id))) i).length + 1 := by omega
    rw [hprev, BitVec.ofNat_add]
    exact iff_of_true (BitVec.add_sub_cancel _ _) (Option.some_ne_none t)
  | none =>
    rw [Keyed.swapDelete_of_find_none hf, Function.update_eq_self]
    exact iff_of_false (fun heq => absurd (sub_eq_self.mp heq) (by decide)) fun hne => hne rfl

theorem CountExact.destroy {ht : HashTable} (h : CountExact ht) : CountExact (hashDestroy ht) := by
  unfold hashDestroy
  split
  case isTrue => exact h
  case isFalse => exact CountExact.empty

theorem Tracks.empty : Tracks .empty (fun _ => none) :=
  ⟨.empty,fun _ => rfl,fun h => absurd h (by decide),CountExact.empty⟩

theorem vecDelete_size (v : Vec) (tcb : TCB) : (vecDelete v tcb).size ≤ v.size := by
  simp only [Vec.size, vecDelete]
  cases hf : Keyed.find TCB.id tcb.id v.data with
  | none => rw [Keyed.swapDelete_of_find_none hf]
  | some t =>
    have := Keyed.length_swapDelete hf
    omega

private theorem opened_capacity {ht : HashTable} (h : ht.init = true → ∀ i,
      (ht.buckets i).size ≤ (ht.buckets i).capacity ∧ ∃ k, (ht.buckets i).capacity = DEF_CAP * 2^k)
    (i : Fin HT_SIZE) : ((opened ht).buckets i).size ≤ ((opened ht).buckets i).capacity ∧
      ∃ k, ((opened ht).buckets i).capacity = DEF_CAP * 2^k := by
  unfold opened
  split
  case isTrue hi => exact h hi i
  case isFalse => exact ⟨Nat.zero_le _,0,rfl⟩

/-- Below 2^31 entries the doubled capacity does not wrap. -/
private theorem pushed_capacity {v : Vec} (tcb : TCB) (hs : v.size < 2^31) (hc : v.size ≤ v.capacity)
    (hk : ∃ k, v.capacity = DEF_CAP * 2^k) :
    (pushed v tcb).size ≤ (pushed v tcb).capacity ∧ ∃ k, (pushed v tcb).capacity = DEF_CAP * 2^k := by
  obtain ⟨k,hk⟩ := hk
  have hp : 0 < v.capacity := by
    rw [hk]
    exact Nat.mul_pos (by decide) (Nat.two_pow_pos k)
  have hsize : (pushed v tcb).size = v.size + 1 := by simp [pushed, Vec.size]
  rw [hsize]
  unfold pushed
  split
  case isTrue he =>
    have hmod : v.capacity * 2 % 2^32 = v.capacity * 2 := Nat.mod_eq_of_lt (by omega)
    refine ⟨by simp only [hmod]; omega,k+1,?_⟩
    simp only [hmod]
    rw [hk, Nat.pow_succ, Nat.mul_assoc]
  case isFalse he => exact ⟨by simp only; omega,k,hk⟩

theorem Tracks.insert {ht : HashTable} {M : ConMap} (h : Tracks ht M) {tcb : TCB}
    (hn : M tcb.id = none) (hb : ∀ i, (ht.buckets i).size < 2^31) :
    Tracks (hashInsert .succeed ht tcb).2 (Function.update M tcb.id (some tcb)) := by
  have hnone : hashFind ht tcb.id = none := by rw [h.find, hn]
  obtain ⟨hw,hf⟩ := hashInsert_spec h.wf .succeed tcb hnone
  have he := hashInsert_succeed ht tcb
  refine ⟨hw,fun id => ?_,fun _ i => ?_,CountExact.insert h.count tcb⟩
  · rw [hf id, h.find, Function.update_apply, he]
    simp
  · rw [he]
    have hcap := opened_capacity h.capacity
    by_cases hi : i = hashId tcb.id
    · subst hi
      have hsmall : ((opened ht).buckets (hashId tcb.id)).size < 2^31 := by
        have hd := congrFun (opened_data h.wf) (hashId tcb.id)
        have := hb (hashId tcb.id)
        simp only [Vec.size, HashTable.data] at hd this ⊢
        rwa [hd]
      simp only [Function.update_self]
      exact pushed_capacity tcb hsmall (hcap _).1 (hcap _).2
    · simp only [Function.update_of_ne hi]
      exact hcap i

theorem Tracks.delete {ht : HashTable} {M : ConMap} (h : Tracks ht M) {tcb : TCB}
    (hs : M tcb.id = some tcb) : Tracks (hashDelete ht tcb) (Function.update M tcb.id none) := by
  obtain ⟨hw,hf⟩ := hashDelete_spec h.wf tcb
  have hstored : hashFind ht tcb.id = some tcb := by rw [h.find, hs]
  have hne : hashFind ht tcb.id ≠ none := by simp [hstored]
  have hi := initialised_of_find hne
  refine ⟨hw,fun id => ?_,fun _ i => ?_,(CountExact.delete_iff h.count hi tcb).mpr hne⟩
  · rw [hf id, h.find, Function.update_apply]
  · rw [hashDelete_initialised hi]
    have hcap := h.capacity hi
    by_cases hj : i = hashId tcb.id
    · subst hj
      simp only [Function.update_self]
      exact ⟨(vecDelete_size _ tcb).trans (hcap _).1,(hcap _).2⟩
    · simp only [Function.update_of_ne hj]
      exact hcap i

private theorem Tracks.destroy {ht : HashTable} {M : ConMap} (h : Tracks ht M) :
    Tracks (hashDestroy ht) (fun _ => none) := by
  cases hi : ht.init with
  | true =>
    have he : hashDestroy ht = ⟨fun _ => vecDestroy,0,false⟩ := by simp [hashDestroy, hi]
    rw [he]
    exact Tracks.empty
  | false =>
    have he : hashDestroy ht = ht := by simp [hashDestroy, hi]
    rw [he]
    exact ⟨h.wf,hashFind_uninitialised hi,h.capacity,h.count⟩

private theorem Tracks.step {ht : HashTable} {M : ConMap} (h : Tracks ht M) {op : TableOp}
    (hl : Legal M op) (hb : ∀ i, (ht.buckets i).size < 2^31) : Tracks (tableStep ht op) (mapStep M op) := by
  cases op with
  | insert tcb => exact h.insert hl hb
  | delete tcb => exact h.delete hl
  | find id => exact h
  | destroy => exact h.destroy

/-- No id is stored twice in the whole table: each bucket repeats none, and
equal ids hash to one bucket. -/
theorem HashTable.WF.once {ht : HashTable} (h : ht.WF) :
    ((List.finRange HT_SIZE).flatMap fun i => (ht.buckets i).data.map TCB.id).Nodup := by
  rw [List.nodup_flatMap]
  refine ⟨fun i _ => h.placed.nodup i,(List.nodup_finRange HT_SIZE).imp ?_⟩
  intro i j hij id hi hj
  obtain ⟨t,ht,rfl⟩ := List.mem_map.mp hi
  obtain ⟨u,hu,e⟩ := List.mem_map.mp hj
  exact hij (by rw [← h.placed.home i t ht, ← e, h.placed.home j u hu])

theorem Tracks.represents {ht : HashTable} {M : ConMap} (h : Tracks ht M)
    (hb : ∀ i, (ht.buckets i).size < 2^31) : Represents ht M := by
  refine ⟨h.find,h.wf.placed.home,h.wf.once,h.capacity,?_⟩
  have hsum : ∑ i, (ht.data i).length < 2^64 := by
    calc ∑ i, (ht.data i).length ≤ ∑ _i : Fin HT_SIZE, 2^31 :=
          Finset.sum_le_sum fun i _ => (hb i).le
      _ = HT_SIZE * 2^31 := by simp
      _ < 2^64 := by decide
  have hset : {id | (M id).isSome} = {id | (Keyed.lookup hashId TCB.id ht.data id).isSome} := by
    ext id
    simp only [Set.mem_ofPred_eq, ← h.find, h.wf.find_eq]
  rw [hset, ← Keyed.sum_length_eq_ncard h.wf.placed, h.count, BitVec.toNat_ofNat, Nat.mod_eq_of_lt hsum]

private theorem opened_size (ht : HashTable) (i : Fin HT_SIZE) :
    ((opened ht).buckets i).size ≤ (ht.buckets i).size := by
  unfold opened
  split
  · exact le_rfl
  · exact Nat.zero_le _

/-- One operation adds at most one entry to a bucket. -/
theorem tableStep_size (ht : HashTable) (op : TableOp) (i : Fin HT_SIZE) :
    ((tableStep ht op).buckets i).size ≤ (ht.buckets i).size + 1 := by
  cases op with
  | insert tcb =>
    have hopen := opened_size ht i
    rw [tableStep, hashInsert_succeed]
    by_cases hi : i = hashId tcb.id
    · subst hi
      simp only [Function.update_self, pushed, Vec.size, List.length_append, List.length_singleton] at hopen ⊢
      omega
    · simp only [Function.update_of_ne hi]
      omega
  | delete tcb =>
    simp only [tableStep, hashDelete]
    split
    · exact Nat.le_succ _
    · by_cases hi : i = hashId tcb.id
      · subst hi
        simp only [Function.update_self]
        exact (vecDelete_size _ tcb).trans (Nat.le_succ _)
      · simp only [Function.update_of_ne hi]
        exact Nat.le_succ _
  | find id => exact Nat.le_succ _
  | destroy =>
    simp only [tableStep, hashDestroy]
    split
    · exact Nat.le_succ _
    · exact Nat.zero_le _

/-- The bound on the buckets holds of every sequence of fewer than 2^31 operations. -/
theorem run_size_le (ops : List TableOp) (i : Fin HT_SIZE) :
    ((run tableStep .empty ops).buckets i).size ≤ ops.length := by
  induction ops using List.reverseRecOn with
  | nil => exact le_rfl
  | append_singleton ops op ih =>
    have := tableStep_size (run tableStep .empty ops) op i
    rw [run_snoc, List.length_append, List.length_singleton]
    omega

/-- Over every legal sequence of operations from the uninitialised table, with
no bucket reaching 2^31 entries, the table is the finite map it stands for. -/
theorem table_represents_map (ops : List TableOp) (legal : Along mapStep Legal (fun _ => none) ops)
    (small : ∀ pre, pre <+: ops → ∀ i, ((run tableStep .empty pre).buckets i).size < 2^31) :
    Represents (run tableStep .empty ops) (run mapStep (fun _ => none) ops) := by
  have tracks : Tracks (run tableStep .empty ops) (run mapStep (fun _ => none) ops) := by
    induction ops using List.reverseRecOn with
    | nil => exact Tracks.empty
    | append_singleton ops op ih =>
      rw [Along.append] at legal
      have hpre := List.prefix_append ops [op]
      rw [run_snoc, run_snoc]
      exact (ih legal.1 fun pre hp => small pre (hp.trans hpre)).step legal.2.1 (small ops hpre)
  exact tracks.represents (small ops List.prefix_rfl)

/-- A key that is inserted, deleted and inserted again, with a table destroyed in between. -/
private def reuseOps (id : ID) : List TableOp :=
  [.insert (tcbInit id),.delete (tcbInit id),.find id,.insert (tcbInit id),.destroy,.insert (tcbInit id)]

theorem table_represents_map_reuse :
    Represents (run tableStep .empty (reuseOps ⟨5000,8080,1,2⟩))
      (run mapStep (fun _ => none) (reuseOps ⟨5000,8080,1,2⟩)) := by
  apply table_represents_map
  · simp [reuseOps, Along, Legal, mapStep, tcbInit]
  · intro pre hp i
    have hlen : pre.length ≤ 6 := hp.length_le
    exact lt_of_le_of_lt ((run_size_le pre i).trans hlen) (by decide)

end LazyTcp.Refactor
