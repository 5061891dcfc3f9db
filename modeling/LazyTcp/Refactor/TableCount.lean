import LazyTcp.Refactor.TableMap

/-! The size counter of the connection table over arbitrary sequences of
operations. hash_delete counts down without knowing whether vec_delete removed
anything, so the counter drifts with the first delete of an id that is not stored. -/
namespace LazyTcp.Refactor
open General

/-- Entries in all buckets, as the buckets count them. -/
def bucketSum (ht : HashTable) : Nat := ∑ i, (ht.buckets i).size

/-- The counter and the buckets agree. -/
def SizeExact (ht : HashTable) : Prop := ht.size.toNat = bucketSum ht

/-- The delete does not take the counter below zero. -/
def NoWrap (ht : HashTable) : TableOp → Prop
  | .delete _ => ht.init = true → ht.size ≠ 0
  | _ => True

/-- A delete reaches the buckets only when the table is initialised, and then
finds an entry with the id. -/
def DeletesStored (ht : HashTable) : TableOp → Prop
  | .delete tcb => ht.init = true → hashFind ht tcb.id ≠ none
  | _ => True

/-- Step lemma. Every call but a delete that finds nothing keeps the counter. -/
theorem countExact_step {ht : HashTable} (h : CountExact ht) (op : TableOp) :
    CountExact (tableStep ht op) ↔ DeletesStored ht op := by
  cases op with
  | insert tcb => exact iff_of_true (h.insert tcb) trivial
  | delete tcb =>
    rw [tableStep, DeletesStored]
    cases hi : ht.init with
    | false =>
      rw [hashDelete_uninitialised hi]
      exact iff_of_true h fun hn => absurd hn Bool.false_ne_true
    | true =>
      rw [h.delete_iff hi]
      exact ⟨fun hf _ => hf,fun hf => hf rfl⟩
  | find id => exact iff_of_true h trivial
  | destroy => exact iff_of_true h.destroy trivial

/-- Below 2^64 entries the counter is not reduced. -/
private theorem sizeExact_iff {ht : HashTable} (hb : bucketSum ht < 2^64) : SizeExact ht ↔ CountExact ht := by
  rw [SizeExact, CountExact, ← BitVec.toNat_inj, BitVec.toNat_ofNat]
  change _ ↔ _ = bucketSum ht % 2^64
  rw [Nat.mod_eq_of_lt hb]

/-- A sequence of calls stores at most one entry a call in each bucket. -/
private theorem bucketSum_le (ops : List TableOp) : bucketSum (run tableStep .empty ops) ≤ HT_SIZE * ops.length := by
  calc bucketSum (run tableStep .empty ops) ≤ ∑ _i : Fin HT_SIZE, ops.length :=
        Finset.sum_le_sum fun i _ => run_size_le ops i
    _ = HT_SIZE * ops.length := by simp

/-- An entry that is found is counted. -/
private theorem bucketSum_pos {ht : HashTable} {id : ID} (h : hashFind ht id ≠ none) : 0 < bucketSum ht := by
  obtain ⟨tcb,hf⟩ := Option.ne_none_iff_exists'.mp h
  have hmem : tcb ∈ (ht.buckets (hashId id)).data := by
    rw [hashFind, initialised_of_find h] at hf
    exact Keyed.find_mem hf
  exact Finset.sum_pos_iff.mpr ⟨hashId id,Finset.mem_univ _,List.length_pos_of_mem hmem⟩

/-- A counter that is exact does not wrap where the entry to delete is stored. -/
private theorem noWrap_of_stored {ht : HashTable} {op : TableOp} (h : SizeExact ht) (hs : DeletesStored ht op) :
    NoWrap ht op := by
  cases op with
  | delete tcb =>
    intro hi hzero
    have hpos := bucketSum_pos (hs hi)
    rw [← h, hzero] at hpos
    cases hpos
  | insert | find | destroy => trivial

/-- Over every sequence of calls the counter, a 64-bit word, is the sum of the
bucket sizes after every call if and only if every delete that reaches the
buckets is of a stored id. While there are fewer than 2^64 entries that is
equality of numbers, and no call takes the counter below zero. -/
theorem tableSize_exact_iff (ops : List TableOp) :
    ((∀ pre, pre <+: ops → CountExact (run tableStep .empty pre)) ↔ Along tableStep DeletesStored .empty ops) ∧
      ((∀ pre, pre <+: ops → bucketSum (run tableStep .empty pre) < 2^64) →
        ((∀ pre, pre <+: ops → SizeExact (run tableStep .empty pre)) ∧ Along tableStep NoWrap .empty ops ↔
          Along tableStep DeletesStored .empty ops)) := by
  have hword : (∀ pre, pre <+: ops → CountExact (run tableStep .empty pre)) ↔
      Along tableStep DeletesStored .empty ops :=
    along_iff_prefix (P := CountExact) (fun _ op h => countExact_step h op) CountExact.empty ops
  refine ⟨hword,fun hb => ⟨fun h => ?_,fun h => ?_⟩⟩
  · exact hword.mp fun pre hp => (sizeExact_iff (hb pre hp)).mp (h.1 pre hp)
  · have hexact : ∀ pre, pre <+: ops → SizeExact (run tableStep .empty pre) :=
      fun pre hp => (sizeExact_iff (hb pre hp)).mpr (hword.mpr h pre hp)
    refine ⟨hexact,along_iff.mpr fun pre op hp => ?_⟩
    exact noWrap_of_stored (hexact pre ((List.prefix_append pre [op]).trans hp)) (along_iff.mp h pre op hp)

/-- Two connections of one host. -/
private def tcbA : TCB := tcbInit ⟨5000,8080,1,2⟩
private def tcbB : TCB := tcbInit ⟨5001,8080,1,2⟩

/-- An id that is inserted twice, deleted twice and inserted again. -/
private def twiceOps : List TableOp := [.insert tcbA,.insert tcbA,.delete tcbA,.delete tcbA,.insert tcbA]

theorem tableSize_exact_twice : SizeExact (run tableStep .empty twiceOps) ∧ Along tableStep NoWrap .empty twiceOps := by
  have hb : ∀ pre, pre <+: twiceOps → bucketSum (run tableStep .empty pre) < 2^64 := by
    intro pre hp
    have hlen : pre.length ≤ 5 := hp.length_le
    have hsum := bucketSum_le pre
    rw [HT_SIZE] at hsum
    omega
  have hstored : Along tableStep DeletesStored .empty twiceOps :=
    ⟨trivial,trivial,fun _ => by decide +kernel,fun _ => by decide +kernel,trivial,trivial⟩
  obtain ⟨hexact,hwrap⟩ := ((tableSize_exact_iff twiceOps).2 hb).mpr hstored
  exact ⟨hexact twiceOps List.prefix_rfl,hwrap⟩

/-- One connection is inserted and another, which never was, deleted twice: the
counter goes to zero and then to 2^64 - 1, and the entry is still there. -/
theorem tableSize_drifts : (run tableStep .empty [.insert tcbA,.delete tcbB]).size = 0 ∧
    (run tableStep .empty [.insert tcbA,.delete tcbB,.delete tcbB]).size = .ofNat 64 (2^64 - 1) ∧
    ¬SizeExact (run tableStep .empty [.insert tcbA,.delete tcbB]) ∧
    ¬Along tableStep NoWrap .empty [.insert tcbA,.delete tcbB,.delete tcbB] := by
  have hzero : (run tableStep .empty [.insert tcbA,.delete tcbB]).size = 0 := by decide +kernel
  have hfind : hashFind (run tableStep .empty [.insert tcbA,.delete tcbB]) tcbA.id ≠ none := by decide +kernel
  refine ⟨hzero,by decide +kernel,fun hexact => ?_,fun hall => ?_⟩
  · have hpos := bucketSum_pos hfind
    rw [← hexact, hzero] at hpos
    cases hpos
  · have hinit : (run tableStep .empty [.insert tcbA,.delete tcbB]).init = true := by decide +kernel
    exact along_iff.mp hall [.insert tcbA,.delete tcbB] (.delete tcbB) List.prefix_rfl hinit hzero

end LazyTcp.Refactor
