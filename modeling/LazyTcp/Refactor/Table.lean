import LazyTcp.General.Run
import LazyTcp.Refactor.Tcb

/-! The connection table as a finite map from ID to TCB: the representation
invariant, what each operation does to the map, and the refinement over whole
sequences of operations. -/
namespace LazyTcp.Refactor
open General

namespace HashTable

/-- The live entries of each bucket. -/
def data (ht : HashTable) (i : Fin HT_SIZE) : List TCB := (ht.buckets i).data

/-- Entries sit in their own bucket, ids are unique, and an uninitialised table
holds nothing whatever partial initialisation left in it. -/
structure WF (ht : HashTable) : Prop where
  placed : Keyed.Placed hashId TCB.id ht.data
  idle : ht.init = false → ∀ i, ht.data i = []

theorem WF.empty : WF .empty := ⟨Keyed.Placed.empty,fun _ _ => rfl⟩

/-- An initialised table is searched by its buckets; an uninitialised one has
nothing to find either way. -/
theorem WF.find_eq {ht : HashTable} (h : ht.WF) (id : ID) :
    hashFind ht id = Keyed.lookup hashId TCB.id ht.data id := by
  cases hi : ht.init with
  | true => simp only [hashFind, hi, vecFind, Keyed.lookup, data, Bool.not_true, Bool.false_eq_true, if_false]
  | false =>
    rw [Keyed.lookup, h.idle hi]
    simp [hashFind, hi, Keyed.find]

theorem WF.find_id {ht : HashTable} (h : ht.WF) {id : ID} {tcb : TCB} (hf : hashFind ht id = some tcb) : tcb.id = id := by
  rw [h.find_eq] at hf
  exact Keyed.find_key hf

/-- What hash_find returns is what the id's bucket holds. -/
theorem WF.find_iff {ht : HashTable} (h : ht.WF) (tcb : TCB) :
    hashFind ht tcb.id = some tcb ↔ tcb ∈ (ht.buckets (hashId tcb.id)).data := by
  rw [h.find_eq, Keyed.lookup, Keyed.find_eq_some_iff (h.placed.nodup _)]
  exact and_iff_left rfl

end HashTable

open HashTable

private theorem hashInitLoop_data (vec : Fin HT_SIZE → Bool) (is : List (Fin HT_SIZE))
    (buckets : Fin HT_SIZE → Vec) (h : ∀ i, (buckets i).data = []) (i : Fin HT_SIZE) :
    ((hashInitLoop vec is buckets).2 i).data = [] := by
  induction is generalizing buckets with
  | nil => exact h i
  | cons j is ih =>
    rw [hashInitLoop]
    split
    · apply ih
      intro i
      by_cases hi : i = j
      · rw [hi, Function.update_self]
        rfl
      · rw [Function.update_of_ne hi]
        exact h i
    · exact h i

/-- When every malloc succeeds the loop initialises each bucket it visits. -/
private theorem hashInitLoop_ok (vec : Fin HT_SIZE → Bool) (hv : ∀ i, vec i = true)
    (is : List (Fin HT_SIZE)) (buckets : Fin HT_SIZE → Vec) :
    (hashInitLoop vec is buckets).1 = true ∧
      ∀ i, i ∈ is ∨ buckets i = vecInit → (hashInitLoop vec is buckets).2 i = vecInit := by
  induction is generalizing buckets with
  | nil => exact ⟨rfl,fun i hi => hi.resolve_left (List.not_mem_nil)⟩
  | cons j is ih =>
    rw [hashInitLoop, if_pos (hv j)]
    refine ⟨(ih _).1,fun i hi => (ih _).2 i ?_⟩
    by_cases hij : i = j
    · subst hij
      exact Or.inr (Function.update_self ..)
    · rw [Function.update_of_ne hij]
      exact hi.imp_left fun hm => (List.mem_cons.mp hm).resolve_left hij

private theorem hashInitLoop_fst (vec : Fin HT_SIZE → Bool) (is : List (Fin HT_SIZE))
    (buckets : Fin HT_SIZE → Vec) : (hashInitLoop vec is buckets).1 = is.all vec := by
  induction is generalizing buckets with
  | nil => rfl
  | cons i is ih =>
    rw [hashInitLoop, List.all_cons]
    cases vec i with
    | true => rw [if_pos rfl, ih, Bool.true_and]
    | false => rfl

/-- A complete hash_init overwrites whatever an earlier one left behind. -/
theorem hashInit_ok {a : Allocs} (h : ∀ i, a.vec i = true) (ht : HashTable) :
    hashInit a ht = (true,⟨fun _ => vecInit,0,true⟩) := by
  obtain ⟨hok,hv⟩ := hashInitLoop_ok a.vec h (List.finRange HT_SIZE) ht.buckets
  rw [hashInit]
  rcases hl : hashInitLoop a.vec (List.finRange HT_SIZE) ht.buckets with ⟨ok,buckets⟩
  rw [hl] at hok hv
  subst hok
  rw [show buckets = fun _ => vecInit from funext fun i => hv i (Or.inl (List.mem_finRange i))]

/-- One that stops midway leaves the flag, the counter and an empty table's
emptiness as they were. -/
private theorem hashInit_failed {a : Allocs} (h : ¬ ∀ i, a.vec i = true) (ht : HashTable) :
    ∃ buckets, hashInit a ht = (false,{ ht with buckets := buckets }) ∧
      ((∀ i, ht.data i = []) → ∀ i, (buckets i).data = []) := by
  have hf := hashInitLoop_fst a.vec (List.finRange HT_SIZE) ht.buckets
  have hd := hashInitLoop_data a.vec (List.finRange HT_SIZE) ht.buckets
  have hall : (List.finRange HT_SIZE).all a.vec = false := by
    rw [Bool.eq_false_iff]
    intro hall
    exact h fun i => List.all_eq_true.mp hall i (List.mem_finRange i)
  rw [hall] at hf
  rw [hashInit]
  rcases hl : hashInitLoop a.vec (List.finRange HT_SIZE) ht.buckets with ⟨ok,buckets⟩
  rw [hl] at hf hd
  subst hf
  exact ⟨buckets,rfl,hd⟩

/-- The table hash_insert pushes into: initialised lazily when it was not. -/
def opened (ht : HashTable) : HashTable := if ht.init then ht else ⟨fun _ => vecInit,0,true⟩

/-- A vector after a push whose realloc, if any, succeeds. -/
def pushed (v : Vec) (tcb : TCB) : Vec :=
  ⟨v.data ++ [tcb],if v.size = v.capacity then v.capacity * 2 % 2^32 else v.capacity⟩

private theorem vecPush_eq (grow : Bool) (v : Vec) (tcb : TCB) :
    vecPush grow v tcb = if v.size = v.capacity ∧ grow = false then none else some (pushed v tcb) := by
  unfold vecPush pushed
  by_cases hs : v.size = v.capacity <;> cases grow <;> simp [hs]

/-- With every allocation succeeding hash_insert never refuses. -/
theorem hashInsert_succeed (ht : HashTable) (tcb : TCB) :
    hashInsert .succeed ht tcb = (true,⟨Function.update (opened ht).buckets (hashId tcb.id)
      (pushed ((opened ht).buckets (hashId tcb.id)) tcb),(opened ht).size + 1,true⟩) := by
  have hgrow (v : Vec) : vecPush Allocs.succeed.grow v tcb = some (pushed v tcb) := by
    rw [vecPush_eq, if_neg fun h => absurd h.2 (by decide)]
  cases hi : ht.init with
  | true => simp only [hashInsert, hi, opened, if_true, hgrow]
  | false =>
    have hall : hashInit Allocs.succeed ht = (true,⟨fun _ => vecInit,0,true⟩) := hashInit_ok (fun _ => rfl) ht
    simp only [hashInsert, hi, hall, opened, hgrow, Bool.false_eq_true, if_false]

/-- On an initialised table hash_insert refuses a block only when its bucket is
full and cannot grow; then it changes nothing. -/
theorem hashInsert_initialised {ht : HashTable} (hi : ht.init = true) (a : Allocs) (tcb : TCB) :
    hashInsert a ht tcb = if (ht.buckets (hashId tcb.id)).size = (ht.buckets (hashId tcb.id)).capacity ∧ a.grow = false
      then (false,ht) else hashInsert .succeed ht tcb := by
  rw [hashInsert_succeed]
  simp only [hashInsert, hi, if_true, vecPush_eq, opened]
  by_cases hg : (ht.buckets (hashId tcb.id)).size = (ht.buckets (hashId tcb.id)).capacity ∧ a.grow = false
  · rw [if_pos hg, if_pos hg]
  · rw [if_neg hg, if_neg hg]

/-- On an uninitialised one it refuses only when hash_init stops midway: a fresh
bucket has room. -/
theorem hashInsert_uninitialised {ht : HashTable} (hi : ht.init = false) (a : Allocs) (tcb : TCB) :
    (∀ i, a.vec i = true) ∧ hashInsert a ht tcb = hashInsert .succeed ht tcb ∨
      (¬ ∀ i, a.vec i = true) ∧ ∃ buckets, hashInsert a ht tcb = (false,{ ht with buckets := buckets }) ∧
        ((∀ i, ht.data i = []) → ∀ i, (buckets i).data = []) := by
  by_cases hv : ∀ i, a.vec i = true
  · left
    refine ⟨hv,?_⟩
    rw [hashInsert_succeed]
    simp only [hashInsert, hi, hashInit_ok hv, opened, vecPush_eq, Bool.false_eq_true, if_false]
    rfl
  · right
    obtain ⟨buckets,hb,hd⟩ := hashInit_failed hv ht
    exact ⟨hv,buckets,by simp only [hashInsert, hi, hb, Bool.false_eq_true, if_false],hd⟩

/-- A refused insertion leaves the flag and the counter, and touches the buckets
of an uninitialised table only. -/
theorem hashInsert_refused {a : Allocs} {ht : HashTable} {tcb : TCB} (hr : (hashInsert a ht tcb).1 = false) :
    (hashInsert a ht tcb).2 = ht ∨ ht.init = false ∧ ∃ buckets,
      (hashInsert a ht tcb).2 = { ht with buckets := buckets } ∧
        ((∀ i, ht.data i = []) → ∀ i, (buckets i).data = []) := by
  cases hi : ht.init with
  | true =>
    rw [hashInsert_initialised hi] at hr ⊢
    split
    case isTrue => exact Or.inl rfl
    case isFalse hg => simp [hg, hashInsert_succeed] at hr
  | false =>
    rcases hashInsert_uninitialised hi a tcb with ⟨-,he⟩ | ⟨-,buckets,he,hd⟩
    · simp [he, hashInsert_succeed] at hr
    · exact Or.inr ⟨rfl,buckets,by rw [he, hi],hd⟩

/-- An accepted one does what it does when no allocation fails. -/
theorem hashInsert_accepted {a : Allocs} {ht : HashTable} {tcb : TCB} (hr : (hashInsert a ht tcb).1 = true) :
    hashInsert a ht tcb = hashInsert .succeed ht tcb := by
  cases hi : ht.init with
  | true =>
    rw [hashInsert_initialised hi] at hr ⊢
    split
    case isTrue hg => simp [hg] at hr
    case isFalse => rfl
  | false =>
    rcases hashInsert_uninitialised hi a tcb with ⟨-,he⟩ | ⟨-,buckets,he,-⟩
    · exact he
    · simp [he] at hr

theorem data_update (buckets : Fin HT_SIZE → Vec) (i : Fin HT_SIZE) (v : Vec) (n : BitVec 64) (b : Bool) :
    HashTable.data ⟨Function.update buckets i v,n,b⟩ = Function.update (fun j => (buckets j).data) i v.data := by
  funext j
  by_cases hj : j = i
  · subst hj
    simp [data]
  · simp [data, hj]

theorem opened_data {ht : HashTable} (h : ht.WF) : (opened ht).data = ht.data := by
  unfold opened
  split
  case isTrue => rfl
  case isFalse hi =>
    funext i
    rw [h.idle (by simpa using hi) i]
    rfl

/-- A new entry goes to the end of its bucket. -/
theorem hashInsert_data {ht : HashTable} (h : ht.WF) (tcb : TCB) : (hashInsert .succeed ht tcb).2.data =
    Function.update ht.data (hashId tcb.id) (ht.data (hashId tcb.id) ++ [tcb]) := by
  rw [hashInsert_succeed, data_update, ← opened_data h]
  rfl

/-- One spec for hash_insert: whatever the allocator answers, a refused insert
leaves the map alone and an accepted one adds exactly the new entry. -/
theorem hashInsert_spec {ht : HashTable} (h : ht.WF) (a : Allocs) (tcb : TCB)
    (hn : hashFind ht tcb.id = none) :
    (hashInsert a ht tcb).2.WF ∧ ∀ id, hashFind (hashInsert a ht tcb).2 id =
      if (hashInsert a ht tcb).1 ∧ id = tcb.id then some tcb else hashFind ht id := by
  cases hr : (hashInsert a ht tcb).1 with
  | true =>
    have hd : (hashInsert a ht tcb).2.data = Function.update ht.data (hashId tcb.id)
        (ht.data (hashId tcb.id) ++ [tcb]) := by
      rw [hashInsert_accepted hr, hashInsert_data h]
    have hinit : (hashInsert a ht tcb).2.init = true := by rw [hashInsert_accepted hr, hashInsert_succeed]
    rw [h.find_eq] at hn
    have hw : (hashInsert a ht tcb).2.WF := ⟨by rw [hd]; exact h.placed.push hn,fun hf => by simp [hinit] at hf⟩
    refine ⟨hw,fun id => ?_⟩
    rw [hw.find_eq, hd, h.find_eq]
    simp only [true_and]
    exact Keyed.lookup_push hn
  | false =>
    simp only [Bool.false_eq_true, false_and, if_false]
    rcases hashInsert_refused hr with he | ⟨hi,buckets,he,hd⟩
    · rw [he]
      exact ⟨h,fun _ => rfl⟩
    · have hempty (i : Fin HT_SIZE) : (hashInsert a ht tcb).2.data i = [] := by
        rw [he]
        exact hd (h.idle hi) i
      have hp : Keyed.Placed hashId TCB.id (hashInsert a ht tcb).2.data := by
        rw [show (hashInsert a ht tcb).2.data = fun _ => [] from funext hempty]
        exact Keyed.Placed.empty
      have hw : (hashInsert a ht tcb).2.WF := ⟨hp,fun _ => hempty⟩
      refine ⟨hw,fun id => ?_⟩
      rw [hw.find_eq, h.find_eq, Keyed.lookup, Keyed.lookup, hempty, h.idle hi]

theorem hashFind_uninitialised {ht : HashTable} (hi : ht.init = false) (id : ID) : hashFind ht id = none := by
  simp [hashFind, hi]

theorem initialised_of_find {ht : HashTable} {id : ID} (h : hashFind ht id ≠ none) : ht.init = true := by
  by_contra hi
  exact h (hashFind_uninitialised (Bool.eq_false_iff.mpr hi) id)

theorem hashDelete_uninitialised {ht : HashTable} (hi : ht.init = false) (tcb : TCB) : hashDelete ht tcb = ht := by
  simp [hashDelete, hi]

theorem hashDelete_initialised {ht : HashTable} (hi : ht.init = true) (tcb : TCB) :
    hashDelete ht tcb = ⟨Function.update ht.buckets (hashId tcb.id)
      (vecDelete (ht.buckets (hashId tcb.id)) tcb),ht.size - 1,true⟩ := by
  simp [hashDelete, hi]

/-- The first entry with the id leaves its bucket. -/
theorem hashDelete_data {ht : HashTable} (hi : ht.init = true) (tcb : TCB) : (hashDelete ht tcb).data =
    Function.update ht.data (hashId tcb.id) (Keyed.swapDelete TCB.id tcb.id (ht.data (hashId tcb.id))) := by
  rw [hashDelete_initialised hi, data_update]
  rfl

theorem hashDelete_spec {ht : HashTable} (h : ht.WF) (tcb : TCB) :
    (hashDelete ht tcb).WF ∧ ∀ id, hashFind (hashDelete ht tcb) id =
      if id = tcb.id then none else hashFind ht id := by
  cases hi : ht.init with
  | false =>
    rw [hashDelete_uninitialised hi]
    exact ⟨h,fun id => by simp [hashFind_uninitialised hi]⟩
  | true =>
    have hd := hashDelete_data hi tcb
    have hinit : (hashDelete ht tcb).init = true := by rw [hashDelete_initialised hi]
    have hw : (hashDelete ht tcb).WF :=
      ⟨by rw [hd]; exact h.placed.delete tcb.id,fun hf => by simp [hinit] at hf⟩
    refine ⟨hw,fun id => ?_⟩
    rw [hw.find_eq, hd, h.find_eq]
    exact Keyed.lookup_delete h.placed tcb.id id

/-- A write through the pointer of a stored TCB replaces that entry only. -/
theorem tcbStore_spec {ht : HashTable} (h : ht.WF) (tcb : TCB) (hs : hashFind ht tcb.id ≠ none) :
    (tcbStore ht tcb).WF ∧ ∀ id, hashFind (tcbStore ht tcb) id =
      if id = tcb.id then some tcb else hashFind ht id := by
  have hd : (tcbStore ht tcb).data = Function.update ht.data (hashId tcb.id)
      (Keyed.update TCB.id tcb.id (fun _ => tcb) (ht.data (hashId tcb.id))) := data_update _ _ _ _ _
  have hkey : ∀ t : TCB, t.id = tcb.id → tcb.id = tcb.id := fun _ _ => rfl
  have hinit := initialised_of_find hs
  have hw : (tcbStore ht tcb).WF :=
    ⟨by rw [hd]; exact h.placed.write tcb.id hkey,fun hf => by simp [tcbStore, hinit] at hf⟩
  refine ⟨hw,fun id => ?_⟩
  rw [h.find_eq] at hs
  rw [hw.find_eq, hd, h.find_eq, Keyed.lookup_write hkey]
  obtain ⟨t,ht⟩ := Option.ne_none_iff_exists'.mp hs
  rw [ht, Option.map_some]

end LazyTcp.Refactor
