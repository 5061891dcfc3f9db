import Mathlib.Data.List.Nodup
import Mathlib.Data.Set.Card
import Mathlib.Algebra.BigOperators.Group.Finset.Basic
import Mathlib.Data.Fintype.Basic

/-! Lists searched by key, with swap-and-pop deletion, and families of such
lists indexed by a hash of the key. -/
namespace LazyTcp.General.Keyed
variable {α κ : Type*} [DecidableEq κ] (key : α → κ)

def find (k : κ) (l : List α) : Option α := l.find? (fun a => key a = k)

/-- Overwrite the first entry with the key by the last entry, then drop the last slot. -/
def swapDelete (k : κ) (l : List α) : List α :=
  match l.findIdx? (fun a => key a = k), l.getLast? with
  | some i, some z => (l.set i z).dropLast
  | _, _ => l

/-- Write through a pointer to the first entry with the key. -/
def update (k : κ) (f : α → α) : List α → List α
  | [] => []
  | a :: l => if key a = k then f a :: l else a :: update k f l

variable {key}

theorem find_eq_none_iff {k : κ} {l : List α} : find key k l = none ↔ k ∉ l.map key := by
  simp [find]

theorem update_append {k : κ} {f : α → α} {l l' : List α} {a : α} (hl : ∀ b ∈ l, key b ≠ k) (ha : key a = k) :
    update key k f (l ++ a :: l') = l ++ f a :: l' := by
  induction l with
  | nil => rw [List.nil_append, update, if_pos ha, List.nil_append]
  | cons b l ih =>
    rw [List.cons_append, update, if_neg (hl b List.mem_cons_self), ih fun c hc => hl c (List.mem_cons_of_mem _ hc)]
    rfl

theorem find_key {k : κ} {l : List α} {a : α} (h : find key k l = some a) : key a = k := by
  simpa using List.find?_some h

theorem find_mem {k : κ} {l : List α} {a : α} (h : find key k l = some a) : a ∈ l :=
  List.mem_of_find?_eq_some h

/-- With unique keys the search order is irrelevant: the find is membership. -/
theorem find_eq_some_iff {k : κ} {l : List α} {a : α} (hn : (l.map key).Nodup) :
    find key k l = some a ↔ a ∈ l ∧ key a = k := by
  constructor
  · intro h
    exact ⟨find_mem h,find_key h⟩
  · rintro ⟨hm,rfl⟩
    cases hf : find key (key a) l with
    | none => exact absurd (List.mem_map_of_mem hm) (find_eq_none_iff.mp hf)
    | some b => rw [List.inj_on_of_nodup_map hn (find_mem hf) hm (find_key hf)]

theorem find_perm {k : κ} {l l' : List α} (h : l.Perm l') (hn : (l.map key).Nodup) :
    find key k l = find key k l' := by
  have hn' : (l'.map key).Nodup := (h.map key).nodup_iff.mp hn
  apply Option.ext
  intro a
  rw [find_eq_some_iff hn, find_eq_some_iff hn', h.mem_iff]

theorem swapDelete_of_find_none {k : κ} {l : List α} (h : find key k l = none) :
    swapDelete key k l = l := by
  have hi : l.findIdx? (fun a => key a = k) = none := by
    rw [List.findIdx?_eq_none_iff]
    simpa [find] using h
  simp [swapDelete, hi]

private theorem findIdx?_first (k : κ) (pre post : List α) (a : α) (ha : key a = k)
    (hp : ∀ b ∈ pre, key b ≠ k) :
    (pre ++ a :: post).findIdx? (fun a => key a = k) = some pre.length := by
  have hn : pre.findIdx? (fun a => key a = k) = none := by
    rw [List.findIdx?_eq_none_iff]
    simpa using hp
  simp [List.findIdx?_append, hn, List.findIdx?_cons, ha]

/-- Swap-and-pop removes the first matching entry and only reorders the rest. -/
theorem swapDelete_perm (k : κ) (l : List α) :
    (swapDelete key k l).Perm (l.eraseP (fun a => key a = k)) := by
  cases hf : find key k l with
  | none =>
    rw [swapDelete_of_find_none hf, List.eraseP_of_forall_not]
    simpa [find] using hf
  | some a =>
    obtain ⟨ha,pre,post,rfl,hp⟩ := List.find?_eq_some_iff_append.mp hf
    have ha' : key a = k := by simpa using ha
    have hp' : ∀ b ∈ pre, key b ≠ k := by simpa using hp
    have he : (pre ++ a :: post).eraseP (fun a => key a = k) = pre ++ post := by
      rw [List.eraseP_append_right _ (by simpa using hp'), List.eraseP_cons_of_pos (by simpa using ha')]
    rw [he]
    rcases post.eq_nil_or_concat' with rfl | ⟨post',z,rfl⟩
    · simp [swapDelete, findIdx?_first k pre [] a ha' hp']
    · have hs : swapDelete key k (pre ++ a :: (post' ++ [z])) = pre ++ z :: post' := by
        rw [swapDelete, findIdx?_first k pre _ a ha' hp']
        rw [show pre ++ a :: (post' ++ [z]) = (pre ++ a :: post') ++ [z] by simp, List.getLast?_concat]
        have hset : ((pre ++ a :: post') ++ [z]).set pre.length z = (pre ++ z :: post') ++ [z] := by simp
        simp only [hset, List.dropLast_concat]
      rw [hs, ← List.append_assoc]
      exact List.perm_middle.trans (List.perm_append_singleton z _).symm

theorem swapDelete_nodup {k : κ} {l : List α} (hn : (l.map key).Nodup) :
    ((swapDelete key k l).map key).Nodup :=
  (((swapDelete_perm k l).map key).nodup_iff).mpr ((List.eraseP_sublist.map key).nodup hn)

theorem mem_of_mem_swapDelete {k : κ} {l : List α} {a : α} (h : a ∈ swapDelete key k l) : a ∈ l :=
  List.mem_of_mem_eraseP ((swapDelete_perm k l).mem_iff.mp h)

theorem find_eraseP {k k' : κ} {l : List α} (hn : (l.map key).Nodup) :
    find key k' (l.eraseP (fun a => key a = k)) = if k' = k then none else find key k' l := by
  split
  case isTrue h =>
    subst h
    rw [find_eq_none_iff]
    induction l with
    | nil => simp
    | cons a l ih =>
      rw [List.map_cons, List.nodup_cons] at hn
      by_cases ha : key a = k'
      · rw [List.eraseP_cons_of_pos (by simpa using ha), ← ha]
        exact hn.1
      · rw [List.eraseP_cons_of_neg (by simpa using ha), List.map_cons, List.mem_cons]
        rintro (h | h)
        · exact ha h.symm
        · exact ih hn.2 h
  case isFalse h =>
    induction l with
    | nil => rfl
    | cons a l ih =>
      rw [List.map_cons, List.nodup_cons] at hn
      by_cases ha : key a = k
      · rw [List.eraseP_cons_of_pos (by simpa using ha)]
        have hne : key a ≠ k' := fun e => h (e.symm.trans ha)
        simp [find, hne]
      · rw [List.eraseP_cons_of_neg (by simpa using ha)]
        have := ih hn.2
        by_cases hk : key a = k' <;> simp_all [find]

theorem find_swapDelete {k k' : κ} {l : List α} (hn : (l.map key).Nodup) :
    find key k' (swapDelete key k l) = if k' = k then none else find key k' l := by
  rw [find_perm (swapDelete_perm k l) (swapDelete_nodup hn), find_eraseP hn]

/-- With unique keys exactly the entry with the key goes. -/
theorem mem_swapDelete {k : κ} {l : List α} {a : α} (hn : (l.map key).Nodup) :
    a ∈ swapDelete key k l ↔ a ∈ l ∧ key a ≠ k := by
  have hfind : a ∈ swapDelete key k l ↔ find key (key a) (swapDelete key k l) = some a := by
    rw [find_eq_some_iff (swapDelete_nodup hn)]
    exact (and_iff_left rfl).symm
  rw [hfind, find_swapDelete hn]
  split
  case isTrue h => simp [h]
  case isFalse h =>
    rw [find_eq_some_iff hn]
    simp [h]

theorem length_swapDelete {k : κ} {l : List α} {a : α} (h : find key k l = some a) :
    (swapDelete key k l).length + 1 = l.length := by
  rw [(swapDelete_perm k l).length_eq,
    List.length_eraseP_of_mem (find_mem h) (by simpa using find_key h)]
  have := List.length_pos_of_mem (find_mem h)
  omega

theorem update_keys {k : κ} {f : α → α} (hf : ∀ a, key a = k → key (f a) = k) (l : List α) :
    (update key k f l).map key = l.map key := by
  induction l with
  | nil => rfl
  | cons a l ih => by_cases ha : key a = k <;> simp [update, ha, hf, ih]

/-- With unique keys exactly the entry with the key is written. -/
theorem mem_update {k : κ} {f : α → α} {l : List α} {b : α} (hn : (l.map key).Nodup) :
    b ∈ update key k f l ↔ b ∈ l ∧ key b ≠ k ∨ ∃ a ∈ l, key a = k ∧ f a = b := by
  induction l with
  | nil => simp [update]
  | cons c l ih =>
    rw [List.map_cons, List.nodup_cons] at hn
    have hrest : ∀ e ∈ l, key e ≠ key c := fun e he hk => hn.1 (hk ▸ List.mem_map_of_mem he)
    by_cases hc : key c = k
    · subst hc
      rw [update, if_pos rfl, List.mem_cons]
      constructor
      · rintro (rfl | hb)
        · exact Or.inr ⟨c,List.mem_cons_self,rfl,rfl⟩
        · exact Or.inl ⟨List.mem_cons_of_mem _ hb,hrest b hb⟩
      · rintro (⟨hb,hk⟩ | ⟨e,he,hk,rfl⟩)
        · rcases List.mem_cons.mp hb with rfl | hb
          · exact absurd rfl hk
          · exact Or.inr hb
        · rcases List.mem_cons.mp he with rfl | he
          · exact Or.inl rfl
          · exact absurd hk (hrest e he)
    · rw [update, if_neg hc, List.mem_cons, ih hn.2]
      constructor
      · rintro (rfl | ⟨hb,hk⟩ | ⟨e,he,hk⟩)
        · exact Or.inl ⟨List.mem_cons_self,hc⟩
        · exact Or.inl ⟨List.mem_cons_of_mem _ hb,hk⟩
        · exact Or.inr ⟨e,List.mem_cons_of_mem _ he,hk⟩
      · rintro (⟨hb,hk⟩ | ⟨e,he,hk,hf⟩)
        · rcases List.mem_cons.mp hb with rfl | hb
          · exact Or.inl rfl
          · exact Or.inr (Or.inl ⟨hb,hk⟩)
        · rcases List.mem_cons.mp he with rfl | he
          · exact absurd hk hc
          · exact Or.inr (Or.inr ⟨e,he,hk,hf⟩)

theorem find_update {k k' : κ} {f : α → α} (hf : ∀ a, key a = k → key (f a) = k) (l : List α) :
    find key k' (update key k f l) = if k' = k then (find key k' l).map f else find key k' l := by
  induction l with
  | nil => simp [update, find]
  | cons a l ih =>
    by_cases ha : key a = k <;> by_cases hk : k' = k <;> by_cases h : key a = k' <;>
      simp_all [update, find]

theorem find_append_single {k : κ} {l : List α} {a : α} (hn : find key (key a) l = none) :
    find key k (l ++ [a]) = if k = key a then some a else find key k l := by
  by_cases h : k = key a
  · subst h
    have hn' : List.find? (fun b => decide (key b = key a)) l = none := hn
    simp [find, List.find?_append, hn']
  · simp [find, List.find?_append, h, Ne.symm h]

section Map
variable {β : Type*} (f : β → α) (k : κ)

/-- Searching, deleting and writing commute with a map that keeps the keys. -/
theorem find_map (l : List β) : find key k (l.map f) = (find (fun b => key (f b)) k l).map f := by
  rw [find, List.find?_map]
  rfl

theorem swapDelete_map (l : List β) : swapDelete key k (l.map f) = (swapDelete (fun b => key (f b)) k l).map f := by
  have hidx : (l.map f).findIdx? (fun a => key a = k) = l.findIdx? (fun b => key (f b) = k) := by
    rw [List.findIdx?_map]
    rfl
  simp only [swapDelete, hidx, List.getLast?_map]
  cases l.findIdx? (fun b => key (f b) = k) with
  | none => rfl
  | some i =>
    cases l.getLast? with
    | none => rfl
    | some z =>
      simp only [Option.map_some]
      rw [List.map_dropLast, List.map_set]

theorem update_map {g : β → β} {g' : α → α} (hg : ∀ b, f (g b) = g' (f b)) (l : List β) :
    update key k g' (l.map f) = (update (fun b => key (f b)) k g l).map f := by
  induction l with
  | nil => rfl
  | cons b l ih =>
    rw [List.map_cons, update, update]
    split
    · rw [List.map_cons, hg]
    · rw [List.map_cons, ih]

end Map

section Buckets
variable {ι : Type*} [DecidableEq ι] (h : κ → ι)

/-- Search only the bucket the key hashes to. -/
def lookup (key : α → κ) (B : ι → List α) (k : κ) : Option α := find key k (B (h k))

/-- Every entry sits in its own bucket and no bucket repeats a key. -/
structure Placed (key : α → κ) (B : ι → List α) : Prop where
  home : ∀ i, ∀ a ∈ B i, h (key a) = i
  nodup : ∀ i, ((B i).map key).Nodup

variable {h} {B : ι → List α}

omit [DecidableEq κ] [DecidableEq ι] in
theorem Placed.empty : Placed h key (fun _ => []) := ⟨by simp,by simp⟩

omit [DecidableEq κ] in
/-- Replacing one bucket keeps placement when the new bucket is placed itself. -/
private theorem Placed.replace (hB : Placed h key B) (i : ι) (l : List α)
    (hl : ∀ a ∈ l, h (key a) = i) (hn : (l.map key).Nodup) :
    Placed h key (Function.update B i l) := by
  constructor
  · intro j a ha
    by_cases hj : j = i
    · subst hj
      rw [Function.update_self] at ha
      exact hl a ha
    · rw [Function.update_of_ne hj] at ha
      exact hB.home j a ha
  · intro j
    by_cases hj : j = i
    · subst hj
      rwa [Function.update_self]
    · rw [Function.update_of_ne hj]
      exact hB.nodup j

/-- A lookup after replacing the bucket of k sees the new bucket on keys of
that bucket and the old table elsewhere. -/
private theorem lookup_replace {k k' : κ} {l : List α}
    (hne : ∀ k', k' ≠ k → find key k' l = find key k' (B (h k))) :
    lookup h key (Function.update B (h k) l) k' =
      if k' = k then find key k l else lookup h key B k' := by
  unfold lookup
  split
  case isTrue e => rw [e, Function.update_self]
  case isFalse e =>
    by_cases hh : h k' = h k
    · rw [hh, Function.update_self, hne k' e]
    · rw [Function.update_of_ne hh]

theorem Placed.push (hB : Placed h key B) {a : α} (ha : lookup h key B (key a) = none) :
    Placed h key (Function.update B (h (key a)) (B (h (key a)) ++ [a])) := by
  apply hB.replace
  · intro b hb
    rcases List.mem_append.mp hb with hb | hb
    · exact hB.home _ b hb
    · rw [List.mem_singleton.mp hb]
  · rw [List.map_append, List.nodup_append]
    refine ⟨hB.nodup _,by simp,?_⟩
    intro x hx y hy e
    rw [e, List.mem_singleton.mp hy] at hx
    exact find_eq_none_iff.mp ha hx

theorem lookup_push {a : α} {k : κ} (ha : lookup h key B (key a) = none) :
    lookup h key (Function.update B (h (key a)) (B (h (key a)) ++ [a])) k =
      if k = key a then some a else lookup h key B k := by
  rw [lookup_replace (k := key a)]
  · rw [find_append_single ha, if_pos rfl]
  · intro k' hk
    rw [find_append_single ha, if_neg hk]

theorem Placed.delete (hB : Placed h key B) (k : κ) :
    Placed h key (Function.update B (h k) (swapDelete key k (B (h k)))) := by
  apply hB.replace
  · intro a ha
    exact hB.home _ a (mem_of_mem_swapDelete ha)
  · exact swapDelete_nodup (hB.nodup _)

theorem lookup_delete (hB : Placed h key B) (k k' : κ) :
    lookup h key (Function.update B (h k) (swapDelete key k (B (h k)))) k' =
      if k' = k then none else lookup h key B k' := by
  rw [lookup_replace]
  · rw [find_swapDelete (hB.nodup _), if_pos rfl]
  · intro k'' hk
    rw [find_swapDelete (hB.nodup _), if_neg hk]

theorem Placed.write (hB : Placed h key B) (k : κ) {f : α → α} (hf : ∀ a, key a = k → key (f a) = k) :
    Placed h key (Function.update B (h k) (update key k f (B (h k)))) := by
  apply hB.replace
  · intro a ha
    have hk : key a ∈ (B (h k)).map key := by
      rw [← update_keys (k := k) hf]
      exact List.mem_map_of_mem ha
    obtain ⟨b,hb,e⟩ := List.mem_map.mp hk
    rw [← e]
    exact hB.home _ b hb
  · rw [update_keys hf]
    exact hB.nodup _

theorem lookup_write {k k' : κ} {f : α → α} (hf : ∀ a, key a = k → key (f a) = k) :
    lookup h key (Function.update B (h k) (update key k f (B (h k)))) k' =
      if k' = k then (lookup h key B k).map f else lookup h key B k' := by
  rw [lookup_replace]
  · rw [find_update hf, if_pos rfl]
    rfl
  · intro k'' hk
    rw [find_update hf, if_neg hk]

omit [DecidableEq ι] in
/-- The bucket lengths add up to the number of keys that can be looked up. -/
theorem sum_length_eq_ncard [Fintype ι] (hB : Placed h key B) :
    ∑ i, (B i).length = Set.ncard {k | (lookup h key B k).isSome} := by
  have hset : {k | (lookup h key B k).isSome} =
      ↑(Finset.univ.biUnion fun i => ((B i).map key).toFinset) := by
    ext k
    simp only [Set.mem_ofPred_eq, Finset.coe_biUnion, Set.mem_iUnion, Finset.mem_coe,
      List.mem_toFinset, Finset.mem_univ, exists_prop, true_and]
    constructor
    · intro hk
      obtain ⟨a,ha⟩ := Option.isSome_iff_exists.mp hk
      exact ⟨h k,List.mem_map.mpr ⟨a,find_mem ha,find_key ha⟩⟩
    · rintro ⟨i,hi⟩
      obtain ⟨a,ha,rfl⟩ := List.mem_map.mp hi
      rw [lookup, hB.home i a ha, (find_eq_some_iff (hB.nodup i)).mpr ⟨ha,rfl⟩]
      rfl
  have hdisj : (Set.univ : Set ι).PairwiseDisjoint fun i => ((B i).map key).toFinset := by
    intro i _ j _ hij
    refine Finset.disjoint_left.mpr fun k hi hj => hij ?_
    obtain ⟨a,ha,rfl⟩ := List.mem_map.mp (List.mem_toFinset.mp hi)
    obtain ⟨b,hb,e⟩ := List.mem_map.mp (List.mem_toFinset.mp hj)
    rw [← hB.home i a ha, ← hB.home j b hb, e]
  rw [hset, Set.ncard_coe_finset, Finset.card_biUnion fun i _ j _ => hdisj trivial trivial]
  refine Finset.sum_congr rfl fun i _ => ?_
  rw [List.toFinset_card_of_nodup (hB.nodup i), List.length_map]

/-- Replacing one bucket moves the total by the difference of its lengths. -/
theorem sum_length_update [Fintype ι] (i : ι) (l : List α) :
    ∑ j, (Function.update B i l j).length + (B i).length = ∑ j, (B j).length + l.length := by
  have hf : (fun j => (Function.update B i l j).length) =
      Function.update (fun j => (B j).length) i l.length := by
    funext j
    by_cases hj : j = i
    · subst hj
      simp
    · simp [hj]
  rw [hf, Finset.sum_update_of_mem (Finset.mem_univ i)]
  have hsplit := Finset.sum_sdiff (f := fun j => (B j).length) (Finset.subset_univ {i})
  rw [Finset.sum_singleton] at hsplit
  omega

end Buckets
end LazyTcp.General.Keyed
