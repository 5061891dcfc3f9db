import LazyTcp.Refactor.PointerTable

/-! vec_destroy and hash_destroy over the heap: every block the table holds is
freed once, and the arrays with them. -/
namespace LazyTcp.Refactor.Pointers
open General General.Blocks

section Destroy
variable {L : Set Addr} {t : HashTable} {ht : Refactor.HashTable} {B : Fin HT_SIZE → List (Addr × TCB)}

/-- The heap without the blocks of a list. -/
private def without (h : Heap Block) (as : List Addr) : Heap Block := fun b => if b ∈ as then none else h b

private theorem without_free (h : Heap Block) (a : Addr) (as : List Addr) :
    without (Function.update h a none) as = without h (a :: as) := by
  funext b
  rw [without, without]
  by_cases hb : b ∈ as
  · rw [if_pos hb, if_pos (List.mem_cons_of_mem _ hb)]
  · by_cases hba : b = a
    · rw [if_neg hb, hba, Function.update_self, if_pos (List.mem_cons_self ..)]
    · rw [if_neg hb, Function.update_of_ne hba, if_neg fun hm => (List.mem_cons.mp hm).elim hba hb]

/-- The loop frees the entries from i on, each of them live when its turn comes. -/
private theorem vecFreeLoop_eq {h : Heap Block} {vec : Vector} {l : List (Addr × TCB)} {d : Addr}
    {cells : List (Option Addr)} (ha : ArrayOf h vec l d cells) (hd : d ∉ l.map Prod.fst) {n i : Nat}
    (hn : i + n = l.length) (hlive : ∀ e ∈ l.drop i, h e.1 ≠ none) (hnodup : ((l.drop i).map Prod.fst).Nodup) :
    vecFreeLoop vec.data n i h = some (without h ((l.drop i).map Prod.fst)) := by
  induction n generalizing i h with
  | zero =>
    rw [List.drop_of_length_le (by omega)]
    rfl
  | succ n ih =>
    have hi : i < l.length := by omega
    rw [List.drop_eq_getElem_cons hi] at hlive hnodup ⊢
    rw [List.map_cons, List.nodup_cons] at hnodup
    obtain ⟨b,hb⟩ := Option.ne_none_iff_exists'.mp (hlive l[i] (List.mem_cons_self ..))
    have hne : d ≠ l[i].1 := fun he => hd (he ▸ List.mem_map_of_mem (List.getElem_mem hi))
    have hlater : ∀ e ∈ l.drop (i + 1), Function.update h l[i].1 none e.1 ≠ none := by
      intro e he
      have hea : e.1 ≠ l[i].1 := by
        intro hea
        rw [← hea] at hnodup
        exact hnodup.1 (List.mem_map_of_mem he)
      rw [Function.update_of_ne hea]
      exact hlive e (List.mem_cons_of_mem _ he)
    have hrest := ih (ha.frame (Function.update_of_ne hne ..)) (by omega) hlater hnodup.2
    simp only [vecFreeLoop, ha.readCell hi, Option.bind_some, Heap.free_live hb, hrest, without_free, List.map_cons]

theorem Owns.live {h : Heap Block} {l : List (Addr × TCB)} (ho : Owns Block.tcb? h l) {e : Addr × TCB} (he : e ∈ l) :
    h e.1 ≠ none := by
  intro hn
  have hv := ho e he
  rw [hn] at hv
  cases hv

/-- vec_destroy frees the blocks of the vector and its array. -/
private theorem vecDestroy_eq {h : Heap Block} {vec : Vector} {l : List (Addr × TCB)} {d : Addr}
    {cells : List (Option Addr)} (ha : ArrayOf h vec l d cells) (ho : Owns Block.tcb? h l) (hids : (l.map key).Nodup) :
    vecDestroy h vec = some (without h (d :: l.map Prod.fst),⟨none,0,0⟩) := by
  have hd : d ∉ l.map Prod.fst := by
    rintro hm
    obtain ⟨e,he,rfl⟩ := List.mem_map.mp hm
    exact ha.ne_entry (ho e he) rfl
  have hloop := vecFreeLoop_eq ha hd (n := vec.size) (i := 0) (by rw [ha.size, Nat.zero_add])
    (fun e he => Owns.live ho (List.mem_of_mem_drop he)) (ho.nodup hids)
  rw [List.drop_zero] at hloop
  have harray : without h (l.map Prod.fst) d = some (.array cells) := by
    rw [without, if_neg hd]
    exact ha.live
  have hfreed : Function.update (without h (l.map Prod.fst)) d none = without h (d :: l.map Prod.fst) := by
    rw [← without_free]
    funext b
    rw [without]
    by_cases hb : b = d
    · rw [hb, Function.update_self, Function.update_self, ite_self]
    · rw [Function.update_of_ne hb, Function.update_of_ne hb, without]
  rw [ha.data] at hloop
  simp only [vecDestroy, ha.data, hloop, Option.bind_some, Heap.free_live harray, Option.map_some, hfreed]

/-- Midway through hash_destroy: the buckets of the list are still to come. -/
private structure Destroying (L : Set Addr) (B : Fin HT_SIZE → List (Addr × TCB)) (is : List (Fin HT_SIZE))
    (t : HashTable) : Prop where
  ids : ∀ i, ((B i).map key).Nodup
  home : ∀ i j a x, (a,x) ∈ B i → (a,x) ∈ B j → i = j
  live : ∀ a x, readTcb t.heap a = some x ↔ ∃ i ∈ is, (a,x) ∈ B i
  arrays : ∀ i ∈ is, ∃ d cells, ArrayOf t.heap (t.buckets i) (B i) d cells
  separate : ∀ i ∈ is, ∀ j ∈ is, (t.buckets i).data = (t.buckets j).data → i = j
  owned : ∀ a cells, t.heap a = some (.array cells) → (∃ i ∈ is, (t.buckets i).data = some a) ∨ a ∈ L
  cleared : ∀ i, i ∉ is → t.buckets i = ⟨none,0,0⟩

private theorem readTcb_without (h : Heap Block) (as : List Addr) (a : Addr) :
    readTcb (without h as) a = if a ∈ as then none else readTcb h a := by
  rw [readTcb, without]
  by_cases ha : a ∈ as
  · rw [if_pos ha, if_pos ha]
    rfl
  · rw [if_neg ha, if_neg ha]
    rfl

private theorem Destroying.step {i : Fin HT_SIZE} {is : List (Fin HT_SIZE)} (h : Destroying L B (i :: is) t)
    (hi : i ∉ is) : ∃ heap, vecDestroy t.heap (t.buckets i) = some (heap,⟨none,0,0⟩) ∧
      Destroying L B is { t with heap := heap, buckets := Function.update t.buckets i ⟨none,0,0⟩ } := by
  obtain ⟨d,cells,ha⟩ := h.arrays i (List.mem_cons_self ..)
  have howns : Owns Block.tcb? t.heap (B i) := fun e he => (h.live e.1 e.2).mpr ⟨i,List.mem_cons_self ..,he⟩
  have hother : ∀ j ∈ is, Function.update t.buckets i ⟨none,0,0⟩ j = t.buckets j := by
    intro j hj
    refine Function.update_of_ne ?_ ..
    rintro rfl
    exact hi hj
  refine ⟨_,vecDestroy_eq ha howns (h.ids i),h.ids,h.home,?_,?_,?_,?_,?_⟩
  · intro a x
    rw [readTcb_without]
    constructor
    · intro hx
      split at hx
      case isTrue => cases hx
      case isFalse hfreed =>
        obtain ⟨j,hj,hm⟩ := (h.live a x).mp hx
        rcases List.mem_cons.mp hj with rfl | hj
        · exact absurd (List.mem_cons_of_mem _ (List.mem_map_of_mem hm)) hfreed
        · exact ⟨j,hj,hm⟩
    · rintro ⟨j,hj,hm⟩
      have hx := (h.live a x).mpr ⟨j,List.mem_cons_of_mem _ hj,hm⟩
      rw [if_neg]
      · exact hx
      · intro hfreed
        rcases List.mem_cons.mp hfreed with rfl | hfreed
        · exact nomatch ha.no_tcb.symm.trans hx
        · obtain ⟨⟨a,y⟩,he,rfl⟩ := List.mem_map.mp hfreed
          obtain rfl : x = y := Option.some.inj (hx.symm.trans (howns _ he))
          obtain rfl := h.home i j a x he hm
          exact hi hj
  · intro j hj
    obtain ⟨dj,cj,haj⟩ := h.arrays j (List.mem_cons_of_mem _ hj)
    simp only [hother j hj]
    refine ⟨dj,cj,haj.frame (if_neg ?_)⟩
    intro hfreed
    rcases List.mem_cons.mp hfreed with rfl | hfreed
    · have hij := h.separate i (List.mem_cons_self ..) j (List.mem_cons_of_mem _ hj) (ha.data.trans haj.data.symm)
      rw [hij] at hi
      exact hi hj
    · obtain ⟨e,he,rfl⟩ := List.mem_map.mp hfreed
      exact haj.ne_entry (howns e he) rfl
  · intro j hj k hk hjk
    simp only [hother j hj, hother k hk] at hjk
    exact h.separate j (List.mem_cons_of_mem _ hj) k (List.mem_cons_of_mem _ hk) hjk
  · intro a cells' hb
    simp only [without] at hb
    split at hb
    case isTrue => cases hb
    case isFalse hfreed =>
      refine (h.owned a cells' hb).imp_left ?_
      rintro ⟨j,hj,hdata⟩
      rcases List.mem_cons.mp hj with rfl | hj
      · rw [ha.data] at hdata
        cases hdata
        exact absurd (List.mem_cons_self ..) hfreed
      · simp only
        exact ⟨j,hj,(congrArg Vector.data (hother j hj)).trans hdata⟩
  · intro j hj
    by_cases hji : j = i
    · rw [hji]
      exact Function.update_self ..
    · refine (Function.update_of_ne hji ..).trans ?_
      exact h.cleared j fun hm => (List.mem_cons.mp hm).elim hji hj

private theorem Destroying.loop {is : List (Fin HT_SIZE)} (h : Destroying L B is t) (hnodup : is.Nodup) :
    ∃ t', hashDestroyLoop is t = some t' ∧ Destroying L B [] t' := by
  induction is generalizing t with
  | nil => exact ⟨t,rfl,h⟩
  | cons i is ih =>
    rw [List.nodup_cons] at hnodup
    obtain ⟨heap,hdestroy,hstep⟩ := h.step hnodup.1
    obtain ⟨t',hloop,hdone⟩ := ih hstep hnodup.2
    refine ⟨t',?_,hdone⟩
    rw [hashDestroyLoop, hdestroy]
    exact hloop

/-- A table that stands for one without entries, with no array of its own. -/
private theorem Rep.destroying (h : Rep L [] t ht B) (hi : t.init = true) : Destroying L B (List.finRange HT_SIZE) t where
  ids := h.ids
  home i j a x hi hj := (h.home hi).symm.trans (h.home hj)
  live a x := by
    rw [h.live]
    constructor
    · rintro (hm | ⟨i,hm⟩)
      · cases hm
      · exact ⟨i,List.mem_finRange i,hm⟩
    · rintro ⟨i,-,hm⟩
      exact Or.inr ⟨i,hm⟩
  arrays i _ := h.arrays hi i
  separate i _ j _ := h.separate hi i j
  owned a cells ha := (h.owned a cells ha).imp_left fun ⟨_,i,hd⟩ => ⟨i,List.mem_finRange i,hd⟩
  cleared i hn := absurd (List.mem_finRange i) hn

/-- hash_destroy is never stuck, and what it does not free was left behind by a
hash_init that failed. -/
theorem Rep.destroy (h : Rep L [] t ht B) : ∃ t', hashDestroy t = some t' ∧
    Rep L [] t' (Refactor.hashDestroy ht) (fun _ => []) ∧ t'.init = false ∧ ∀ a b, t'.heap a = some b → a ∈ L := by
  have hfreed {t' : HashTable} (hinit : t'.init = false)
      (hrep : Rep L [] t' (Refactor.hashDestroy ht) fun _ => []) : ∀ a b, t'.heap a = some b → a ∈ L := by
    intro a b hb
    cases b with
    | tcb x =>
      have hread : readTcb t'.heap a = some x := by
        rw [readTcb, hb]
        rfl
      rcases (hrep.live a x).mp hread with hm | ⟨-,hm⟩ <;> cases hm
    | array cells =>
      refine (hrep.owned a cells hb).resolve_left fun ho => ?_
      rw [hinit] at ho
      exact absurd ho.1 Bool.false_ne_true
  cases hi : t.init with
  | false =>
    have hnil : B = fun _ => [] := funext (h.nil hi)
    have hsame : Refactor.hashDestroy ht = ht := by
      rw [Refactor.hashDestroy, if_pos]
      rw [← h.init, hi]
      rfl
    have hrep : Rep L [] t (Refactor.hashDestroy ht) fun _ => [] := by rwa [hsame, ← hnil]
    refine ⟨t,?_,hrep,hi,hfreed hi hrep⟩
    rw [hashDestroy, if_pos]
    rw [hi]
    rfl
  | true =>
    have hi' : ht.init = true := h.init ▸ hi
    obtain ⟨t',hloop,hdone⟩ := (h.destroying hi).loop (List.nodup_finRange HT_SIZE)
    have hcleared (i : Fin HT_SIZE) := hdone.cleared i List.not_mem_nil
    have hplain : Refactor.hashDestroy ht = ⟨fun _ => Refactor.vecDestroy,0,false⟩ := by
      rw [Refactor.hashDestroy, if_neg]
      rw [hi']
      decide
    have hrep : Rep L [] { t' with size := 0, init := false } (Refactor.hashDestroy ht) fun _ => [] := by
      rw [hplain]
      refine ⟨⟨Keyed.Placed.empty,fun _ _ => rfl⟩,rfl,rfl,fun _ => rfl,?_,?_,?_,?_,?_,?_⟩
      · exact fun i => congrArg Vector.capacity (hcleared i)
      · exact fun i => congrArg Vector.size (hcleared i)
      · intro a x
        simp only [hdone.live, List.not_mem_nil, false_and, exists_false, or_self]
      · exact fun h => absurd h Bool.false_ne_true
      · exact fun h => absurd h Bool.false_ne_true
      · intro a cells ha
        refine Or.inr ((hdone.owned a cells ha).resolve_left ?_)
        rintro ⟨i,hm,-⟩
        cases hm
    refine ⟨_,?_,hrep,rfl,hfreed rfl hrep⟩
    simp only [hashDestroy, hi, Bool.not_true, Bool.false_eq_true, if_false, hloop, Option.map_some]

end Destroy

end LazyTcp.Refactor.Pointers
