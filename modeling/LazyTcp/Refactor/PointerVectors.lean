import LazyTcp.Refactor.Pointers

/-! vector.c over the heap: each operation on the array of a vector, given the
list of its entries, that is of the pointers with the blocks they lead to. -/
namespace LazyTcp.Refactor.Pointers
open General General.Blocks

/-- An entry is searched by the id of its block. -/
abbrev key (e : Addr × TCB) : ID := e.2.id

/-- The vector has a live array of its capacity, and its first cells are the
pointers of the list. -/
structure ArrayOf (h : Heap Block) (vec : Vector) (l : List (Addr × TCB)) (d : Addr) (cells : List (Option Addr)) :
    Prop where
  data : vec.data = some d
  live : h d = some (.array cells)
  capacity : cells.length = vec.capacity
  size : vec.size = l.length
  used : cells.take vec.size = l.map fun e => some e.1
  room : 0 < vec.capacity

/-- No TCB is written, allocated or freed. -/
def SameTcbs (h h' : Heap Block) : Prop := ∀ a, readTcb h' a = readTcb h a

section Vectors
variable {h : Heap Block} {vec : Vector} {l : List (Addr × TCB)} {d : Addr} {cells : List (Option Addr)}

theorem ArrayOf.no_tcb (ha : ArrayOf h vec l d cells) : readTcb h d = none := by
  rw [readTcb, ha.live]
  rfl

theorem ArrayOf.size_le (ha : ArrayOf h vec l d cells) : l.length ≤ vec.capacity := by
  have hlen := congrArg List.length ha.used
  rw [List.length_take, List.length_map, ha.capacity] at hlen
  omega

/-- The array is left alone where another block is written or freed. -/
theorem ArrayOf.frame (ha : ArrayOf h vec l d cells) {h' : Heap Block} (hd : h' d = h d) : ArrayOf h' vec l d cells :=
  { ha with live := hd.trans ha.live }

theorem sameTcbs_array (hd : readTcb h d = none) (b : Option (List (Option Addr))) :
    SameTcbs h (Function.update h d (b.map Block.array)) := by
  intro a
  by_cases hne : a = d
  · subst hne
    rw [hd, readTcb, Function.update_self]
    cases b <;> rfl
  · rw [readTcb, Function.update_of_ne hne]
    rfl

theorem ArrayOf.readCell (ha : ArrayOf h vec l d cells) {i : Nat} (hi : i < l.length) :
    readCell h vec.data i = some l[i].1 := by
  have hcell : (cells.take vec.size)[i]? = some (some l[i].1) := by
    rw [ha.used, List.getElem?_map, List.getElem?_eq_getElem hi]
    rfl
  rw [List.getElem?_take_of_lt (by rw [ha.size]; exact hi)] at hcell
  simp only [Pointers.readCell, ha.data, Option.bind_some, ha.live, hcell, Option.join_some]

/-- The scan of the entries from i on finds the first with the id. -/
private theorem scan_from (ha : ArrayOf h vec l d cells) (ho : Owns Block.tcb? h l) (id : ID) {n i : Nat}
    (hn : i + n = l.length) : vecScan h vec.data (some id) n i =
      some (((l.drop i).findIdx? fun e => key e = id).map (i + ·)) := by
  induction n generalizing i with
  | zero =>
    rw [List.drop_of_length_le (by omega)]
    rfl
  | succ n ih =>
    have hi : i < l.length := by omega
    have hread : (Pointers.readCell h vec.data i).bind (readTcb h) = some l[i].2 := by
      rw [ha.readCell hi, Option.bind_some]
      exact ho _ (List.getElem_mem hi)
    simp only [vecScan, hread, List.drop_eq_getElem_cons hi, List.findIdx?_cons, key]
    by_cases hk : l[i].2.id = id
    · simp [hk]
    · simp only [hk, if_false, decide_false, Bool.false_eq_true]
      rw [ih (by omega), Option.map_map]
      congr 2
      funext j
      simp only [Function.comp_apply]
      omega

theorem vecScan_eq (ha : ArrayOf h vec l d cells) (ho : Owns Block.tcb? h l) (id : ID) :
    vecScan h vec.data (some id) vec.size 0 = some (l.findIdx? fun e => key e = id) := by
  rw [ha.size, scan_from ha ho id (Nat.zero_add _), List.drop_zero]
  simp

/-- vec_find returns the pointer of the entry with the id. -/
theorem vecFind_eq (ha : ArrayOf h vec l d cells) (ho : Owns Block.tcb? h l) (id : ID) :
    vecFind h vec id = some ((Keyed.find key id l).map Prod.fst) := by
  rw [vecFind, vecScan_eq ha ho, Keyed.find]
  cases hf : l.findIdx? fun e => key e = id with
  | none =>
    have hnone : l.find? (fun e => key e = id) = none := by
      rw [List.findIdx?_eq_none_iff] at hf
      simpa using hf
    rw [hnone]
    rfl
  | some i =>
    obtain ⟨hi,hk,hbefore⟩ := List.findIdx?_eq_some_iff_getElem.mp hf
    have hfind : l.find? (fun e => key e = id) = some l[i] := by
      rw [List.find?_eq_some_iff_getElem]
      exact ⟨hk,i,hi,rfl,fun j hj => by simpa using hbefore j hj⟩
    simp only [hfind, ha.readCell hi, Option.map_some]

/-- vec->data[vec->size++] = tcb, when there is room. -/
private theorem vecAppend_eq (ha : ArrayOf h vec l d cells) (hroom : l.length < vec.capacity)
    (hsmall : l.length + 1 < 2^32) (a : Addr) (x : TCB) :
    vecAppend h vec a = some (some (h.put d (.array (cells.set l.length (some a))),⟨vec.data,vec.capacity,l.length + 1⟩)) ∧
      ArrayOf (h.put d (.array (cells.set l.length (some a)))) ⟨vec.data,vec.capacity,l.length + 1⟩ (l ++ [(a,x)]) d
        (cells.set l.length (some a)) := by
  have hlt : l.length < cells.length := by rwa [ha.capacity]
  constructor
  · simp only [vecAppend, writeCell, ha.data, Option.bind_some, ha.live, ha.size, hlt, if_true, Option.map_some]
    rw [Nat.mod_eq_of_lt hsmall]
  · refine ⟨ha.data,Heap.put_self,?_,?_,?_,ha.room⟩
    · rw [List.length_set]
      exact ha.capacity
    · rw [List.length_append, List.length_singleton]
    · have hused := ha.used
      rw [ha.size] at hused
      rw [List.take_succ_eq_append_getElem (by rwa [List.length_set]), List.take_set_of_le (Nat.le_refl _), hused,
        List.getElem_set_self, List.map_append]
      rfl

/-- realloc with a doubled capacity keeps the entries. -/
private theorem realloc_eq (ha : ArrayOf h vec l d cells) (hsmall : vec.capacity * 2 < 2^32) (p : Addr) :
    realloc h vec.data p (vec.capacity * 2 % 2^32) = some (Heap.put (Function.update h d none) p
        (.array (cells ++ List.replicate vec.capacity none))) ∧
      ArrayOf (Heap.put (Function.update h d none) p (.array (cells ++ List.replicate vec.capacity none)))
        ⟨some p,vec.capacity * 2 % 2^32,vec.size⟩ l p (cells ++ List.replicate vec.capacity none) := by
  have hroom := ha.room
  have hle := ha.size_le
  rw [Nat.mod_eq_of_lt hsmall]
  constructor
  · simp only [realloc, ha.data, Option.bind_some, ha.live, ha.capacity]
    rw [List.take_of_length_le (by rw [ha.capacity]; omega), show vec.capacity * 2 - vec.capacity = vec.capacity by omega]
  · refine ⟨rfl,Heap.put_self,?_,ha.size,?_,?_⟩
    · rw [List.length_append, List.length_replicate, ha.capacity]
      exact (Nat.mul_two _).symm
    · rw [List.take_append_of_le_length (by rw [ha.capacity, ha.size]; exact hle)]
      exact ha.used
    · exact Nat.mul_pos hroom (by decide)

/-- The array of a vector moved from d to d', or was written in place. -/
structure Moved (h h' : Heap Block) (d d' : Addr) : Prop where
  tcbs : SameTcbs h h'
  other : ∀ b, b ≠ d → b ≠ d' → h' b = h b
  fresh : d' = d ∨ h d' = none ∧ h' d = none

private theorem sameTcbs_trans {h₁ h₂ h₃ : Heap Block} (h12 : SameTcbs h₁ h₂) (h23 : SameTcbs h₂ h₃) : SameTcbs h₁ h₃ :=
  fun a => (h23 a).trans (h12 a)

private theorem ArrayOf.written (ha : ArrayOf h vec l d cells) (cells' : List (Option Addr)) :
    Moved h (h.put d (.array cells')) d d :=
  ⟨sameTcbs_array ha.no_tcb (some cells'),fun _ hb _ => Heap.put_other hb,Or.inl rfl⟩

/-- The capacity of a vector after a push. -/
def grown (vec : Vector) : Nat := if vec.size = vec.capacity then vec.capacity * 2 % 2^32 else vec.capacity

/-- vec_push appends unless the vector is full and cannot grow. -/
theorem vecPush_eq (ha : ArrayOf h vec l d cells) (hsmall : l.length < 2^31) {grow : Option Addr}
    (hgrow : vec.size = vec.capacity → ∀ p, grow = some p → h p = none ∨ p = d) (a : Addr) (x : TCB) :
    vec.size = vec.capacity ∧ grow = none ∧ vecPush grow h vec a = some none ∨
      ¬ (vec.size = vec.capacity ∧ grow = none) ∧ ∃ h' vec' d' cells', vecPush grow h vec a = some (some (h',vec')) ∧
        ArrayOf h' vec' (l ++ [(a,x)]) d' cells' ∧ vec'.capacity = grown vec ∧ Moved h h' d d' := by
  by_cases hfull : vec.size = vec.capacity
  · have hcap : vec.capacity = l.length := hfull.symm.trans ha.size
    cases grow with
    | none =>
      left
      refine ⟨hfull,rfl,?_⟩
      rw [vecPush, if_pos hfull]
    | some p =>
      right
      refine ⟨nofun,?_⟩
      obtain ⟨hre,hnew⟩ := realloc_eq ha (by omega) p
      have hroom := ha.room
      have hdouble : l.length < vec.capacity * 2 % 2^32 := by omega
      obtain ⟨happ,hres⟩ := vecAppend_eq hnew hdouble (by omega) a x
      refine ⟨_,_,p,_,?_,hres,(if_pos hfull).symm,?_⟩
      · rw [vecPush, if_pos hfull]
        simp only [hre, Option.bind_some]
        exact happ
      · have hfree : SameTcbs h (Function.update h d none) := sameTcbs_array ha.no_tcb none
        have hdead : readTcb (Function.update h d none) p = none := by
          rcases hgrow hfull p rfl with hp | rfl
          · rw [hfree p, readTcb, hp]
            rfl
          · rw [readTcb, Function.update_self]
            rfl
        refine ⟨sameTcbs_trans hfree (sameTcbs_trans (sameTcbs_array hdead (some _)) (hnew.written _).tcbs),?_,?_⟩
        · intro b hb hb'
          rw [Heap.put_other hb', Heap.put_other hb', Function.update_of_ne hb]
        · rcases eq_or_ne p d with hpd | hpd
          · exact Or.inl hpd
          · refine Or.inr ⟨(hgrow hfull p rfl).resolve_right hpd,?_⟩
            rw [Heap.put_other (Ne.symm hpd), Heap.put_other (Ne.symm hpd), Function.update_self]
  · right
    have hle := ha.size_le
    have hsize := ha.size
    obtain ⟨happ,hres⟩ := vecAppend_eq ha (by omega) (by omega) a x
    refine ⟨fun h => hfull h.1,_,_,d,_,?_,hres,(if_neg hfull).symm,ha.written _⟩
    rw [vecPush, if_neg hfull]
    exact happ

/-- The pointer of a block is not that of the array. -/
theorem ArrayOf.ne_entry (ha : ArrayOf h vec l d cells) {a : Addr} {x : TCB} (hx : readTcb h a = some x) : d ≠ a := by
  rintro rfl
  exact nomatch ha.no_tcb.symm.trans hx

/-- The cells after the entry at i was overwritten by the last one. -/
private theorem used_swapped (ha : ArrayOf h vec l d cells) {i : Nat} {z : Addr × TCB} :
    (cells.set i (some z.1)).take (vec.size - 1) = ((l.set i z).dropLast).map fun e => some e.1 := by
  have hle := ha.size_le
  have hsize := ha.size
  rw [List.map_dropLast, List.map_set, ← ha.used, ← List.take_set, List.dropLast_eq_take, List.take_take,
    List.length_take, List.length_set, ha.capacity]
  congr 1
  omega

/-- vec_delete of a stored block frees it and puts the last entry in its place. -/
theorem vecDelete_eq (ha : ArrayOf h vec l d cells) (ho : Owns Block.tcb? h l) (hids : (l.map key).Nodup) {a : Addr}
    {x : TCB} (hm : (a,x) ∈ l) : ∃ cells', vecDelete h vec a = some (Heap.put (Function.update h a none) d (.array cells'),
        ⟨vec.data,vec.capacity,vec.size - 1⟩) ∧
      ArrayOf (Heap.put (Function.update h a none) d (.array cells')) ⟨vec.data,vec.capacity,vec.size - 1⟩
        (Keyed.swapDelete key x.id l) d cells' := by
  have hx : readTcb h a = some x := ho _ hm
  have hda := ha.ne_entry hx
  obtain ⟨i,hi⟩ : ∃ i, l.findIdx? (fun e => key e = x.id) = some i := by
    cases hf : l.findIdx? (fun e => key e = x.id) with
    | some i => exact ⟨i,rfl⟩
    | none =>
      rw [List.findIdx?_eq_none_iff] at hf
      exact absurd (hf (a,x) hm) (by simp)
  obtain ⟨hlt,hk,-⟩ := List.findIdx?_eq_some_iff_getElem.mp hi
  have hentry : l[i] = (a,x) :=
    List.inj_on_of_nodup_map hids (List.getElem_mem hlt) hm (by simpa using hk)
  have hfreed : ArrayOf (Function.update h a none) vec l d cells := ha.frame (Function.update_of_ne hda ..)
  have hlast : l.length - 1 < l.length := by omega
  have hget : l.getLast? = some l[l.length - 1] := by
    rw [List.getLast?_eq_getElem?, List.getElem?_eq_getElem hlast]
  have hswap : Keyed.swapDelete key x.id l = (l.set i l[l.length - 1]).dropLast := by
    simp only [Keyed.swapDelete, hi, hget]
  have hic : i < cells.length := by
    rw [ha.capacity]
    exact Nat.lt_of_lt_of_le hlt ha.size_le
  have hlive : ∃ b, h a = some b := by
    cases hb : h a with
    | none => simp [readTcb, hb] at hx
    | some b => exact ⟨b,rfl⟩
  obtain ⟨b,hb⟩ := hlive
  refine ⟨cells.set i (some l[l.length - 1].1),?_,ha.data,Heap.put_self,?_,?_,?_,ha.room⟩
  · have hscan := vecScan_eq ha ho x.id
    rw [hi] at hscan
    have hread := ha.readCell hlt
    rw [hentry] at hread
    have hreadLast : Pointers.readCell (Function.update h a none) vec.data (vec.size - 1) = some l[l.length - 1].1 := by
      rw [ha.size]
      exact hfreed.readCell hlast
    simp only [vecDelete, hx, Option.map_some, hscan, hread, Option.bind_some, Heap.free_live hb, hreadLast]
    simp only [writeCell, ha.data, Option.bind_some, hfreed.live, hic, if_true, Option.map_some]
  · rw [List.length_set]
    exact ha.capacity
  · rw [hswap, List.length_dropLast, List.length_set]
    exact congrArg (· - 1) ha.size
  · rw [hswap]
    exact used_swapped ha

end Vectors

end LazyTcp.Refactor.Pointers
