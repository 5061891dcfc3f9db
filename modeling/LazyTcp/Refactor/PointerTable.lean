import LazyTcp.Refactor.PointerVectors
import LazyTcp.Refactor.Represented
import Mathlib.Data.Set.Basic

/-! hash.c over the heap: the table with its pointers stands for the table of
blocks, and the live TCBs are the ones it points to. -/
namespace LazyTcp.Refactor.Pointers
open General General.Blocks

/-- The entries of each bucket, the blocks that are live beside them, and the
arrays that a hash_init which failed left behind. -/
structure Rep (L : Set Addr) (extra : List (Addr × TCB)) (t : HashTable) (ht : Refactor.HashTable)
    (B : Fin HT_SIZE → List (Addr × TCB)) : Prop where
  wf : ht.WF
  init : t.init = ht.init
  size : t.size = ht.size
  values : ∀ i, (B i).map Prod.snd = ht.data i
  capacity : ∀ i, (t.buckets i).capacity = (ht.buckets i).capacity
  length : ∀ i, (t.buckets i).size = (B i).length
  live : ∀ a tcb, readTcb t.heap a = some tcb ↔ (a,tcb) ∈ extra ∨ ∃ i, (a,tcb) ∈ B i
  arrays : t.init = true → ∀ i, ∃ d cells, ArrayOf t.heap (t.buckets i) (B i) d cells
  separate : t.init = true → ∀ i j, (t.buckets i).data = (t.buckets j).data → i = j
  owned : ∀ a cells, t.heap a = some (.array cells) → t.init = true ∧ (∃ i, (t.buckets i).data = some a) ∨ a ∈ L

theorem Rep.empty : Rep ∅ [] .empty .empty fun _ => [] where
  wf := .empty
  init := rfl
  size := rfl
  values _ := rfl
  capacity _ := rfl
  length _ := rfl
  live a tcb := by
    constructor
    · exact nofun
    · rintro (h | ⟨i,h⟩) <;> cases h
  arrays h := nomatch h
  separate h := nomatch h
  owned _ _ h := nomatch h

section Table
variable {L : Set Addr} {extra : List (Addr × TCB)} {t : HashTable} {ht : Refactor.HashTable} {B : Fin HT_SIZE → List (Addr × TCB)}
  {a : Addr} {x y : TCB}

/-- L may be larger than it need be. -/
theorem Rep.mono (h : Rep L extra t ht B) {L' : Set Addr} (hL : L ⊆ L') : Rep L' extra t ht B :=
  { h with owned := fun a cells ha => (h.owned a cells ha).imp_right fun hm => hL hm }

theorem Rep.owns (h : Rep L extra t ht B) (i : Fin HT_SIZE) : Owns Block.tcb? t.heap (B i) :=
  fun e he => (h.live e.1 e.2).mpr (Or.inr ⟨i,he⟩)

theorem Rep.ids (h : Rep L extra t ht B) (i : Fin HT_SIZE) : ((B i).map key).Nodup := by
  have hn := h.wf.placed.nodup i
  rw [← h.values, List.map_map] at hn
  exact hn

/-- An entry is in the bucket of its id. -/
theorem Rep.home (h : Rep L extra t ht B) {i : Fin HT_SIZE} (hm : (a,x) ∈ B i) : hashId x.id = i := by
  refine h.wf.placed.home i x ?_
  rw [← h.values]
  exact List.mem_map_of_mem hm

theorem Rep.find_value (h : Rep L extra t ht B) (id : ID) :
    Refactor.hashFind ht id = (Keyed.find key id (B (hashId id))).map Prod.snd := by
  rw [h.wf.find_eq, Keyed.lookup, ← h.values, Keyed.find_map]

/-- hash_find returns the pointer to the block it stands for. -/
theorem Rep.find (h : Rep L extra t ht B) (id : ID) :
    hashFind t id = some ((Keyed.find key id (B (hashId id))).map Prod.fst) := by
  cases hi : t.init with
  | true =>
    obtain ⟨d,cells,ha⟩ := h.arrays hi (hashId id)
    simp only [hashFind, hi, Bool.not_true, Bool.false_eq_true, if_false]
    exact vecFind_eq ha (h.owns _) id
  | false =>
    have hnil : B (hashId id) = [] := by
      rw [← List.map_eq_nil_iff (f := Prod.snd), h.values, h.wf.idle (h.init ▸ hi)]
    simp [hashFind, hi, hnil, Keyed.find]

/-- The arrays of the other buckets are where they were. -/
private def OthersKept (t : HashTable) (i : Fin HT_SIZE) (heap : Heap Block) : Prop :=
  ∀ j b, j ≠ i → (t.buckets j).data = some b → heap b = t.heap b

/-- A bucket replaced by a vector whose array is the old one or new. -/
private theorem Rep.replace (h : Rep L extra t ht B) (hi : t.init = true) (i : Fin HT_SIZE) {heap : Heap Block}
    {vec : Vector} {l : List (Addr × TCB)} {d d' : Addr} {cells cells' : List (Option Addr)}
    (hold : ArrayOf t.heap (t.buckets i) (B i) d cells) (hnew : ArrayOf heap vec l d' cells')
    (hkept : OthersKept t i heap) (hd : d' = d ∨ t.heap d' = none) :
    (∀ j, ∃ d cells, ArrayOf heap (Function.update t.buckets i vec j) (Function.update B i l j) d cells) ∧
      ∀ j k, (Function.update t.buckets i vec j).data = (Function.update t.buckets i vec k).data → j = k := by
  have hother : ∀ j, j ≠ i → (t.buckets j).data ≠ vec.data := by
    intro j hj he
    obtain ⟨dj,cj,haj⟩ := h.arrays hi j
    rw [hnew.data, haj.data] at he
    cases he
    rcases hd with rfl | hd
    · exact hj (h.separate hi j i (haj.data.trans hold.data.symm))
    · exact nomatch hd.symm.trans haj.live
  constructor
  · intro j
    by_cases hj : j = i
    · subst hj
      rw [Function.update_self, Function.update_self]
      exact ⟨d',cells',hnew⟩
    · rw [Function.update_of_ne hj, Function.update_of_ne hj]
      obtain ⟨dj,cj,haj⟩ := h.arrays hi j
      exact ⟨dj,cj,haj.frame (hkept j dj hj haj.data)⟩
  · intro j k he
    by_cases hj : j = i <;> by_cases hk : k = i
    · exact hj.trans hk.symm
    · rw [hj, Function.update_self, Function.update_of_ne hk] at he
      exact absurd he.symm (hother k hk)
    · rw [hk, Function.update_self, Function.update_of_ne hj] at he
      exact absurd he (hother j hj)
    · rw [Function.update_of_ne hj, Function.update_of_ne hk] at he
      exact h.separate hi j k he

/-- The entries, their number and the capacities after one bucket was replaced. -/
private theorem values_replaced (h : Rep L extra t ht B) (i : Fin HT_SIZE) (l : List (Addr × TCB)) (j : Fin HT_SIZE) :
    (Function.update B i l j).map Prod.snd = Function.update ht.data i (l.map Prod.snd) j := by
  rw [← funext h.values]
  exact Function.apply_update (fun _ l => l.map Prod.snd) B i l j

private theorem capacity_replaced {buckets : Fin HT_SIZE → Vec} {i : Fin HT_SIZE} {vec : Vector} {v : Vec}
    (h : ∀ j, (t.buckets j).capacity = (buckets j).capacity) (hi : vec.capacity = v.capacity) (j : Fin HT_SIZE) :
    (Function.update t.buckets i vec j).capacity = (Function.update buckets i v j).capacity := by
  by_cases hj : j = i
  · rw [hj, Function.update_self, Function.update_self, hi]
  · rw [Function.update_of_ne hj, Function.update_of_ne hj, h]

private theorem length_replaced {i : Fin HT_SIZE} {vec : Vector} {l : List (Addr × TCB)}
    (h : ∀ j, (t.buckets j).size = (B j).length) (hi : vec.size = l.length) (j : Fin HT_SIZE) :
    (Function.update t.buckets i vec j).size = (Function.update B i l j).length := by
  by_cases hj : j = i
  · rw [hj, Function.update_self, Function.update_self, hi]
  · rw [Function.update_of_ne hj, Function.update_of_ne hj, h]

/-- Pointers are as good as ids. -/
private theorem Rep.entry_eq (h : Rep L extra t ht B) {i j : Fin HT_SIZE} {a' : Addr} (hm : (a,x) ∈ B i)
    (hm' : (a',y) ∈ B j) : a = a' ↔ x.id = y.id := by
  constructor
  · intro he
    exact congrArg key ((h.owns i).agree (h.owns j) hm hm' he)
  · intro he
    have hij : i = j := by rw [← h.home hm, ← h.home hm', he]
    subst hij
    exact congrArg Prod.fst (List.inj_on_of_nodup_map (h.ids i) hm hm' he)

private theorem mem_replaced {i : Fin HT_SIZE} {l : List (Addr × TCB)} {e : Addr × TCB} :
    (∃ j, e ∈ Function.update B i l j) ↔ e ∈ l ∨ ∃ j, j ≠ i ∧ e ∈ B j := by
  constructor
  · rintro ⟨j,hj⟩
    by_cases hne : j = i
    · rw [hne, Function.update_self] at hj
      exact Or.inl hj
    · rw [Function.update_of_ne hne] at hj
      exact Or.inr ⟨j,hne,hj⟩
  · rintro (h | ⟨j,hne,hj⟩)
    · exact ⟨i,by rwa [Function.update_self]⟩
    · exact ⟨j,by rwa [Function.update_of_ne hne]⟩

/-- The blocks at other addresses than a's are the ones with other ids. -/
private theorem Rep.live_except (h : Rep L [] t ht B) {i : Fin HT_SIZE} (hm : (a,x) ∈ B i) (b : Addr) (tcb : TCB) :
    (if b = a then none else readTcb t.heap b) = some tcb ↔ key (b,tcb) ≠ x.id ∧ ∃ j, (b,tcb) ∈ B j := by
  constructor
  · intro hb
    split at hb
    case isTrue => cases hb
    case isFalse hne =>
      obtain ⟨j,hj⟩ := ((h.live b tcb).mp hb).resolve_left List.not_mem_nil
      exact ⟨fun hk => hne ((h.entry_eq hj hm).mpr hk),j,hj⟩
  · rintro ⟨hk,j,hj⟩
    rw [if_neg fun he => hk ((h.entry_eq hj hm).mp he)]
    exact h.owns j _ hj

/-- hash_delete of a stored block frees that block only. -/
theorem Rep.delete (h : Rep L [] t ht B) {i : Fin HT_SIZE} (hm : (a,x) ∈ B i) : ∃ t', hashDelete t a = some t' ∧
    Rep L [] t' (Refactor.hashDelete ht x) (Function.update B (hashId x.id) (Keyed.swapDelete key x.id (B (hashId x.id)))) := by
  have hx : readTcb t.heap a = some x := h.owns i _ hm
  have hhome := h.home hm
  rw [hhome]
  have hi : t.init = true := by
    by_contra hi
    have hnil : B i = [] := by
      rw [← List.map_eq_nil_iff (f := Prod.snd), h.values, h.wf.idle (h.init ▸ Bool.eq_false_iff.mpr hi)]
    rw [hnil] at hm
    cases hm
  have hi' : ht.init = true := h.init ▸ hi
  obtain ⟨d,cells,ha⟩ := h.arrays hi (i)
  obtain ⟨cells',hdel,hnew⟩ := vecDelete_eq ha (h.owns _) (h.ids _) hm
  have hda := ha.ne_entry hx
  have hkept : OthersKept t (i) (Heap.put (Function.update t.heap a none) d (.array cells')) := by
    intro j b hj hb
    obtain ⟨dj,cj,haj⟩ := h.arrays hi j
    cases haj.data.symm.trans hb
    have hbd : b ≠ d := by
      rintro rfl
      exact hj (h.separate hi j _ (haj.data.trans ha.data.symm))
    rw [Heap.put_other hbd, Function.update_of_ne (haj.ne_entry hx)]
  have hread (b : Addr) : readTcb (Heap.put (Function.update t.heap a none) d (.array cells')) b =
      if b = a then none else readTcb t.heap b := by
    have hd : readTcb (Function.update t.heap a none) d = none := by
      rw [readTcb, Function.update_of_ne hda]
      exact ha.no_tcb
    refine (sameTcbs_array hd (some cells') b).trans ?_
    rw [readTcb]
    by_cases hb : b = a
    · rw [hb, Function.update_self, if_pos rfl]
      rfl
    · rw [Function.update_of_ne hb, if_neg hb]
      rfl
  obtain ⟨harr,hsep⟩ := h.replace hi _ ha hnew hkept (Or.inl rfl)
  refine ⟨⟨Heap.put (Function.update t.heap a none) d (.array cells'),Function.update t.buckets (i)
    ⟨(t.buckets (i)).data,(t.buckets (i)).capacity,(t.buckets (i)).size - 1⟩,
    t.size - 1,t.init⟩,?_,(hashDelete_spec h.wf x).1,?_,?_,?_,?_,?_,?_,fun _ => harr,fun _ => hsep,?_⟩
  · simp only [hashDelete, hi, Bool.not_true, Bool.false_eq_true, if_false, hx, Option.bind_some, hhome, hdel, Option.map_some]
  · rw [hashDelete_initialised hi', hi]
  · rw [hashDelete_initialised hi', h.size]
  · intro j
    rw [hashDelete_data hi', hhome, values_replaced h, ← h.values, Keyed.swapDelete_map]
  · intro j
    rw [hashDelete_initialised hi', hhome]
    refine capacity_replaced h.capacity ?_ j
    exact h.capacity (i)
  · intro j
    refine length_replaced h.length ?_ j
    exact hnew.size
  · intro b tcb
    rw [hread, h.live_except hm b tcb, mem_replaced]
    simp only [List.not_mem_nil, false_or, Keyed.mem_swapDelete (h.ids i)]
    constructor
    · rintro ⟨hk,j,hj⟩
      rcases eq_or_ne j i with rfl | hne
      · exact Or.inl ⟨hj,hk⟩
      · exact Or.inr ⟨j,hne,hj⟩
    · rintro (⟨hj,hk⟩ | ⟨j,hne,hj⟩)
      · exact ⟨hk,i,hj⟩
      · refine ⟨fun hk => hne ?_,j,hj⟩
        rw [← h.home hj, ← hhome]
        exact congrArg hashId hk
  · intro b c hb
    have hdata : ∀ j, (Function.update t.buckets i
        ⟨(t.buckets i).data,(t.buckets i).capacity,(t.buckets i).size - 1⟩ j).data = (t.buckets j).data := by
      intro j
      by_cases hj : j = i
      · rw [hj, Function.update_self]
      · rw [Function.update_of_ne hj]
    simp only [hdata]
    by_cases hbd : b = d
    · exact Or.inl ⟨hi,i,hbd ▸ ha.data⟩
    · have hold : Function.update t.heap a none b = some (.array c) := (Heap.put_other hbd).symm.trans hb
      by_cases hba : b = a
      · rw [hba, Function.update_self] at hold
        cases hold
      · rw [Function.update_of_ne hba] at hold
        exact h.owned b c hold

theorem readTcb_put (h : Heap Block) (a : Addr) (y : TCB) (b : Addr) :
    readTcb (h.put a (.tcb y)) b = if b = a then some y else readTcb h b := by
  by_cases hb : b = a
  · rw [hb, if_pos rfl, readTcb, Heap.put_self]
    rfl
  · rw [if_neg hb, readTcb, Heap.put_other hb]
    rfl

/-- The cells hold the pointers, whatever the blocks hold. -/
private theorem ArrayOf.rewrite {h : Heap Block} {vec : Vector} {l l' : List (Addr × TCB)} {d : Addr}
    {cells : List (Option Addr)} (ha : ArrayOf h vec l d cells) (hl : l'.map Prod.fst = l.map Prod.fst) :
    ArrayOf h vec l' d cells := by
  have hmap (l : List (Addr × TCB)) : (l.map fun e => some e.1) = (l.map Prod.fst).map some := by rw [List.map_map]; rfl
  have hlen := congrArg List.length hl
  rw [List.length_map, List.length_map] at hlen
  refine ⟨ha.data,ha.live,ha.capacity,ha.size.trans hlen.symm,?_,ha.room⟩
  rw [ha.used, hmap, hmap, hl]

private theorem update_fst (k : ID) (y : TCB) (l : List (Addr × TCB)) :
    (Keyed.update key k (fun e => (e.1,y)) l).map Prod.fst = l.map Prod.fst := by
  induction l with
  | nil => rfl
  | cons e l ih =>
    rw [Keyed.update]
    split
    · rfl
    · rw [List.map_cons, List.map_cons, ih]

/-- Assignments through the pointer of a stored block. -/
theorem Rep.write (h : Rep L [] t ht B) {i : Fin HT_SIZE} (hm : (a,x) ∈ B i) (hid : y.id = x.id) :
    Rep L [] { t with heap := t.heap.put a (.tcb y) } (tcbStore ht y)
      (Function.update B i (Keyed.update key y.id (fun e => (e.1,y)) (B i))) := by
  have hx : readTcb t.heap a = some x := h.owns i _ hm
  have hhome : hashId y.id = i := by
    rw [hid]
    exact h.home hm
  have hstored : Refactor.hashFind ht y.id ≠ none := by
    rw [h.find_value, hhome, hid, (Keyed.find_eq_some_iff (h.ids i)).mpr ⟨hm,rfl⟩]
    exact Option.some_ne_none _
  have hlen : ∀ j, (Function.update B i (Keyed.update key y.id (fun e => (e.1,y)) (B i)) j).map Prod.fst =
      (B j).map Prod.fst := by
    intro j
    by_cases hj : j = i
    · rw [hj, Function.update_self, update_fst]
    · rw [Function.update_of_ne hj]
  refine ⟨(tcbStore_spec h.wf y hstored).1,h.init,h.size,?_,?_,?_,?_,fun hi j => ?_,h.separate,fun b c hb => ?_⟩
  · intro j
    have hmap : (Keyed.update key y.id (fun e => (e.1,y)) (B i)).map Prod.snd =
        Keyed.update TCB.id y.id (fun _ => y) ((B i).map Prod.snd) := by
      rw [Keyed.update_map Prod.snd y.id (g := fun e => (e.1,y))]
      exact fun _ => rfl
    rw [values_replaced h, hmap, h.values, ← hhome]
    exact congrFun (data_update ht.buckets (hashId y.id) ⟨_,_⟩ ht.size ht.init).symm j
  · intro j
    rw [h.capacity]
    by_cases hj : j = hashId y.id
    · subst hj
      simp only [tcbStore, Function.update_self]
    · simp only [tcbStore, Function.update_of_ne hj]
  · intro j
    have hl := congrArg List.length (hlen j)
    rw [List.length_map, List.length_map] at hl
    rw [hl]
    exact h.length j
  · intro b tcb
    rw [readTcb_put, mem_replaced, Keyed.mem_update (h.ids i)]
    have hexcept := h.live_except hm b tcb
    constructor
    · intro hb
      refine Or.inr ?_
      split at hb
      case isTrue hba =>
        cases hb
        exact Or.inl (Or.inr ⟨(a,x),hm,hid.symm,by rw [hba]⟩)
      case isFalse hba =>
        rw [if_neg hba] at hexcept
        obtain ⟨hk,j,hj⟩ := hexcept.mp hb
        rcases eq_or_ne j i with rfl | hne
        · exact Or.inl (Or.inl ⟨hj,hid ▸ hk⟩)
        · exact Or.inr ⟨j,hne,hj⟩
    · rintro (hb | (⟨hj,hk⟩ | ⟨e,he,hk,heq⟩) | ⟨j,hne,hj⟩)
      · cases hb
      · rw [if_neg fun hba => hk (((h.entry_eq hj hm).mp hba).trans hid.symm)]
        exact h.owns i _ hj
      · cases heq
        rw [if_pos ((h.entry_eq he hm).mpr (hk.trans hid))]
      · rw [if_neg fun hba => hne ?_]
        · exact h.owns j _ hj
        · rw [← h.home hj, ← h.home hm]
          exact congrArg hashId ((h.entry_eq hj hm).mp hba)
  · obtain ⟨d,cells,ha⟩ := h.arrays hi j
    exact ⟨d,cells,(ha.frame (Heap.put_other (ha.ne_entry hx))).rewrite (hlen j)⟩
  · by_cases hba : b = a
    · rw [hba] at hb
      cases Heap.put_self.symm.trans hb
    · exact h.owned b c ((Heap.put_other hba).symm.trans hb)

/-- The answers of one hash_insert: memory that is not in use, except that
realloc may leave the array of the bucket where it is. -/
structure FreshFor (idx : Fin HT_SIZE) (m : Mallocs) (t : HashTable) : Prop where
  vec : t.init = false → ∀ i p, m.vec i = some p → t.heap p = none
  distinct : ∀ i j p, m.vec i = some p → m.vec j = some p → i = j
  grow : t.init = true → (t.buckets idx).size = (t.buckets idx).capacity → ∀ p, m.grow = some p →
    t.heap p = none ∨ (t.buckets idx).data = some p

/-- The arrays that hash_init got before a later malloc of it failed. -/
def stranded (m : Mallocs) : Set Addr := {a | (∃ i, m.vec i = some a) ∧ ∃ i, m.vec i = none}

/-- The block is an entry now, or still beside the table. -/
def Inserted (L : Set Addr) (a : Addr) (x : TCB) (B : Fin HT_SIZE → List (Addr × TCB)) (r : Bool × HashTable)
    (r' : Bool × Refactor.HashTable) : Prop :=
  r.1 = r'.1 ∧ if r.1 then Rep L [] r.2 r'.2 (Function.update B (hashId x.id) (B (hashId x.id) ++ [(a,x)]))
    else Rep L [(a,x)] r.2 r'.2 B

/-- The same number of entries at both levels. -/
private theorem Rep.bucket_size (h : Rep L extra t ht B) (i : Fin HT_SIZE) : (t.buckets i).size = (ht.buckets i).size := by
  have hv := congrArg List.length (h.values i)
  rw [List.length_map] at hv
  exact (h.length i).trans hv

private theorem Rep.push (h : Rep L [(a,x)] t ht B) (hi : t.init = true) (hn : Refactor.hashFind ht x.id = none)
    (hsmall : (B (hashId x.id)).length < 2^31) {m : Mallocs}
    (hgrow : (t.buckets (hashId x.id)).size = (t.buckets (hashId x.id)).capacity → ∀ p, m.grow = some p →
      t.heap p = none ∨ (t.buckets (hashId x.id)).data = some p) :
    ∃ r, hashInsert m t a = some r ∧ Inserted L a x B r (Refactor.hashInsert m.allocs ht x) := by
  have hx : readTcb t.heap a = some x := (h.live a x).mpr (Or.inl (List.mem_singleton.mpr rfl))
  have hi' : ht.init = true := h.init ▸ hi
  obtain ⟨i,hidx⟩ : ∃ i, hashId x.id = i := ⟨_,rfl⟩
  have hdata := hashInsert_data h.wf x
  have hsucceed := hashInsert_succeed ht x
  have hvalue := hashInsert_initialised hi' m.allocs x
  rw [show opened ht = ht from if_pos hi'] at hsucceed
  simp only [hidx] at hsmall hgrow hdata hsucceed hvalue
  obtain ⟨d,cells,ha⟩ := h.arrays hi i
  have hgrow' : (t.buckets i).size = (t.buckets i).capacity → ∀ p, m.grow = some p → t.heap p = none ∨ p = d := by
    intro hfull p hp
    refine (hgrow hfull p hp).imp_right fun he => ?_
    rw [ha.data] at he
    exact (Option.some.inj he).symm
  rw [← h.bucket_size, ← h.capacity] at hvalue
  rcases vecPush_eq ha hsmall hgrow' a x with ⟨hfull,hnone,hpush⟩ | ⟨hgrows,heap,vec,d',cells',hpush,hnew,hcap,hmoved⟩
  · refine ⟨(false,t),by simp only [hashInsert, hi, if_true, hx, Option.bind_some, hidx, hpush, Option.map_some],?_⟩
    rw [Inserted, hvalue, if_pos ⟨hfull,by rw [Mallocs.allocs, hnone]; rfl⟩]
    exact ⟨rfl,h⟩
  · refine ⟨(true,⟨heap,Function.update t.buckets i vec,t.size + 1,t.init⟩),
      by simp only [hashInsert, hi, if_true, hx, Option.bind_some, hidx, hpush, Option.map_some],?_⟩
    have hg : ¬ ((t.buckets i).size = (t.buckets i).capacity ∧ m.allocs.grow = false) := by
      refine fun hfull => hgrows ⟨hfull.1,?_⟩
      exact Option.isSome_eq_false_iff.mp hfull.2 |> Option.isNone_iff_eq_none.mp
    have hkept : OthersKept t i heap := by
      intro j b hj hb
      obtain ⟨dj,cj,haj⟩ := h.arrays hi j
      cases haj.data.symm.trans hb
      have hbd : b ≠ d := by
        rintro rfl
        exact hj (h.separate hi j i (haj.data.trans ha.data.symm))
      refine hmoved.other b hbd fun hbd' => ?_
      rcases hmoved.fresh with he | ⟨hdead,-⟩
      · exact hbd (hbd'.trans he)
      · have hlive := haj.live
        rw [hbd', hdead] at hlive
        cases hlive
    obtain ⟨harr,hsep⟩ := h.replace hi i ha hnew hkept (hmoved.fresh.imp_right And.left)
    rw [Inserted, hvalue, if_neg hg]
    have hwf := (hashInsert_spec h.wf .succeed x hn).1
    refine ⟨by rw [hsucceed],?_⟩
    simp only [if_true]
    rw [hidx]
    refine ⟨hwf,?_,?_,?_,?_,?_,?_,fun _ => harr,fun _ => hsep,?_⟩
    · rw [hsucceed]
      exact hi
    · rw [hsucceed, h.size]
    · intro j
      rw [hdata, values_replaced h, List.map_append, h.values]
      rfl
    · intro j
      rw [hsucceed]
      refine capacity_replaced h.capacity ?_ j
      rw [hcap, pushed, grown, h.bucket_size, h.capacity]
    · intro j
      refine length_replaced h.length ?_ j
      exact hnew.size
    · intro b tcb
      rw [hmoved.tcbs b, h.live, mem_replaced, List.mem_append]
      constructor
      · rintro (hb | ⟨j,hj⟩)
        · exact Or.inr (Or.inl (Or.inr hb))
        · rcases eq_or_ne j i with rfl | hne
          · exact Or.inr (Or.inl (Or.inl hj))
          · exact Or.inr (Or.inr ⟨j,hne,hj⟩)
      · rintro (hb | (hb | hb) | ⟨j,-,hj⟩)
        · cases hb
        · exact Or.inr ⟨i,hb⟩
        · exact Or.inl hb
        · exact Or.inr ⟨j,hj⟩
    · intro b c hb
      by_cases hbd' : b = d'
      · refine Or.inl ⟨hi,i,(congrArg Vector.data (Function.update_self ..)).trans ?_⟩
        rw [hbd', hnew.data]
      · have hbd : b ≠ d := by
          rintro rfl
          rcases hmoved.fresh with he | ⟨-,hfreed⟩
          · exact hbd' he.symm
          · cases hfreed.symm.trans hb
        refine (h.owned b c ((hmoved.other b hbd hbd').symm.trans hb)).imp_left ?_
        rintro ⟨-,j,hj⟩
        have hji : j ≠ i := by
          rintro rfl
          exact hbd (Option.some.inj (hj.symm.trans ha.data))
        exact ⟨hi,j,(congrArg Vector.data (Function.update_of_ne hji ..)).trans hj⟩

/-- What the allocation loop of hash_init leaves of a table without entries. -/
private structure InitLoop (vec : Fin HT_SIZE → Option Addr) (is : List (Fin HT_SIZE)) (t : HashTable)
    (r : Bool × HashTable) (r' : Bool × (Fin HT_SIZE → Vec)) : Prop where
  ok : r.1 = r'.1
  capacity : ∀ j, (r.2.buckets j).capacity = (r'.2 j).capacity
  length : ∀ j, (r.2.buckets j).size = 0
  size : r.2.size = t.size
  init : r.2.init = t.init
  tcbs : SameTcbs t.heap r.2.heap
  other : ∀ b, (∀ i ∈ is, vec i ≠ some b) → r.2.heap b = t.heap b
  kept : ∀ j, j ∉ is → r.2.buckets j = t.buckets j
  failed : r.1 = false → ∃ i, vec i = none
  arrays : r.1 = true → ∀ i ∈ is, ∃ d, vec i = some d ∧ r.2.buckets i = ⟨some d,DEF_CAP,0⟩ ∧
    r.2.heap d = some (.array (List.replicate DEF_CAP none))

private theorem vecInit_heap (t : HashTable) (i : Fin HT_SIZE) {p b : Addr} (hb : b ≠ p) :
    (vecInit t i p).heap b = t.heap b := Heap.put_other hb

private theorem vecInit_array (t : HashTable) (i : Fin HT_SIZE) (p : Addr) :
    (vecInit t i p).heap p = some (.array (List.replicate DEF_CAP none)) := Heap.put_self

private theorem vecInit_self (t : HashTable) (i : Fin HT_SIZE) (p : Addr) :
    (vecInit t i p).buckets i = ⟨some p,DEF_CAP,0⟩ := Function.update_self ..

private theorem vecInit_bucket (t : HashTable) {i j : Fin HT_SIZE} (p : Addr) (hj : j ≠ i) :
    (vecInit t i p).buckets j = t.buckets j := Function.update_of_ne hj ..

private theorem hashInitLoop_spec {vec : Fin HT_SIZE → Option Addr}
    (hdist : ∀ i j p, vec i = some p → vec j = some p → i = j) {is : List (Fin HT_SIZE)} (hnodup : is.Nodup)
    {t : HashTable} {buckets : Fin HT_SIZE → Vec} (hdead : ∀ i ∈ is, ∀ p, vec i = some p → t.heap p = none)
    (hcap : ∀ j, (t.buckets j).capacity = (buckets j).capacity) (hnil : ∀ j, (t.buckets j).size = 0) :
    InitLoop vec is t (hashInitLoop vec is t) (Refactor.hashInitLoop (fun i => (vec i).isSome) is buckets) := by
  induction is generalizing t buckets with
  | nil => exact ⟨rfl,hcap,hnil,rfl,rfl,fun _ => rfl,fun _ _ => rfl,fun _ _ => rfl,fun h => absurd h.symm Bool.false_ne_true,
      fun _ _ h => absurd h List.not_mem_nil⟩
  | cons i is ih =>
    rw [List.nodup_cons] at hnodup
    cases hv : vec i with
    | none =>
      simp only [hashInitLoop, Refactor.hashInitLoop, hv, Option.isSome_none, Bool.false_eq_true, if_false]
      exact ⟨rfl,hcap,hnil,rfl,rfl,fun _ => rfl,fun _ _ => rfl,fun _ _ => rfl,fun _ => ⟨i,hv⟩,
        fun h => absurd h Bool.false_ne_true⟩
    | some p =>
      simp only [hashInitLoop, Refactor.hashInitLoop, hv, Option.isSome_some, if_true]
      have hp : t.heap p = none := hdead i (List.mem_cons_self ..) p hv
      have hne : ∀ j ∈ is, ∀ q, vec j = some q → q ≠ p := by
        rintro j hj q hq rfl
        exact hnodup.1 (hdist j i q hq hv ▸ hj)
      have hdead' : ∀ j ∈ is, ∀ q, vec j = some q → (vecInit t i p).heap q = none := by
        intro j hj q hq
        rw [vecInit_heap t i (hne j hj q hq)]
        exact hdead j (List.mem_cons_of_mem _ hj) q hq
      have hcap' : ∀ j, ((vecInit t i p).buckets j).capacity = (Function.update buckets i Refactor.vecInit j).capacity :=
        fun j => capacity_replaced hcap rfl j
      have hnil' : ∀ j, ((vecInit t i p).buckets j).size = 0 := by
        intro j
        by_cases hj : j = i
        · rw [hj, vecInit_self]
        · rw [vecInit_bucket t p hj, hnil]
      have hread : readTcb t.heap p = none := by
        rw [readTcb, hp]
        rfl
      have hloop := ih hnodup.2 hdead' hcap' hnil'
      refine ⟨hloop.ok,hloop.capacity,hloop.length,hloop.size,hloop.init,?_,?_,?_,hloop.failed,?_⟩
      · exact fun b => (hloop.tcbs b).trans (sameTcbs_array hread (some _) b)
      · intro b hb
        rw [hloop.other b fun j hj => hb j (List.mem_cons_of_mem _ hj)]
        refine vecInit_heap t i fun he => hb i (List.mem_cons_self ..) ?_
        rw [he, hv]
      · intro j hj
        rw [List.mem_cons, not_or] at hj
        rw [hloop.kept j hj.2, vecInit_bucket t p hj.1]
      · intro hok j hj
        rcases List.mem_cons.mp hj with rfl | hj
        · refine ⟨p,hv,?_,?_⟩
          · rw [hloop.kept j hnodup.1, vecInit_self]
          · rw [hloop.other p fun k hk he => hne k hk p he rfl, vecInit_array]
        · exact hloop.arrays hok j hj

/-- A table before its first hash_init has no entries. -/
theorem Rep.nil (h : Rep L extra t ht B) (hi : t.init = false) (i : Fin HT_SIZE) : B i = [] := by
  rw [← List.map_eq_nil_iff (f := Prod.snd), h.values, h.wf.idle (h.init ▸ hi)]

/-- An array that is live after the loop is one of its own, or was left behind before. -/
private theorem Rep.array_origin (h : Rep L extra t ht B) (hi : t.init = false) {vec : Fin HT_SIZE → Option Addr}
    {r : Bool × HashTable} {r' : Bool × (Fin HT_SIZE → Vec)} (hl : InitLoop vec (List.finRange HT_SIZE) t r r')
    (a : Addr) (cells : List (Option Addr)) (ha : r.2.heap a = some (.array cells)) : (∃ i, vec i = some a) ∨ a ∈ L := by
  by_cases hv : ∃ i, vec i = some a
  · exact Or.inl hv
  · rw [hl.other a fun i _ hvi => hv ⟨i,hvi⟩] at ha
    refine Or.inr ((h.owned a cells ha).resolve_left ?_)
    rintro ⟨hinit,-⟩
    rw [hi] at hinit
    cases hinit

/-- The table after hash_init ran to its end. -/
private theorem Rep.initialised (h : Rep L extra t ht B) (hi : t.init = false) {m : Mallocs} {t' : HashTable}
    {buckets : Fin HT_SIZE → Vec}
    (hl : InitLoop m.vec (List.finRange HT_SIZE) t (true,t') (true,buckets))
    (hl' : Refactor.hashInitLoop m.allocs.vec (List.finRange HT_SIZE) ht.buckets = (true,buckets))
    (hdist : ∀ i j p, m.vec i = some p → m.vec j = some p → i = j) :
    Rep L extra { t' with size := 0, init := true } ⟨buckets,0,true⟩ B := by
  have harr (i : Fin HT_SIZE) := hl.arrays rfl i (List.mem_finRange i)
  have hall : ∀ i, m.allocs.vec i = true := by
    intro i
    obtain ⟨d,hd,-⟩ := harr i
    show (m.vec i).isSome = true
    rw [hd]
    rfl
  have hok := hashInit_ok hall ht
  simp only [Refactor.hashInit, hl'] at hok
  have hbuckets : buckets = fun _ => Refactor.vecInit := congrArg (fun r => r.2.buckets) hok
  have hdata (i : Fin HT_SIZE) : Refactor.HashTable.data ⟨buckets,0,true⟩ i = [] := by
    rw [hbuckets]
    rfl
  refine ⟨⟨?_,fun _ => hdata⟩,rfl,rfl,?_,hl.capacity,?_,?_,fun _ i => ?_,fun _ i j he => ?_,fun a cells ha => ?_⟩
  · rw [funext hdata]
    exact Keyed.Placed.empty
  · intro i
    rw [h.nil hi, hdata]
    rfl
  · intro i
    rw [h.nil hi]
    exact hl.length i
  · intro b tcb
    rw [← h.live]
    exact Eq.congr_left (hl.tcbs b)
  · obtain ⟨d,-,hvec,hd⟩ := harr i
    rw [hvec, h.nil hi]
    have hcap : 0 < DEF_CAP := by decide
    exact ⟨d,List.replicate DEF_CAP none,rfl,hd,List.length_replicate,rfl,rfl,hcap⟩
  · obtain ⟨d,hd,hvec,-⟩ := harr i
    obtain ⟨d',hd',hvec',-⟩ := harr j
    have hdata : some d = some d' := by
      refine (congrArg Vector.data hvec).symm.trans (Eq.trans ?_ (congrArg Vector.data hvec'))
      exact he
    cases hdata
    exact hdist i j d hd hd'
  · refine (h.array_origin hi hl a cells ha).imp_left ?_
    rintro ⟨i,hvi⟩
    obtain ⟨d,hd,hvec,-⟩ := harr i
    rw [hvi] at hd
    refine ⟨rfl,i,(congrArg Vector.data hvec).trans ?_⟩
    exact hd.symm

/-- hash_insert of a block beside the table, whatever malloc and realloc answer. -/
theorem Rep.insert (h : Rep L [(a,x)] t ht B) (hn : Refactor.hashFind ht x.id = none)
    (hsmall : (B (hashId x.id)).length < 2^31) {m : Mallocs} (hf : FreshFor (hashId x.id) m t) :
    ∃ r, hashInsert m t a = some r ∧ Inserted (L ∪ stranded m) a x B r (Refactor.hashInsert m.allocs ht x) := by
  cases hi : t.init with
  | true => exact (h.mono Set.subset_union_left).push hi hn hsmall (hf.grow hi)
  | false =>
    have hi' : ht.init = false := h.init ▸ hi
    have hspec := hashInitLoop_spec hf.distinct (List.nodup_finRange HT_SIZE) (fun i _ => hf.vec hi i) h.capacity
      fun j => by rw [h.length, h.nil hi]; rfl
    rcases hl : hashInitLoop m.vec (List.finRange HT_SIZE) t with ⟨ok,t'⟩
    rcases hl' : Refactor.hashInitLoop m.allocs.vec (List.finRange HT_SIZE) ht.buckets with ⟨ok',buckets⟩
    rw [hl, show (fun i => (m.vec i).isSome) = m.allocs.vec from rfl, hl'] at hspec
    obtain rfl : ok = ok' := hspec.ok
    cases ok with
    | false =>
      have hvalue : Refactor.hashInsert m.allocs ht x = (false,{ ht with buckets := buckets }) := by
        simp only [Refactor.hashInsert, hi', Refactor.hashInit, hl', Bool.false_eq_true, if_false]
      have hwf := (hashInsert_spec h.wf m.allocs x hn).1
      refine ⟨(false,t'),by simp only [hashInsert, hi, hashInit, hl, Bool.false_eq_true, if_false],?_⟩
      rw [hvalue] at hwf
      rw [Inserted, hvalue]
      have hinit : t'.init = false := hspec.init.trans hi
      refine ⟨rfl,hwf,?_,?_,?_,hspec.capacity,?_,?_,?_,?_,fun b c hb => ?_⟩
      · exact hinit.trans hi'.symm
      · exact hspec.size.trans h.size
      · intro i
        rw [h.nil hi, hwf.idle hi']
        rfl
      · intro i
        rw [h.nil hi]
        exact hspec.length i
      · intro b tcb
        rw [← h.live]
        exact Eq.congr_left (hspec.tcbs b)
      · exact fun hi => absurd (hinit.symm.trans hi) Bool.false_ne_true
      · exact fun hi => absurd (hinit.symm.trans hi) Bool.false_ne_true
      · refine Or.inr ((h.array_origin hi hspec b c hb).symm.imp_right fun hv => ?_)
        exact ⟨hv,hspec.failed rfl⟩
    | true =>
      have hrep := (h.mono (Set.subset_union_left (t := stranded m))).initialised hi hspec hl' hf.distinct
      have hsize : (t'.buckets (hashId x.id)).size = 0 := hspec.length _
      have hcap : (t'.buckets (hashId x.id)).capacity = DEF_CAP := by
        obtain ⟨d,-,hvec,-⟩ := hspec.arrays rfl (hashId x.id) (List.mem_finRange _)
        exact congrArg Vector.capacity hvec
      have hroom : (t'.buckets (hashId x.id)).size ≠ (t'.buckets (hashId x.id)).capacity := by
        rw [hsize, hcap]
        decide
      have hn' : Refactor.hashFind ⟨buckets,0,true⟩ x.id = none := by
        rw [hrep.find_value, h.nil hi]
        rfl
      have hpush := hrep.push rfl hn' hsmall (m := m) fun hfull => absurd hfull hroom
      have hsame : hashInsert m t a = hashInsert m { t' with size := 0, init := true } a := by
        simp only [hashInsert, hi, hashInit, hl, Bool.false_eq_true, if_false, if_true]
      have hsame' : Refactor.hashInsert m.allocs ht x = Refactor.hashInsert m.allocs ⟨buckets,0,true⟩ x := by
        simp only [Refactor.hashInsert, hi', Refactor.hashInit, hl', Bool.false_eq_true, if_false, if_true]
      rw [hsame, hsame']
      exact hpush

end Table

end LazyTcp.Refactor.Pointers
