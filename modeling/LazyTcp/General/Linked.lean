import Mathlib.Data.List.Nodup
import Mathlib.Logic.Function.Basic

/-! Singly linked lists in a heap of cells. A path is the list of the cells it
passes with their addresses; a path to the null pointer is a whole list. -/
namespace LazyTcp.General.Linked
variable {α : Type*}

abbrev Addr := Nat

structure Cell (α : Type*) where
  val : α
  next : Option Addr

/-- Cells that are not allocated are none. -/
abbrev Heap (α : Type*) := Addr → Option (Cell α)

/-- Following next from p passes the cells of l and ends at q. -/
def Path (h : Heap α) : Option Addr → List (Addr × α) → Option Addr → Prop
  | p, [], q => p = q
  | p, (a,x) :: l, q => p = some a ∧ ∃ next, h a = some ⟨x,next⟩ ∧ Path h next l q

def addrs (l : List (Addr × α)) : List Addr := l.map Prod.fst

section Path
variable {h : Heap α} {p q : Option Addr} {l l' : List (Addr × α)} {a : Addr} {x : α}

theorem path_append : Path h p (l ++ l') q ↔ ∃ r, Path h p l r ∧ Path h r l' q := by
  induction l generalizing p with
  | nil => exact ⟨fun hp => ⟨p,rfl,hp⟩,fun ⟨r,hr,hp⟩ => hr ▸ hp⟩
  | cons e l ih =>
    obtain ⟨b,y⟩ := e
    constructor
    · rintro ⟨hp,next,hb,hrest⟩
      obtain ⟨r,hl,hl'⟩ := ih.mp hrest
      exact ⟨r,⟨hp,next,hb,hl⟩,hl'⟩
    · rintro ⟨r,⟨hp,next,hb,hl⟩,hl'⟩
      exact ⟨hp,next,hb,ih.mpr ⟨r,hl,hl'⟩⟩

theorem path_mem (hp : Path h p l q) (hm : (a,x) ∈ l) : ∃ next, h a = some ⟨x,next⟩ := by
  obtain ⟨before,rest,rfl⟩ := List.append_of_mem hm
  obtain ⟨r,-,-,next,hc,-⟩ := path_append.mp hp
  exact ⟨next,hc⟩

/-- A list is determined by its first pointer. -/
theorem path_unique (hp : Path h p l none) (hp' : Path h p l' none) : l = l' := by
  induction l generalizing p l' with
  | nil =>
    cases hp
    cases l' with
    | nil => rfl
    | cons e l' => cases hp'.1
  | cons e l ih =>
    obtain ⟨b,y⟩ := e
    obtain ⟨rfl,next,hb,hrest⟩ := hp
    cases l' with
    | nil => cases hp'
    | cons e' l' =>
      obtain ⟨b',y'⟩ := e'
      obtain ⟨he,next',hb',hrest'⟩ := hp'
      cases he
      rw [hb] at hb'
      cases hb'
      rw [ih hrest hrest']

/-- A list that ends never comes back to a cell. -/
theorem path_acyclic (hp : Path h p l none) : (addrs l).Nodup := by
  induction l generalizing p with
  | nil => exact List.nodup_nil
  | cons e l ih =>
    obtain ⟨b,y⟩ := e
    obtain ⟨hpb,next,hb,hrest⟩ := hp
    refine List.nodup_cons.mpr ⟨fun hm => ?_,ih hrest⟩
    -- From a second visit the rest of the list would be as long as the whole.
    obtain ⟨⟨b',y'⟩,hm,hb'⟩ := List.mem_map.mp hm
    obtain ⟨before,rest,rfl⟩ := List.append_of_mem hm
    obtain ⟨r,-,hsuffix⟩ := path_append.mp hrest
    have hstart : Path h (some b') ((b',y') :: rest) none := by
      obtain ⟨rfl,hc⟩ := hsuffix
      exact ⟨rfl,hc⟩
    have hwhole : Path h (some b) ((b,y) :: (before ++ (b',y') :: rest)) none := ⟨rfl,next,hb,hrest⟩
    have hb' : b' = b := hb'
    subst hb'
    have hlen := congrArg List.length (path_unique hstart hwhole)
    simp only [List.length_cons, List.length_append] at hlen
    omega

/-- Writing to a cell off the path leaves the path alone. -/
theorem path_frame {c : Option (Cell α)} (hp : Path h p l q) (ha : a ∉ addrs l) :
    Path (Function.update h a c) p l q := by
  induction l generalizing p with
  | nil => exact hp
  | cons e l ih =>
    obtain ⟨b,y⟩ := e
    obtain ⟨rfl,next,hb,hrest⟩ := hp
    rw [addrs, List.map_cons, List.mem_cons, not_or] at ha
    exact ⟨rfl,next,by rw [Function.update_of_ne (Ne.symm ha.1), hb],ih hrest ha.2⟩

/-- Redirect the last pointer of a path. -/
theorem path_redirect {b : Addr} {y : α} {q' : Option Addr} (hp : Path h p (l ++ [(b,y)]) q) (hb : b ∉ addrs l) :
    Path (Function.update h b (some ⟨y,q'⟩)) p (l ++ [(b,y)]) q' := by
  obtain ⟨r,hl,rfl,-⟩ := path_append.mp hp
  exact path_append.mpr ⟨_,path_frame hl hb,rfl,q',Function.update_self ..,rfl⟩

theorem not_mem_of_nodup (hn : (addrs (l ++ (a,x) :: l')).Nodup) : a ∉ addrs l ∧ a ∉ addrs l' := by
  rw [addrs, List.map_append, List.map_cons, List.nodup_middle, List.nodup_cons, List.mem_append, not_or] at hn
  exact hn.1

/-- The pointer to a list is not the one to a later cell. -/
theorem path_start_ne {b : Addr} {y : α} (hp : Path h p (l ++ (b,y) :: (a,x) :: l') none) : p ≠ some a := by
  rintro rfl
  have hn := path_acyclic hp
  rw [show l ++ (b,y) :: (a,x) :: l' = l ++ [(b,y)] ++ (a,x) :: l' by simp] at hn
  have hnot := (not_mem_of_nodup hn).1
  cases l with
  | nil =>
    cases hp.1
    exact hnot (by simp [addrs])
  | cons e l =>
    cases hp.1
    exact hnot (by simp [addrs])

/-- Write the value of one cell of a path. -/
theorem path_write {y : α} {next : Option Addr} (hp : Path h p (l ++ (a,x) :: l') none) (hc : h a = some ⟨x,next⟩) :
    Path (Function.update h a (some ⟨y,next⟩)) p (l ++ (a,y) :: l') none := by
  obtain ⟨ha,ha'⟩ := not_mem_of_nodup (path_acyclic hp)
  obtain ⟨r,hl,rfl,next',hc',hrest⟩ := path_append.mp hp
  rw [hc] at hc'
  cases hc'
  exact path_append.mpr ⟨_,path_frame hl ha,rfl,next,Function.update_self ..,path_frame hrest ha'⟩

/-- Append the cell a behind the last one. -/
theorem path_snoc {b : Addr} {y : α} (hp : Path h p (l ++ [(b,y)]) none) (ha : h a = some ⟨x,none⟩)
    (hab : a ≠ b) : Path (Function.update h b (some ⟨y,some a⟩)) p (l ++ [(b,y)] ++ [(a,x)]) none :=
  path_append.mpr ⟨_,path_redirect hp (not_mem_of_nodup (path_acyclic hp)).1,rfl,none,
    by rw [Function.update_of_ne hab, ha],rfl⟩

/-- Take the cell behind (b,y) out and free it. -/
theorem path_unlink {b : Addr} {y : α} {next : Option Addr} (hp : Path h p (l ++ (b,y) :: (a,x) :: l') none)
    (hc : h a = some ⟨x,next⟩) :
    Path (Function.update (Function.update h b (some ⟨y,next⟩)) a none) p (l ++ (b,y) :: l') none := by
  have hn := path_acyclic hp
  obtain ⟨hbl,hbr⟩ := not_mem_of_nodup hn
  obtain ⟨hal,har⟩ := not_mem_of_nodup (l := l ++ [(b,y)]) (by rwa [List.append_assoc])
  simp only [addrs, List.map_append, List.map_cons, List.map_nil, List.mem_append, List.mem_cons, not_or] at hal hbr
  obtain ⟨r,hl,rfl,next',-,rfl,next'',hc',hrest⟩ := path_append.mp hp
  rw [hc] at hc'
  cases hc'
  refine path_append.mpr ⟨_,path_frame (path_frame hl hbl) hal.1,rfl,next,?_,path_frame (path_frame hrest hbr.2) har⟩
  rw [Function.update_of_ne hbr.1, Function.update_self]

end Path
end LazyTcp.General.Linked
