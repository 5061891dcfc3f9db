import Mathlib.Data.List.Nodup

/-! Condition variables. A thread is blocked on one until a signal, a broadcast
or a spurious wakeup unblocks it; it is woken until it has the mutex again. A
caller that signals after it released the mutex owes that signal until then. -/
namespace LazyTcp.General
variable {α : Type*}

structure CondVar (α : Type*) where
  blocked : List α
  woken : List α
  owed : Nat
  deriving DecidableEq, Repr

namespace CondVar

def start : CondVar α := ⟨[],[],0⟩

def wait (c : CondVar α) (w : α) : CondVar α := { c with blocked := c.blocked ++ [w] }

def wake [DecidableEq α] (c : CondVar α) (w : α) : CondVar α := { c with blocked := c.blocked.erase w, woken := w :: c.woken }

def owe (c : CondVar α) : CondVar α := { c with owed := c.owed + 1 }

/-- One owed signal arrives and unblocks the thread that the choice k picks, if
any is blocked. -/
def signal [DecidableEq α] (c : CondVar α) (k : Nat) : CondVar α :=
  if c.owed = 0 then c
  else match c.blocked[k % c.blocked.length]? with
    | none => { c with owed := c.owed - 1 }
    | some w => { c.wake w with owed := c.owed - 1 }

def broadcast (c : CondVar α) : CondVar α := { c with blocked := [], woken := c.blocked ++ c.woken }

def spurious [DecidableEq α] (c : CondVar α) (w : α) : CondVar α := if w ∈ c.blocked then c.wake w else c

/-- A woken thread has the mutex again. -/
def resume [DecidableEq α] (c : CondVar α) (w : α) : CondVar α := { c with woken := c.woken.erase w }

theorem signal_blocked_nil [DecidableEq α] {c : CondVar α} (h : c.blocked = []) (k : Nat) : (c.signal k).blocked = [] := by
  unfold signal
  split
  case isTrue => exact h
  case isFalse =>
    rw [h, List.getElem?_nil]

theorem spurious_blocked_nil [DecidableEq α] {c : CondVar α} (h : c.blocked = []) (w : α) :
    (c.spurious w).blocked = [] := by
  rw [spurious, h, if_neg List.not_mem_nil, h]

theorem mem_woken_spurious [DecidableEq α] {c : CondVar α} {w : α} (v : α) (h : w ∈ c.woken) :
    w ∈ (c.spurious v).woken := by
  unfold spurious
  split
  · exact List.mem_cons_of_mem v h
  · exact h

theorem mem_woken_signal [DecidableEq α] {c : CondVar α} {w : α} (k : Nat) (h : w ∈ c.woken) :
    w ∈ (c.signal k).woken := by
  unfold signal
  split
  · exact h
  · split
    · exact h
    · exact List.mem_cons_of_mem _ h

/-- A signal that is owed while a thread is blocked wakes one. -/
theorem signal_wakes [DecidableEq α] {c : CondVar α} (ho : 0 < c.owed) (hb : c.blocked ≠ []) (k : Nat) :
    (c.signal k).woken ≠ [] := by
  have hlen : 0 < c.blocked.length := List.length_pos_iff.mpr hb
  rw [signal, if_neg (by omega), List.getElem?_eq_getElem (Nat.mod_lt k hlen)]
  exact List.cons_ne_nil _ _

/-- While a thread is blocked, each item has a signal that is still owed or a
woken thread on its way to it. -/
def Covers (c : CondVar α) (items : Nat) : Prop := c.blocked ≠ [] → items ≤ c.owed + c.woken.length

section Covers
variable {c : CondVar α} {items : Nat}

theorem Covers.mono {fewer : Nat} (h : c.Covers items) (hle : fewer ≤ items) : c.Covers fewer :=
  fun hb => Nat.le_trans hle (h hb)

theorem Covers.owe (h : c.Covers items) : c.owe.Covers (items + 1) := by
  intro hb
  have := h hb
  simp only [CondVar.owe]
  omega

theorem Covers.wait (w : α) : (c.wait w).Covers 0 := fun _ => Nat.zero_le _

theorem Covers.broadcast : c.broadcast.Covers items := fun hb => absurd rfl hb

variable [DecidableEq α]

private theorem blocked_of_wake {w : α} (hb : (c.wake w).blocked ≠ []) : c.blocked ≠ [] := by
  intro he
  rw [wake, he] at hb
  exact hb rfl

theorem Covers.wake (w : α) (h : c.Covers items) : (c.wake w).Covers items := by
  intro hb
  have := h (blocked_of_wake hb)
  simp only [CondVar.wake, List.length_cons]
  omega

theorem Covers.spurious (w : α) (h : c.Covers items) : (c.spurious w).Covers items := by
  unfold CondVar.spurious
  split
  case isTrue => exact h.wake w
  case isFalse => exact h

/-- A signal is only used up without waking anyone when nobody is blocked. -/
theorem Covers.signal (k : Nat) (h : c.Covers items) : (c.signal k).Covers items := by
  unfold CondVar.signal
  split
  case isTrue => exact h
  case isFalse hpos =>
    cases hk : c.blocked[k % c.blocked.length]? with
    | none =>
      intro hb
      have hlen : 0 < c.blocked.length := List.length_pos_iff.mpr hb
      exact absurd (List.getElem?_eq_none_iff.mp hk) (Nat.not_le_of_lt (Nat.mod_lt k hlen))
    | some w =>
      intro hb
      have := h (blocked_of_wake hb)
      simp only [CondVar.wake, List.length_cons]
      omega

/-- The thread that resumes takes its item with it. -/
theorem Covers.resume {w : α} (hw : w ∈ c.woken) (h : c.Covers items) : (c.resume w).Covers (items - 1) := by
  intro hb
  have := h hb
  have hpos : 0 < c.woken.length := List.length_pos_of_mem hw
  simp only [CondVar.resume, List.length_erase_of_mem hw]
  omega

end Covers

/-- The blocked and the woken threads are the ones in a wait, each of them once. -/
structure Tracks (c : CondVar α) (waiting : α → Prop) : Prop where
  nodup : (c.blocked ++ c.woken).Nodup
  mem : ∀ w, w ∈ c.blocked ++ c.woken ↔ waiting w

section Tracks
variable {c : CondVar α} {waiting : α → Prop}

theorem Tracks.start : (start : CondVar α).Tracks fun _ => False := ⟨List.nodup_nil,fun _ => List.mem_nil_iff _⟩

theorem Tracks.congr {waiting' : α → Prop} (h : c.Tracks waiting) (hw : ∀ w, waiting w ↔ waiting' w) :
    c.Tracks waiting' := ⟨h.nodup,fun w => (h.mem w).trans (hw w)⟩

private theorem Tracks.perm {c' : CondVar α} (h : c.Tracks waiting)
    (hp : (c'.blocked ++ c'.woken).Perm (c.blocked ++ c.woken)) : c'.Tracks waiting :=
  ⟨hp.nodup_iff.mpr h.nodup,fun w => hp.mem_iff.trans (h.mem w)⟩

theorem Tracks.owe (h : c.Tracks waiting) : c.owe.Tracks waiting := ⟨h.nodup,h.mem⟩

theorem Tracks.broadcast (h : c.Tracks waiting) : c.broadcast.Tracks waiting := ⟨h.nodup,h.mem⟩

theorem Tracks.wait {w : α} (hw : ¬ waiting w) (h : c.Tracks waiting) :
    (c.wait w).Tracks fun v => waiting v ∨ v = w := by
  have hp : ((c.wait w).blocked ++ (c.wait w).woken).Perm (w :: (c.blocked ++ c.woken)) := by
    simp only [CondVar.wait, List.append_assoc]
    exact List.perm_middle
  refine ⟨hp.nodup_iff.mpr (List.nodup_cons.mpr ⟨fun hm => hw ((h.mem w).mp hm),h.nodup⟩),fun v => ?_⟩
  rw [hp.mem_iff, List.mem_cons, h.mem, or_comm]

variable [DecidableEq α]

theorem Tracks.wake {w : α} (hw : w ∈ c.blocked) (h : c.Tracks waiting) : (c.wake w).Tracks waiting := by
  refine h.perm ?_
  simp only [CondVar.wake]
  exact List.perm_middle.trans ((List.perm_cons_erase hw).symm.append_right _)

theorem Tracks.spurious (w : α) (h : c.Tracks waiting) : (c.spurious w).Tracks waiting := by
  unfold CondVar.spurious
  split
  case isTrue hw => exact h.wake hw
  case isFalse => exact h

theorem Tracks.signal (k : Nat) (h : c.Tracks waiting) : (c.signal k).Tracks waiting := by
  unfold CondVar.signal
  split
  case isTrue => exact h
  case isFalse =>
    cases hk : c.blocked[k % c.blocked.length]? with
    | none => exact ⟨h.nodup,h.mem⟩
    | some w =>
      have hw := h.wake (List.mem_of_getElem? hk)
      exact ⟨hw.nodup,hw.mem⟩

theorem Tracks.resume {w : α} (hw : w ∈ c.woken) (h : c.Tracks waiting) :
    (c.resume w).Tracks fun v => waiting v ∧ v ≠ w := by
  have hp : (c.blocked ++ c.woken).Perm (w :: ((c.resume w).blocked ++ (c.resume w).woken)) := by
    simp only [CondVar.resume]
    exact ((List.perm_cons_erase hw).append_left _).trans List.perm_middle
  have hnd := hp.nodup_iff.mp h.nodup
  refine ⟨(List.nodup_cons.mp hnd).2,fun v => ?_⟩
  rw [← h.mem v, hp.mem_iff, List.mem_cons]
  constructor
  · intro hv
    exact ⟨Or.inr hv,fun e => (List.nodup_cons.mp hnd).1 (e ▸ hv)⟩
  · rintro ⟨hv | hv,hne⟩
    · exact absurd hv hne
    · exact hv

end Tracks
end CondVar
end LazyTcp.General
