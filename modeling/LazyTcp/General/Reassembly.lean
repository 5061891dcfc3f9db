import Mathlib.Data.List.Perm.Basic

/-! Reassembly of a stream from pieces that say where they belong. Pieces that
follow one another without gap or overlap give the stream back in every order
of arrival. -/
namespace LazyTcp.General.Reassembly
variable {α : Type*}

/-- A piece of a stream and the position of its first element. -/
abbrev Piece (α : Type*) := Nat × List α

def Piece.at (p : Piece α) (i : Nat) : Option α := if p.1 ≤ i then p.2[i - p.1]? else none

/-- What the receiver has for a position: the first piece that covers it. -/
def reassemble (arrived : List (Piece α)) (i : Nat) : Option α := arrived.findSome? fun p => p.at i

/-- Each piece starts where the one before it ends, the first one at n. -/
def Consecutive : Nat → List (Piece α) → Prop
  | _, [] => True
  | n, p :: ps => p.1 = n ∧ Consecutive (n + p.2.length) ps

def stream (ps : List (Piece α)) : List α := (ps.map Prod.snd).flatten

private theorem findSome_of_agree {β : Type*} {l : List β} {f : β → Option α} {v : Option α}
    (hall : ∀ b ∈ l, f b = none ∨ f b = v) (hsome : v ≠ none → ∃ b ∈ l, f b = v) : l.findSome? f = v := by
  cases hr : l.findSome? f with
  | none =>
    rw [List.findSome?_eq_none_iff] at hr
    by_contra hv
    obtain ⟨b,hb,he⟩ := hsome (Ne.symm hv)
    exact hv ((hr b hb).symm.trans he)
  | some x =>
    obtain ⟨b,hb,hx⟩ := List.exists_of_findSome?_eq_some hr
    rcases hall b hb with he | he
    · rw [hx] at he
      cases he
    · rw [← he, hx]

section Consecutive
variable {n : Nat} {ps : List (Piece α)}

/-- Pieces are consecutive when each starts as far on as the ones before it are long. -/
theorem consecutive_of_positions (h : ∀ before p later, ps = before ++ p :: later → p.1 = n + (stream before).length) :
    Consecutive n ps := by
  induction ps generalizing n with
  | nil => trivial
  | cons q ps ih =>
    refine ⟨h [] q ps rfl,ih fun before p later he => ?_⟩
    rw [h (q :: before) p later (by rw [he]; rfl), stream, List.map_cons, List.flatten_cons, List.length_append,
      Nat.add_assoc]
    rfl

private theorem stream_cons (p : Piece α) (ps : List (Piece α)) : stream (p :: ps) = p.2 ++ stream ps := by
  rw [stream, List.map_cons, List.flatten_cons, stream]

/-- Every piece has the elements of the stream, and only those. -/
private theorem piece_agrees (h : Consecutive n ps) {p : Piece α} (hp : p ∈ ps) (i : Nat) :
    p.at i = none ∨ n ≤ i ∧ p.at i = (stream ps)[i - n]? := by
  induction ps generalizing n with
  | nil => cases hp
  | cons q ps ih =>
    obtain ⟨hq,hrest⟩ := h
    rw [stream_cons]
    rcases List.mem_cons.mp hp with rfl | hp
    · rw [Piece.at, hq]
      split
      case isFalse => exact Or.inl rfl
      case isTrue hi =>
        by_cases hlt : i - n < p.2.length
        · exact Or.inr ⟨hi,(List.getElem?_append_left hlt).symm⟩
        · exact Or.inl (List.getElem?_eq_none (by omega))
    · rcases ih hrest hp with he | ⟨hi,he⟩
      · exact Or.inl he
      · refine Or.inr ⟨by omega,?_⟩
        rw [he, List.getElem?_append_right (by omega), Nat.sub_sub]

private theorem piece_exists (h : Consecutive n ps) {i : Nat} (hi : n ≤ i) (hlt : i - n < (stream ps).length) :
    ∃ p ∈ ps, p.at i = (stream ps)[i - n]? := by
  induction ps generalizing n with
  | nil => exact absurd hlt (Nat.not_lt_zero _)
  | cons q ps ih =>
    obtain ⟨hq,hrest⟩ := h
    rw [stream_cons] at hlt ⊢
    by_cases hin : i - n < q.2.length
    · refine ⟨q,List.mem_cons_self,?_⟩
      rw [Piece.at, hq, if_pos hi, List.getElem?_append_left hin]
    · rw [List.length_append] at hlt
      obtain ⟨p,hp,he⟩ := ih hrest (by omega) (by omega)
      refine ⟨p,List.mem_cons_of_mem _ hp,?_⟩
      rw [he, List.getElem?_append_right (by omega), Nat.sub_sub]

/-- In whatever order the pieces arrive, the receiver has the stream. -/
theorem reassemble_stream {arrived : List (Piece α)} (h : Consecutive 0 ps) (hperm : arrived.Perm ps) (i : Nat) :
    reassemble arrived i = (stream ps)[i]? := by
  refine findSome_of_agree (fun p hp => ?_) fun hv => ?_
  · rcases piece_agrees h (hperm.mem_iff.mp hp) i with he | ⟨-,he⟩
    · exact Or.inl he
    · exact Or.inr he
  · have hlt : i - 0 < (stream ps).length := by
      rw [ne_eq, List.getElem?_eq_none_iff] at hv
      omega
    obtain ⟨p,hp,he⟩ := piece_exists h (Nat.zero_le i) hlt
    exact ⟨p,hperm.mem_iff.mpr hp,he⟩

end Consecutive
end LazyTcp.General.Reassembly
