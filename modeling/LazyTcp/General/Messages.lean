import LazyTcp.General.Bytes

/-! Messages as a byte stream carries them: a start line, header lines and a blank
line, each ended by CR LF, then a body. The body is as long as the headers
declare; when they declare nothing it goes on to the end of the stream. -/
namespace LazyTcp.General

def CR : U8 := 13
def LF : U8 := 10

structure Message where
  start : List U8
  headers : List (List U8)
  body : List U8
  deriving DecidableEq, Repr

namespace Message

def bytes (m : Message) : List U8 :=
  m.start ++ CR :: LF :: (m.headers.flatMap (fun line => line ++ [CR,LF]) ++ CR :: LF :: m.body)

/-- The lines can be told apart. -/
structure Lined (m : Message) : Prop where
  start : LF ∉ m.start
  headers : ∀ line ∈ m.headers, line ≠ [] ∧ LF ∉ line

end Message

/-- The first line, and what follows its CR LF. -/
def readLine : List U8 → Option (List U8 × List U8)
  | [] => none
  | b :: rest =>
    if b = CR ∧ rest.head? = some LF then some ([],rest.tail)
    else (readLine rest).map fun (line,rest) => (b :: line,rest)

/-- The lines up to a blank one, with a bound on their number. -/
def readHeaders : Nat → List U8 → Option (List (List U8) × List U8)
  | 0, _ => none
  | n+1, data => (readLine data).bind fun (line,rest) =>
      if line.isEmpty then some ([],rest) else (readHeaders n rest).map fun (lines,rest) => (line :: lines,rest)

theorem readLine_append {line : List U8} (h : LF ∉ line) (rest : List U8) :
    readLine (line ++ CR :: LF :: rest) = some (line,rest) := by
  induction line with
  | nil => rfl
  | cons b line ih =>
    rw [List.mem_cons, not_or] at h
    have hhead : (line ++ CR :: LF :: rest).head? ≠ some LF := by
      intro hc
      cases line with
      | nil => exact absurd (Option.some.inj hc) (by decide)
      | cons c line =>
        cases hc
        exact h.2 (List.mem_cons_self ..)
    rw [List.cons_append, readLine, if_neg fun hb => hhead hb.2, ih h.2]
    rfl

theorem readHeaders_append {headers : List (List U8)} (h : ∀ line ∈ headers, line ≠ [] ∧ LF ∉ line) {n : Nat}
    (hn : headers.length < n) (rest : List U8) :
    readHeaders n (headers.flatMap (fun line => line ++ [CR,LF]) ++ CR :: LF :: rest) = some (headers,rest) := by
  induction headers generalizing n with
  | nil =>
    obtain ⟨n,rfl⟩ : ∃ k, n = k + 1 := ⟨n - 1,by simp at hn; omega⟩
    rfl
  | cons line headers ih =>
    rw [List.length_cons] at hn
    obtain ⟨n,rfl⟩ : ∃ k, n = k + 1 := ⟨n - 1,by omega⟩
    obtain ⟨hne,hlf⟩ := h line (List.mem_cons_self ..)
    have hline : (line :: headers).flatMap (fun line => line ++ [CR,LF]) ++ CR :: LF :: rest =
        line ++ CR :: LF :: (headers.flatMap (fun line => line ++ [CR,LF]) ++ CR :: LF :: rest) := by simp
    rw [hline, readHeaders, readLine_append hlf, Option.bind_some]
    simp only [List.isEmpty_iff, hne, if_false]
    rw [ih (fun l hl => h l (List.mem_cons_of_mem _ hl)) (by omega)]
    rfl

section Stream
variable (declared : List (List U8) → Option Nat)

def readBody (start : List U8) (headers : List (List U8)) (rest : List U8) : Option (Message × List U8) :=
  match declared headers with
  | some n => if n ≤ rest.length then some (⟨start,headers,rest.take n⟩,rest.drop n) else none
  | none => some (⟨start,headers,rest⟩,[])

/-- One message off the stream. -/
def readMessage (data : List U8) : Option (Message × List U8) :=
  (readLine data).bind fun (start,rest) => (readHeaders rest.length rest).bind fun (headers,rest) =>
    readBody declared start headers rest

def readMessages : Nat → List U8 → Option (List Message)
  | 0, data => if data.isEmpty then some [] else none
  | n+1, data =>
    if data.isEmpty then some []
    else (readMessage declared data).bind fun (m,rest) => (readMessages n rest).map (m :: ·)

/-- All messages of a stream that has ended. -/
def readStream (data : List U8) : Option (List Message) := readMessages declared data.length data

variable {declared}

private theorem readMessage_lines {m : Message} (h : m.Lined) (rest : List U8) :
    readMessage declared (m.bytes ++ rest) = readBody declared m.start m.headers (m.body ++ rest) := by
  have hbytes : m.bytes ++ rest = m.start ++ CR :: LF ::
      (m.headers.flatMap (fun line => line ++ [CR,LF]) ++ CR :: LF :: (m.body ++ rest)) := by simp [Message.bytes]
  have hlen : m.headers.length <
      (m.headers.flatMap (fun line => line ++ [CR,LF]) ++ CR :: LF :: (m.body ++ rest)).length := by
    have hsum : m.headers.length ≤ (m.headers.flatMap fun line => line ++ [CR,LF]).length := by
      generalize m.headers = headers
      induction headers with
      | nil => exact le_rfl
      | cons line headers ih =>
        rw [List.flatMap_cons, List.length_append, List.length_append, List.length_cons]
        simp only [List.length_cons, List.length_nil]
        omega
    rw [List.length_append, List.length_cons]
    omega
  rw [hbytes, readMessage, readLine_append h.start, Option.bind_some]
  simp only [readHeaders_append h.headers hlen, Option.bind_some]

/-- A message that declares its length can be followed by anything. -/
theorem readMessage_declared {m : Message} (h : m.Lined) (hd : declared m.headers = some m.body.length) (rest : List U8) :
    readMessage declared (m.bytes ++ rest) = some (m,rest) := by
  rw [readMessage_lines h, readBody, hd]
  simp only [List.length_append, Nat.le_add_right, if_true, List.take_left', List.drop_left']

/-- One that does not takes everything that follows for its body. -/
theorem readMessage_undeclared {m : Message} (h : m.Lined) (hd : declared m.headers = none) (rest : List U8) :
    readMessage declared (m.bytes ++ rest) = some (⟨m.start,m.headers,m.body ++ rest⟩,[]) := by
  rw [readMessage_lines h, readBody, hd]

private theorem bytes_ne_nil (m : Message) : m.bytes ≠ [] := by
  rw [Message.bytes]
  simp

private theorem readMessages_iff {ms : List Message}
    (h : ∀ m ∈ ms, m.Lined ∧ (declared m.headers = none ∨ declared m.headers = some m.body.length)) {n : Nat}
    (hn : ms.length ≤ n) :
    readMessages declared n (ms.flatMap Message.bytes) = some ms ↔ ∀ m ∈ ms.dropLast, declared m.headers ≠ none := by
  induction ms generalizing n with
  | nil => cases n <;> simp [readMessages]
  | cons m ms ih =>
    rw [List.length_cons] at hn
    obtain ⟨n,rfl⟩ : ∃ k, n = k + 1 := ⟨n - 1,by omega⟩
    have hne : (m.bytes ++ ms.flatMap Message.bytes).isEmpty = false := by simp [bytes_ne_nil]
    obtain ⟨hlined,hd⟩ := h m (List.mem_cons_self ..)
    have ih' := ih (fun m' hm' => h m' (List.mem_cons_of_mem _ hm')) (n := n) (by omega)
    rw [List.flatMap_cons, readMessages, hne, if_neg Bool.false_ne_true]
    rcases hd with hd | hd
    · rw [readMessage_undeclared hlined hd, Option.bind_some]
      have hrest : readMessages declared n [] = some [] := by cases n <;> rfl
      simp only [hrest, Option.map_some, Option.some.injEq]
      cases ms with
      | nil => simp
      | cons m' ms =>
        refine iff_of_false (fun he => ?_) fun hall => ?_
        · exact absurd (congrArg List.length he) (by simp)
        · exact hall m (by rw [List.dropLast_cons_cons]; exact List.mem_cons_self ..) hd
    · rw [readMessage_declared hlined hd, Option.bind_some]
      have hcons : (readMessages declared n (ms.flatMap Message.bytes)).map (m :: ·) = some (m :: ms) ↔
          readMessages declared n (ms.flatMap Message.bytes) = some ms := by
        rw [Option.map_eq_some_iff]
        constructor
        · rintro ⟨ms',hms,he⟩
          rw [hms, (List.cons.inj he).2]
        · exact fun hms => ⟨ms,hms,rfl⟩
      rw [hcons, ih']
      cases ms with
      | nil => simp
      | cons m' ms =>
        rw [List.dropLast_cons_cons, List.forall_mem_cons, and_iff_right]
        rw [hd]
        exact Option.some_ne_none _

/-- A stream is read back as the messages it was made of exactly when every one
before the last declares its length. -/
theorem readStream_iff {ms : List Message}
    (h : ∀ m ∈ ms, m.Lined ∧ (declared m.headers = none ∨ declared m.headers = some m.body.length)) :
    readStream declared (ms.flatMap Message.bytes) = some ms ↔ ∀ m ∈ ms.dropLast, declared m.headers ≠ none := by
  refine readMessages_iff h ?_
  clear h
  induction ms with
  | nil => exact le_rfl
  | cons m ms ih =>
    have hpos := List.length_pos_of_ne_nil (bytes_ne_nil m)
    rw [List.flatMap_cons, List.length_append, List.length_cons]
    omega

end Stream

end LazyTcp.General
