import LazyTcp.General.Messages
import LazyTcp.Legacy.SessionRuns

/-! What http.c puts on a connection, as an HTTP reader at the other end takes it
apart again. Only a served page declares its length; the other responses leave it
to the end of the connection, and the server never ends one. -/
namespace LazyTcp.Legacy
open General General.Wire

def decimalValue (digits : List U8) : Option Nat :=
  if digits.isEmpty ∨ ∃ b ∈ digits, b.toNat < 48 ∨ 57 < b.toNat then none
  else some (digits.foldl (fun n b => 10 * n + (b.toNat - 48)) 0)

/-- The length that the headers of an HTTP message declare. -/
def contentLength (headers : List (List U8)) : Option Nat :=
  headers.findSome? fun line =>
    if (ascii "Content-Length: ").isPrefixOf line then decimalValue (line.drop 16) else none

/-- The response a request deserves, by what the file system gives for the page. -/
def answer (file : HttpFile) (data : List U8) : Message :=
  if data.take 4 = ascii "GET " then
    match file with
    | .missing => ⟨ascii "HTTP/1.1 404 Not Found",[],[]⟩
    | .unreadable => ⟨ascii "HTTP/1.1 500 Internal Server Error",[],[]⟩
    | .content bytes => ⟨ascii "HTTP/1.1 200 OK",[ascii "Content-Type: text/html",
        ascii "Content-Length: " ++ ascii (toString bytes.length),ascii "Connection: close"],bytes⟩
  else ⟨ascii "HTTP/1.1 400 Bad Request",[],[]⟩

/-- The request is for the page, and the page can be read. -/
def Page (file : HttpFile) (data : List U8) : Prop := data.take 4 = ascii "GET " ∧ ∃ bytes, file = .content bytes

instance (file : HttpFile) (data : List U8) : Decidable (Page file data) :=
  match file with
  | .missing => .isFalse fun h => HttpFile.noConfusion h.2.choose_spec
  | .unreadable => .isFalse fun h => HttpFile.noConfusion h.2.choose_spec
  | .content bytes => decidable_of_iff (data.take 4 = ascii "GET ") ⟨fun h => ⟨h,bytes,rfl⟩,And.left⟩

private theorem digit_mem {n : Nat} {b : U8} (h : b ∈ ascii (toString n)) : 48 ≤ b.toNat ∧ b.toNat ≤ 57 := by
  obtain ⟨c,hc,rfl⟩ := List.mem_map.mp h
  have hdigit : c.isDigit := Nat.isDigit_of_mem_toDigits (by decide) (by decide) (Nat.toList_repr ▸ hc)
  rw [Char.isDigit, Bool.and_eq_true, decide_eq_true_iff, decide_eq_true_iff] at hdigit
  have hlow : 48 ≤ c.toNat := hdigit.1
  have hhigh : c.toNat ≤ 57 := hdigit.2
  rw [BitVec.toNat_ofNat, Nat.mod_eq_of_lt (by omega)]
  exact ⟨hlow,hhigh⟩

private theorem digits_value (cs : List Char) (h : ∀ c ∈ cs, c.toNat < 256) (acc : Nat) :
    (cs.map fun c => (.ofNat 8 c.toNat : U8)).foldl (fun n b => 10 * n + (b.toNat - 48)) acc =
      Nat.ofDigitChars 10 cs acc := by
  induction cs generalizing acc with
  | nil => rfl
  | cons c cs ih =>
    rw [List.map_cons, List.foldl_cons, Nat.ofDigitChars_cons, ih fun c hc => h c (List.mem_cons_of_mem _ hc),
      BitVec.toNat_ofNat, Nat.mod_eq_of_lt (h c (List.mem_cons_self ..))]
    rfl

private theorem decimalValue_toString (n : Nat) : decimalValue (ascii (toString n)) = some n := by
  have hdigits : ∀ b ∈ ascii (toString n), ¬ (b.toNat < 48 ∨ 57 < b.toNat) := by
    intro b hb
    obtain ⟨hlow,hhigh⟩ := digit_mem hb
    omega
  have hne : (ascii (toString n)).isEmpty = false := by
    have hpos : 0 < (Nat.toDigits 10 n).length := Nat.length_toDigits_pos
    rw [List.isEmpty_eq_false_iff_exists_mem]
    obtain ⟨c,hc⟩ := List.exists_mem_of_length_pos hpos
    exact ⟨_,List.mem_map_of_mem (Nat.toList_repr ▸ hc)⟩
  have hvalue := digits_value (Nat.toDigits 10 n) (fun c hc => ?_) 0
  · rw [Nat.ofDigitChars_ten_toDigits] at hvalue
    rw [decimalValue, if_neg, ascii, show (toString n).toList = Nat.toDigits 10 n from Nat.toList_repr, hvalue]
    rw [hne]
    rintro (he | ⟨b,hb,hout⟩)
    · cases he
    · exact hdigits b hb hout
  · have hdigit : c.isDigit := Nat.isDigit_of_mem_toDigits (by decide) (by decide) hc
    rw [Char.isDigit, Bool.and_eq_true, decide_eq_true_iff, decide_eq_true_iff] at hdigit
    have hhigh : c.toNat ≤ 57 := hdigit.2
    omega

/-- http.c writes the response it means. -/
private theorem httpHandleRequest_answer (file : HttpFile) (data : List U8) :
    httpHandleRequest file data = (answer file data).bytes := by
  unfold httpHandleRequest answer
  split
  · cases file with
    | missing => decide
    | unreadable => decide
    | content bytes =>
      have hfirst : ascii "HTTP/1.1 200 OK\r\nContent-Type: text/html\r\nContent-Length: " =
          ascii "HTTP/1.1 200 OK" ++ CR :: LF :: (ascii "Content-Type: text/html" ++ [CR,LF] ++ ascii "Content-Length: ") := by
        decide
      have hlast : ascii "\r\nConnection: close\r\n\r\n" = [CR,LF] ++ ascii "Connection: close" ++ [CR,LF,CR,LF] := by decide
      rw [httpServeFile, hfirst, hlast, Message.bytes]
      simp only [List.flatMap_cons, List.flatMap_nil, List.append_assoc, List.cons_append, List.nil_append, List.append_nil]
  · decide

private theorem answer_lined (file : HttpFile) (data : List U8) : (answer file data).Lined := by
  unfold answer
  split
  · cases file with
    | missing => exact ⟨by decide,nofun⟩
    | unreadable => exact ⟨by decide,nofun⟩
    | content bytes =>
      refine ⟨?_,fun line hline => ?_⟩
      · change LF ∉ ascii "HTTP/1.1 200 OK"
        decide
      simp only [List.mem_cons, List.not_mem_nil, or_false] at hline
      rcases hline with rfl | rfl | rfl
      · decide
      · refine ⟨by simp [ascii],fun hm => ?_⟩
        rcases List.mem_append.mp hm with hm | hm
        · exact absurd hm (by decide)
        · exact absurd (digit_mem hm).1 (by decide)
      · decide
  · exact ⟨by decide,nofun⟩

private theorem answer_declared (file : HttpFile) (data : List U8) :
    Page file data ∧ contentLength (answer file data).headers = some (answer file data).body.length ∨
      ¬ Page file data ∧ contentLength (answer file data).headers = none := by
  unfold answer Page
  split
  case isTrue hget =>
    cases file with
    | missing => exact Or.inr ⟨by simp,rfl⟩
    | unreadable => exact Or.inr ⟨by simp,rfl⟩
    | content bytes =>
      refine Or.inl ⟨⟨hget,bytes,rfl⟩,?_⟩
      have hother : (ascii "Content-Length: ").isPrefixOf (ascii "Content-Type: text/html") = false := by decide
      have hpre : (ascii "Content-Length: ").isPrefixOf
          (ascii "Content-Length: " ++ ascii (toString bytes.length)) = true := by
        rw [List.isPrefixOf_iff_prefix]
        exact List.prefix_append _ _
      have hdrop : (ascii "Content-Length: " ++ ascii (toString bytes.length)).drop 16 = ascii (toString bytes.length) :=
        List.drop_left' (by decide)
      simp only [contentLength, List.findSome?_cons, hother, hpre, hdrop, decimalValue_toString, Bool.false_eq_true,
        if_false, if_true]
  case isFalse hget => exact Or.inr ⟨fun h => hget h.1,rfl⟩

/-- The bytes that send_data has read of the connection. -/
def receivedBytes (s : Session) : List U8 := (answers s.returned).flatMap Prod.snd

private def browsingEnv : Env := ⟨77,true,.content (ascii "<p>hello</p>")⟩

/-- A handshake and two requests for a page of twelve bytes, answered in 95. -/
private def browsing : List Happening :=
  [.choice .handshake,.arrive browsingEnv (craft clientId SYN 1000 0 []),.respond,
    .arrive browsingEnv (craft clientId ACK 1001 78 []),.choice (.sendData (ascii "GET /")),
    .arrive browsingEnv (craft clientId (PSH ||| ACK) 1001 78 (ascii "GET /")),.respond,.choice (.sendData (ascii "GET /")),
    .arrive browsingEnv (craft clientId (PSH ||| ACK) 1006 173 (ascii "GET /")),.respond]

end LazyTcp.Legacy
