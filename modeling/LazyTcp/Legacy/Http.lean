import LazyTcp.General.Bytes

/-! The one-page HTTP server behind the first stack. What the file system gives
for the page is an input; memory for a response is taken to be available. -/
namespace LazyTcp.Legacy
open General

/-- ./network/http/assets/Hello.html as fopen and fread find it. -/
inductive HttpFile where
  | missing
  | unreadable
  | content (bytes : List U8)

def ascii (s : String) : List U8 := s.toList.map fun c => .ofNat 8 c.toNat

def httpServeFile : HttpFile → List U8
  | .missing => ascii "HTTP/1.1 404 Not Found\r\n\r\n"
  | .unreadable => ascii "HTTP/1.1 500 Internal Server Error\r\n\r\n"
  | .content bytes =>
    ascii "HTTP/1.1 200 OK\r\nContent-Type: text/html\r\nContent-Length: " ++
      (ascii (toString bytes.length) ++ ascii "\r\nConnection: close\r\n\r\n" ++ bytes)

/-- The response to the request bytes; strncmp reads the first four of them. -/
def httpHandleRequest (file : HttpFile) (data : List U8) : List U8 :=
  if data.take 4 = ascii "GET " then httpServeFile file
  else ascii "HTTP/1.1 400 Bad Request\r\n\r\n"

/-- Every response starts with a status line in letters, digits and spaces. -/
theorem httpHandleRequest_status (file : HttpFile) (data : List U8) {k : Nat} (hk : k < 14) :
    ∃ b, (httpHandleRequest file data)[k]? = some b ∧ 0x20 ≤ b.toNat := by
  have hfixed (s : String) (hs : ∀ k : Fin 14, ∃ b, (ascii s)[k.val]? = some b ∧ 0x20 ≤ b.toNat) (rest : List U8) :
      ∃ b, (ascii s ++ rest)[k]? = some b ∧ 0x20 ≤ b.toNat := by
    obtain ⟨b,hb,hle⟩ := hs ⟨k,hk⟩
    refine ⟨b,?_,hle⟩
    rw [List.getElem?_append_left (List.getElem?_eq_some_iff.mp hb).1, hb]
  have hdecide (s : String) (hs : ∀ k : Fin 14, 0x20 ≤ ((ascii s).getD k.val 0).toNat) :
      ∀ k : Fin 14, ∃ b, (ascii s)[k.val]? = some b ∧ 0x20 ≤ b.toNat := by
    intro k
    have hle := hs k
    rw [List.getD_eq_getElem?_getD] at hle
    cases hb : (ascii s)[k.val]? with
    | some b =>
      rw [hb] at hle
      exact ⟨b,rfl,hle⟩
    | none =>
      rw [hb] at hle
      exact absurd hle (by decide)
  unfold httpHandleRequest
  split
  · cases file with
    | missing =>
      have := hfixed "HTTP/1.1 404 Not Found\r\n\r\n" (hdecide _ (by decide +kernel)) []
      rwa [List.append_nil] at this
    | unreadable =>
      have := hfixed "HTTP/1.1 500 Internal Server Error\r\n\r\n" (hdecide _ (by decide +kernel)) []
      rwa [List.append_nil] at this
    | content bytes => exact hfixed _ (hdecide _ (by decide +kernel)) _
  · have := hfixed "HTTP/1.1 400 Bad Request\r\n\r\n" (hdecide _ (by decide +kernel)) []
    rwa [List.append_nil] at this

end LazyTcp.Legacy
