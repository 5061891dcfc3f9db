import LazyTcp.General.Wire

/-! Byte memories behind a bound. A guarded program names every byte it touches
and fails at the first one beyond the last index; within the bound it does what
the plain loads, stores and loops do. -/
namespace LazyTcp.General

/-- A program on a memory whose last index is given; none is an access beyond it. -/
def Guarded (α : Type) : Type := Nat → Mem → Option (α × Mem)

namespace Guarded

instance : Monad Guarded where
  pure a := fun _ m => some (a,m)
  bind x f := fun last m => (x last m).bind fun r => f r.1 last r.2

instance : LawfulMonad Guarded := LawfulMonad.mk' _
  (fun x => by
    funext last m
    exact Option.bind_fun_some (x last m))
  (fun _ _ => rfl)
  (fun x f g => by
    funext last m
    exact Option.bind_assoc (x last m) _ _)

/-- Result and memory of a program, within the bound. -/
def run {α : Type} (x : Guarded α) (last : Nat) (m : Mem) : Option (α × Mem) := x last m

def read (i : Nat) : Guarded U8 := fun last m => if i ≤ last then some (m i,m) else none
def write (i : Nat) (b : U8) : Guarded Unit := fun last m => if i ≤ last then some ((),m.store8 i b) else none

def load16 (i : Nat) : Guarded U16 := do
  let lo ← read i
  let hi ← read (i+1)
  return .ofNat 16 (lo.toNat + 256 * hi.toNat)

def load32 (i : Nat) : Guarded U32 := do
  let lo ← load16 i
  let hi ← load16 (i+2)
  return .ofNat 32 (lo.toNat + 65536 * hi.toNat)

def store16 (i : Nat) (v : U16) : Guarded Unit := do
  write i (.ofNat 8 v.toNat)
  write (i+1) (.ofNat 8 (v.toNat / 256))

def store32 (i : Nat) (v : U32) : Guarded Unit := do
  store16 i (.ofNat 16 v.toNat)
  store16 (i+2) (.ofNat 16 (v.toNat / 65536))

/-- The bytes of a range, as memcpy reads its source. -/
def fetch : Nat → Nat → Guarded (List U8)
  | _, 0 => pure []
  | i, n+1 => do
    let b ← read i
    let bytes ← fetch (i+1) n
    return b :: bytes

/-- Bytes from outside the memory, as memcpy writes its destination. -/
def fill : Nat → List U8 → Guarded Unit
  | _, [] => pure ()
  | i, b :: bytes => do
    write i b
    fill (i+1) bytes

/-- The word loop of the checksum. -/
def wordSum : Nat → Nat → U32 → Guarded U32
  | _, 0, sum => pure sum
  | i, 1, sum => do return sum + (← read i).setWidth 32
  | i, n+2, sum => do
    let word ← load16 i
    wordSum (i+2) n (sum + word.setWidth 32)

def internetChecksum (i n : Nat) : Guarded U16 := do
  let sum ← wordSum i n 0
  return ~~~((foldCarry 3 sum).setWidth 16)

section Fields
variable (o : Nat)

abbrev versionIhl : Guarded U8 := read 0
abbrev ipLen : Guarded U16 := load16 2
abbrev ipProto : Guarded U8 := read 9
abbrev ipSrc : Guarded U32 := load32 12
abbrev ipDst : Guarded U32 := load32 16

abbrev setIpLen (v : U16) : Guarded Unit := store16 2 v
abbrev setIpId (v : U16) : Guarded Unit := store16 4 v
abbrev setIpProto (b : U8) : Guarded Unit := write 9 b
abbrev setIpChecksum (v : U16) : Guarded Unit := store16 10 v
abbrev setIpSrc (v : U32) : Guarded Unit := store32 12 v
abbrev setIpDst (v : U32) : Guarded Unit := store32 16 v

abbrev icmpType : Guarded U8 := read o
abbrev setIcmpType (b : U8) : Guarded Unit := write o b
abbrev setIcmpCode (b : U8) : Guarded Unit := write (o+1) b
abbrev setIcmpChecksum (v : U16) : Guarded Unit := store16 (o+2) v
abbrev setIcmpIdentifier (v : U16) : Guarded Unit := store16 (o+4) v
abbrev setIcmpSequenceNo (v : U16) : Guarded Unit := store16 (o+6) v

abbrev tcpSrcPort : Guarded U16 := load16 o
abbrev tcpDstPort : Guarded U16 := load16 (o+2)
abbrev tcpSeqNum : Guarded U32 := load32 (o+4)
abbrev tcpAckNum : Guarded U32 := load32 (o+8)
abbrev tcpDataOffset : Guarded U8 := read (o+12)
abbrev tcpFlags : Guarded U8 := read (o+13)
abbrev tcpWindow : Guarded U16 := load16 (o+14)
abbrev tcpChecksumField : Guarded U16 := load16 (o+16)

abbrev setTcpSrcPort (v : U16) : Guarded Unit := store16 o v
abbrev setTcpDstPort (v : U16) : Guarded Unit := store16 (o+2) v
abbrev setTcpSeqNum (v : U32) : Guarded Unit := store32 (o+4) v
abbrev setTcpAckNum (v : U32) : Guarded Unit := store32 (o+8) v
abbrev setTcpDataOffset (b : U8) : Guarded Unit := write (o+12) b
abbrev setTcpFlags (b : U8) : Guarded Unit := write (o+13) b
abbrev setTcpWindow (v : U16) : Guarded Unit := store16 (o+14) v
abbrev setTcpChecksum (v : U16) : Guarded Unit := store16 (o+16) v
abbrev setTcpUrgentPtr (v : U16) : Guarded Unit := store16 (o+18) v

def ihlBytes : Guarded Nat := do return (((← versionIhl) &&& 0xf).toNat * 4)
def tcpHlen : Guarded Nat := do return (((← tcpDataOffset o) >>> 4).toNat * 4)

end Fields

/-- Every byte of the range is within the bound. -/
def Within (last i n : Nat) : Prop := ∀ k, k < n → i + k ≤ last

variable {α β : Type} {last i n : Nat} {m : Mem}

theorem within_iff : Within last i n ↔ n = 0 ∨ i + n ≤ last + 1 := by
  constructor
  · intro h
    cases n with
    | zero => exact Or.inl rfl
    | succ n =>
      have := h n (Nat.lt_succ_self n)
      omega
  · intro h k hk
    omega

instance : Decidable (Within last i n) := decidable_of_iff _ within_iff.symm

private theorem within_succ : Within last i (n+1) ↔ i ≤ last ∧ Within last (i+1) n := by
  simp only [within_iff]
  omega

theorem run_pure (a : α) : (pure a : Guarded α).run last m = some (a,m) := rfl

theorem run_bind (x : Guarded α) (f : α → Guarded β) :
    (x >>= f).run last m = (x.run last m).bind fun r => (f r.1).run last r.2 := rfl

theorem run_pure_bind (a : α) (f : α → Guarded β) : (pure a >>= f).run last m = (f a).run last m := rfl

theorem run_ite (c : Prop) [Decidable c] (x y : Guarded α) :
    (if c then x else y).run last m = if c then x.run last m else y.run last m := by
  split <;> rfl

/-- Two branches that only read. -/
theorem run_ite_of {c : Prop} [Decidable c] {x y : Guarded α} {a b : α} (hx : x.run last m = some (a,m))
    (hy : y.run last m = some (b,m)) : (if c then x else y).run last m = some (if c then a else b,m) := by
  split
  · exact hx
  · exact hy

/-- A step that stays within the bound hands its result on. -/
theorem run_bind_of {x : Guarded α} {a : α} {m' : Mem} (h : x.run last m = some (a,m')) (f : α → Guarded β) :
    (x >>= f).run last m = (f a).run last m' := by
  rw [run_bind, h, Option.bind_some]

/-- A step beyond the bound is the last one. -/
theorem run_bind_none {x : Guarded α} (h : x.run last m = none) (f : α → Guarded β) : (x >>= f).run last m = none := by
  rw [run_bind, h, Option.bind_none]

theorem read_of (h : i ≤ last) : (read i).run last m = some (m i,m) := if_pos h

theorem write_of (h : i ≤ last) (b : U8) : (write i b).run last m = some ((),m.store8 i b) := if_pos h

theorem read_none (h : last < i) : (read i).run last m = none := if_neg (Nat.not_le.mpr h)

theorem write_none (h : last < i) (b : U8) : (write i b).run last m = none := if_neg (Nat.not_le.mpr h)

theorem load16_of (h : i + 1 ≤ last) : (load16 i).run last m = some (m.load16 i,m) := by
  rw [load16, run_bind_of (read_of (by omega)), run_bind_of (read_of h)]
  rfl

theorem load32_of (h : i + 3 ≤ last) : (load32 i).run last m = some (m.load32 i,m) := by
  rw [load32, run_bind_of (load16_of (by omega)), run_bind_of (load16_of h)]
  rfl

theorem store16_of (h : i + 1 ≤ last) (v : U16) : (store16 i v).run last m = some ((),m.store16 i v) := by
  rw [store16, run_bind_of (write_of (by omega) _), write_of h]
  rfl

theorem store32_of (h : i + 3 ≤ last) (v : U32) : (store32 i v).run last m = some ((),m.store32 i v) := by
  rw [store32, run_bind_of (store16_of (by omega) _), store16_of h]
  rfl

section Bind
variable (f : U8 → Guarded β) (g : U16 → Guarded β) (k : U32 → Guarded β) (next : Unit → Guarded β)

theorem read_bind (h : i ≤ last) : (read i >>= f).run last m = (f (m i)).run last m := run_bind_of (read_of h) f

theorem load16_bind (h : i + 1 ≤ last) : (load16 i >>= g).run last m = (g (m.load16 i)).run last m :=
  run_bind_of (load16_of h) g

theorem load32_bind (h : i + 3 ≤ last) : (load32 i >>= k).run last m = (k (m.load32 i)).run last m :=
  run_bind_of (load32_of h) k

theorem write_bind (h : i ≤ last) (b : U8) : (write i b >>= next).run last m = (next ()).run last (m.store8 i b) :=
  run_bind_of (write_of h b) next

theorem store16_bind (h : i + 1 ≤ last) (v : U16) :
    (store16 i v >>= next).run last m = (next ()).run last (m.store16 i v) :=
  run_bind_of (store16_of h v) next

theorem store32_bind (h : i + 3 ≤ last) (v : U32) :
    (store32 i v >>= next).run last m = (next ()).run last (m.store32 i v) :=
  run_bind_of (store32_of h v) next

end Bind

theorem load16_none (h : last < i + 1) : (load16 i).run last m = none := by
  by_cases hi : i ≤ last
  · rw [load16, run_bind_of (read_of hi), run_bind_none (read_none (by omega))]
  · rw [load16, run_bind_none (read_none (Nat.not_le.mp hi))]

theorem fetch_of (h : Within last i n) : (fetch i n).run last m = some (m.bytes i n,m) := by
  induction n generalizing i with
  | zero => rfl
  | succ n ih =>
    obtain ⟨hi,hn⟩ := within_succ.mp h
    rw [fetch, run_bind_of (read_of hi), run_bind_of (ih hn), Mem.bytes_succ]
    rfl

theorem fetch_none (h : ¬ Within last i n) : (fetch i n).run last m = none := by
  induction n generalizing i with
  | zero => exact absurd (fun k hk => absurd hk (Nat.not_lt_zero k)) h
  | succ n ih =>
    rw [within_succ] at h
    by_cases hi : i ≤ last
    · rw [fetch, run_bind_of (read_of hi), run_bind_none (ih fun hn => h ⟨hi,hn⟩)]
    · rw [fetch, run_bind_none (read_none (Nat.not_le.mp hi))]

theorem fill_of {bytes : List U8} (h : Within last i bytes.length) :
    (fill i bytes).run last m = some ((),m.copy i (fun k => bytes.getD k 0) 0 bytes.length) := by
  induction bytes generalizing i m with
  | nil =>
    rw [show m.copy i (fun k => ([] : List U8).getD k 0) 0 ([] : List U8).length = m from ?_]
    · rfl
    · funext j
      exact Mem.copy_other _ _ _ _ (by rw [List.length_nil]; omega)
  | cons b bytes ih =>
    obtain ⟨hi,hn⟩ := within_succ.mp h
    rw [fill, run_bind_of (write_of hi b), ih hn]
    congr 2
    funext j
    rw [List.length_cons]
    by_cases hj : j = i
    · subst hj
      rw [Mem.copy_other _ _ _ _ (by omega), Mem.store8_same, Mem.copy_inside _ _ _ _ (by omega) (by omega),
        Nat.sub_self]
      rfl
    · by_cases hin : i + 1 ≤ j ∧ j < i + 1 + bytes.length
      · rw [Mem.copy_inside _ _ _ _ hin.1 hin.2, Mem.copy_inside _ _ _ _ (by omega) (by omega),
          show 0 + (j - i) = (0 + (j - (i+1))) + 1 by omega]
        rfl
      · rw [Mem.copy_other _ _ _ _ (by omega), Mem.copy_other _ _ _ _ (by omega), Mem.store8_other _ _ hj]

/-- memcpy from a second memory. -/
theorem fill_bytes_of {s : Mem} {src : Nat} (h : Within last i n) :
    (fill i (s.bytes src n)).run last m = some ((),m.copy i s src n) := by
  rw [fill_of (by rwa [Mem.length_bytes]), Mem.length_bytes]
  refine congrArg (fun b => some ((),b)) (Mem.copy_congr m i fun k hk => ?_)
  rw [Nat.zero_add, s.bytes_getD src hk]

theorem fill_none {bytes : List U8} (h : ¬ Within last i bytes.length) : (fill i bytes).run last m = none := by
  induction bytes generalizing i m with
  | nil => exact absurd (fun k hk => absurd hk (Nat.not_lt_zero k)) h
  | cons b bytes ih =>
    rw [List.length_cons, within_succ] at h
    by_cases hi : i ≤ last
    · rw [fill, run_bind_of (write_of hi b), ih fun hn => h ⟨hi,hn⟩]
    · rw [fill, run_bind_none (write_none (Nat.not_le.mp hi) b)]

private theorem wordSum_of (h : Within last i n) (sum : U32) :
    (wordSum i n sum).run last m = some (General.wordSum m i n sum,m) := by
  rw [within_iff] at h
  fun_induction General.wordSum m i n sum with
  | case1 => rfl
  | case2 i sum =>
    rw [wordSum, run_bind_of (read_of (by omega))]
    rfl
  | case3 i sum n ih =>
    rw [wordSum, run_bind_of (load16_of (by omega)), ih (by omega)]

private theorem wordSum_none (h : ¬ Within last i n) (sum : U32) : (wordSum i n sum).run last m = none := by
  rw [within_iff] at h
  fun_induction General.wordSum m i n sum with
  | case1 => exact absurd (Or.inl rfl) h
  | case2 i sum => rw [wordSum, run_bind_none (read_none (by omega))]
  | case3 i sum n ih =>
    by_cases hi : i + 1 ≤ last
    · rw [wordSum, run_bind_of (load16_of hi), ih (by omega)]
    · rw [wordSum, run_bind_none (load16_none (by omega))]

theorem internetChecksum_of (h : Within last i n) :
    (internetChecksum i n).run last m = some (General.internetChecksum m i n,m) := by
  rw [internetChecksum, run_bind_of (wordSum_of h 0)]
  rfl

theorem internetChecksum_none (h : ¬ Within last i n) : (internetChecksum i n).run last m = none := by
  rw [internetChecksum, run_bind_none (wordSum_none h 0)]

theorem ihlBytes_of : ihlBytes.run last m = some (Wire.ihlBytes m,m) := by
  rw [ihlBytes, run_bind_of (read_of (Nat.zero_le last))]
  rfl

theorem tcpHlen_of {o : Nat} (h : o + 12 ≤ last) : (tcpHlen o).run last m = some (Wire.tcpHlen m o,m) := by
  rw [tcpHlen, run_bind_of (read_of h)]
  rfl

end Guarded
end LazyTcp.General
