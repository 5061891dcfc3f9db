import LazyTcp.Legacy.Tcp

/-! One connection of the first stack as a transition relation, and the
dispatcher as its refinement on the list of blocks. -/
namespace LazyTcp.Legacy
open General General.Wire

def Server.Unique (s : Server) : Prop := (s.conns.map TCB.id).Nodup

theorem tcpGetState_id {s : Server} {id : ConnectionID} {con : TCB} (h : tcpGetState s id = some con) : con.id = id :=
  Keyed.find_key h

theorem store_spec {s : Server} (h : s.Unique) (tcb : TCB) (hs : tcpGetState s tcb.id ≠ none) :
    (s.store tcb).Unique ∧ ∀ id, tcpGetState (s.store tcb) id =
      if id = tcb.id then some tcb else tcpGetState s id := by
  have hkey : ∀ c : TCB, c.id = tcb.id → tcb.id = tcb.id := fun _ _ => rfl
  refine ⟨?_,fun id => ?_⟩
  · rw [Server.Unique, Server.store, Keyed.update_keys hkey]
    exact h
  · rw [tcpGetState, Server.store, Keyed.find_update hkey]
    split
    case isFalse => rfl
    case isTrue e =>
      obtain ⟨c,hc⟩ := Option.ne_none_iff_exists'.mp hs
      rw [e, show Keyed.find TCB.id tcb.id s.conns = some c from hc, Option.map_some]

theorem tcpInsertTcb_spec {s : Server} (h : s.Unique) (tcb : TCB) (hn : tcpGetState s tcb.id = none) :
    ∃ s', tcpInsertTcb (some tcb) s = some s' ∧ s'.Unique ∧
      ∀ id, tcpGetState s' id = if id = tcb.id then some tcb else tcpGetState s id := by
  have hany : s.conns.any (fun c => c.id = tcb.id) = false := by
    rw [List.any_eq_false]
    intro c hc
    have := Keyed.find_eq_none_iff.mp hn
    simp only [decide_eq_true_eq]
    exact fun e => this (e ▸ List.mem_map_of_mem hc)
  refine ⟨⟨s.conns ++ [tcb],s.size + 1⟩,by simp [tcpInsertTcb, hany],?_,fun id => Keyed.find_append_single hn⟩
  rw [Server.Unique, List.map_append, List.nodup_append]
  refine ⟨h,by simp,fun x hx y hy e => ?_⟩
  rw [e, List.mem_singleton.mp hy] at hx
  exact Keyed.find_eq_none_iff.mp hn hx

theorem tcpRemoveConnection_spec {s : Server} (h : s.Unique) (tcb : TCB) :
    (tcpRemoveConnection s tcb).Unique ∧ ∀ id, tcpGetState (tcpRemoveConnection s tcb) id =
      if id = tcb.id then none else tcpGetState s id :=
  ⟨(List.eraseP_sublist.map TCB.id).nodup h,fun _ => Keyed.find_eraseP h⟩

/-- Code, block and buffer left by one segment, and the bytes it handed over. -/
structure Result where
  code : Code
  con : Option TCB
  buf : Mem
  request : Option (List U8)

def synFlag (m : Mem) (o : Nat) : Bool := hasFlag (tcpFlags m o) SYN
def ackFlag (m : Mem) (o : Nat) : Bool := hasFlag (tcpFlags m o) ACK
def finFlag (m : Mem) (o : Nat) : Bool := hasFlag (tcpFlags m o) FIN
def rstFlag (m : Mem) (o : Nat) : Bool := hasFlag (tcpFlags m o) RST

/-- The window test of tcp_got_rst. -/
def rstHonoured (m : Mem) (o : Nat) (con : TCB) : Bool :=
  seqGeq (tcpSeqNum m o) con.recv.next && seqLt (tcpSeqNum m o) (con.recv.next + con.recv.window)

theorem tcpGotRst_server (m : Mem) (o : Nat) (con : TCB) (s : Server) :
    (tcpGotRst m o con s).2 = if rstHonoured m o con then tcpRemoveConnection s con else s := by
  cases h : rstHonoured m o con with
  | true => exact congrArg Prod.snd (if_pos h)
  | false => exact congrArg Prod.snd (if_neg (ne_true_of_eq_false h))

/-- The block of a connection before its SYN is read. -/
def newTcb (id : ConnectionID) : TCB := ⟨id,.synReceived,⟨0,0,0,0⟩,⟨0,8192,0⟩⟩

@[simp] theorem newTcb_id (id : ConnectionID) : (newTcb id).id = id := rfl

@[simp] theorem synNumbers_id (ticks : U32) (m : Mem) (o : Nat) (tcb : TCB) :
    (synNumbers ticks m o tcb).id = tcb.id := rfl

@[simp] theorem synNumbers_state (ticks : U32) (m : Mem) (o : Nat) (tcb : TCB) :
    (synNumbers ticks m o tcb).state = tcb.state := rfl

@[simp] theorem tcpSendAck_state (m : Mem) (o : Nat) (tcb : TCB) (body : List U8) :
    (tcpSendAck m o tcb body).1.state = tcb.state := rfl

theorem tcpSendAck_send (m : Mem) (o : Nat) (tcb : TCB) (body : List U8) :
    (tcpSendAck m o tcb body).1.send = { tcb.send with next := tcb.send.next + .ofNat 32 body.length } := rfl

/-- The block after the acknowledgement of our SYN. -/
def acknowledged (m : Mem) (o : Nat) (con : TCB) : TCB :=
  { con with state := .established, send := { con.send with unac := ntohl (tcpAckNum m o) } }

/-- Stated for any number so that the kernel does not evaluate the one in the header. -/
private theorem unac_numbers (send : SendState) (unac : U32) :
    { send with unac := unac }.next = send.next ∧ { send with unac := unac }.iss = send.iss := ⟨rfl,rfl⟩

theorem acknowledged_numbers (m : Mem) (o : Nat) (con : TCB) :
    (acknowledged m o con).send.next = con.send.next ∧ (acknowledged m o con).send.iss = con.send.iss :=
  unac_numbers con.send _

/-- The block a FIN is acknowledged from, and one that took n payload bytes. -/
def finished (m : Mem) (o : Nat) (con : TCB) : TCB :=
  { con with recv := { con.recv with next := ntohl (tcpSeqNum m o) + 1 } }
def advanced (n : Nat) (con : TCB) : TCB :=
  { con with recv := { con.recv with next := con.recv.next + .ofNat 32 n } }

private theorem recv_send (con : TCB) (recv : RecvState) : { con with recv := recv }.send = con.send := rfl

theorem finished_send (m : Mem) (o : Nat) (con : TCB) : (finished m o con).send = con.send := recv_send con _

theorem advanced_send (n : Nat) (con : TCB) : (advanced n con).send = con.send := recv_send con _

@[simp] theorem advanced_state (n : Nat) (con : TCB) : (advanced n con).state = con.state := rfl

/-- The transitions of one connection, with the guard each of them has. -/
inductive Transition (env : Env) (m : Mem) (o : Nat) : Option TCB → Result → Prop where
  | strayReset : rstFlag m o = true → Transition env m o none ⟨.silent,none,m,none⟩
  | opening : rstFlag m o = false → synFlag m o = true → ackFlag m o = false →
      Transition env m o none ⟨.ok,some (synNumbers env.ticks m o (newTcb (segId m o))),
        (tcpNullSynAck env.ticks m o (newTcb (segId m o))).2,none⟩
  | refuse : rstFlag m o = false → (synFlag m o && !ackFlag m o) = false →
      Transition env m o none ⟨.ok,none,tcpNullRst m o,none⟩
  | reset (con : TCB) : rstFlag m o = true → rstHonoured m o con = true →
      Transition env m o (some con) ⟨.silent,none,m,none⟩
  | ignoreReset (con : TCB) : rstFlag m o = true → rstHonoured m o con = false →
      Transition env m o (some con) ⟨.silent,some con,m,none⟩
  | repeated (con : TCB) : rstFlag m o = false → con.state = .synReceived → synFlag m o = true →
      ackFlag m o = false → Transition env m o (some con) ⟨.silent,some (synNumbers env.ticks m o con),
        (tcpNullSynAck env.ticks m o con).2,none⟩
  | establish (con : TCB) : rstFlag m o = false → con.state = .synReceived → ackFlag m o = true →
      synFlag m o = false → ntohl (tcpAckNum m o) = con.send.next →
      Transition env m o (some con) ⟨.silent,some (acknowledged m o con),m,none⟩
  | badAck (con : TCB) : rstFlag m o = false → con.state = .synReceived → ackFlag m o = true →
      synFlag m o = false → ntohl (tcpAckNum m o) ≠ con.send.next →
      Transition env m o (some con) ⟨.silent,some con,m,none⟩
  | unexpected (con : TCB) : rstFlag m o = false → con.state = .synReceived → synFlag m o = ackFlag m o →
      Transition env m o (some con) ⟨.silent,some con,m,none⟩
  | finish (con : TCB) : rstFlag m o = false → con.state = .established → finFlag m o = true →
      Transition env m o (some con) ⟨.ok,
        some { (tcpSendAck m o (finished m o con) []).1 with state := .closeWait },
        (tcpSendAck m o (finished m o con) []).2,none⟩
  | empty (con : TCB) : rstFlag m o = false → con.state = .established → finFlag m o = false → dataLen m o = 0 →
      Transition env m o (some con) ⟨.silent,some con,m,none⟩
  | payload (con : TCB) : rstFlag m o = false → con.state = .established → finFlag m o = false → dataLen m o ≠ 0 →
      Transition env m o (some con) ⟨.ok,
        some (tcpSendAck m o (advanced (dataLen m o) con) (httpHandleRequest env.file (payload m o))).1,
        (tcpSendAck m o (advanced (dataLen m o) con) (httpHandleRequest env.file (payload m o))).2,
        some (payload m o)⟩
  | closed (con : TCB) : rstFlag m o = false → con.state ≠ .synReceived → con.state ≠ .established →
      Transition env m o (some con) ⟨.silent,some con,m,none⟩

/-- What a dispatch does to the list, read off one transition of the segment's own connection. -/
structure Refines (out : Outcome) (s : Server) (r : Result) (x : ConnectionID) : Prop where
  unique : out.server.Unique
  find : ∀ id, tcpGetState out.server id = if id = x then r.con else tcpGetState s id
  code : out.code = r.code
  buf : out.buf = r.buf
  request : out.request = r.request

/-- A dispatch that keeps the list as it is. -/
private theorem refines_same {s : Server} (h : s.Unique) {x : ConnectionID} {con : Option TCB}
    (hf : tcpGetState s x = con) (code : Code) (m : Mem) (request : Option (List U8)) :
    Refines ⟨code,m,s,request⟩ s ⟨code,con,m,request⟩ x := by
  refine ⟨h,fun id => ?_,rfl,rfl,rfl⟩
  split
  case isTrue e => rw [e, hf]
  case isFalse => rfl

/-- A dispatch that writes through the pointer of the connection's block. -/
private theorem refines_store {s : Server} (h : s.Unique) {x : ConnectionID} {tcb : TCB} (hs : tcpGetState s x ≠ none)
    (hid : tcb.id = x) (code : Code) (m : Mem) (request : Option (List U8)) :
    Refines ⟨code,m,s.store tcb,request⟩ s ⟨code,some tcb,m,request⟩ x := by
  subst hid
  have hst := store_spec h tcb hs
  exact ⟨hst.1,hst.2,rfl,rfl,rfl⟩

section Dispatch
variable {env : Env} {s : Server} {m : Mem} {o : Nat} {out : Outcome}

/-- No block is listed: the segment is dropped, answered with a reset, or opens
a block that is appended and then filled in. -/
private theorem dispatch_absent (h : s.Unique) (hf : tcpGetState s (segId m o) = none)
    (hd : tcpDispatch env s m o = some out) :
    ∃ r, Transition env m o none r ∧ Refines out s r (segId m o) := by
  simp only [tcpDispatch, hf] at hd
  cases hr : hasFlag (tcpFlags m o) RST with
  | true =>
    rw [hr, if_pos rfl] at hd
    cases hd
    exact ⟨_,.strayReset hr,refines_same h hf _ _ _⟩
  | false =>
    rw [hr, if_neg (by decide)] at hd
    cases hg : hasFlag (tcpFlags m o) SYN && !hasFlag (tcpFlags m o) ACK with
    | false =>
      rw [hg, if_neg (by decide)] at hd
      cases hd
      exact ⟨_,.refuse hr hg,refines_same h hf _ _ _⟩
    | true =>
      rw [hg, if_pos rfl] at hd
      have hflags : hasFlag (tcpFlags m o) SYN = true ∧ hasFlag (tcpFlags m o) ACK = false := by simpa using hg
      cases ha : env.alloc with
      | false =>
        rw [ha] at hd
        simp [tcpInitTcb] at hd
      | true =>
        obtain ⟨s',hs',hu,hfind⟩ := tcpInsertTcb_spec h (newTcb (segId m o)) hf
        rw [ha, show tcpInitTcb true (segId m o) = some (newTcb (segId m o)) from rfl, hs'] at hd
        cases hd
        rw [newTcb_id] at hfind
        have hst := store_spec hu (synNumbers env.ticks m o (newTcb (segId m o)))
          (by rw [synNumbers_id, newTcb_id, hfind, if_pos rfl]; exact Option.some_ne_none _)
        rw [synNumbers_id, newTcb_id] at hst
        refine ⟨_,.opening hr hflags.1 hflags.2,hst.1,fun id => ?_,rfl,rfl,rfl⟩
        refine (hst.2 id).trans ?_
        split
        case isTrue => rfl
        case isFalse e => rw [hfind, if_neg e]

section Stored
variable {cid : ConnectionID} {send : SendState} {recv : RecvState}

/-- A reset removes the block or leaves it, whatever state it is in. -/
private theorem dispatch_reset (h : s.Unique) {con : TCB} (hf : tcpGetState s (segId m o) = some con)
    (hr : hasFlag (tcpFlags m o) RST = true) (hd : tcpDispatch env s m o = some out) :
    ∃ r, Transition env m o (some con) r ∧ Refines out s r (segId m o) := by
  simp only [tcpDispatch, hf] at hd
  rw [hr, if_pos rfl] at hd
  cases hd
  cases hw : rstHonoured m o con with
  | true =>
    rw [tcpGotRst_server, hw, if_pos rfl]
    have hrm := tcpRemoveConnection_spec h con
    rw [tcpGetState_id hf] at hrm
    exact ⟨_,.reset con hr hw,hrm.1,hrm.2,rfl,rfl,rfl⟩
  | false =>
    rw [tcpGotRst_server, hw, if_neg (by decide)]
    exact ⟨_,.ignoreReset con hr hw,refines_same h hf _ _ _⟩

/-- On a half-open block SYN and ACK decide, and then the number acknowledged. -/
private theorem dispatch_synReceived (h : s.Unique)
    (hf : tcpGetState s (segId m o) = some ⟨cid,.synReceived,send,recv⟩) (hr : hasFlag (tcpFlags m o) RST = false)
    (hd : tcpDispatch env s m o = some out) :
    ∃ r, Transition env m o (some ⟨cid,.synReceived,send,recv⟩) r ∧ Refines out s r (segId m o) := by
  have hid : cid = segId m o := tcpGetState_id hf
  have hs : tcpGetState s (segId m o) ≠ none := by rw [hf]; exact Option.some_ne_none _
  simp only [tcpDispatch, hf] at hd
  rw [hr, if_neg (by decide)] at hd
  cases hsyn : hasFlag (tcpFlags m o) SYN <;> cases hack : hasFlag (tcpFlags m o) ACK <;>
    simp only [hsyn, hack, Bool.not_true, Bool.not_false, Bool.and_true, Bool.and_false, Bool.false_eq_true,
      if_true, if_false] at hd
  · cases hd
    exact ⟨_,.unexpected _ hr rfl (hsyn.trans hack.symm),refines_same h hf _ _ _⟩
  · by_cases hn : ntohl (tcpAckNum m o) = send.next
    · rw [if_pos hn] at hd
      cases hd
      refine ⟨_,.establish _ hr rfl hack hsyn hn,refines_store h hs ?_ _ _ _⟩
      exact hid
    · rw [if_neg hn] at hd
      cases hd
      exact ⟨_,.badAck _ hr rfl hack hsyn hn,refines_same h hf _ _ _⟩
  · cases hd
    refine ⟨_,.repeated _ hr rfl hsyn hack,refines_store h hs ?_ _ _ _⟩
    exact hid
  · cases hd
    exact ⟨_,.unexpected _ hr rfl (hsyn.trans hack.symm),refines_same h hf _ _ _⟩

/-- On an open block FIN comes before the payload. -/
private theorem dispatch_established (h : s.Unique)
    (hf : tcpGetState s (segId m o) = some ⟨cid,.established,send,recv⟩) (hr : hasFlag (tcpFlags m o) RST = false)
    (hd : tcpDispatch env s m o = some out) :
    ∃ r, Transition env m o (some ⟨cid,.established,send,recv⟩) r ∧ Refines out s r (segId m o) := by
  have hid : cid = segId m o := tcpGetState_id hf
  have hs : tcpGetState s (segId m o) ≠ none := by rw [hf]; exact Option.some_ne_none _
  simp only [tcpDispatch, hf] at hd
  rw [hr, if_neg (by decide)] at hd
  cases hfin : hasFlag (tcpFlags m o) FIN with
  | true =>
    simp only [hfin, if_true] at hd
    cases hd
    refine ⟨_,.finish _ hr rfl hfin,refines_store h hs ?_ _ _ _⟩
    exact hid
  | false =>
    simp only [hfin, Bool.false_eq_true, if_false] at hd
    by_cases hlen : dataLen m o = 0
    · rw [tcpHandleData, if_pos hlen] at hd
      cases hd
      exact ⟨_,.empty _ hr rfl hfin hlen,refines_store h hs hid _ _ _⟩
    · rw [tcpHandleData, if_neg hlen] at hd
      cases hd
      refine ⟨_,.payload _ hr rfl hfin hlen,refines_store h hs ?_ _ _ _⟩
      exact hid

private theorem dispatch_stored (h : s.Unique) {con : TCB} (hf : tcpGetState s (segId m o) = some con)
    (hd : tcpDispatch env s m o = some out) :
    ∃ r, Transition env m o (some con) r ∧ Refines out s r (segId m o) := by
  cases hr : hasFlag (tcpFlags m o) RST with
  | true => exact dispatch_reset h hf hr hd
  | false =>
    obtain ⟨cid,state,send,recv⟩ := con
    cases state with
    | synReceived => exact dispatch_synReceived h hf hr hd
    | established => exact dispatch_established h hf hr hd
    | closeWait | closing | lastAck | timeWait =>
      simp only [tcpDispatch, hf] at hd
      rw [hr, if_neg (by decide)] at hd
      cases hd
      exact ⟨_,.closed _ hr nofun nofun,refines_same h hf _ _ _⟩

end Stored

/-- Every dispatch that does not crash is one transition of the segment's own
connection and leaves every other block alone. -/
theorem tcpDispatch_transition (h : s.Unique) (hd : tcpDispatch env s m o = some out) :
    ∃ r, Transition env m o (tcpGetState s (segId m o)) r ∧ Refines out s r (segId m o) := by
  cases hf : tcpGetState s (segId m o) with
  | none => exact dispatch_absent h hf hd
  | some con => exact dispatch_stored h hf hd

/-- What a dispatch that asks for a write leaves in the buffer, for any list. -/
inductive Answer (env : Env) (s : Server) (m : Mem) (o : Nat) : Mem → Prop where
  | synAck (tcb : TCB) : Answer env s m o (tcpNullSynAck env.ticks m o tcb).2
  | reset : Answer env s m o (tcpNullRst m o)
  | finAck (tcb : TCB) : Answer env s m o (tcpSendAck m o tcb []).2
  | response (con tcb : TCB) : tcpGetState s (segId m o) = some con → con.state = .established →
      rstFlag m o = false → finFlag m o = false → dataLen m o ≠ 0 →
      Answer env s m o (tcpSendAck m o tcb (httpHandleRequest env.file (payload m o))).2

/-- A listed connection answers only from ESTABLISHED. -/
private theorem stored_answer {con : TCB} (hf : tcpGetState s (segId m o) = some con)
    (hd : tcpDispatch env s m o = some out) (hok : out.code = .ok) : Answer env s m o out.buf := by
  simp only [tcpDispatch, hf] at hd
  split at hd
  case isTrue =>
    cases hd
    cases hok
  case isFalse hr =>
    split at hd
    case h_1 => split_ifs at hd <;> cases hd <;> cases hok
    case h_2 hst =>
      split at hd
      case isTrue =>
        cases hd
        exact .finAck (finished m o con)
      case isFalse hfin =>
        by_cases hlen : dataLen m o = 0
        · rw [tcpHandleData, if_pos hlen] at hd
          cases hd
          cases hok
        · rw [tcpHandleData, if_neg hlen] at hd
          cases hd
          exact .response con (advanced (dataLen m o) con) hf hst (Bool.eq_false_of_not_eq_true hr)
            (Bool.eq_false_of_not_eq_true hfin) hlen
    case h_3 =>
      cases hd
      cases hok

theorem tcpDispatch_answer (hd : tcpDispatch env s m o = some out) (hok : out.code = .ok) :
    Answer env s m o out.buf := by
  cases hf : tcpGetState s (segId m o) with
  | some con => exact stored_answer hf hd hok
  | none =>
    simp only [tcpDispatch, hf] at hd
    split at hd
    case isTrue =>
      cases hd
      cases hok
    case isFalse =>
      split at hd
      case isTrue =>
        split at hd
        case h_1 s' tcb _ _ =>
          cases hd
          exact .synAck tcb
        case h_2 => cases hd
      case isFalse =>
        cases hd
        exact .reset

/-- A segment of a listed connection never meets a null block. -/
theorem tcpDispatch_stored_some (env : Env) {con : TCB} (hf : tcpGetState s (segId m o) = some con) :
    ∃ out, tcpDispatch env s m o = some out := by
  simp only [tcpDispatch, hf]
  split
  · exact ⟨_,rfl⟩
  · split
    · split
      · exact ⟨_,rfl⟩
      · split
        · split <;> exact ⟨_,rfl⟩
        · exact ⟨_,rfl⟩
    · split <;> exact ⟨_,rfl⟩
    · exact ⟨_,rfl⟩

end Dispatch

end LazyTcp.Legacy
