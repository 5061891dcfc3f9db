import LazyTcp.Refactor.Table
import LazyTcp.Refactor.Tcp

/-! One connection as a state machine, and the dispatcher as its refinement:
a dispatch runs the machine of the segment's own connection and leaves every
other entry of the table alone. -/
namespace LazyTcp.Refactor
open General General.Wire

/-- The fields of a segment the state machine reads, in host order. -/
structure Segment where
  id : ID
  flags : Flags
  seq : U32
  ack : U32
  window : U16
  deriving DecidableEq

def segment (m : Mem) (offset : Nat) : Segment :=
  ⟨segId m offset,segFlags m offset,ntohl (tcpSeqNum m offset),ntohl (tcpAckNum m offset),
    ntohs (tcpWindow m offset)⟩

section Fields
variable (m : Mem) (offset : Nat)

@[simp] theorem segment_id : (segment m offset).id = segId m offset := rfl
@[simp] theorem segment_flags : (segment m offset).flags = segFlags m offset := rfl
@[simp] theorem segment_seq : (segment m offset).seq = ntohl (tcpSeqNum m offset) := rfl
@[simp] theorem segment_ack : (segment m offset).ack = ntohl (tcpAckNum m offset) := rfl

end Fields

/-- The receive window test of the RST branch. -/
def inWindow (seq : U32) (recv : ReceiveState) : Bool :=
  seqGeq seq recv.next && seqLt seq (recv.next + recv.window)

/-- The half-open block a SYN leaves. -/
def halfOpen (iss : U32) (s : Segment) (con : TCB) : TCB :=
  ⟨con.id,
    if con.state = .closed then ⟨iss,iss + 1,s.window.setWidth 32,iss⟩
      else { con.send with window := s.window.setWidth 32 },
    { con.recv with irs := s.seq, next := s.seq + 1 },.synReceived⟩

/-- The block after the acknowledgement of our SYN. -/
def acknowledged (s : Segment) (con : TCB) : TCB :=
  ⟨con.id,{ con.send with unac := s.ack },con.recv,.established⟩

@[simp] theorem halfOpen_id (iss : U32) (s : Segment) (con : TCB) : (halfOpen iss s con).id = con.id := rfl
@[simp] theorem acknowledged_id (s : Segment) (con : TCB) : (acknowledged s con).id = con.id := rfl
@[simp] theorem acknowledged_recv (s : Segment) (con : TCB) : (acknowledged s con).recv = con.recv := rfl
@[simp] theorem acknowledged_iss (s : Segment) (con : TCB) : (acknowledged s con).send.iss = con.send.iss := rfl

/-- Edge taken and block left by one segment on its connection's block. -/
def conStep (iss : U32) (s : Segment) (con : TCB) : Edge × Option TCB :=
  match edgeOf s.flags s.id.dstPort con.state with
  | .syn => (.syn,some (halfOpen iss s con))
  | .ack => if s.ack = con.send.next then (.ack,some (acknowledged s con)) else (.drop,some con)
  | .rst => if inWindow s.seq con.recv then (.rst,none) else (.drop,some con)
  | .sendRst => (.sendRst,none)
  | edge => (edge,some con)

/-- A reset to the listening port closes its connection from within the window. -/
theorem conStep_rst {s : Segment} (iss : U32) (con : TCB) (hp : s.id.dstPort = TCP_LISTEN_PORT)
    (hr : s.flags.rst = true) :
    conStep iss s con = if inWindow s.seq con.recv then (.rst,none) else (.drop,some con) := by
  have he : edgeOf s.flags s.id.dstPort con.state = .rst := by simp [edgeOf, hp, hr]
  simp only [conStep, he]

/-- The same with the checksum verdict and, for an unknown connection, whether
a closed block could be allocated and inserted. -/
def dispatchCon (valid fresh : Bool) (iss : U32) (s : Segment) (con : Option TCB) : Edge × Option TCB :=
  if !valid then (.drop,con)
  else match con with
    | some con => conStep iss s con
    | none => if fresh then conStep iss s (tcbInit s.id) else (.drop,none)

section DispatchCon
variable (fresh : Bool) (iss : U32) (s : Segment)

@[simp] theorem dispatchCon_invalid (con : Option TCB) : dispatchCon false fresh iss s con = (.drop,con) := rfl

@[simp] theorem dispatchCon_stored (con : TCB) : dispatchCon true fresh iss s (some con) = conStep iss s con := rfl

@[simp] theorem dispatchCon_absent : dispatchCon true fresh iss s none =
    if fresh then conStep iss s (tcbInit s.id) else (.drop,none) := rfl

/-- A segment is dropped, or taken to the stored block or to a new one. -/
theorem dispatchCon_cases (valid : Bool) (con : Option TCB) : dispatchCon valid fresh iss s con = (.drop,con) ∨
    valid = true ∧ ∃ c, (con = some c ∨ con = none ∧ c = tcbInit s.id) ∧
      dispatchCon valid fresh iss s con = conStep iss s c := by
  cases valid with
  | false => exact Or.inl rfl
  | true =>
    cases con with
    | some c => exact Or.inr ⟨rfl,c,Or.inl rfl,rfl⟩
    | none =>
      cases fresh with
      | false => exact Or.inl rfl
      | true => exact Or.inr ⟨rfl,_,Or.inr ⟨rfl,rfl⟩,rfl⟩

end DispatchCon

def checksumOk (m : Mem) (len offset : Nat) : Bool :=
  decide (tcpChecksumField m offset = tcpChecksum m len offset)

/-- tcp_parse_edge obtains a fresh block for the id. -/
def freshBlock (a : Allocs) (ht : HashTable) (id : ID) : Bool := a.tcb && (hashInsert a ht (tcbInit id)).1

theorem freshBlock_succeed {a : Allocs} (h : a = .succeed) (ht : HashTable) (id : ID) : freshBlock a ht id = true := by
  rw [freshBlock, h, hashInsert_succeed]
  rfl

/-- The reply that goes with an edge and the block it left. -/
def replyOf (stale : Stale) (r : Edge × Option TCB) (m : Mem) (len offset : Nat) : Nat × Mem :=
  match r with
  | (.syn,some tcb) => tcpSynAck tcb m len offset
  | (.sendRst,_) => rstReply stale m offset
  | _ => (0,m)

/-- Every other edge sends nothing and leaves the buffer alone. -/
theorem replyOf_silent {stale : Stale} {r : Edge × Option TCB} (h1 : r.1 ≠ .syn) (h2 : r.1 ≠ .sendRst)
    (m : Mem) (len offset : Nat) : replyOf stale r m len offset = (0,m) := by
  obtain ⟨edge,con⟩ := r
  cases edge with
  | syn => exact absurd rfl h1
  | sendRst => exact absurd rfl h2
  | data | ack | fin | rst | drop => rfl

/-- What a dispatch does to a table whose entry for the segment's connection is
con: every part is read off dispatchCon. -/
structure Refines (o : Outcome) (ht : HashTable) (stale : Stale) (r : Edge × Option TCB) (x : ID)
    (m : Mem) (len offset : Nat) : Prop where
  wf : o.table.WF
  edge : o.edge = r.1
  find : ∀ id, hashFind o.table id = if id = x then r.2 else hashFind ht id
  reply : (o.ret,o.buf) = replyOf stale r m len offset

/-- The end of a dispatch whose parse found or inserted the block. -/
def dispatchOn (env : Env) (m : Mem) (len offset : Nat) (con : TCB) (ht : HashTable) : Outcome :=
  tcpSwitch env.stale m len offset (edgeOf (segFlags m offset) (segId m offset).dstPort con.state)
    (tcbStateUpdate env.iss m offset ht con (edgeOf (segFlags m offset) (segId m offset).dstPort con.state))

/-- The same when a block was needed, on the verdict of its insertion. -/
def dispatchFresh (env : Env) (m : Mem) (len offset : Nat) : Bool × HashTable → Outcome
  | (false,ht) => ⟨⟨0,m,ht⟩,.drop⟩
  | (true,ht) => dispatchOn env m len offset (tcbInit (segId m offset)) ht

/-- The dispatcher by what tcp_parse_edge found: the checksum verdict, then the
stored block, then a fresh one when both its malloc and its insertion succeed. -/
theorem tcpDispatch_eq (env : Env) (ht : HashTable) (m : Mem) (len offset : Nat) :
    tcpDispatch env ht m len offset =
      if checksumOk m len offset then
        (hashFind ht (segId m offset)).elim
          (if env.allocs.tcb then
            dispatchFresh env m len offset (hashInsert env.allocs ht (tcbInit (segId m offset)))
          else ⟨⟨0,m,ht⟩,.drop⟩)
          fun con => dispatchOn env m len offset con ht
      else ⟨⟨0,m,ht⟩,.drop⟩ := by
  by_cases hv : tcpChecksumField m offset = tcpChecksum m len offset
  case neg =>
    rw [tcpDispatch, if_pos hv, checksumOk, decide_eq_false hv]
    rfl
  simp only [tcpDispatch, checksumOk, hv, ne_eq, not_true_eq_false, decide_true, if_false, if_true, tcpParseEdge]
  cases hashFind ht (segId m offset) with
  | some con =>
    simp only [Option.elim_some, dispatchOn]
    cases edgeOf (segFlags m offset) (segId m offset).dstPort con.state <;> rfl
  | none =>
    cases env.allocs.tcb with
    | false => rfl
    | true =>
      rcases hashInsert env.allocs ht (tcbInit (segId m offset)) with ⟨ok,ht'⟩
      cases ok with
      | false => rfl
      | true =>
        simp only [Option.elim_none, if_true, dispatchFresh, dispatchOn]
        cases edgeOf (segFlags m offset) (segId m offset).dstPort (tcbInit (segId m offset)).state <;> rfl

/-- A table that is left alone holds what it held, the id's own block included. -/
private theorem find_unchanged {ht : HashTable} {id₀ : ID} {c : Option TCB} (hc : hashFind ht id₀ = c) (id : ID) :
    hashFind ht id = if id = id₀ then c else hashFind ht id := by
  split
  case isTrue e => rw [e, hc]
  case isFalse => rfl

private theorem switch_refines {ht : HashTable} (h : ht.WF) (env : Env) (m : Mem) (len offset : Nat)
    (con : TCB) (hf : hashFind ht con.id = some con) (hid : con.id = segId m offset) :
    Refines (dispatchOn env m len offset con ht) ht env.stale
      (conStep env.iss (segment m offset) con) (segId m offset) m len offset := by
  have hkeep := find_unchanged (show hashFind ht (segId m offset) = some con by rw [← hid, hf])
  have hstored : hashFind ht con.id ≠ none := by simp [hf]
  -- The two sides branch on the same edge; each case reads off one table spec.
  unfold conStep dispatchOn
  rw [segment_flags, segment_id, segment_ack, segment_seq]
  cases he : edgeOf (segFlags m offset) (segId m offset).dstPort con.state with
  | syn =>
    have hs := tcbStore_spec h (halfOpen env.iss (segment m offset) con) (by rwa [halfOpen_id])
    rw [halfOpen_id, hid] at hs
    have hu : tcbStateUpdate env.iss m offset ht con .syn =
        (true,halfOpen env.iss (segment m offset) con,tcbStore ht (halfOpen env.iss (segment m offset) con)) := by
      unfold tcbStateUpdate halfOpen
      cases hc : con.state <;> rfl
    rw [hu]
    exact ⟨hs.1,rfl,hs.2,rfl⟩
  | ack =>
    by_cases ha : ntohl (tcpAckNum m offset) = con.send.next
    · have hs := tcbStore_spec h (acknowledged (segment m offset) con) (by rwa [acknowledged_id])
      rw [acknowledged_id, hid] at hs
      have hu : tcbStateUpdate env.iss m offset ht con .ack =
          (true,acknowledged (segment m offset) con,tcbStore ht (acknowledged (segment m offset) con)) :=
        if_pos ha
      rw [hu, if_pos ha]
      exact ⟨hs.1,rfl,hs.2,rfl⟩
    · have hu : tcbStateUpdate env.iss m offset ht con .ack = (false,con,ht) := if_neg ha
      rw [hu, if_neg ha]
      exact ⟨h,rfl,hkeep,rfl⟩
  | rst =>
    have hd := hashDelete_spec h con
    rw [hid] at hd
    by_cases hw : inWindow (ntohl (tcpSeqNum m offset)) con.recv
    · have hu : tcbStateUpdate env.iss m offset ht con .rst = (true,con,hashDelete ht con) := if_pos hw
      rw [hu, if_pos hw]
      exact ⟨hd.1,rfl,hd.2,rfl⟩
    · have hu : tcbStateUpdate env.iss m offset ht con .rst = (false,con,ht) := if_neg hw
      rw [hu, if_neg hw]
      exact ⟨h,rfl,hkeep,rfl⟩
  | sendRst =>
    have hd := hashDelete_spec h con
    rw [hid] at hd
    exact ⟨hd.1,rfl,hd.2,rfl⟩
  | data => exact ⟨h,rfl,hkeep,rfl⟩
  | fin => exact ⟨h,rfl,hkeep,rfl⟩
  | drop => exact ⟨h,rfl,hkeep,rfl⟩

/-- The dispatcher refines the per-connection machine, for every table, every
buffer and every answer of the environment. -/
theorem tcpDispatch_refines {ht : HashTable} (h : ht.WF) (env : Env) (m : Mem) (len offset : Nat) :
    Refines (tcpDispatch env ht m len offset) ht env.stale
      (dispatchCon (checksumOk m len offset) (freshBlock env.allocs ht (segId m offset)) env.iss
        (segment m offset) (hashFind ht (segId m offset))) (segId m offset) m len offset := by
  rw [tcpDispatch_eq]
  cases checksumOk m len offset with
  | false =>
    rw [dispatchCon_invalid]
    exact ⟨h,rfl,find_unchanged rfl,rfl⟩
  | true =>
    rw [if_pos rfl]
    cases hf : hashFind ht (segId m offset) with
    | some con =>
      have hid := h.find_id hf
      exact switch_refines h env m len offset con (by rw [hid, hf]) hid
    | none =>
      obtain ⟨hw,hi⟩ := hashInsert_spec h env.allocs (tcbInit (segId m offset)) hf
      rw [dispatchCon_absent, freshBlock]
      cases env.allocs.tcb with
      | false => exact ⟨h,rfl,find_unchanged hf,rfl⟩
      | true =>
        rcases hr : hashInsert env.allocs ht (tcbInit (segId m offset)) with ⟨ok,ht'⟩
        rw [hr] at hw hi
        cases ok with
        | false =>
          simp only [Bool.false_eq_true, false_and, if_false] at hi
          exact ⟨hw,rfl,fun id => (hi id).trans (find_unchanged hf id),rfl⟩
        | true =>
          have hu := switch_refines hw env m len offset (tcbInit (segId m offset)) (by rw [hi]; exact if_pos ⟨rfl,rfl⟩) rfl
          refine ⟨hu.wf,hu.edge,fun id => (hu.find id).trans ?_,hu.reply⟩
          split
          case isTrue => rfl
          case isFalse hne => rw [hi, if_neg fun e => hne e.2]

end LazyTcp.Refactor
