import LazyTcp.General.Run
import LazyTcp.Refactor.Connection

/-! Runs of the dispatcher over packets, the transitions of one connection as a
relation, and the invariant of every stored block. -/
namespace LazyTcp.Refactor
open General General.Wire

/-- A packet as net_demux hands it to tcp_dispatch: the offset is an IP header
length that ip_validate accepted. -/
structure Packet where
  buf : Mem
  len : Nat
  offset : Nat
  header : 20 ≤ offset
  fits : offset ≤ len

namespace Packet

def seg (p : Packet) : Segment := segment p.buf p.offset
def valid (p : Packet) : Bool := checksumOk p.buf p.len p.offset
def dispatch (env : Env) (ht : HashTable) (p : Packet) : Outcome := tcpDispatch env ht p.buf p.len p.offset

end Packet

structure Input where
  pkt : Packet
  env : Env

def Input.outcome (ht : HashTable) (i : Input) : Outcome := i.pkt.dispatch i.env ht

def tcpStep (ht : HashTable) (i : Input) : HashTable := (i.outcome ht).table

theorem tcpStep_mk (ht : HashTable) (p : Packet) (env : Env) : tcpStep ht ⟨p,env⟩ = (p.dispatch env ht).table := rfl

/-- Tables some finite run of tcp_dispatch leaves. -/
def TableReachable (ht : HashTable) : Prop := Reachable tcpStep .empty ht

/-- The transitions of one connection, with the guard each of them has. -/
inductive Transition (iss : U32) (s : Segment) (con : TCB) : Edge × Option TCB → Prop where
  | refuse : s.id.dstPort ≠ TCP_LISTEN_PORT → Transition iss s con (.sendRst,none)
  | reset : s.id.dstPort = TCP_LISTEN_PORT → s.flags.rst = true → inWindow s.seq con.recv = true →
      Transition iss s con (.rst,none)
  | ignoreReset : s.id.dstPort = TCP_LISTEN_PORT → s.flags.rst = true → inWindow s.seq con.recv = false →
      Transition iss s con (.drop,some con)
  | opening : s.id.dstPort = TCP_LISTEN_PORT → s.flags.rst = false → con.state = .closed →
      s.flags.syn = true → s.flags.ack = false → Transition iss s con (.syn,some (halfOpen iss s con))
  | unknown : s.id.dstPort = TCP_LISTEN_PORT → s.flags.rst = false → con.state = .closed →
      (s.flags.syn && !s.flags.ack) = false → Transition iss s con (.sendRst,none)
  | establish : s.id.dstPort = TCP_LISTEN_PORT → s.flags.rst = false → con.state = .synReceived →
      s.flags.ack = true → s.flags.syn = false → s.ack = con.send.next →
      Transition iss s con (.ack,some (acknowledged s con))
  | badAck : s.id.dstPort = TCP_LISTEN_PORT → s.flags.rst = false → con.state = .synReceived →
      s.flags.ack = true → s.flags.syn = false → s.ack ≠ con.send.next → Transition iss s con (.drop,some con)
  | abort : s.id.dstPort = TCP_LISTEN_PORT → s.flags.rst = false → con.state = .synReceived →
      (s.flags.ack && !s.flags.syn) = false → Transition iss s con (.sendRst,none)
  | synOnOpen : s.id.dstPort = TCP_LISTEN_PORT → s.flags.rst = false → con.state = .established →
      s.flags.syn = true → Transition iss s con (.sendRst,none)
  | payload : s.id.dstPort = TCP_LISTEN_PORT → s.flags.rst = false → con.state = .established →
      s.flags.syn = false → Transition iss s con (.data,some con)
  | unused : s.id.dstPort = TCP_LISTEN_PORT → s.flags.rst = false → con.state ≠ .closed →
      con.state ≠ .synReceived → con.state ≠ .established → Transition iss s con (.drop,some con)

private theorem edgeOf_listen {flags : Flags} {port : U16} (hp : port = TCP_LISTEN_PORT) (hr : flags.rst = false)
    (state : ConState) : edgeOf flags port state = match state with
      | .closed => if flags.syn && !flags.ack then .syn else .sendRst
      | .synReceived => if flags.ack && !flags.syn then .ack else .sendRst
      | .established => if flags.syn then .sendRst else .data
      | _ => .drop := by
  cases state <;> simp [edgeOf, hp, hr]

private theorem transition_closed (iss : U32) (s : Segment) (con : TCB) (hp : s.id.dstPort = TCP_LISTEN_PORT)
    (hr : s.flags.rst = false) (hc : con.state = .closed) : Transition iss s con (conStep iss s con) := by
  have he := edgeOf_listen hp hr con.state
  rw [hc] at he
  cases hg : s.flags.syn && !s.flags.ack with
  | true =>
    have hb : s.flags.syn = true ∧ s.flags.ack = false := by simpa using hg
    have hs : conStep iss s con = (.syn,some (halfOpen iss s con)) := by simp only [conStep, hc, he, hg, if_true]
    rw [hs]
    exact .opening hp hr hc hb.1 hb.2
  | false =>
    have hs : conStep iss s con = (.sendRst,none) := by
      simp only [conStep, hc, he, hg, Bool.false_eq_true, if_false]
    rw [hs]
    exact .unknown hp hr hc hg

private theorem transition_synReceived (iss : U32) (s : Segment) (con : TCB)
    (hp : s.id.dstPort = TCP_LISTEN_PORT) (hr : s.flags.rst = false) (hc : con.state = .synReceived) :
    Transition iss s con (conStep iss s con) := by
  have he := edgeOf_listen hp hr con.state
  rw [hc] at he
  cases hg : s.flags.ack && !s.flags.syn with
  | true =>
    have hb : s.flags.ack = true ∧ s.flags.syn = false := by simpa using hg
    by_cases ha : s.ack = con.send.next
    · have hs : conStep iss s con = (.ack,some (acknowledged s con)) := by
        simp only [conStep, hc, he, hg, if_true, if_pos ha]
      rw [hs]
      exact .establish hp hr hc hb.1 hb.2 ha
    · have hs : conStep iss s con = (.drop,some con) := by simp only [conStep, hc, he, hg, if_true, if_neg ha]
      rw [hs]
      exact .badAck hp hr hc hb.1 hb.2 ha
  | false =>
    have hs : conStep iss s con = (.sendRst,none) := by
      simp only [conStep, hc, he, hg, Bool.false_eq_true, if_false]
    rw [hs]
    exact .abort hp hr hc hg

private theorem transition_established (iss : U32) (s : Segment) (con : TCB)
    (hp : s.id.dstPort = TCP_LISTEN_PORT) (hr : s.flags.rst = false) (hc : con.state = .established) :
    Transition iss s con (conStep iss s con) := by
  have he := edgeOf_listen hp hr con.state
  rw [hc] at he
  cases hg : s.flags.syn with
  | true =>
    have hs : conStep iss s con = (.sendRst,none) := by simp only [conStep, hc, he, hg, if_true]
    rw [hs]
    exact .synOnOpen hp hr hc hg
  | false =>
    have hs : conStep iss s con = (.data,some con) := by
      simp only [conStep, hc, he, hg, Bool.false_eq_true, if_false]
    rw [hs]
    exact .payload hp hr hc hg

/-- Every step of the machine is one of the listed transitions. -/
theorem conStep_transition (iss : U32) (s : Segment) (con : TCB) : Transition iss s con (conStep iss s con) := by
  by_cases hp : s.id.dstPort = TCP_LISTEN_PORT
  case neg =>
    have hs : conStep iss s con = (.sendRst,none) := by simp [conStep, edgeOf, hp]
    rw [hs]
    exact .refuse hp
  cases hr : s.flags.rst with
  | true =>
    rw [conStep_rst iss con hp hr]
    cases hw : inWindow s.seq con.recv with
    | true => exact .reset hp hr hw
    | false => exact .ignoreReset hp hr hw
  | false =>
    by_cases h1 : con.state = .closed
    · exact transition_closed iss s con hp hr h1
    by_cases h2 : con.state = .synReceived
    · exact transition_synReceived iss s con hp hr h2
    by_cases h3 : con.state = .established
    · exact transition_established iss s con hp hr h3
    have he : edgeOf s.flags s.id.dstPort con.state = .drop := by
      rw [edgeOf_listen hp hr]
      cases hc : con.state <;> simp_all
    have hs : conStep iss s con = (.drop,some con) := by simp only [conStep, he]
    rw [hs]
    exact .unused hp hr h1 h2 h3

/-- The sequence variables of a block in each state it can be stored in. -/
def Sound (con : TCB) : Prop :=
  match con.state with
  | .closed => con = tcbInit con.id
  | .synReceived => con.send.unac = con.send.iss ∧ con.send.next = con.send.iss + 1 ∧
      con.recv.next = con.recv.irs + 1
  | .established => con.send.unac = con.send.iss + 1 ∧ con.send.next = con.send.iss + 1 ∧
      con.recv.next = con.recv.irs + 1
  | _ => False

structure ConInv (con : TCB) : Prop where
  port : con.id.dstPort = TCP_LISTEN_PORT
  window : con.recv.window = TCP_WIN_DEF
  sound : Sound con

/-- Step lemma: a stored or fresh block is left in a state with the invariant. -/
theorem conStep_inv {iss : U32} {s : Segment} {con t : TCB} (hid : con.id = s.id)
    (h : ConInv con ∨ con = tcbInit s.id) (ht : (conStep iss s con).2 = some t) : ConInv t ∧ t.id = s.id := by
  have hwin : con.recv.window = TCP_WIN_DEF := h.elim (·.window) fun e => by rw [e]; rfl
  have hsound : Sound con := h.elim (·.sound) fun e => by rw [e]; rfl
  have hport (hp : s.id.dstPort = TCP_LISTEN_PORT) : con.id.dstPort = TCP_LISTEN_PORT := by rw [hid, hp]
  have hstep := conStep_transition iss s con
  generalize conStep iss s con = r at hstep ht
  cases hstep with
  | refuse | reset | unknown | abort | synOnOpen => cases ht
  | ignoreReset hp | badAck hp | payload hp | unused hp =>
    cases ht
    exact ⟨⟨hport hp,hwin,hsound⟩,hid⟩
  | opening hp _ hc =>
    cases ht
    refine ⟨⟨hport hp,hwin,?_⟩,hid⟩
    simp [Sound, halfOpen, hc]
  | establish hp _ hc _ _ ha =>
    cases ht
    rw [Sound, hc] at hsound
    refine ⟨⟨hport hp,hwin,?_⟩,hid⟩
    simp only [Sound, acknowledged]
    exact ⟨ha.trans hsound.2.1,hsound.2⟩

/-- A table all of whose entries have the invariant. -/
structure TableInv (ht : HashTable) : Prop where
  wf : ht.WF
  con : ∀ id con, hashFind ht id = some con → ConInv con ∧ con.id = id

theorem dispatchCon_inv {valid fresh : Bool} {iss : U32} {s : Segment} {con : Option TCB} {t : TCB}
    (h : ∀ c, con = some c → ConInv c ∧ c.id = s.id) (ht : (dispatchCon valid fresh iss s con).2 = some t) :
    ConInv t ∧ t.id = s.id := by
  rcases dispatchCon_cases fresh iss s valid con with hd | ⟨-,c,rfl | ⟨-,rfl⟩,hd⟩ <;> rw [hd] at ht
  · exact h t ht
  · exact conStep_inv (h c rfl).2 (Or.inl (h c rfl).1) ht
  · exact conStep_inv rfl (Or.inr rfl) ht

/-- The refinement theorem for a packet. -/
theorem Packet.refines {ht : HashTable} (h : ht.WF) (env : Env) (p : Packet) :
    Refines (p.dispatch env ht) ht env.stale
      (dispatchCon p.valid (freshBlock env.allocs ht p.seg.id) env.iss p.seg (hashFind ht p.seg.id))
      p.seg.id p.buf p.len p.offset :=
  tcpDispatch_refines h env p.buf p.len p.offset

/-- The same edge, length and bytes, hence the same kind of reply with the same
sequence and acknowledgement numbers. -/
structure SameReply (o o' : Outcome) : Prop where
  edge : o.edge = o'.edge
  ret : o.ret = o'.ret
  buf : o.buf = o'.buf

/-- A valid segment of a stored connection runs the machine on its block. -/
theorem Packet.refines_stored {ht : HashTable} (h : ht.WF) (env : Env) (p : Packet) (hv : p.valid = true)
    {con : TCB} (hf : hashFind ht p.seg.id = some con) :
    Refines (p.dispatch env ht) ht env.stale (conStep env.iss p.seg con) p.seg.id p.buf p.len p.offset := by
  have hr := p.refines h env
  rwa [hv, hf, dispatchCon_stored] at hr

/-- A valid segment of an unknown connection runs it on a fresh closed block. -/
theorem Packet.refines_absent {ht : HashTable} (h : ht.WF) (env : Env) (p : Packet) (hv : p.valid = true)
    (hf : hashFind ht p.seg.id = none) :
    Refines (p.dispatch env ht) ht env.stale
      (if freshBlock env.allocs ht p.seg.id then conStep env.iss p.seg (tcbInit p.seg.id) else (.drop,none))
      p.seg.id p.buf p.len p.offset := by
  have hr := p.refines h env
  rwa [hv, hf, dispatchCon_absent] at hr

theorem Packet.refines_invalid {ht : HashTable} (h : ht.WF) (env : Env) (p : Packet) (hv : p.valid = false) :
    Refines (p.dispatch env ht) ht env.stale (.drop,hashFind ht p.seg.id) p.seg.id p.buf p.len p.offset := by
  have hr := p.refines h env
  rwa [hv, dispatchCon_invalid] at hr

theorem Refines.own {o : Outcome} {ht : HashTable} {stale : Stale} {r : Edge × Option TCB} {x : ID} {m : Mem}
    {len offset : Nat} (h : Refines o ht stale r x m len offset) : hashFind o.table x = r.2 := by
  rw [h.find, if_pos rfl]

theorem Refines.other {o : Outcome} {ht : HashTable} {stale : Stale} {r : Edge × Option TCB} {x id : ID} {m : Mem}
    {len offset : Nat} (h : Refines o ht stale r x m len offset) (hid : id ≠ x) :
    hashFind o.table id = hashFind ht id := by
  rw [h.find, if_neg hid]

theorem tcpStep_inv {ht : HashTable} (h : TableInv ht) (i : Input) : TableInv (tcpStep ht i) := by
  have hr := i.pkt.refines h.wf i.env
  refine ⟨hr.wf,fun id con hf => ?_⟩
  have hf' := (hr.find id).symm.trans hf
  split at hf'
  case isTrue e =>
    rw [e]
    exact dispatchCon_inv (fun c hc => h.con _ c hc) hf'
  case isFalse => exact h.con id con hf'

theorem TableInv.empty : TableInv .empty := ⟨.empty,fun _ _ h => by cases h⟩

/-- Run lemma: the invariant holds of every reachable table. -/
theorem TableReachable.inv {ht : HashTable} (h : TableReachable ht) : TableInv ht :=
  Reachable.invariant h .empty fun _ i hi => tcpStep_inv hi i

/-- On a stored block the window test is the modular interval of 8192 numbers. -/
theorem ConInv.inWindow_iff {con : TCB} (h : ConInv con) (seq : U32) :
    inWindow seq con.recv = decide ((seq - con.recv.next).toNat < con.recv.window.toNat) := by
  apply window_iff
  rw [h.window]
  decide

/-- A SYN without ACK and RST to the listening port. -/
structure Segment.Opening (s : Segment) : Prop where
  port : s.id.dstPort = TCP_LISTEN_PORT
  noRst : s.flags.rst = false
  syn : s.flags.syn = true
  noAck : s.flags.ack = false

/-- A reset to the listening port outside the window [0,8192) of a closed block. -/
structure Segment.Stray (s : Segment) : Prop where
  port : s.id.dstPort = TCP_LISTEN_PORT
  rst : s.flags.rst = true
  seq : TCP_WIN_DEF.toNat ≤ s.seq.toNat

section FreshBlock
variable {s : Segment} (iss : U32)

theorem inWindow_init (seq : U32) (id : ID) :
    inWindow seq (tcbInit id).recv = decide (seq.toNat < TCP_WIN_DEF.toNat) := by
  have hw := window_iff seq 0 TCP_WIN_DEF (by decide)
  rwa [show seq - 0 = seq by simp] at hw

/-- On a fresh block a stray reset is dropped and the block stays. -/
theorem conStep_init_stray (h : s.Stray) : conStep iss s (tcbInit s.id) = (.drop,some (tcbInit s.id)) := by
  have hw : inWindow s.seq (tcbInit s.id).recv = false := by
    rw [inWindow_init]
    exact decide_eq_false (Nat.not_lt.mpr h.seq)
  rw [conStep_rst iss _ h.port h.rst, hw]
  rfl

theorem conStep_init_opening (h : s.Opening) :
    conStep iss s (tcbInit s.id) = (.syn,some (halfOpen iss s (tcbInit s.id))) := by
  have he : edgeOf s.flags s.id.dstPort (tcbInit s.id).state = .syn := by
    simp [edgeOf, tcbInit, h.port, h.noRst, h.syn, h.noAck]
  simp only [conStep, he]

/-- Every other segment takes the fresh block with it. -/
theorem conStep_init_gone (hs : ¬ s.Stray) (ho : ¬ s.Opening) :
    conStep iss s (tcbInit s.id) = (.sendRst,none) ∨ conStep iss s (tcbInit s.id) = (.rst,none) := by
  have ht := conStep_transition iss s (tcbInit s.id)
  generalize conStep iss s (tcbInit s.id) = r at ht ⊢
  cases ht with
  | refuse | unknown | abort | synOnOpen => exact Or.inl rfl
  | reset => exact Or.inr rfl
  | ignoreReset hp hr hw =>
    rw [inWindow_init] at hw
    exact absurd ⟨hp,hr,Nat.not_lt.mp (of_decide_eq_false hw)⟩ hs
  | opening hp hr _ hsyn hack => exact absurd ⟨hp,hr,hsyn,hack⟩ ho
  | establish _ _ hc | badAck _ _ hc | payload _ _ hc => cases hc
  | unused _ _ hc => exact absurd rfl hc

end FreshBlock

end LazyTcp.Refactor
