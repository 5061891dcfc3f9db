import LazyTcp.Refactor.Craft
import LazyTcp.Refactor.Replies

/-! Handshake soundness: the sequence variables of every stored connection, and
the two segments behind every established one. -/
namespace LazyTcp.Refactor
open General General.Wire

/-- A checksum-valid SYN without ACK and RST for x to the listening port, with
sequence number irs, answered by a SYN-ACK that carries iss. -/
structure SynAnswered (x : ID) (irs iss : U32) (ht : HashTable) (i : Input) : Prop where
  valid : i.pkt.valid = true
  id : i.pkt.seg.id = x
  port : x.dstPort = TCP_LISTEN_PORT
  syn : i.pkt.seg.flags.syn = true
  noAck : i.pkt.seg.flags.ack = false
  noRst : i.pkt.seg.flags.rst = false
  seq : i.pkt.seg.seq = irs
  edge : (i.outcome ht).edge = .syn
  replyLen : (i.outcome ht).ret = ihlBytes i.pkt.buf + tcpHlen i.pkt.buf i.pkt.offset
  replyFlags : tcpFlags (i.outcome ht).buf i.pkt.offset = SYN ||| ACK
  replySeq : ntohl (tcpSeqNum (i.outcome ht).buf i.pkt.offset) = iss
  replyAck : ntohl (tcpAckNum (i.outcome ht).buf i.pkt.offset) = irs + 1

/-- A checksum-valid ACK without SYN and RST for x that acknowledges iss. -/
structure AckSeen (x : ID) (iss : U32) (i : Input) : Prop where
  valid : i.pkt.valid = true
  id : i.pkt.seg.id = x
  ack : i.pkt.seg.flags.ack = true
  noSyn : i.pkt.seg.flags.syn = false
  noRst : i.pkt.seg.flags.rst = false
  ackNum : i.pkt.seg.ack = iss + 1

/-- The run opened x with the block's numbers and x was not removed since. -/
def Opened (inputs : List Input) (x : ID) (con : TCB) : Prop :=
  ∃ pre syn mid, inputs = pre ++ syn :: mid ∧
    SynAnswered x con.recv.irs con.send.iss (run tcpStep .empty pre) syn ∧
    ∀ m, m <+: mid → hashFind (run tcpStep .empty (pre ++ syn :: m)) x ≠ none

/-- The run opened x and later acknowledged it, with no removal in between. -/
def Completed (inputs : List Input) (x : ID) (con : TCB) : Prop :=
  ∃ pre syn mid ack post, inputs = pre ++ syn :: (mid ++ ack :: post) ∧
    SynAnswered x con.recv.irs con.send.iss (run tcpStep .empty pre) syn ∧ AckSeen x con.send.iss ack ∧
    ∀ m, m <+: mid → hashFind (run tcpStep .empty (pre ++ syn :: m)) x ≠ none

private def History (inputs : List Input) (ht : HashTable) : Prop :=
  ∀ x con, hashFind ht x = some con →
    (con.state = .synReceived → Opened inputs x con) ∧ (con.state = .established → Completed inputs x con)

private theorem Opened.extend {inputs : List Input} {x : ID} {con con' : TCB} (h : Opened inputs x con) (i : Input)
    (hf : hashFind (tcpStep (run tcpStep .empty inputs) i) x = some con') : Opened (inputs ++ [i]) x con := by
  obtain ⟨pre,syn,mid,rfl,hs,hm⟩ := h
  refine ⟨pre,syn,mid ++ [i],by simp,hs,fun m hp => ?_⟩
  rcases List.prefix_concat_iff.mp hp with rfl | hp
  · rw [show pre ++ syn :: (mid ++ [i]) = (pre ++ syn :: mid) ++ [i] by simp, run_snoc, hf]
    exact Option.some_ne_none con'
  · exact hm m hp

private theorem Completed.extend {inputs : List Input} {x : ID} {con : TCB} (h : Completed inputs x con)
    (i : Input) : Completed (inputs ++ [i]) x con := by
  obtain ⟨pre,syn,mid,ack,post,rfl,hs,ha,hm⟩ := h
  exact ⟨pre,syn,mid,ack,post ++ [i],by simp,hs,ha,hm⟩

/-- A block that a step leaves as it was keeps its history. -/
private theorem History.keep {inputs : List Input} {x : ID} {con : TCB} (i : Input)
    (h : History inputs (run tcpStep .empty inputs)) (hb : hashFind (run tcpStep .empty inputs) x = some con)
    (hf : hashFind (tcpStep (run tcpStep .empty inputs) i) x = some con) :
    (con.state = .synReceived → Opened (inputs ++ [i]) x con) ∧
      (con.state = .established → Completed (inputs ++ [i]) x con) :=
  ⟨fun hc => ((h x con hb).1 hc).extend i hf,fun hc => ((h x con hb).2 hc).extend i⟩

/-- An opening step answers its SYN. -/
theorem synAnswered {ht : HashTable} (h : ht.WF) {i : Input} (con : TCB) (hv : i.pkt.valid = true)
    (ho : i.pkt.seg.Opening) (hc : con.state = .closed)
    (hd : dispatchCon i.pkt.valid (freshBlock i.env.allocs ht i.pkt.seg.id) i.env.iss i.pkt.seg
      (hashFind ht i.pkt.seg.id) = (.syn,some (halfOpen i.env.iss i.pkt.seg con))) :
    SynAnswered i.pkt.seg.id i.pkt.seg.seq i.env.iss ht i := by
  have href := i.pkt.refines h i.env
  rw [hd] at href
  have hiss : (halfOpen i.env.iss i.pkt.seg con).send.iss = i.env.iss := by simp [halfOpen, hc]
  have hbuf : (i.outcome ht).buf =
      (tcpSynAck (halfOpen i.env.iss i.pkt.seg con) i.pkt.buf i.pkt.len i.pkt.offset).2 :=
    congrArg Prod.snd href.reply
  refine ⟨hv,rfl,ho.port,ho.syn,ho.noAck,ho.noRst,rfl,href.edge,?_,?_,?_,?_⟩
  · exact (congrArg Prod.fst href.reply).trans (tcpSynAck_len _ _ _ i.pkt.header)
  · rw [hbuf, tcpSynAck_flags _ _ _ i.pkt.header]
  · rw [hbuf, tcpSynAck_seq _ _ _ i.pkt.header, hiss]
  · rw [hbuf, tcpSynAck_ack _ _ _ i.pkt.header]
    rfl

/-- The SYN that opens a connection is the one its history starts with. -/
private theorem Opened.start {inputs : List Input} {i : Input} {con : TCB}
    (hi : TableInv (run tcpStep .empty inputs)) (hv : i.pkt.valid = true) (ho : i.pkt.seg.Opening)
    (hc : con.state = .closed)
    (hd : dispatchCon i.pkt.valid (freshBlock i.env.allocs (run tcpStep .empty inputs) i.pkt.seg.id) i.env.iss
      i.pkt.seg (hashFind (run tcpStep .empty inputs) i.pkt.seg.id) =
        (.syn,some (halfOpen i.env.iss i.pkt.seg con))) :
    Opened (inputs ++ [i]) i.pkt.seg.id (halfOpen i.env.iss i.pkt.seg con) := by
  have hiss : (halfOpen i.env.iss i.pkt.seg con).send.iss = i.env.iss := by simp [halfOpen, hc]
  refine ⟨inputs,i,[],rfl,?_,fun m hm => ?_⟩
  · rw [hiss]
    exact synAnswered hi.wf con hv ho hc hd
  · have href := i.pkt.refines hi.wf i.env
    rw [hd] at href
    rw [List.prefix_nil.mp hm, run_snoc]
    exact fun e => Option.some_ne_none _ (href.own.symm.trans e)

/-- History of the segment's own connection across one transition. -/
private theorem History.transition {inputs : List Input} {i : Input} {con con' : TCB} {r : Edge × Option TCB}
    (h : History inputs (run tcpStep .empty inputs)) (hi : TableInv (run tcpStep .empty inputs))
    (hv : i.pkt.valid = true)
    (hb : hashFind (run tcpStep .empty inputs) i.pkt.seg.id = some con ∨ con = tcbInit i.pkt.seg.id)
    (ht : Transition i.env.iss i.pkt.seg con r) (hr : r.2 = some con')
    (hd : dispatchCon i.pkt.valid (freshBlock i.env.allocs (run tcpStep .empty inputs) i.pkt.seg.id) i.env.iss
      i.pkt.seg (hashFind (run tcpStep .empty inputs) i.pkt.seg.id) = r)
    (hf : hashFind (tcpStep (run tcpStep .empty inputs) i) i.pkt.seg.id = some con') :
    (con'.state = .synReceived → Opened (inputs ++ [i]) i.pkt.seg.id con') ∧
      (con'.state = .established → Completed (inputs ++ [i]) i.pkt.seg.id con') := by
  have same (e : con = con') : (con'.state = .synReceived → Opened (inputs ++ [i]) i.pkt.seg.id con') ∧
      (con'.state = .established → Completed (inputs ++ [i]) i.pkt.seg.id con') := by
    subst e
    rcases hb with hb | rfl
    · exact History.keep i h hb hf
    · exact ⟨nofun,nofun⟩
  cases ht with
  | refuse | reset | unknown | abort | synOnOpen => cases hr
  | ignoreReset | badAck | payload | unused => exact same (Option.some.inj hr)
  | opening hp hrst hc hs ha =>
    cases hr
    exact ⟨fun _ => Opened.start hi hv ⟨hp,hrst,hs,ha⟩ hc hd,nofun⟩
  | establish hp hrst hc ha hs hack =>
    cases hr
    refine ⟨nofun,fun _ => ?_⟩
    rcases hb with hb | rfl
    · have hsound := (hi.con _ _ hb).1.sound
      rw [Sound, hc] at hsound
      obtain ⟨pre,syn,mid,rfl,hsyn,hm⟩ := (h _ _ hb).1 hc
      refine ⟨pre,syn,mid,i,[],by simp,?_,⟨hv,rfl,ha,hs,hrst,?_⟩,hm⟩
      · rwa [acknowledged_recv, acknowledged_iss]
      · rw [acknowledged_iss, hack, hsound.2.1]
    · cases hc

private theorem history_step (inputs : List Input) (i : Input)
    (h : History inputs (run tcpStep .empty inputs)) :
    History (inputs ++ [i]) (tcpStep (run tcpStep .empty inputs) i) := by
  have hi : TableInv (run tcpStep .empty inputs) := TableReachable.inv ⟨inputs,rfl⟩
  have href := i.pkt.refines hi.wf i.env
  intro x con' hf
  have hfind := (href.find x).symm.trans hf
  by_cases hx : x = i.pkt.seg.id
  case neg =>
    rw [if_neg hx] at hfind
    exact History.keep i h hfind hf
  subst hx
  rw [if_pos rfl] at hfind
  rcases dispatchCon_cases (freshBlock i.env.allocs (run tcpStep .empty inputs) i.pkt.seg.id) i.env.iss i.pkt.seg
    i.pkt.valid (hashFind (run tcpStep .empty inputs) i.pkt.seg.id) with hd | ⟨hv,con,hb,hd⟩ <;> rw [hd] at hfind
  · exact History.keep i h hfind hf
  · exact History.transition h hi hv (hb.imp_right And.right) (conStep_transition _ _ _) hfind hd hf

private theorem run_has_history (inputs : List Input) : History inputs (run tcpStep .empty inputs) :=
  run_history (P := History) (fun _ _ h => by cases h) history_step inputs

end LazyTcp.Refactor
