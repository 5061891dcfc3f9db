import LazyTcp.Refactor.Handshake

/-! Handshake completeness: a client that sends its SYN and acknowledges the
SYN-ACK it gets ends with an established connection, whatever traffic of other
connections comes before, between and after. -/
namespace LazyTcp.Refactor
open General General.Wire

/-- A checksum-valid SYN without ACK and RST for x with sequence number c. -/
structure SynSent (x : ID) (c : U32) (p : Packet) : Prop where
  valid : p.valid = true
  id : p.seg.id = x
  syn : p.seg.flags.syn = true
  noAck : p.seg.flags.ack = false
  noRst : p.seg.flags.rst = false
  seq : p.seg.seq = c

/-- The client's ACK of a SYN-ACK that carried iss, sent from sequence number c + 1. -/
structure AckSent (x : ID) (c iss : U32) (i : Input) : Prop extends AckSeen x iss i where
  seq : i.pkt.seg.seq = c + 1

/-- Packets of other connections only. -/
def Others (x : ID) (inputs : List Input) : Prop := ∀ i ∈ inputs, i.pkt.seg.id ≠ x

/-- Traffic of other connections leaves the entry of x alone. -/
private theorem run_others {x : ID} {inputs : List Input} (ho : Others x inputs) {ht : HashTable} (h : TableInv ht) :
    TableInv (run tcpStep ht inputs) ∧ hashFind (run tcpStep ht inputs) x = hashFind ht x := by
  induction inputs generalizing ht with
  | nil => exact ⟨h,rfl⟩
  | cons i inputs ih =>
    have hne : x ≠ i.pkt.seg.id := Ne.symm (ho i List.mem_cons_self)
    obtain ⟨hinv,hf⟩ := ih (fun j hj => ho j (List.mem_cons_of_mem _ hj)) (tcpStep_inv h i)
    refine ⟨hinv,hf.trans ?_⟩
    exact (i.pkt.refines h.wf i.env).other hne

/-- The SYN finds no live entry: it is answered, and its half-open block is stored. -/
private theorem syn_opens {ht : HashTable} (h : TableInv ht) {x : ID} (hport : x.dstPort = TCP_LISTEN_PORT)
    (hfree : ∀ con, hashFind ht x = some con → con.state = .closed) {c : U32} {i : Input} (hs : SynSent x c i.pkt)
    (ha : i.env.allocs = .succeed) : SynAnswered x c i.env.iss ht i ∧
      hashFind (tcpStep ht i) x = some (halfOpen i.env.iss i.pkt.seg (tcbInit x)) := by
  obtain ⟨hv,rfl,hsyn,hack,hrst,rfl⟩ := hs
  have ho : i.pkt.seg.Opening := ⟨hport,hrst,hsyn,hack⟩
  have hd : dispatchCon i.pkt.valid (freshBlock i.env.allocs ht i.pkt.seg.id) i.env.iss i.pkt.seg
      (hashFind ht i.pkt.seg.id) = (.syn,some (halfOpen i.env.iss i.pkt.seg (tcbInit i.pkt.seg.id))) := by
    rw [hv, freshBlock_succeed ha]
    cases hf : hashFind ht i.pkt.seg.id with
    | none => rw [dispatchCon_absent, if_pos rfl, conStep_init_opening _ ho]
    | some con =>
      -- A stored closed block is the block tcb_init makes.
      obtain ⟨hinv,hid⟩ := h.con _ _ hf
      have hsound := hinv.sound
      rw [Sound, hfree con hf, hid] at hsound
      rw [dispatchCon_stored, hsound, conStep_init_opening _ ho]
  have href := i.pkt.refines h.wf i.env
  rw [hd] at href
  exact ⟨synAnswered h.wf (tcbInit i.pkt.seg.id) hv ho rfl hd,href.own⟩

/-- The acknowledgement of the half-open block's number establishes it. -/
private theorem ack_establishes {ht : HashTable} (h : TableInv ht) {x : ID} (hport : x.dstPort = TCP_LISTEN_PORT)
    {con : TCB} (hf : hashFind ht x = some con) (hc : con.state = .synReceived) {iss : U32}
    (hn : con.send.next = iss + 1) {i : Input} (ha : AckSeen x iss i) :
    hashFind (tcpStep ht i) x = some (acknowledged i.pkt.seg con) := by
  obtain ⟨hv,rfl,hack,hsyn,hrst,hnum⟩ := ha
  have hstep : conStep i.env.iss i.pkt.seg con = (.ack,some (acknowledged i.pkt.seg con)) := by
    simp [conStep, edgeOf, hport, hrst, hc, hack, hsyn, hnum, hn]
  have href := i.pkt.refines_stored h.wf i.env hv hf
  rw [hstep] at href
  exact href.own

/-- A second client in the first client's bucket, active during the whole handshake. -/
private def neighbourSyn : Input := ⟨.crafted { clientId with srcPort := 5307 } SYN 7 0,calmEnv⟩

end LazyTcp.Refactor
