import LazyTcp.Refactor.Craft

/-! The demultiplexer over the dispatchers, and the packets it must not answer:
resets, echo replies and unreachable messages. -/
namespace LazyTcp.Refactor
open General General.Wire

theorem ipValidate_header {m : Mem} {len : Nat} (hv : ipValidate m len = true) :
    20 ≤ ihlBytes m ∧ ihlBytes m ≤ len :=
  have h := (ipValidate_iff m len).mp hv
  ⟨h.1,h.2.1⟩

/-- The packet net_demux hands on once ip_validate accepted the header. -/
def Packet.demuxed (m : Mem) (len : Nat) (hv : ipValidate m len = true) : Packet :=
  ⟨m,len,ihlBytes m,(ipValidate_header hv).1,(ipValidate_header hv).2⟩

section Protocols
variable {m : Mem} {len : Nat} (env : Env) (ht : HashTable)

theorem netDemux_tcp (hv : ipValidate m len = true) (hp : ipProto m = PROTO_TCP) :
    netDemux env ht m len = ((Packet.demuxed m len hv).dispatch env ht).toReply := by
  simp only [netDemux, hv, hp]
  rfl

theorem netDemux_icmp (hv : ipValidate m len = true) (hp : ipProto m = PROTO_ICMP) :
    netDemux env ht m len = ⟨(icmpDispatch m len (ihlBytes m)).1,(icmpDispatch m len (ihlBytes m)).2,ht⟩ := by
  simp only [netDemux, hv, hp]
  rfl

theorem netDemux_other (hv : ipValidate m len = true) (hi : ipProto m ≠ PROTO_ICMP) (ht' : ipProto m ≠ PROTO_TCP) :
    netDemux env ht m len = ⟨(icmpDestUnreachable m len (ihlBytes m)).1,
      (icmpDestUnreachable m len (ihlBytes m)).2,ht⟩ := by
  simp only [netDemux, hv, hi, ht', Bool.not_true, Bool.false_eq_true, if_false]

theorem netDemux_invalid (hv : ipValidate m len = false) : netDemux env ht m len = ⟨0,m,ht⟩ := by
  simp only [netDemux, hv]
  rfl

end Protocols

/-- A segment with the RST bit, an echo reply or an unreachable message. -/
def Terminal (m : Mem) : Prop :=
  (ipProto m = PROTO_TCP ∧ hasFlag (tcpFlags m (ihlBytes m)) RST = true) ∨
    (ipProto m = PROTO_ICMP ∧
      (icmpType m (ihlBytes m) = 0 ∨ icmpType m (ihlBytes m) = ICMP_DST_UNREACHABLE))

/-- A segment with a good checksum to a port nothing listens on: the port test
comes before the RST test. -/
structure Refused (m : Mem) (len : Nat) : Prop where
  proto : ipProto m = PROTO_TCP
  checksum : checksumOk m len (ihlBytes m) = true
  port : (segId m (ihlBytes m)).dstPort ≠ TCP_LISTEN_PORT

/-- A reset to the listening port is answered in no state. -/
private theorem conStep_reset_silent {iss : U32} {s : Segment} (hp : s.id.dstPort = TCP_LISTEN_PORT)
    (hr : s.flags.rst = true) (con : TCB) : (conStep iss s con).1 ≠ .syn ∧ (conStep iss s con).1 ≠ .sendRst := by
  rw [conStep_rst iss con hp hr]
  split <;> exact ⟨nofun,nofun⟩

private theorem reset_silent {ht : HashTable} (h : ht.WF) (env : Env) (p : Packet)
    (hr : p.seg.flags.rst = true) (hp : p.valid = true → p.seg.id.dstPort = TCP_LISTEN_PORT) :
    (p.dispatch env ht).ret = 0 := by
  have href := p.refines h env
  have hedge : (dispatchCon p.valid (freshBlock env.allocs ht p.seg.id) env.iss p.seg
      (hashFind ht p.seg.id)).1 ≠ .syn ∧ (dispatchCon p.valid (freshBlock env.allocs ht p.seg.id) env.iss p.seg
      (hashFind ht p.seg.id)).1 ≠ .sendRst := by
    rcases dispatchCon_cases (freshBlock env.allocs ht p.seg.id) env.iss p.seg p.valid (hashFind ht p.seg.id) with
      hd | ⟨hv,c,-,hd⟩ <;> rw [hd]
    · exact ⟨nofun,nofun⟩
    · exact conStep_reset_silent (hp hv) hr c
  exact congrArg Prod.fst (href.reply.trans (replyOf_silent hedge.1 hedge.2 _ _ _))

/-- On a reachable table no connection to another port is stored, so a refused
segment gets the reset written over it. -/
private theorem refused_answered {ht : HashTable} (h : TableInv ht) (p : Packet) (hv : p.valid = true)
    (hp : p.seg.id.dstPort ≠ TCP_LISTEN_PORT) :
    (p.dispatch calmEnv ht).ret = (rstReply calmEnv.stale p.buf p.offset).1 := by
  have hf : hashFind ht p.seg.id = none := by
    cases hf : hashFind ht p.seg.id with
    | none => rfl
    | some con =>
      obtain ⟨hinv,hid⟩ := h.con _ _ hf
      exact absurd (hid ▸ hinv.port) hp
  have hr := p.refines_absent h.wf calmEnv hv hf
  have hstep : conStep calmEnv.iss p.seg (tcbInit p.seg.id) = (.sendRst,none) := by simp [conStep, edgeOf, hp]
  rw [freshBlock_succeed (a := calmEnv.allocs) rfl, if_pos rfl, hstep] at hr
  exact congrArg Prod.fst hr.reply

/-- For every reachable table and every terminal message that ip_validate
accepts: nothing is sent, whatever the environment, if and only if the message
is not a refused segment. -/
theorem terminal_silent_iff {ht : HashTable} (h : TableReachable ht) {m : Mem} {len : Nat}
    (hv : ipValidate m len = true) (hm : Terminal m) :
    (∀ env, (netDemux env ht m len).ret = 0) ↔ ¬ Refused m len := by
  rcases hm with ⟨hp,hrst⟩ | ⟨hp,htype⟩
  · constructor
    · intro hsilent hr
      have hret := hsilent calmEnv
      rw [netDemux_tcp calmEnv ht hv hp, refused_answered h.inv (.demuxed m len hv) hr.checksum hr.port] at hret
      have hihl : 20 ≤ ihlBytes m := (ipValidate_header hv).1
      have hlen : ihlBytes m + tcpHlen m (ihlBytes m) = 0 := hret
      omega
    · intro hn env
      rw [netDemux_tcp env ht hv hp]
      refine reset_silent h.inv.wf env (.demuxed m len hv) hrst fun hc => ?_
      by_contra hport
      exact hn ⟨hp,hc,hport⟩
  · have hne : icmpType m (ihlBytes m) ≠ ICMP_ECHO := by
      rcases htype with e | e <;> rw [e] <;> decide
    refine ⟨fun _ hr => ?_,fun _ env => ?_⟩
    · have := hp.symm.trans hr.proto
      exact absurd this (by decide)
    · rw [netDemux_icmp env ht hv hp]
      simp only [icmpDispatch, hne, if_false, ite_self]

theorem terminal_silent_client :
    (netDemux calmEnv (run tcpStep .empty [clientSyn]) (craft clientId RST 101 0) 40).ret = 0 := by
  refine (terminal_silent_iff ⟨_,rfl⟩ (by decide +kernel) (Or.inl (by decide +kernel))).mpr (fun hr => ?_) calmEnv
  exact absurd hr.port (by decide +kernel)

/-- The client's address with a port nothing listens on. -/
private def closedPortId : ID := { clientId with dstPort := 81 }

/-- A reset to a closed port is answered with 40 bytes. -/
theorem closedPort_reset_answered : TableReachable .empty ∧ ipValidate (craft closedPortId RST 0 0) 40 = true ∧
    Terminal (craft closedPortId RST 0 0) ∧ (netDemux calmEnv .empty (craft closedPortId RST 0 0) 40).ret = 40 :=
  ⟨Reachable.start _,by decide +kernel,Or.inl (by decide +kernel),by decide +kernel⟩

end LazyTcp.Refactor
