import LazyTcp.Refactor.Craft

/-! Packets of different connections commute: a dispatch reads and writes only
the entry of its own connection, whatever bucket that entry shares. -/
namespace LazyTcp.Refactor
open General General.Wire

/-- Frame of a dispatch, for every answer of the allocator. -/
theorem dispatch_other {ht : HashTable} (h : ht.WF) (env : Env) (p : Packet) {id : ID} (hid : id ≠ p.seg.id) :
    hashFind (p.dispatch env ht).table id = hashFind ht id := by
  rw [(p.refines h env).find, if_neg hid]

/-- A dispatch depends on the table through the entry of its own connection only. -/
theorem dispatch_local {ht ht' : HashTable} (h : ht.WF) (h' : ht'.WF) {env : Env} (ha : env.allocs = .succeed)
    (p : Packet) (hf : hashFind ht p.seg.id = hashFind ht' p.seg.id) :
    hashFind (p.dispatch env ht).table p.seg.id = hashFind (p.dispatch env ht').table p.seg.id ∧
      SameReply (p.dispatch env ht) (p.dispatch env ht') := by
  have hr := p.refines h env
  have hr' := p.refines h' env
  rw [freshBlock_succeed ha, hf] at hr
  rw [freshBlock_succeed ha] at hr'
  have hreply := hr.reply.trans hr'.reply.symm
  refine ⟨?_,hr.edge.trans hr'.edge.symm,congrArg Prod.fst hreply,congrArg Prod.snd hreply⟩
  rw [hr.find, hr'.find, if_pos rfl, if_pos rfl]

/-- For every reachable table and every two packets of different connections:
both orders leave the same map and give each packet the same reply, and neither
packet touches an entry that is not its own. -/
theorem connections_independent {ht : HashTable} (h : TableReachable ht) (p q : Packet) (env env' : Env)
    (ha : env.allocs = .succeed) (ha' : env'.allocs = .succeed) (hne : p.seg.id ≠ q.seg.id) :
    (∀ id, hashFind (q.dispatch env' (p.dispatch env ht).table).table id =
      hashFind (p.dispatch env (q.dispatch env' ht).table).table id) ∧
    SameReply (p.dispatch env ht) (p.dispatch env (q.dispatch env' ht).table) ∧
    SameReply (q.dispatch env' ht) (q.dispatch env' (p.dispatch env ht).table) ∧
    ∀ (r : Packet) (e : Env) (id : ID), id ≠ r.seg.id → hashFind (r.dispatch e ht).table id = hashFind ht id := by
  have hw := h.inv.wf
  have hwp := (p.refines hw env).wf
  have hwq := (q.refines hw env').wf
  have hp := dispatch_local hw hwq ha p (dispatch_other hw env' q hne).symm
  have hq := dispatch_local hw hwp ha' q (dispatch_other hw env p (Ne.symm hne)).symm
  refine ⟨fun id => ?_,hp.2,hq.2,fun r e id hid => dispatch_other hw e r hid⟩
  by_cases hip : id = p.seg.id
  · rw [hip, dispatch_other hwp env' q hne, hp.1]
  by_cases hiq : id = q.seg.id
  · rw [hiq, dispatch_other hwq env p (Ne.symm hne), hq.1]
  rw [dispatch_other hwp env' q hiq, dispatch_other hwq env p hip, dispatch_other hw env p hip,
    dispatch_other hw env' q hiq]

/-- A second client whose id falls in the first client's bucket. -/
private def neighbourId : ID := { clientId with srcPort := 5307 }

theorem connections_independent_shared_bucket : hashId neighbourId = hashId clientId ∧
    SameReply (clientSyn.pkt.dispatch calmEnv .empty)
      (clientSyn.pkt.dispatch calmEnv ((Packet.crafted neighbourId SYN 7 0).dispatch calmEnv .empty).table) :=
  ⟨by decide +kernel,(connections_independent (Reachable.start _) clientSyn.pkt (.crafted neighbourId SYN 7 0)
    calmEnv calmEnv rfl rfl (by decide +kernel)).2.1⟩

end LazyTcp.Refactor
