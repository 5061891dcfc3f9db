import LazyTcp.Refactor.Craft

/-! An incoming reset closes its connection exactly when its sequence number is
in the receive window. -/
namespace LazyTcp.Refactor
open General General.Wire

/-- For every reachable table, every connection in it and every valid segment of
that connection with RST set: the connection is removed if and only if the number
lies in the window modulo 2^32, and stays as it was otherwise. Every other
connection stays, and nothing is sent. -/
theorem rst_closes_iff {ht : HashTable} (h : TableReachable ht) (env : Env) {p : Packet} {con : TCB}
    (hf : hashFind ht p.seg.id = some con) (hv : p.valid = true) (hrst : p.seg.flags.rst = true) :
    (hashFind (p.dispatch env ht).table p.seg.id = none ↔
        (p.seg.seq - con.recv.next).toNat < con.recv.window.toNat) ∧
      (¬ (p.seg.seq - con.recv.next).toNat < con.recv.window.toNat →
        hashFind (p.dispatch env ht).table p.seg.id = some con) ∧
      (∀ id, id ≠ p.seg.id → hashFind (p.dispatch env ht).table id = hashFind ht id) ∧
      (p.dispatch env ht).ret = 0 := by
  obtain ⟨hinv,hid⟩ := h.inv.con _ _ hf
  have href := p.refines_stored h.inv.wf env hv hf
  rw [conStep_rst env.iss con (hid ▸ hinv.port) hrst] at href
  have hwin : inWindow p.seg.seq con.recv = true ↔ (p.seg.seq - con.recv.next).toNat < con.recv.window.toNat := by
    rw [hinv.inWindow_iff, decide_eq_true_eq]
  refine ⟨?_,fun hn => ?_,fun id hne => href.other hne,?_⟩
  · rw [href.own, ← hwin]
    cases inWindow p.seg.seq con.recv <;> simp
  · rw [href.own, if_neg fun hw => hn (hwin.mp hw)]
  · refine congrArg Prod.fst (href.reply.trans (replyOf_silent ?_ ?_ _ _ _)) <;>
      cases inWindow p.seg.seq con.recv <;> simp

/-- The last number in the window of the client, and the first one behind it. -/
theorem rst_closes_client :
    hashFind ((Packet.crafted clientId RST 8292 0).dispatch calmEnv
      (run tcpStep .empty [clientSyn,clientAck])).table clientId = none ∧
    hashFind ((Packet.crafted clientId (RST ||| SYN) 8293 0).dispatch calmEnv
      (run tcpStep .empty [clientSyn,clientAck])).table clientId = some clientOpen := by
  have hreach : TableReachable (run tcpStep .empty [clientSyn,clientAck]) := ⟨_,rfl⟩
  have hlast : (Packet.crafted clientId RST 8292 0).seg = ⟨clientId,byteFlags RST,8292,0,8192⟩ := crafted_seg ..
  have hbehind : (Packet.crafted clientId (RST ||| SYN) 8293 0).seg =
      ⟨clientId,byteFlags (RST ||| SYN),8293,0,8192⟩ := crafted_seg ..
  constructor
  · have hf : hashFind (run tcpStep .empty [clientSyn,clientAck]) (Packet.crafted clientId RST 8292 0).seg.id =
        some clientOpen := by
      rw [hlast]
      exact run_clientAck
    have hc := rst_closes_iff hreach calmEnv hf (crafted_valid ..) (by rw [hlast]; decide)
    rw [hlast] at hc
    exact hc.1.mpr (by decide)
  · have hf : hashFind (run tcpStep .empty [clientSyn,clientAck])
        (Packet.crafted clientId (RST ||| SYN) 8293 0).seg.id = some clientOpen := by
      rw [hbehind]
      exact run_clientAck
    have hc := rst_closes_iff hreach calmEnv hf (crafted_valid ..) (by rw [hbehind]; decide)
    rw [hbehind] at hc
    exact hc.2.1 (by decide)

end LazyTcp.Refactor
