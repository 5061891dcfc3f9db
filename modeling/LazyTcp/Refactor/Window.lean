import LazyTcp.Refactor.Craft

/-! Segments outside the receive window. Only the RST branch tests the window;
the other branches act on the flags alone. -/
namespace LazyTcp.Refactor
open General General.Wire

/-- The segments that leave a half-open or established block alone wherever
their sequence number lies: resets, segments without SYN on an established
connection, and plain ACKs of something else on a half-open one. -/
def Tolerated (con : TCB) (s : Segment) : Prop :=
  s.flags.rst = true ∨ (con.state = .established ∧ s.flags.syn = false) ∨
    (con.state = .synReceived ∧ s.flags.ack = true ∧ s.flags.syn = false ∧ s.ack ≠ con.send.next)

/-- On a stored block out of window the machine keeps the block exactly on tolerated segments. -/
private theorem conStep_keeps_iff {iss : U32} {s : Segment} {con : TCB} (hport : s.id.dstPort = TCP_LISTEN_PORT)
    (hs : con.state = .synReceived ∨ con.state = .established) (hw : inWindow s.seq con.recv = false) :
    (conStep iss s con).2 = some con ↔ Tolerated con s := by
  have ht := conStep_transition iss s con
  generalize conStep iss s con = r at ht
  cases ht with
  | refuse hp => exact absurd hport hp
  | reset _ _ hin => rw [hw] at hin; cases hin
  | ignoreReset _ hr => exact ⟨fun _ => Or.inl hr,fun _ => rfl⟩
  | opening _ _ hc | unknown _ _ hc => simp [hc] at hs
  | unused _ _ _ h2 h3 => exact absurd hs (not_or.mpr ⟨h2,h3⟩)
  | payload _ _ hc hsyn => exact ⟨fun _ => Or.inr (Or.inl ⟨hc,hsyn⟩),fun _ => rfl⟩
  | badAck _ _ hc hack hsyn hne => exact ⟨fun _ => Or.inr (Or.inr ⟨hc,hack,hsyn,hne⟩),fun _ => rfl⟩
  | establish _ hr hc _ _ hack =>
    refine ⟨fun e => ?_,fun t => ?_⟩
    · have hstate := congrArg TCB.state (Option.some.inj e)
      rw [hc] at hstate
      cases hstate
    · simp [Tolerated, hr, hc, hack] at t
  | abort _ hr hc hflags =>
    refine ⟨nofun,fun t => ?_⟩
    simp only [Tolerated, hr, hc] at t
    simp_all
  | synOnOpen _ hr hc hsyn =>
    refine ⟨nofun,fun t => ?_⟩
    simp [Tolerated, hr, hc, hsyn] at t

/-- For every reachable table, every half-open or established connection in it
and every checksum-valid segment for it outside the window: the connection
keeps its block if and only if the segment is a tolerated one. -/
theorem outOfWindow_unchanged_iff {ht : HashTable} (h : TableReachable ht) (env : Env) (p : Packet) {con : TCB}
    (hf : hashFind ht p.seg.id = some con) (hs : con.state = .synReceived ∨ con.state = .established)
    (hv : p.valid = true) (hw : con.recv.window.toNat ≤ (p.seg.seq - con.recv.next).toNat) :
    hashFind (p.dispatch env ht).table p.seg.id = some con ↔ Tolerated con p.seg := by
  obtain ⟨hinv,hid⟩ := h.inv.con _ _ hf
  have hout : inWindow p.seg.seq con.recv = false := by
    rw [hinv.inWindow_iff]
    exact decide_eq_false (Nat.not_lt.mpr hw)
  rw [(p.refines_stored h.inv.wf env hv hf).own]
  exact conStep_keeps_iff (hid ▸ hinv.port) hs hout

private def strayData : Packet := .crafted clientId ACK 60000 0
private def straySyn : Packet := .crafted clientId SYN 60000 0

theorem outOfWindow_unchanged_client : hashFind (strayData.dispatch calmEnv
    (run tcpStep .empty [clientSyn,clientAck])).table strayData.seg.id = some clientOpen := by
  have hseg : strayData.seg = ⟨clientId,byteFlags ACK,60000,0,8192⟩ := crafted_seg ..
  refine (outOfWindow_unchanged_iff ⟨_,rfl⟩ calmEnv strayData ?_ (Or.inr rfl) (crafted_valid ..) ?_).mpr ?_
  · rw [hseg]
    exact run_clientAck
  · rw [hseg]
    decide
  · rw [hseg]
    exact Or.inr (Or.inl ⟨rfl,by decide⟩)

/-- A SYN outside the window removes the established connection. -/
theorem outOfWindow_syn_removes : TableReachable (run tcpStep .empty [clientSyn,clientAck]) ∧
    hashFind (run tcpStep .empty [clientSyn,clientAck]) straySyn.seg.id = some clientOpen ∧
    clientOpen.state = .established ∧ straySyn.valid = true ∧
    clientOpen.recv.window.toNat ≤ (straySyn.seg.seq - clientOpen.recv.next).toNat ∧
    hashFind (straySyn.dispatch calmEnv (run tcpStep .empty [clientSyn,clientAck])).table straySyn.seg.id = none := by
  have hseg : straySyn.seg = ⟨clientId,byteFlags SYN,60000,0,8192⟩ := crafted_seg ..
  have hreach : TableReachable (run tcpStep .empty [clientSyn,clientAck]) := ⟨_,rfl⟩
  rw [hseg]
  refine ⟨hreach,run_clientAck,rfl,crafted_valid ..,by decide,?_⟩
  rw [straySyn, (crafted_refines clientId SYN 60000 0 hreach.inv.wf calmEnv rfl).own, run_clientAck]
  decide

end LazyTcp.Refactor
