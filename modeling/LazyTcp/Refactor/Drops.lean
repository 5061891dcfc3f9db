import LazyTcp.Refactor.Handshake

/-! What a dropped segment leaves behind. The closed block inserted for an
unknown connection survives one kind of drop: a reset whose sequence number is
outside the window of that block. -/
namespace LazyTcp.Refactor
open General General.Wire

/-- Whenever the dispatch drops the packet, the map is as it was. -/
def NoTrace (ht : HashTable) (p : Packet) : Prop :=
  ∀ env, (p.dispatch env ht).edge = .drop → ∀ id, hashFind (p.dispatch env ht).table id = hashFind ht id

/-- A stray reset with a good checksum for a connection that is not stored. -/
structure LeavesBlock (ht : HashTable) (p : Packet) : Prop where
  valid : p.valid = true
  stray : p.seg.Stray
  absent : hashFind ht p.seg.id = none

/-- A step that drops a stored block's segment keeps the block. -/
private theorem conStep_drop {iss : U32} {s : Segment} {con : TCB} (hd : (conStep iss s con).1 = .drop) :
    (conStep iss s con).2 = some con := by
  have ht := conStep_transition iss s con
  generalize conStep iss s con = r at ht hd
  cases ht with
  | refuse | reset | opening | unknown | establish | abort | synOnOpen | payload => cases hd
  | ignoreReset | badAck | unused => rfl

/-- The own entry of a dropped packet. -/
private theorem drop_keeps {ht : HashTable} (h : ht.WF) {p : Packet} (hl : ¬ LeavesBlock ht p) (env : Env)
    (hd : (p.dispatch env ht).edge = .drop) :
    hashFind (p.dispatch env ht).table p.seg.id = hashFind ht p.seg.id := by
  cases hv : p.valid with
  | false => exact (p.refines_invalid h env hv).own
  | true =>
    cases hf : hashFind ht p.seg.id with
    | some con =>
      have hr := p.refines_stored h env hv hf
      rw [hr.own, conStep_drop (hr.edge.symm.trans hd)]
    | none =>
      have hr := p.refines_absent h env hv hf
      rw [hr.own]
      have hedge := hr.edge.symm.trans hd
      split
      case isFalse => rfl
      case isTrue hfresh =>
        rw [if_pos hfresh] at hedge
        by_cases ho : p.seg.Opening
        · rw [conStep_init_opening _ ho] at hedge
          cases hedge
        · rcases conStep_init_gone env.iss (fun hs => hl ⟨hv,hs,hf⟩) ho with e | e <;> rw [e]

/-- A packet that leaves a block is dropped and yet adds an entry. -/
private theorem LeavesBlock.traced {ht : HashTable} (h : ht.WF) {p : Packet} (hl : LeavesBlock ht p) :
    ¬ NoTrace ht p := by
  intro hn
  have hr := p.refines_absent h calmEnv hl.valid hl.absent
  rw [freshBlock_succeed (a := calmEnv.allocs) rfl, if_pos rfl, conStep_init_stray _ hl.stray] at hr
  have hsame := hn calmEnv hr.edge p.seg.id
  rw [hr.own, hl.absent] at hsame
  cases hsame

theorem noTrace_iff {ht : HashTable} (h : ht.WF) (p : Packet) : NoTrace ht p ↔ ¬ LeavesBlock ht p := by
  refine ⟨fun hn hl => hl.traced h hn,fun hl env hd id => ?_⟩
  by_cases hid : id = p.seg.id
  · rw [hid]
    exact drop_keeps h hl env hd
  · exact (p.refines h env).other hid

/-- Only half-open and established blocks are stored. -/
def OnlyLive (ht : HashTable) : Prop :=
  ∀ id con, hashFind ht id = some con → con.state = .synReceived ∨ con.state = .established

/-- A block the machine leaves behind is the old one or a live one. -/
private theorem conStep_live {iss : U32} {s : Segment} {con t : TCB} (ht : (conStep iss s con).2 = some t) :
    t = con ∨ t.state = .synReceived ∨ t.state = .established := by
  have hstep := conStep_transition iss s con
  generalize conStep iss s con = r at hstep ht
  cases hstep with
  | refuse | reset | unknown | abort | synOnOpen => cases ht
  | ignoreReset | badAck | payload | unused => exact Or.inl (Option.some.inj ht).symm
  | opening =>
    cases ht
    exact Or.inr (Or.inl rfl)
  | establish =>
    cases ht
    exact Or.inr (Or.inr rfl)

/-- An entry the packet adds is the half-open block of an opening segment. -/
private theorem gain_opening {ht : HashTable} (h : ht.WF) {p : Packet} (hl : ¬ LeavesBlock ht p) (env : Env)
    (hf : hashFind ht p.seg.id = none) (hg : hashFind (p.dispatch env ht).table p.seg.id ≠ none) :
    p.valid = true ∧ p.seg.Opening ∧ freshBlock env.allocs ht p.seg.id = true := by
  cases hv : p.valid with
  | false => exact absurd ((p.refines_invalid h env hv).own.trans hf) hg
  | true =>
    have hr := p.refines_absent h env hv hf
    rw [hr.own] at hg
    cases hfresh : freshBlock env.allocs ht p.seg.id with
    | false =>
      rw [hfresh] at hg
      exact absurd rfl hg
    | true =>
      rw [hfresh, if_pos rfl] at hg
      refine ⟨rfl,?_,rfl⟩
      by_contra ho
      rcases conStep_init_gone env.iss (fun hs => hl ⟨hv,hs,hf⟩) ho with e | e <;> exact hg (by rw [e])

/-- Step lemma: without stray resets for unknown connections the table stays live. -/
private theorem OnlyLive.step {ht : HashTable} (h : ht.WF) (hlive : OnlyLive ht) {i : Input}
    (hl : ¬ LeavesBlock ht i.pkt) : OnlyLive (tcpStep ht i) := by
  intro id t hf
  by_cases hid : id = i.pkt.seg.id
  case neg => exact hlive id t (((i.pkt.refines h i.env).other hid).symm.trans hf)
  subst hid
  cases hv : i.pkt.valid with
  | false => exact hlive _ t ((i.pkt.refines_invalid h i.env hv).own.symm.trans hf)
  | true =>
    cases hb : hashFind ht i.pkt.seg.id with
    | some con =>
      have ht' := (i.pkt.refines_stored h i.env hv hb).own.symm.trans hf
      rcases conStep_live ht' with rfl | hs
      · exact hlive _ _ hb
      · exact hs
    | none =>
      obtain ⟨-,ho,hfresh⟩ := gain_opening h hl i.env hb fun e => Option.some_ne_none t (hf.symm.trans e)
      have hr := i.pkt.refines_absent h i.env hv hb
      rw [hfresh, if_pos rfl, conStep_init_opening _ ho] at hr
      rw [← Option.some.inj (hr.own.symm.trans hf)]
      exact Or.inl rfl

private def strayReset : Packet := .crafted clientId RST 60000 0

private theorem strayReset_leaves : LeavesBlock .empty strayReset := by
  have hseg : strayReset.seg = ⟨clientId,byteFlags RST,60000,0,8192⟩ := crafted_seg ..
  refine ⟨crafted_valid ..,?_,rfl⟩
  rw [hseg]
  exact ⟨rfl,by decide,by decide⟩

end LazyTcp.Refactor
