import LazyTcp.Refactor.Server

/-! What the viewer shows of a run of the server. The FIFO always holds whole
events, so what was shown followed by what is still in the FIFO is what passed
the device, as long as no write failed. -/
namespace LazyTcp.Refactor
open General General.Wire
namespace Session
variable {s : Session}

/-- The invariant, with the events that are still in the FIFO. -/
structure Carries (s : Session) (queued : List Event) : Prop where
  place : s.server.place ≠ .faulted
  prefix_ : s.viewer.viewed ++ queued.map Event.entry <+: s.server.expected
  complete : s.server.logging = true → s.viewer.viewed ++ queued.map Event.entry = s.server.expected
  framed : s.viewer.closed = none → Framed EVENT_SIZE s.pipe (queued.map Event.toBytes)
  ended : s.viewer.closed = some .abruptly → s.exited = true ∧ queued = []

def Faithful (s : Session) : Prop := ∃ queued, s.Carries queued

private theorem entry_packet {m : Mem} {len : Nat} (hpos : 0 < len) (hlen : len ≤ MTU_SIZE) (dir : U8) (now : BitVec 64) :
    ∃ e, logEvent (some m) (.ofNat 16 len) dir now = some e ∧ e.entry = some (decide (dir = 1),m.bytes 0 len) := by
  obtain ⟨e,he,hd⟩ := logEvent_packet m hpos hlen dir now
  exact ⟨e,he,by rw [Event.entry, hd]; rfl⟩

private theorem entry_shutdown (now : BitVec 64) :
    ∃ e, logEvent none (.ofNat 16 0) LOG_SHUTDOWN now = some e ∧ e.entry = none := by
  obtain ⟨e,he,hd⟩ := logEvent_shutdown now
  exact ⟨e,he,by rw [Event.entry, hd]; rfl⟩

/-- The server goes on without anything to log. -/
private theorem Faithful.advance (h : s.Faithful) {v : Server} (hplace : v.place ≠ .faulted)
    (hlog : v.logging = s.server.logging) (he : v.expected = s.server.expected) : Faithful { s with server := v } := by
  obtain ⟨queued,h⟩ := h
  refine ⟨queued,hplace,?_,fun hl => ?_,h.framed,h.ended⟩
  · rw [he]
    exact h.prefix_
  · rw [he]
    exact h.complete (hlog ▸ hl)

/-- The server goes on with one more thing to log, and logs it unless the log is
off or the write fails. -/
private theorem Faithful.log (h : s.Faithful) {v : Server} (hplace : v.place ≠ .faulted)
    (hlog : v.logging = s.server.logging) {x : Option (Bool × List U8)} (hx : v.expected = s.server.expected ++ [x])
    {tu : Option Mem} {len : Nat} {dir : U8} {now : BitVec 64} {e : Event}
    (he : logEvent tu (.ofNat 16 len) dir now = some e) (hentry : e.entry = x) (written : Bool) :
    Faithful (Session.log { s with server := v } tu len dir now written) := by
  obtain ⟨queued,h⟩ := h
  have hpre : s.viewer.viewed ++ queued.map Event.entry <+: v.expected := by
    rw [hx]
    exact h.prefix_.trans (List.prefix_append _ _)
  rw [Session.log]
  split
  case isFalse hoff =>
    refine ⟨queued,hplace,hpre,fun hl => absurd hl hoff,h.framed,h.ended⟩
  case isTrue hon =>
    rw [he]
    simp only
    split
    case isFalse => exact ⟨queued,hplace,hpre,nofun,h.framed,h.ended⟩
    case isTrue hw =>
      have hopen : s.viewer.closed = none := by
        rw [Bool.and_eq_true, Option.isNone_iff_eq_none] at hw
        exact hw.2
      have hall : s.viewer.viewed ++ (queued ++ [e]).map Event.entry = v.expected := by
        rw [List.map_append, List.map_singleton, hentry, ← List.append_assoc, h.complete (hlog ▸ hon), hx]
      refine ⟨queued ++ [e],hplace,?_,fun _ => hall,fun _ => ?_,fun hc => ?_⟩
      · rw [hall]
      · rw [List.map_append, List.map_singleton]
        exact (h.framed hopen).write (length_toBytes e)
      · rw [hopen] at hc
        cases hc

private theorem faithful_server (h : s.Faithful) (t : Turn) (now : BitVec 64) (written : Bool) :
    (serverRun s t now written).Faithful := by
  obtain ⟨⟨tu,table,shutdown,logging,place,turns,traffic⟩,pipe,viewer,exited⟩ := s
  cases place with
  | done | faulted => exact h
  | head =>
    cases shutdown with
    | true =>
      obtain ⟨e,he,hentry⟩ := entry_shutdown now
      refine h.log (v := ⟨tu,table,true,logging,.done,turns,traffic⟩) Place.noConfusion rfl ?_ he hentry written
      simp [Server.expected, Server.outgoing]
    | false => exact h.advance (v := ⟨tu,table,false,logging,.reading,turns,traffic⟩) Place.noConfusion rfl rfl
  | reading =>
    simp only [serverRun]
    split
    case isTrue => exact h.advance (v := ⟨tu,table,shutdown,logging,.head,turns,traffic⟩) Place.noConfusion rfl rfl
    case isFalse hn =>
      obtain ⟨e,he,hentry⟩ := entry_packet (m := tunRead tu t.packet) (Nat.pos_of_ne_zero hn) t.fits LOG_READ now
      rw [tunRead_bytes] at hentry
      refine h.log (v := ⟨tunRead tu t.packet,table,shutdown,logging,.demuxing t,turns ++ [t],traffic ++ [(true,t.packet)]⟩)
        Place.noConfusion rfl ?_ he hentry written
      simp [Server.expected, Server.outgoing, LOG_READ]
  | demuxing t' =>
    simp only [serverRun]
    generalize hr : netDemux t'.env table tu t'.packet.length = r
    have hle := netDemux_ret_le t'.env table (m := tu) t'.fits
    rw [hr] at hle
    split
    case isTrue => exact h.advance (v := ⟨r.buf,r.table,shutdown,logging,.head,turns,traffic⟩) Place.noConfusion rfl rfl
    case isFalse hn =>
      obtain ⟨e,he,hentry⟩ := entry_packet (m := r.buf) (Nat.pos_of_ne_zero hn) hle LOG_WRITE now
      refine h.log (v := ⟨r.buf,r.table,shutdown,logging,.writing r.ret,turns,traffic⟩) Place.noConfusion rfl ?_ he hentry
        written
      simp [Server.expected, Server.outgoing, LOG_WRITE]
  | writing nwrite =>
    refine h.advance (v := ⟨tu,table,shutdown,logging,.head,turns,traffic ++ [(false,tu.bytes 0 nwrite)]⟩)
      Place.noConfusion rfl ?_
    simp [Server.expected, Server.outgoing]

private theorem displayEvent_num (num : Nat) (data : List U8) :
    displayEvent num data = (displayEvent 0 data).map fun d => { d with num := num } := by
  unfold displayEvent
  simp only
  split <;> rfl

/-- A read of a whole event shows it, or closes the viewer when it is the shutdown. -/
private theorem viewerRead_event {v : Viewer} (hopen : v.closed = none) (e : Event) :
    (viewerRead v e.toBytes).viewed = v.viewed ++ [e.entry] ∧ (viewerRead v e.toBytes).closed ≠ some .abruptly := by
  have hne : e.toBytes.isEmpty = false := rfl
  rw [viewerRead, hne, if_neg Bool.false_ne_true, if_pos (length_toBytes e), displayEvent_num, Event.entry]
  cases displayEvent 0 e.toBytes with
  | none => simp [Viewer.viewed, Viewer.seen, hopen]
  | some d => simp [Viewer.viewed, Viewer.seen, hopen]

private theorem faithful_view (h : s.Faithful) (hopen : s.viewer.closed = none)
    (hread : s.pipe = [] → s.exited = true) :
    Faithful { s with viewer := viewerRead s.viewer (s.pipe.take EVENT_SIZE), pipe := s.pipe.drop EVENT_SIZE } := by
  obtain ⟨queued,h⟩ := h
  cases queued with
  | nil =>
    have hpipe : s.pipe = [] := (h.framed hopen).bytes
    have hend : viewerRead s.viewer (s.pipe.take EVENT_SIZE) = { s.viewer with closed := some .abruptly } := by
      rw [hpipe]
      rfl
    have hviewed : Viewer.viewed { s.viewer with closed := some .abruptly } = s.viewer.viewed := by
      simp [Viewer.viewed, Viewer.seen, hopen]
    rw [hend]
    refine ⟨[],h.place,?_,fun hl => ?_,nofun,fun _ => ⟨hread hpipe,rfl⟩⟩
    · rw [hviewed]
      exact h.prefix_
    · rw [hviewed]
      exact h.complete hl
  | cons e queued =>
    obtain ⟨htake,hdrop⟩ := (h.framed hopen).read
    obtain ⟨hviewed,hnot⟩ := viewerRead_event hopen e
    have hall : (viewerRead s.viewer e.toBytes).viewed ++ queued.map Event.entry =
        s.viewer.viewed ++ (e :: queued).map Event.entry := by
      rw [hviewed, List.map_cons, List.append_assoc, List.singleton_append]
    rw [htake]
    refine ⟨queued,h.place,?_,fun hl => ?_,fun _ => hdrop,fun hc => absurd hc hnot⟩
    · rw [hall]
      exact h.prefix_
    · rw [hall]
      exact h.complete hl

private theorem start_faithful (verbose : Bool) : (start verbose).Faithful :=
  ⟨[],Place.noConfusion,List.prefix_rfl,fun _ => rfl,fun _ => .nil,nofun⟩

/-- Step lemma. -/
private theorem sessionStep_faithful (h : s.Faithful) (e : Happening) : (sessionStep s e).Faithful := by
  cases e with
  | server t now written =>
    rw [sessionStep]
    split
    · exact h
    · exact faithful_server h t now written
  | sigusr1 =>
    obtain ⟨queued,h⟩ := h
    exact ⟨queued,h.place,h.prefix_,h.complete,h.framed,h.ended⟩
  | exit =>
    obtain ⟨queued,h⟩ := h
    exact ⟨queued,h.place,h.prefix_,h.complete,h.framed,fun hc => ⟨rfl,(h.ended hc).2⟩⟩
  | view =>
    rw [sessionStep]
    split
    case isTrue => exact h
    case isFalse hread =>
      rw [not_or, Bool.not_eq_true, Option.isSome_eq_false_iff, Option.isNone_iff_eq_none] at hread
      refine faithful_view h hread.1 fun hp => ?_
      by_contra hx
      exact hread.2 (by simp [hp, hx])
  | interrupt =>
    rw [sessionStep]
    split
    case isTrue => exact h
    case isFalse hopen =>
      rw [Bool.not_eq_true, Option.isSome_eq_false_iff, Option.isNone_iff_eq_none] at hopen
      have hviewed : Viewer.viewed { s.viewer with closed := some .interrupted } = s.viewer.viewed := by
        simp [Viewer.viewed, Viewer.seen, hopen]
      obtain ⟨queued,h⟩ := h
      refine ⟨queued,h.place,?_,fun hl => ?_,nofun,nofun⟩
      · rw [hviewed]
        exact h.prefix_
      · rw [hviewed]
        exact h.complete hl

theorem reachable_faithful {verbose : Bool} (h : Reachable sessionStep (start verbose) s) : s.Faithful :=
  h.invariant (start_faithful verbose) fun _ e hs => sessionStep_faithful hs e

private theorem viewed_packets (v : Viewer) : v.viewed.filterMap id = v.seen := by
  rw [Viewer.viewed, List.filterMap_append, List.filterMap_map, Function.id_comp, List.filterMap_some]
  split <;> exact List.append_nil _

private theorem expected_packets (v : Server) : v.expected.filterMap id = v.traffic ++ v.outgoing := by
  rw [Server.expected, List.filterMap_append, List.filterMap_map, Function.id_comp, List.filterMap_some]
  split <;> exact List.append_nil _

private theorem expected_done {v : Server} (h : none ∈ v.expected) :
    v.place = .done ∧ v.expected = v.traffic.map some ++ [none] := by
  obtain ⟨tu,table,shutdown,logging,place,turns,traffic⟩ := v
  cases place with
  | done => exact ⟨rfl,by simp [Server.expected, Server.outgoing]⟩
  | head | reading | demuxing | writing | faulted => simp [Server.expected, Server.outgoing] at h

private theorem viewed_open {v : Viewer} (h : v.closed ≠ some .detached) : v.viewed = v.seen.map some := by
  rw [Viewer.viewed, if_neg h, List.append_nil]

/-- One byte is read and logged, the viewer reads the event, the process is
killed and the viewer reads on. -/
def killed : List Happening :=
  let turn : Turn := ⟨[7],by decide,⟨0,.succeed,⟨0,0,0⟩⟩⟩
  [.server turn 5 true,.server turn 5 true,.view,.exit,.view]

end Session
end LazyTcp.Refactor
