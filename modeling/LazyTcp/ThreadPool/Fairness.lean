import LazyTcp.General.Schedule
import LazyTcp.ThreadPool.Monitor
import Mathlib.Data.Nat.Pairing
import Mathlib.Order.Filter.Finite

/-! Liveness of the pool. A fair schedule lets each worker take the mutex again
and again, lets each job come to its end and lets each job_enqueue send its
signal; spurious wakeups, further jobs and the shutdown may come at any time. -/
namespace LazyTcp.ThreadPool
open General General.Fifo

structure Fair (sched : Nat → Call) : Prop where
  enters : ∀ w, Often sched (· = .enter w)
  finishes : ∀ w, Often sched (· = .handled w)
  signals : Often sched fun c => ∃ k, c = .signal k

namespace Monitor
variable {m : Monitor} {w k n : Nat} {sched : Nat → Call}

/-- The worker was started and is still in its loop. -/
def Active (m : Monitor) (w : Nat) : Prop := m.pool.workers w ≠ .notStarted ∧ m.pool.workers w ≠ .left

/-- The number of jobs handed to workers so far. -/
def served (m : Monitor) : Nat := (handed m.world.log).length

/-- Jobs are queued, k of them were handed out before. -/
structure Pending (k : Nat) (m : Monitor) : Prop where
  sound : m.Sound
  served : m.served = k
  queued : queue m.pool ≠ []

/-- What a call leaves of the waits when no worker enters. -/
inductive Wakes (c : CondVar Nat) : CondVar Nat → Prop where
  | same : Wakes c c
  | owe : Wakes c c.owe
  | signal (k : Nat) : Wakes c (c.signal k)
  | spurious (w : Nat) : Wakes c (c.spurious w)
  | broadcast : Wakes c c.broadcast

private theorem Wakes.woken {c c' : CondVar Nat} (h : Wakes c c') (hw : w ∈ c.woken) : w ∈ c'.woken := by
  cases h with
  | same | owe => exact hw
  | signal k => exact CondVar.mem_woken_signal k hw
  | spurious v => exact CondVar.mem_woken_spurious v hw
  | broadcast => exact List.mem_append_right _ hw

/-- An owed signal stays owed until it has woken a blocked thread. -/
private theorem Wakes.progress {c c' : CondVar Nat} (h : Wakes c c') (hb : c.blocked ≠ []) (ho : 0 < c.owed) :
    (c'.blocked ≠ [] ∧ 0 < c'.owed) ∨ c'.woken ≠ [] := by
  cases h with
  | same => exact Or.inl ⟨hb,ho⟩
  | owe => exact Or.inl ⟨hb,Nat.succ_pos _⟩
  | signal k => exact Or.inr (CondVar.signal_wakes ho hb k)
  | broadcast => exact Or.inr (List.append_ne_nil_of_left_ne_nil hb _)
  | spurious v =>
    unfold CondVar.spurious
    split
    · exact Or.inr (List.cons_ne_nil _ _)
    · exact Or.inl ⟨hb,ho⟩

/-- Outside of the mutex a call hands out nothing, keeps the queue and leaves a
worker where it is or brings it to its loop head. -/
private theorem outside_spec (h : m.Sound) {c : Call} (hc : ∀ w, c = .enter w → ¬ m.AtMutex w) :
    (monitorStep m c).served = m.served ∧ queue m.pool <+: queue (monitorStep m c).pool ∧
      (∀ w, (monitorStep m c).pool.workers w = m.pool.workers w ∨ (monitorStep m c).pool.workers w = .ready ∧ m.pool.workers w ≠ .left) ∧
      Wakes m.cond (monitorStep m c).cond := by
  have hsame : queue m.pool <+: queue m.pool := List.prefix_rfl
  have hquiet (obs : Observation Job) (ho : handed [obs] = []) :
      (handed (m.world.log ++ [obs])).length = (handed m.world.log).length := by
    rw [handed_append, ho, List.append_nil]
  cases c with
  | enqueue op =>
    have hworkers := (jobEnqueue_frame m.pool op).1
    refine ⟨?_,?_,fun w => Or.inl (congrFun hworkers w),.owe⟩
    · refine hquiet _ ?_
      simp only [poolStep]
      split <;> rfl
    · cases hb : (jobEnqueue m.pool op).1 with
      | true =>
        have hkeep : (monitorStep m (.enqueue op)).pool = m.pool := (jobEnqueue_refuses h.exact.within op).2 hb
        rw [hkeep]
      | false =>
        obtain ⟨-,-,hq⟩ := jobEnqueue_accepts h.exact.within op hb
        exact ⟨[op],hq.symm⟩
  | signal k => exact ⟨rfl,hsame,fun _ => Or.inl rfl,.signal k⟩
  | spurious v => exact ⟨rfl,hsame,fun _ => Or.inl rfl,.spurious v⟩
  | enter v =>
    rw [monitorStep, if_neg (hc v rfl)]
    exact ⟨rfl,hsame,fun _ => Or.inl rfl,.same⟩
  | destroy => exact ⟨hquiet .quiet rfl,hsame,fun _ => Or.inl rfl,.broadcast⟩
  | create v =>
    simp only [monitorStep, worldStep, poolStep, pool, served]
    split
    case isTrue hv =>
      exact ⟨hquiet .quiet rfl,hsame,setWorker_ready (by rw [hv]; exact Phase.noConfusion),.same⟩
    case isFalse => exact ⟨hquiet .quiet rfl,hsame,fun _ => Or.inl rfl,.same⟩
  | handled v =>
    simp only [monitorStep, worldStep, poolStep, pool, served]
    split
    case h_1 job hv =>
      exact ⟨hquiet .quiet rfl,hsame,setWorker_ready (by rw [hv]; exact Phase.noConfusion),.same⟩
    case h_2 => exact ⟨hquiet .quiet rfl,hsame,fun _ => Or.inl rfl,.same⟩

/-- A worker at the mutex is neither unstarted nor gone. -/
private theorem AtMutex.phase (h : m.Sound) (hw : m.AtMutex w) :
    m.pool.workers w = .ready ∨ m.pool.workers w = .waiting :=
  hw.imp_right fun hk => (h.tracks.mem w).mp (List.mem_append_right _ hk)

private theorem atMutex_stays (h : m.Sound) {c : Call} (hc : ∀ w, c = .enter w → ¬ m.AtMutex w) (hw : m.AtMutex w) :
    (monitorStep m c).AtMutex w := by
  obtain ⟨-,-,hworkers,hwakes⟩ := outside_spec h hc
  rcases hw with hr | hk
  · refine Or.inl ((hworkers w).elim (fun he => ?_) And.left)
    rw [he, hr]
  · exact Or.inr (hwakes.woken hk)

section Pending

/-- While jobs are queued, whoever takes the mutex takes one, and anything else
leaves them queued. -/
private theorem Pending.step (h : Pending k m) (c : Call) : k < (monitorStep m c).served ∨
    (∀ w, c = .enter w → ¬ m.AtMutex w) ∧ Pending k (monitorStep m c) := by
  by_cases hc : ∃ w, c = .enter w ∧ m.AtMutex w
  · left
    obtain ⟨w,rfl,hw⟩ := hc
    obtain ⟨phase,-,-,-,⟨hq,-⟩ | ⟨hq,-⟩ | ⟨op,-,-,hlog,-⟩⟩ := enter_spec h.sound hw
    · exact absurd hq h.queued
    · exact absurd hq h.queued
    · have hserved := h.served
      rw [Monitor.served] at hserved ⊢
      rw [hlog, handed_append, List.length_append, hserved]
      exact Nat.lt_succ_self k
  · right
    have hout : ∀ w, c = .enter w → ¬ m.AtMutex w := fun w he hw => hc ⟨w,he,hw⟩
    obtain ⟨hserved,hq,-,-⟩ := outside_spec h.sound hout
    refine ⟨hout,monitorStep_sound h.sound c,hserved.trans h.served,fun hnil => h.queued ?_⟩
    rw [hnil] at hq
    exact List.prefix_nil.mp hq

variable (hfair : Fair sched)
include hfair

/-- A job is taken, or a job stays queued while the goal has not come. -/
private theorem atMutex_serves {m₀ : Monitor} :
    LeadsTo monitorStep m₀ sched (fun m => Pending k m ∧ m.AtMutex w) fun m => k < m.served := by
  refine LeadsTo.of_helpful (k := (· = .enter w)) (fun m u ⟨hp,hw⟩ => ?_) (fun m c ⟨hp,hw⟩ hk => ?_) (hfair.enters w)
  · rcases hp.step (sched u) with hs | ⟨hout,hp'⟩
    · exact Or.inr hs
    · exact Or.inl ⟨hp',atMutex_stays hp.sound hout hw⟩
  · subst hk
    rcases hp.step (.enter w) with hs | ⟨hout,-⟩
    · exact hs
    · exact absurd hw (hout w rfl)

private theorem handling_serves {m₀ : Monitor} :
    LeadsTo monitorStep m₀ sched (fun m => Pending k m ∧ ∃ job, m.pool.workers w = .handling job) fun m => k < m.served := by
  refine LeadsTo.trans (Q := fun m => (Pending k m ∧ m.AtMutex w) ∨ k < m.served) ?_
    (.or (atMutex_serves hfair) (.of_imp fun _ => id))
  refine LeadsTo.of_helpful (k := (· = .handled w)) (fun m u ⟨hp,job,hw⟩ => ?_) (fun m c ⟨hp,job,hw⟩ hk => ?_)
    (hfair.finishes w)
  · rcases hp.step (sched u) with hs | ⟨hout,hp'⟩
    · exact Or.inr (Or.inr hs)
    · obtain ⟨-,-,hworkers,-⟩ := outside_spec hp.sound hout
      rcases hworkers w with he | ⟨he,-⟩
      · exact Or.inl ⟨hp',job,he.trans hw⟩
      · exact Or.inr (Or.inl ⟨hp',Or.inl he⟩)
  · subst hk
    rcases hp.step (.handled w) with hs | ⟨-,hp'⟩
    · exact Or.inr hs
    · refine Or.inl ⟨hp',Or.inl ?_⟩
      simp only [monitorStep, worldStep, poolStep, hw, pool, setWorker_same]

/-- The workers that have gone to sleep are not left there: a signal is owed,
or a worker that was woken is still on its way. -/
private theorem blocked_serves {m₀ : Monitor} :
    LeadsTo monitorStep m₀ sched (fun m => Pending k m ∧ m.cond.blocked ≠ []) fun m => k < m.served := by
  have hwoken : LeadsTo monitorStep m₀ sched (fun m => Pending k m ∧ m.cond.woken ≠ []) fun m => k < m.served := by
    refine LeadsTo.trans (.of_imp fun m ⟨hp,hne⟩ => ?_) (.exists_ fun w => atMutex_serves (w := w) hfair)
    obtain ⟨w,hw⟩ := List.exists_mem_of_ne_nil _ hne
    exact ⟨w,hp,Or.inr hw⟩
  have howed : LeadsTo monitorStep m₀ sched (fun m => Pending k m ∧ m.cond.blocked ≠ [] ∧ 0 < m.cond.owed)
      fun m => k < m.served := by
    refine LeadsTo.trans (Q := fun m => (Pending k m ∧ m.cond.woken ≠ []) ∨ k < m.served) ?_
      (.or hwoken (.of_imp fun _ => id))
    refine LeadsTo.of_helpful (fun m u ⟨hp,hb,ho⟩ => ?_) (fun m c ⟨hp,hb,ho⟩ hk => ?_) hfair.signals
    · rcases hp.step (sched u) with hs | ⟨hout,hp'⟩
      · exact Or.inr (Or.inr hs)
      · obtain ⟨-,-,-,hwakes⟩ := outside_spec hp.sound hout
        rcases hwakes.progress hb ho with hkeep | hwake
        · exact Or.inl ⟨hp',hkeep⟩
        · exact Or.inr (Or.inl ⟨hp',hwake⟩)
    · obtain ⟨j,rfl⟩ := hk
      rcases hp.step (.signal j) with hs | ⟨-,hp'⟩
      · exact Or.inr hs
      · exact Or.inl ⟨hp',CondVar.signal_wakes ho hb j⟩
  refine LeadsTo.trans (.of_imp fun m ⟨hp,hb⟩ => ?_) (.or hwoken howed)
  have hcover := hp.sound.covers hb
  have hqueued := List.length_pos_iff.mpr hp.queued
  rcases Nat.eq_zero_or_pos m.cond.owed with ho | ho
  · exact Or.inl ⟨hp,List.length_pos_iff.mp (by omega)⟩
  · exact Or.inr ⟨hp,hb,ho⟩

/-- Some worker takes the next job, whatever the active ones are doing. -/
private theorem pending_serves {m₀ : Monitor} :
    LeadsTo monitorStep m₀ sched (fun m => Pending k m ∧ ∃ w, m.Active w) fun m => k < m.served := by
  refine LeadsTo.trans (.of_imp fun m ⟨hp,w,hstarted,hstill⟩ => ?_)
    (.exists_ fun w => .or (atMutex_serves (w := w) hfair) (.or (handling_serves (w := w) hfair) (blocked_serves hfair)))
  refine ⟨w,?_⟩
  cases hw : m.pool.workers w with
  | notStarted => exact absurd hw hstarted
  | left => exact absurd hw hstill
  | ready => exact Or.inl ⟨hp,Or.inl hw⟩
  | handling job => exact Or.inr (Or.inl ⟨hp,job,rfl⟩)
  | waiting =>
    rcases List.mem_append.mp ((hp.sound.tracks.mem w).mpr hw) with hb | hk
    · exact Or.inr (Or.inr ⟨hp,List.ne_nil_of_mem hb⟩)
    · exact Or.inl ⟨hp,Or.inr hk⟩

end Pending

/-- Everything accepted by some point is handed out, or a worker is still there
to take it. -/
structure Served (n : Nat) (m : Monitor) : Prop where
  sound : m.Sound
  accepted : n ≤ (accepted m.world.log).length
  active : (∃ w, m.Active w) ∨ n ≤ m.served

private theorem length_accepted (h : m.Sound) : (accepted m.world.log).length = m.served + (queue m.pool).length := by
  rw [← h.exact.conserves.exact, List.length_append, served]

private theorem active_of_workers {m' : Monitor} (h : m.Active w)
    (hw : m'.pool.workers w = m.pool.workers w ∨ m'.pool.workers w = .ready ∧ m.pool.workers w ≠ .left) : m'.Active w := by
  unfold Active at h ⊢
  rcases hw with he | ⟨he,-⟩
  · rw [he]
    exact h
  · rw [he]
    exact ⟨Phase.noConfusion,Phase.noConfusion⟩

/-- A worker leaves only an empty queue, with everything handed out. -/
private theorem Served.step (h : Served n m) (c : Call) : Served n (monitorStep m c) := by
  have hsound := monitorStep_sound h.sound c
  have hlen := length_accepted h.sound
  have hlen' := length_accepted hsound
  have haccepted := h.accepted
  by_cases hc : ∃ w, c = .enter w ∧ m.AtMutex w
  · obtain ⟨v,rfl,hv⟩ := hc
    obtain ⟨phase,hworkers,-,haccept,hcase⟩ := enter_spec h.sound hv
    have hserved : m.served + (queue m.pool).length =
        (monitorStep m (.enter v)).served + (queue (monitorStep m (.enter v)).pool).length := by
      rw [← hlen, ← hlen', haccept]
    refine ⟨hsound,by omega,?_⟩
    rcases hcase with ⟨hq,-,-,hq',-⟩ | ⟨hq,-,-,hq',-⟩ | ⟨op,-,rfl,-,-⟩
    · rw [hq, hq'] at hserved
      rw [hq] at hlen
      simp only [List.length_nil] at hserved hlen
      exact Or.inr (by omega)
    · rw [hq, hq'] at hserved
      rw [hq] at hlen
      simp only [List.length_nil] at hserved hlen
      exact Or.inr (by omega)
    · refine Or.inl ⟨v,?_⟩
      rw [Active, hworkers, Function.update_self]
      exact ⟨Phase.noConfusion,Phase.noConfusion⟩
  · obtain ⟨hserved,hq,hworkers,-⟩ := outside_spec h.sound fun w he hw => hc ⟨w,he,hw⟩
    have hle := hq.length_le
    refine ⟨hsound,by omega,h.active.imp (fun ⟨w,hw⟩ => ⟨w,active_of_workers hw (hworkers w)⟩) fun hn => by omega⟩

private theorem served_leads (hfair : Fair sched) {m₀ : Monitor} :
    LeadsTo monitorStep m₀ sched (Served n) fun m => n ≤ m.served := by
  refine LeadsTo.of_count (fun m u h => h.step (sched u)) fun k hk => ?_
  refine LeadsTo.trans (.of_imp fun m ⟨h,hserved⟩ => ?_) (pending_serves hfair)
  have hlen := length_accepted h.sound
  have haccepted := h.accepted
  refine ⟨⟨h.sound,hserved,fun hq => ?_⟩,h.active.resolve_right (by omega)⟩
  rw [hq, List.length_nil] at hlen
  omega

private theorem accepted_grows (m : Monitor) (c : Call) :
    accepted m.world.log <+: accepted (monitorStep m c).world.log := by
  have hlog : m.world.log <+: (monitorStep m c).world.log := by
    rcases monitorStep_world m c with he | ⟨e,he⟩
    · rw [he]
    · rw [he]
      exact List.prefix_append _ _
  exact hlog.filterMap _

/-- Liveness. In a fair schedule every job accepted while some worker is in its
loop is handed to a worker, in the order of acceptance. -/
theorem accepted_eventually_handed (hfair : Fair sched) {t : Nat} (hw : (trace monitorStep start sched t).Active w) :
    ∃ u, t ≤ u ∧ accepted (trace monitorStep start sched t).world.log <+:
      handed (trace monitorStep start sched u).world.log := by
  have hsound (v : Nat) : (trace monitorStep start sched v).Sound := reachable_sound (trace_reachable v)
  obtain ⟨u,hu,hn⟩ := served_leads hfair t ⟨hsound t,Nat.le_refl _,Or.inl ⟨w,hw⟩⟩
  have hgrows : accepted (trace monitorStep start sched t).world.log <+:
      accepted (trace monitorStep start sched u).world.log :=
    trace_stable (P := fun (m : Monitor) => accepted (trace monitorStep start sched t).world.log <+: accepted m.world.log)
      (fun v _ hp => hp.trans (accepted_grows _ _)) List.prefix_rfl hu
  have hexact : handed (trace monitorStep start sched u).world.log <+:
      accepted (trace monitorStep start sched u).world.log := by
    rw [← (hsound u).exact.conserves.exact]
    exact List.prefix_append _ _
  exact ⟨u,hu,List.prefix_of_prefix_length_le hgrows hexact hn⟩

/-- The threads take turns. -/
def turn (t : Nat) : Call :=
  if t % 3 = 0 then .enter (t / 3).unpair.1
  else if t % 3 = 1 then .handled (t / 3).unpair.1
  else .signal 0

/-- Worker 0 waits, a job arrives and the pool is shut down. -/
def takingTurns (t : Nat) : Call :=
  if h : t < 4 then [.create 0,.enter 0,.enqueue ⟨3,4,5⟩,.destroy].get ⟨t,h⟩ else turn t

theorem takingTurns_fair : Fair takingTurns := by
  have hturn (w t r : Nat) (hr : r < 3) : ∃ u, t ≤ u ∧ u % 3 = r ∧ (u / 3).unpair.1 = w := by
    have hle := Nat.right_le_pair w t
    refine ⟨3 * Nat.pair w t + r,by omega,by omega,?_⟩
    rw [show (3 * Nat.pair w t + r) / 3 = Nat.pair w t by omega, Nat.unpair_pair]
  have hlate (u : Nat) (hu : 4 ≤ u) : takingTurns u = turn u := dif_neg (Nat.not_lt_of_le hu)
  refine ⟨fun w => Often.congr (fun t => ?_) hlate,fun w => Often.congr (fun t => ?_) hlate,Often.congr (fun t => ?_) hlate⟩
  · obtain ⟨u,hu,hr,hw⟩ := hturn w t 0 (by omega)
    exact ⟨u,hu,by rw [turn, if_pos hr, hw]⟩
  · obtain ⟨u,hu,hr,hw⟩ := hturn w t 1 (by omega)
    exact ⟨u,hu,by rw [turn, if_neg (by omega), if_pos hr, hw]⟩
  · obtain ⟨u,hu,hr,-⟩ := hturn 0 t 2 (by omega)
    exact ⟨u,hu,0,by rw [turn, if_neg (by omega), if_neg (by omega)]⟩

theorem accepted_eventually_handed_turns : ∃ u, 4 ≤ u ∧
    [⟨3,4,5⟩] <+: handed (trace monitorStep start takingTurns u).world.log :=
  accepted_eventually_handed takingTurns_fair (t := 4) (w := 0) ⟨by decide,by decide⟩

section Shutdown

/-- After shutdown, with nothing left to do. -/
structure Idle (m : Monitor) : Prop where
  sound : m.Sound
  down : m.pool.shutdown = true
  empty : queue m.pool = []

/-- No job arrives any more and no worker is created. -/
def Closing : Call → Prop
  | .enqueue _ | .create _ => False
  | _ => True

private theorem closing_down {c : Call} (hc : Closing c) (h : m.Sound) (hd : m.pool.shutdown = true) :
    (monitorStep m c).pool.shutdown = true := by
  cases c with
  | enqueue | create => exact hc.elim
  | signal | spurious => exact hd
  | destroy => rfl
  | handled v =>
    simp only [monitorStep, worldStep, poolStep, pool]
    split <;> exact hd
  | enter v =>
    by_cases hv : m.AtMutex v
    · obtain ⟨-,-,hshut,-,-⟩ := enter_spec h hv
      exact hshut.trans hd
    · rw [monitorStep, if_neg hv]
      exact hd

private theorem closing_accepted {c : Call} (hc : Closing c) (h : m.Sound) :
    accepted (monitorStep m c).world.log = accepted m.world.log := by
  cases c with
  | enqueue | create => exact hc.elim
  | signal | spurious => rfl
  | destroy => exact (accepted_append ..).trans (List.append_nil _)
  | handled v =>
    simp only [monitorStep, worldStep, poolStep]
    split <;> exact (accepted_append ..).trans (List.append_nil _)
  | enter v =>
    by_cases hv : m.AtMutex v
    · obtain ⟨-,-,-,haccept,-⟩ := enter_spec h hv
      exact haccept
    · rw [monitorStep, if_neg hv]

private theorem Idle.step {c : Call} (hc : Closing c) (h : m.Idle) : (monitorStep m c).Idle := by
  have hsound := monitorStep_sound h.sound c
  refine ⟨hsound,closing_down hc h.sound h.down,?_⟩
  by_cases hm : ∃ w, c = .enter w ∧ m.AtMutex w
  · obtain ⟨v,rfl,hv⟩ := hm
    obtain ⟨-,-,-,-,⟨-,-,-,hq,-⟩ | ⟨-,-,-,hq,-⟩ | ⟨op,hq,-,-⟩⟩ := enter_spec h.sound hv
    · exact hq
    · exact hq
    · rw [h.empty] at hq
      cases hq
  · obtain ⟨hserved,-,-,-⟩ := outside_spec h.sound fun w he hw => hm ⟨w,he,hw⟩
    have hlen := length_accepted h.sound
    have hlen' := length_accepted hsound
    rw [closing_accepted hc h.sound] at hlen'
    rw [h.empty, List.length_nil] at hlen
    exact List.length_eq_zero_iff.mp (by omega)

/-- An idle worker keeps its place, comes back to the mutex or leaves. -/
private theorem Idle.worker (h : m.Idle) (c : Call) (w : Nat) :
    ((monitorStep m c).pool.workers w = m.pool.workers w ∨
      (monitorStep m c).pool.workers w = .ready ∧ m.pool.workers w ≠ .left ∨ m.AtMutex w) ∧
    (m.AtMutex w → (monitorStep m c).AtMutex w ∨ (monitorStep m c).pool.workers w = .left) ∧
    (m.AtMutex w → c = .enter w → (monitorStep m c).pool.workers w = .left) := by
  by_cases hm : ∃ v, c = .enter v ∧ m.AtMutex v
  · obtain ⟨v,rfl,hv⟩ := hm
    obtain ⟨phase,hworkers,-,-,⟨-,hs,-⟩ | ⟨-,-,rfl,-,hcond⟩ | ⟨op,hq,-⟩⟩ := enter_spec h.sound hv
    · rw [h.down] at hs
      cases hs
    · rcases eq_or_ne w v with rfl | hne
      · have hleft : (monitorStep m (.enter w)).pool.workers w = .left := by
          rw [hworkers, Function.update_self]
        exact ⟨Or.inr (Or.inr hv),fun _ => Or.inr hleft,fun _ _ => hleft⟩
      · have hsame : (monitorStep m (.enter v)).pool.workers w = m.pool.workers w := by
          rw [hworkers, Function.update_of_ne hne]
        refine ⟨Or.inl hsame,fun hw => Or.inl (hw.imp hsame.trans fun hk => ?_),fun _ he => absurd (Call.enter.inj he).symm hne⟩
        rw [hcond]
        exact (List.mem_erase_of_ne hne).mpr hk
    · rw [h.empty] at hq
      cases hq
  · have hout : ∀ v, c = .enter v → ¬ m.AtMutex v := fun v he hv => hm ⟨v,he,hv⟩
    obtain ⟨-,-,hworkers,-⟩ := outside_spec h.sound hout
    refine ⟨(hworkers w).imp_right Or.inl,fun hw => Or.inl (atMutex_stays h.sound hout hw),fun hw he => ?_⟩
    exact absurd hw (hout w he)

private theorem left_stays (h : m.Idle) (c : Call) (hw : m.pool.workers w = .left) :
    (monitorStep m c).pool.workers w = .left := by
  obtain ⟨he | ⟨-,hne⟩ | hm,-,-⟩ := h.worker c w
  · exact he.trans hw
  · exact absurd hw hne
  · have hphase := hm.phase h.sound
    simp [hw] at hphase

private theorem idle_leaves (hfair : Fair sched) (hclosing : ∀ u, Closing (sched u)) {m₀ : Monitor} :
    LeadsTo monitorStep m₀ sched (fun m => m.Idle ∧ m.pool.workers w ≠ .notStarted)
      fun m => m.Idle ∧ m.pool.workers w = .left := by
  have hmutex : LeadsTo monitorStep m₀ sched (fun m => m.Idle ∧ m.AtMutex w)
      fun m => m.Idle ∧ m.pool.workers w = .left := by
    refine LeadsTo.trans (Q := fun m => m.pool.workers w = .left ∧ m.Idle) ?_ (.of_imp fun _ => And.symm)
    refine LeadsTo.of_helpful (k := (· = .enter w)) ?_ ?_ (hfair.enters w)
    · rintro m u ⟨h,hw⟩
      have hidle := h.step (hclosing u)
      exact ((h.worker (sched u) w).2.1 hw).imp (fun hm => ⟨hidle,hm⟩) fun hl => ⟨hl,hidle⟩
    · rintro m c ⟨h,hw⟩ rfl
      exact ⟨(h.worker _ w).2.2 hw rfl,h.step (c := .enter w) trivial⟩
  have hhandling : LeadsTo monitorStep m₀ sched (fun m => m.Idle ∧ ∃ job, m.pool.workers w = .handling job)
      fun m => m.Idle ∧ m.AtMutex w := by
    refine LeadsTo.of_helpful (k := (· = .handled w)) ?_ ?_ (hfair.finishes w)
    · rintro m u ⟨h,job,hw⟩
      have hidle := h.step (hclosing u)
      obtain ⟨he | ⟨he,-⟩ | hm,-,-⟩ := h.worker (sched u) w
      · exact Or.inl ⟨hidle,job,he.trans hw⟩
      · exact Or.inr ⟨hidle,Or.inl he⟩
      · have hphase := hm.phase h.sound
        simp [hw] at hphase
    · rintro m c ⟨h,job,hw⟩ rfl
      refine ⟨h.step (c := .handled w) trivial,Or.inl ?_⟩
      simp only [monitorStep, worldStep, poolStep, hw, pool, setWorker_same]
  refine LeadsTo.trans (.of_imp ?_)
    (.or hmutex (.or (hhandling.trans hmutex) (.of_imp (P := fun m => m.Idle ∧ m.pool.workers w = .left) fun _ => id)))
  rintro m ⟨h,hw⟩
  cases hphase : m.pool.workers w with
  | notStarted => exact absurd hphase hw
  | ready => exact Or.inl ⟨h,Or.inl hphase⟩
  | handling job => exact Or.inr (Or.inl ⟨h,job,rfl⟩)
  | left => exact Or.inr (Or.inr ⟨h,rfl⟩)
  | waiting =>
    have hwait := (h.sound.tracks.mem w).mpr hphase
    rw [h.sound.drained h.down, List.nil_append] at hwait
    exact Or.inl ⟨h,Or.inr hwait⟩

private theorem unstarted_stays (h : m.Sound) {c : Call} (hc : Closing c) (hw : m.pool.workers w = .notStarted) :
    (monitorStep m c).pool.workers w = .notStarted := by
  cases c with
  | enqueue | create => exact hc.elim
  | signal | spurious | destroy => exact hw
  | handled v =>
    simp only [monitorStep, worldStep, poolStep]
    split
    case h_1 job hv =>
      have hne : w ≠ v := fun e => by rw [← e, hw] at hv; cases hv
      exact (setWorker_of_ne m.pool hne _).trans hw
    case h_2 => exact hw
  | enter v =>
    by_cases hv : m.AtMutex v
    · have hne : w ≠ v := by
        rintro rfl
        have hphase := hv.phase h
        simp [hw] at hphase
      obtain ⟨phase,hworkers,-⟩ := enter_spec h hv
      rw [hworkers, Function.update_of_ne hne]
      exact hw
    · rw [monitorStep, if_neg hv]
      exact hw

/-- A call moves one worker at most. -/
private theorem one_worker (h : m.Sound) (c : Call) :
    ∃ v, ∀ w, w ≠ v → (monitorStep m c).pool.workers w = m.pool.workers w := by
  cases c with
  | enqueue op => exact ⟨0,fun w _ => congrFun (jobEnqueue_frame m.pool op).1 w⟩
  | signal | spurious | destroy => exact ⟨0,fun _ _ => rfl⟩
  | create v =>
    refine ⟨v,fun w hne => ?_⟩
    simp only [monitorStep, worldStep, poolStep]
    split
    · exact setWorker_of_ne m.pool hne _
    · rfl
  | handled v =>
    refine ⟨v,fun w hne => ?_⟩
    simp only [monitorStep, worldStep, poolStep]
    split
    · exact setWorker_of_ne m.pool hne _
    · rfl
  | enter v =>
    refine ⟨v,fun w hne => ?_⟩
    by_cases hv : m.AtMutex v
    · obtain ⟨phase,hworkers,-⟩ := enter_spec h hv
      rw [hworkers, Function.update_of_ne hne]
    · rw [monitorStep, if_neg hv]

private theorem started_stays (h : m.Sound) (c : Call) (hw : m.pool.workers w ≠ .notStarted) :
    (monitorStep m c).pool.workers w ≠ .notStarted := by
  by_cases hm : ∃ v, c = .enter v ∧ m.AtMutex v
  · obtain ⟨v,rfl,hv⟩ := hm
    obtain ⟨phase,hworkers,-,-,hcase⟩ := enter_spec h hv
    rcases eq_or_ne w v with rfl | hne
    · rw [hworkers, Function.update_self]
      rcases hcase with ⟨-,-,rfl,-,-⟩ | ⟨-,-,rfl,-,-⟩ | ⟨op,-,rfl,-,-⟩ <;> exact Phase.noConfusion
    · rwa [hworkers, Function.update_of_ne hne]
  · obtain ⟨-,-,hworkers,-⟩ := outside_spec h fun v he hv => hm ⟨v,he,hv⟩
    rcases hworkers w with he | ⟨he,-⟩
    · rwa [he]
    · rw [he]
      exact Phase.noConfusion

private theorem started_finite (h : Reachable monitorStep start m) : {w | m.pool.workers w ≠ .notStarted}.Finite := by
  have hinv : m.Sound ∧ {w | m.pool.workers w ≠ .notStarted}.Finite := by
    refine h.invariant (P := fun (m : Monitor) => m.Sound ∧ {w | m.pool.workers w ≠ .notStarted}.Finite) ?_ fun m c ⟨hs,hf⟩ => ?_
    · refine ⟨start_sound,Set.finite_empty.subset fun w hw => ?_⟩
      exact absurd rfl hw
    · refine ⟨monitorStep_sound hs c,?_⟩
      obtain ⟨v,hv⟩ := one_worker hs c
      refine (hf.insert v).subset fun w hw => ?_
      rcases eq_or_ne w v with rfl | hne
      · exact Or.inl rfl
      · exact Or.inr (by rwa [Set.mem_ofPred_eq, hv w hne] at hw)
  exact hinv.2

/-- What the end of the run has to start from. -/
private structure Closed (m₀ : Monitor) (w : Nat) (m : Monitor) : Prop where
  served : Served (accepted m₀.world.log).length m
  down : m.pool.shutdown = true
  log : accepted m.world.log = accepted m₀.world.log
  started : m.pool.workers w ≠ .notStarted

private theorem Closed.step {m₀ : Monitor} (h : Closed m₀ w m) {c : Call} (hc : Closing c) :
    Closed m₀ w (monitorStep m c) :=
  ⟨h.served.step c,closing_down hc h.served.sound h.down,(closing_accepted hc h.served.sound).trans h.log,
    started_stays h.served.sound c h.started⟩

/-- Shutdown ends. In a fair schedule, once thread_pool_destroy has set the flag
and no further job or worker comes, every worker leaves for good, so that every
pthread_join returns, and no accepted job is left behind. -/
theorem workers_eventually_leave (hfair : Fair sched) {t : Nat} (hw : (trace monitorStep start sched t).Active w)
    (hdown : (trace monitorStep start sched t).pool.shutdown = true) (hclosing : ∀ u, t ≤ u → Closing (sched u)) :
    ∃ u, t ≤ u ∧ ∀ v, u ≤ v →
      handed (trace monitorStep start sched v).world.log = accepted (trace monitorStep start sched t).world.log ∧
      ∀ w, (trace monitorStep start sched v).pool.workers w = .notStarted ∨
        (trace monitorStep start sched v).pool.workers w = .left := by
  have hreach : Reachable monitorStep start (trace monitorStep start sched t) := trace_reachable t
  have hsound := reachable_sound hreach
  have hfin := started_finite hreach
  have hshift (u : Nat) : trace monitorStep start sched (t+u) =
      trace monitorStep (trace monitorStep start sched t) (fun v => sched (t+v)) u := trace_add t u
  generalize trace monitorStep start sched t = m₀ at *
  have hfair' : Fair fun u => sched (t+u) :=
    ⟨fun w => (hfair.enters w).shift t,fun w => (hfair.finishes w).shift t,hfair.signals.shift t⟩
  have hclosing' (u : Nat) : Closing (sched (t+u)) := hclosing _ (Nat.le_add_right t u)
  have hleaves (w : Nat) (hw' : m₀.pool.workers w ≠ .notStarted) : ∀ᶠ u in Filter.atTop,
      (trace monitorStep m₀ (fun u => sched (t+u)) u).Idle ∧
        (trace monitorStep m₀ (fun u => sched (t+u)) u).pool.workers w = .left := by
    refine LeadsTo.eventually (P := Closed m₀ w) (Q := fun m => m.Idle ∧ m.pool.workers w = .left) ?_ (fun m u ⟨h,hl⟩ => ⟨h.step (hclosing' u),left_stays h _ hl⟩)
      ⟨⟨hsound,Nat.le_refl _,Or.inl ⟨_,hw⟩⟩,hdown,rfl,hw'⟩
    have hserves : LeadsTo monitorStep m₀ (fun u => sched (t+u)) (Closed m₀ w) fun m => (accepted m₀.world.log).length ≤ m.served :=
      fun u hu => served_leads hfair' u hu.served
    refine ((hserves.keep fun m u h => h.step (hclosing' u)).trans (.of_imp fun m ⟨h,hn⟩ => ?_)).trans
      (idle_leaves hfair' hclosing')
    have hlen := length_accepted h.served.sound
    rw [h.log] at hlen
    exact ⟨⟨h.served.sound,h.down,List.length_eq_zero_iff.mp (by omega)⟩,h.started⟩
  have hall := (Filter.eventually_all_finite hfin).mpr hleaves
  obtain ⟨u,hu⟩ := Filter.eventually_atTop.mp hall
  refine ⟨t+u,by omega,fun v hv => ?_⟩
  obtain ⟨d,rfl⟩ : ∃ d, v = t+d := ⟨v-t,by omega⟩
  rw [hshift d]
  have hlog : (trace monitorStep m₀ (fun u => sched (t+u)) d).Sound ∧
      accepted (trace monitorStep m₀ (fun u => sched (t+u)) d).world.log = accepted m₀.world.log :=
    trace_stable (P := fun (m : Monitor) => m.Sound ∧ accepted m.world.log = accepted m₀.world.log) (t := 0)
      (fun v _ ⟨hs,he⟩ => ⟨monitorStep_sound hs _,(closing_accepted (hclosing' v) hs).trans he⟩) ⟨hsound,rfl⟩ (Nat.zero_le d)
  refine ⟨?_,fun w => ?_⟩
  · have hidle := (hu d (by omega) _ hw.1).1
    have hexact := hidle.sound.exact.conserves.exact
    rw [hidle.empty, List.append_nil] at hexact
    exact hexact.trans hlog.2
  · by_cases hstart : m₀.pool.workers w = .notStarted
    · left
      have hstays := trace_stable (P := fun (m : Monitor) => m.Sound ∧ m.pool.workers w = .notStarted) (t := 0)
        (fun v _ ⟨hs,he⟩ => ⟨monitorStep_sound hs _,unstarted_stays hs (hclosing' v) he⟩) ⟨hsound,hstart⟩ (Nat.zero_le d)
      exact hstays.2
    · exact Or.inr (hu d (by omega) w hstart).2

theorem workers_eventually_leave_turns : ∃ u, 4 ≤ u ∧ ∀ v, u ≤ v →
    handed (trace monitorStep start takingTurns v).world.log = [⟨3,4,5⟩] ∧
    ∀ w, (trace monitorStep start takingTurns v).pool.workers w = .notStarted ∨
      (trace monitorStep start takingTurns v).pool.workers w = .left := by
  refine workers_eventually_leave takingTurns_fair (t := 4) (w := 0) ⟨by decide,by decide⟩ rfl fun u hu => ?_
  rw [takingTurns, dif_neg (Nat.not_lt_of_le hu), turn]
  split
  · trivial
  · split <;> trivial

end Shutdown

end Monitor
end LazyTcp.ThreadPool
