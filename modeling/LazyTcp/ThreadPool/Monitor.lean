import LazyTcp.General.CondVar
import LazyTcp.ThreadPool.Pool

/-! The pool with its condition variable. job_enqueue signals once it released
the mutex, also when it refused the job; a waiting worker is blocked until a
signal, the broadcast of thread_pool_destroy or a spurious wakeup unblocks it,
and takes the mutex again before it looks at the queue. -/
namespace LazyTcp.ThreadPool
open General General.Fifo

structure Monitor where
  world : World
  cond : CondVar Nat

/-- What a thread does next. The signal of a job_enqueue unblocks the worker
that the choice k picks. -/
inductive Call where
  | enqueue (op : Job)
  | signal (k : Nat)
  | create (w : Nat)
  | enter (w : Nat)
  | spurious (w : Nat)
  | handled (w : Nat)
  | destroy

namespace Monitor

def start : Monitor := ⟨.start,.start⟩

abbrev pool (m : Monitor) : Pool := m.world.pool

/-- The worker is at the mutex: at the head of its loop or on its way out of
pthread_cond_wait. -/
def AtMutex (m : Monitor) (w : Nat) : Prop := m.pool.workers w = .ready ∨ w ∈ m.cond.woken

instance (m : Monitor) (w : Nat) : Decidable (m.AtMutex w) := inferInstanceAs (Decidable (_ ∨ _))

end Monitor

def monitorStep (m : Monitor) : Call → Monitor
  | .enqueue op => ⟨worldStep m.world (.enqueue op),m.cond.owe⟩
  | .signal k => ⟨m.world,m.cond.signal k⟩
  | .create w => ⟨worldStep m.world (.create w),m.cond⟩
  | .enter w =>
    if m.AtMutex w then
      let world := worldStep m.world (.enter w)
      let cond := m.cond.resume w
      ⟨world,if world.pool.workers w = .waiting then cond.wait w else cond⟩
    else m
  | .spurious w => ⟨m.world,m.cond.spurious w⟩
  | .handled w => ⟨worldStep m.world (.handled w),m.cond⟩
  | .destroy => ⟨worldStep m.world .destroy,m.cond.broadcast⟩

namespace Monitor
variable {m : Monitor} {w : Nat}

/-- The blocked workers are covered, and there are none after shutdown. -/
structure Sound (m : Monitor) : Prop where
  exact : m.world.Exact
  tracks : m.cond.Tracks fun w => m.pool.workers w = .waiting
  covers : m.cond.Covers (queue m.pool).length
  drained : m.pool.shutdown = true → m.cond.blocked = []

theorem setWorker_of_ne (p : Pool) {v w : Nat} (hv : v ≠ w) (phase : Phase) :
    (p.setWorker w phase).workers v = p.workers v := Function.update_of_ne hv ..

theorem setWorker_ready {p : Pool} {v : Nat} (h : p.workers v ≠ .left) (w : Nat) :
    (p.setWorker v .ready).workers w = p.workers w ∨
      (p.setWorker v .ready).workers w = .ready ∧ p.workers w ≠ .left := by
  rcases eq_or_ne w v with rfl | hne
  · exact Or.inr ⟨setWorker_same ..,h⟩
  · exact Or.inl (setWorker_of_ne p hne _)

private theorem exact_step {w : World} (h : w.Exact) (e : Event) : (worldStep w e).Exact := by
  obtain ⟨hw,hs⟩ := poolStep_fifo h.within e
  exact ⟨hw,h.conserves.step hs⟩

private theorem threadPoolStart_shutdown (p : Pool) : (threadPoolStart p).1.shutdown = p.shutdown := by
  unfold threadPoolStart
  split
  · rfl
  · split
    · rfl
    · split <;> rfl

theorem jobEnqueue_frame (p : Pool) (op : Job) :
    (jobEnqueue p op).2.workers = p.workers ∧ (jobEnqueue p op).2.shutdown = p.shutdown := by
  unfold jobEnqueue
  split <;> exact ⟨rfl,rfl⟩

private theorem queue_nil {p : Pool} (hc : p.jobCount = 0) : queue p = [] := by
  rw [queue, hc]
  rfl

/-- What a worker at the mutex does: it waits on an empty queue, leaves after
shutdown, or takes the first job. -/
theorem enter_spec (h : m.Sound) (hw : m.AtMutex w) : ∃ phase,
    (monitorStep m (.enter w)).pool.workers = Function.update m.pool.workers w phase ∧
      (monitorStep m (.enter w)).pool.shutdown = m.pool.shutdown ∧
      accepted (monitorStep m (.enter w)).world.log = accepted m.world.log ∧
      ((queue m.pool = [] ∧ m.pool.shutdown = false ∧ phase = .waiting ∧ queue (monitorStep m (.enter w)).pool = [] ∧
          (monitorStep m (.enter w)).cond = (m.cond.resume w).wait w) ∨
        (queue m.pool = [] ∧ m.pool.shutdown = true ∧ phase = .left ∧ queue (monitorStep m (.enter w)).pool = [] ∧
          (monitorStep m (.enter w)).cond = m.cond.resume w) ∨
        ∃ op, queue m.pool = op :: queue (monitorStep m (.enter w)).pool ∧ phase = .handling (some op) ∧
          (monitorStep m (.enter w)).world.log = m.world.log ++ [.handed op] ∧
          (monitorStep m (.enter w)).cond = m.cond.resume w) := by
  have hready : m.pool.workers w = .ready ∨ m.pool.workers w = .waiting :=
    hw.imp_right fun hk => (h.tracks.mem w).mp (List.mem_append_right _ hk)
  have hshut := threadPoolStart_shutdown m.pool
  have hsame (obs : Observation Job) (ho : accepted [obs] = []) :
      accepted (m.world.log ++ [obs]) = accepted m.world.log := by rw [accepted_append, ho, List.append_nil]
  simp only [monitorStep, if_pos hw, worldStep, poolStep, if_pos hready, pool] at hshut ⊢
  rcases threadPoolStart_cases h.exact.within with ⟨hc,hs,e⟩ | ⟨hc,hs,e⟩ | ⟨hc,p',e,-,hworkers,hq⟩
  · refine ⟨.waiting,?_⟩
    rw [e]
    exact ⟨rfl,rfl,hsame .quiet rfl,Or.inl ⟨queue_nil hc,hs,rfl,queue_nil hc,if_pos (setWorker_same ..)⟩⟩
  · refine ⟨.left,?_⟩
    rw [e]
    refine ⟨rfl,rfl,hsame .quiet rfl,Or.inr (Or.inl ⟨queue_nil hc,hs,rfl,queue_nil hc,if_neg ?_⟩)⟩
    simp only [setWorker_same]
    exact Phase.noConfusion
  · refine ⟨.handling (some (m.world.pool.operations 0)),?_⟩
    rw [e] at hshut ⊢
    refine ⟨by rw [← hworkers]; rfl,hshut,hsame (.handed _) rfl,Or.inr (Or.inr ⟨m.world.pool.operations 0,hq,rfl,rfl,if_neg ?_⟩)⟩
    simp only [setWorker_same]
    exact Phase.noConfusion

/-- A worker moves between two phases of which neither is a wait. -/
private theorem tracks_setWorker (h : m.Sound) {phase : Phase} (hold : m.pool.workers w ≠ .waiting)
    (hnew : phase ≠ .waiting) : m.cond.Tracks fun v => (m.pool.setWorker w phase).workers v = .waiting := by
  refine h.tracks.congr fun v => ?_
  rcases eq_or_ne v w with rfl | hv
  · rw [setWorker_same]
    exact iff_of_false hold hnew
  · rw [setWorker_of_ne m.pool hv]

/-- What enter_spec leaves of the waits when the worker does not wait again. -/
private theorem tracks_resume (h : m.Sound) (hw : m.AtMutex w) {phase : Phase} (hnew : phase ≠ .waiting) :
    (m.cond.resume w).Tracks fun v => Function.update m.pool.workers w phase v = .waiting := by
  rcases hw with hr | hk
  · have hout : w ∉ m.cond.woken := by
      intro hk
      have hwait := (h.tracks.mem w).mp (List.mem_append_right _ hk)
      rw [hr] at hwait
      cases hwait
    have hsame : m.cond.resume w = m.cond := by
      rw [CondVar.resume, List.erase_of_not_mem hout]
    rw [hsame]
    exact tracks_setWorker h (by rw [hr]; exact Phase.noConfusion) hnew
  · refine (h.tracks.resume hk).congr fun v => ?_
    rcases eq_or_ne v w with rfl | hv
    · rw [Function.update_self]
      exact iff_of_false (fun hc => hc.2 rfl) hnew
    · rw [Function.update_of_ne hv]
      exact and_iff_left hv

/-- The worker that takes a job was at the mutex on its own account or was woken
for it. -/
private theorem covers_resume (h : m.Sound) :
    (m.cond.resume w).Covers ((queue m.pool).length - 1) := by
  by_cases hk : w ∈ m.cond.woken
  · exact h.covers.resume hk
  · rw [CondVar.resume, List.erase_of_not_mem hk]
    exact h.covers.mono (Nat.sub_le _ 1)

private theorem enter_sound (h : m.Sound) (hw : m.AtMutex w) : (monitorStep m (.enter w)).Sound := by
  have hexact : (monitorStep m (.enter w)).world.Exact := by
    simp only [monitorStep, if_pos hw]
    exact exact_step h.exact _
  obtain ⟨phase,hworkers,hshut,-,hcase⟩ := enter_spec h hw
  rcases hcase with ⟨-,hs,rfl,hq,hcond⟩ | ⟨-,hs,rfl,hq,hcond⟩ | ⟨op,hq,rfl,-,hcond⟩
  · have hready : (m.cond.resume w).Tracks fun v => Function.update m.pool.workers w .ready v = .waiting :=
      tracks_resume h hw Phase.noConfusion
    refine ⟨hexact,?_,?_,fun hs' => ?_⟩
    · rw [hcond, hworkers]
      refine (hready.wait (w := w) ?_).congr fun v => ?_
      · rw [Function.update_self]
        exact Phase.noConfusion
      · rcases eq_or_ne v w with rfl | hv
        · simp only [Function.update_self, or_true]
        · simp only [Function.update_of_ne hv, hv, or_false]
    · rw [hcond, hq]
      exact CondVar.Covers.wait w
    · rw [hshut, hs] at hs'
      cases hs'
  · refine ⟨hexact,?_,?_,fun _ => ?_⟩
    · rw [hcond, hworkers]
      exact tracks_resume h hw Phase.noConfusion
    · rw [hcond, hq]
      exact (covers_resume h).mono (Nat.zero_le _)
    · rw [hcond]
      exact h.drained hs
  · refine ⟨hexact,?_,?_,fun hs' => ?_⟩
    · rw [hcond, hworkers]
      exact tracks_resume h hw Phase.noConfusion
    · have hrest : (m.cond.resume w).Covers ((queue m.pool).length - 1) := covers_resume h
      rw [hq, List.length_cons, Nat.add_sub_cancel] at hrest
      rw [hcond]
      exact hrest
    · rw [hcond]
      exact h.drained (hshut ▸ hs')

private theorem enqueue_sound (h : m.Sound) (op : Job) : (monitorStep m (.enqueue op)).Sound := by
  obtain ⟨hworkers,hshut⟩ := jobEnqueue_frame m.pool op
  refine ⟨exact_step h.exact _,?_,?_,fun hs => h.drained (hshut ▸ hs)⟩
  · have ht := h.tracks.owe
    rw [← hworkers] at ht
    exact ht
  · cases hb : (jobEnqueue m.pool op).1 with
    | true =>
      have hsame : (monitorStep m (.enqueue op)).pool = m.pool := (jobEnqueue_refuses h.exact.within op).2 hb
      rw [hsame]
      exact h.covers.owe.mono (Nat.le_succ _)
    | false =>
      obtain ⟨-,-,hq⟩ := jobEnqueue_accepts h.exact.within op hb
      have hlen : (queue (monitorStep m (.enqueue op)).pool).length = (queue m.pool).length + 1 := by
        rw [show queue (monitorStep m (.enqueue op)).pool = queue m.pool ++ [op] from hq, List.length_append,
          List.length_singleton]
      rw [hlen]
      exact h.covers.owe

/-- Step lemma. -/
theorem monitorStep_sound (h : m.Sound) (c : Call) : (monitorStep m c).Sound := by
  cases c with
  | enqueue op => exact enqueue_sound h op
  | signal k =>
    exact ⟨h.exact,h.tracks.signal k,h.covers.signal k,fun hs => CondVar.signal_blocked_nil (h.drained hs) k⟩
  | create v =>
    have hexact := exact_step h.exact (.create v)
    simp only [monitorStep, worldStep, poolStep] at hexact ⊢
    split at hexact
    case isTrue hn =>
      rw [if_pos hn]
      exact ⟨hexact,tracks_setWorker h (by rw [hn]; exact Phase.noConfusion) Phase.noConfusion,h.covers,h.drained⟩
    case isFalse hn =>
      rw [if_neg hn]
      exact ⟨hexact,h.tracks,h.covers,h.drained⟩
  | enter v =>
    by_cases hw : m.AtMutex v
    · exact enter_sound h hw
    · rw [monitorStep, if_neg hw]
      exact h
  | spurious v =>
    exact ⟨h.exact,h.tracks.spurious v,h.covers.spurious v,fun hs => CondVar.spurious_blocked_nil (h.drained hs) v⟩
  | handled v =>
    have hexact := exact_step h.exact (.handled v)
    cases hv : m.pool.workers v with
    | handling job =>
      simp only [monitorStep, worldStep, poolStep, hv] at hexact ⊢
      exact ⟨hexact,tracks_setWorker h (by rw [hv]; exact Phase.noConfusion) Phase.noConfusion,h.covers,h.drained⟩
    | notStarted | ready | waiting | left =>
      simp only [monitorStep, worldStep, poolStep, hv] at hexact ⊢
      exact ⟨hexact,h.tracks,h.covers,h.drained⟩
  | destroy => exact ⟨exact_step h.exact _,h.tracks.broadcast,CondVar.Covers.broadcast,fun _ => rfl⟩

theorem start_sound : start.Sound := by
  refine ⟨after_exact [],CondVar.Tracks.start.congr fun w => ?_,fun hb => absurd rfl hb,fun _ => rfl⟩
  exact iff_of_false id Phase.noConfusion

/-- Run lemma. -/
theorem reachable_sound (h : Reachable monitorStep start m) : m.Sound :=
  h.invariant start_sound fun _ c hm => monitorStep_sound hm c

/-- Each call is at most one step of the pool. -/
theorem monitorStep_world (m : Monitor) (c : Call) :
    (monitorStep m c).world = m.world ∨ ∃ e, (monitorStep m c).world = worldStep m.world e := by
  cases c with
  | signal | spurious => exact Or.inl rfl
  | enqueue | create | handled | destroy => exact Or.inr ⟨_,rfl⟩
  | enter w =>
    by_cases hw : m.AtMutex w
    · exact Or.inr ⟨.enter w,by rw [monitorStep, if_pos hw]⟩
    · exact Or.inl (by rw [monitorStep, if_neg hw])

/-- Refinement: each run of the monitor is a run of the pool. -/
theorem reachable_world (h : Reachable monitorStep start m) : ∃ events, m.world = after events := by
  refine h.invariant (P := fun m => ∃ events, m.world = after events) ⟨[],rfl⟩ fun m c ⟨events,hm⟩ => ?_
  rcases monitorStep_world m c with he | ⟨e,he⟩
  · exact ⟨events,he.trans hm⟩
  · refine ⟨events ++ [e],?_⟩
    rw [he, hm, after, after, run_snoc]

/-- No wakeup is lost. In every interleaving, with spurious wakeups and refused
jobs: a worker blocked on cond_queue is one that waits, none is blocked after
shutdown, and while one is blocked each queued job has a signal still owed or a
woken worker on its way to the mutex. -/
theorem no_lost_wakeup (h : Reachable monitorStep start m) :
    (∃ events, m.world = after events) ∧ (∀ w ∈ m.cond.blocked, m.pool.workers w = .waiting) ∧
      (m.cond.blocked ≠ [] → m.pool.shutdown = false ∧ m.pool.jobCount ≤ m.cond.owed + m.cond.woken.length) := by
  have hs := reachable_sound h
  refine ⟨reachable_world h,fun w hw => (hs.tracks.mem w).mp (List.mem_append_left _ hw),fun hb => ⟨?_,?_⟩⟩
  · exact Bool.eq_false_iff.mpr fun hd => hb (hs.drained hd)
  · have hcover := hs.covers hb
    rw [queue, cells_length] at hcover
    have hnonneg := hs.exact.within.nonneg
    omega

/-- Two workers wait, two jobs arrive and only one signal has been sent. -/
def twoWaiting : List Call :=
  [.create 0,.create 1,.enter 0,.enter 1,.enqueue ⟨3,4,5⟩,.enqueue ⟨3,6,5⟩,.signal 0]

theorem no_lost_wakeup_two : (run monitorStep start twoWaiting).cond = ⟨[1],[0],1⟩ ∧
    (run monitorStep start twoWaiting).pool.jobCount = 2 ∧
    (run monitorStep start twoWaiting).pool.jobCount ≤ (run monitorStep start twoWaiting).cond.owed +
      (run monitorStep start twoWaiting).cond.woken.length := by
  refine ⟨rfl,rfl,?_⟩
  exact ((no_lost_wakeup ⟨twoWaiting,rfl⟩).2.2 (by decide)).2

end Monitor
end LazyTcp.ThreadPool
