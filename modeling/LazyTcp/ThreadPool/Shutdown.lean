import LazyTcp.ThreadPool.Pool

/-! Shutdown of the pool. Workers drain the queue before they leave, but
job_enqueue does not look at the shutdown flag. -/
namespace LazyTcp.ThreadPool
open General General.Fifo

/-- A worker was started, and every worker that was has left its loop. -/
def Pool.Over (p : Pool) : Prop :=
  (∃ w, p.workers w ≠ .notStarted) ∧ ∀ w, p.workers w = .notStarted ∨ p.workers w = .left

/-- Once the pool is over the queue is empty: every accepted job was handed out. -/
def NoneStranded (w : World) : Prop :=
  w.pool.Over → queue w.pool = [] ∧ handed w.log = accepted w.log

/-- No job_enqueue takes the mutex when the last worker has left. -/
def Timely (w : World) : Event → Prop
  | .enqueue _ => ¬ w.pool.Over
  | _ => True

private theorem jobEnqueue_workers (p : Pool) (op : Job) : (jobEnqueue p op).2.workers = p.workers := by
  unfold jobEnqueue
  split <;> rfl

private theorem setWorker_not_over {p : Pool} {w : Nat} {phase : Phase} (hs : phase ≠ .notStarted) (hl : phase ≠ .left) :
    ¬ (p.setWorker w phase).Over := by
  rintro ⟨-,hall⟩
  have hw := hall w
  rw [setWorker_same] at hw
  exact hw.elim hs hl

/-- A worker that leaves, leaves an empty queue. -/
private theorem enter_over {p : Pool} (h : p.Within) {w : Nat}
    (hover : ((threadPoolStart p).1.setWorker w (threadPoolStart p).2).Over) :
    queue ((threadPoolStart p).1.setWorker w (threadPoolStart p).2) = [] := by
  rcases threadPoolStart_cases h with ⟨-,-,e⟩ | ⟨hc,-,e⟩ | ⟨-,p',e,-,-,-⟩
  · rw [e] at hover
    exact absurd hover (setWorker_not_over (by simp) (by simp))
  · rw [e, queue_setWorker, queue, hc]
    rfl
  · rw [e] at hover
    exact absurd hover (setWorker_not_over (by simp) (by simp))

/-- Step lemma: a step of a timely run that ends the pool leaves an empty queue. -/
private theorem worldStep_over {w : World} (h : w.pool.Within) (hempty : w.pool.Over → queue w.pool = []) {e : Event}
    (ht : Timely w e) (hover : (worldStep w e).pool.Over) : queue (worldStep w e).pool = [] := by
  obtain ⟨p,log⟩ := w
  cases e with
  | enqueue op =>
    have hbefore : p.Over := by
      rw [Pool.Over, ← jobEnqueue_workers p op]
      exact hover
    exact absurd hbefore ht
  | create w =>
    simp only [worldStep, poolStep] at hover ⊢
    split at hover
    case isTrue => exact absurd hover (setWorker_not_over (by simp) (by simp))
    case isFalse hw =>
      rw [if_neg hw]
      exact hempty hover
  | enter w =>
    simp only [worldStep, poolStep] at hover ⊢
    split at hover
    case isTrue hw =>
      rw [if_pos hw]
      exact enter_over h hover
    case isFalse hw =>
      rw [if_neg hw]
      exact hempty hover
  | handled w =>
    cases hw : p.workers w with
    | handling job =>
      simp only [worldStep, poolStep, hw] at hover
      exact absurd hover (setWorker_not_over (by simp) (by simp))
    | notStarted | ready | waiting | left =>
      simp only [worldStep, poolStep, hw] at hover ⊢
      exact hempty hover
  | destroy => exact hempty hover

/-- A job that arrives after the end is accepted and stranded. -/
private theorem late_enqueue_stranded {w : World} (h : w.pool.Within) (hempty : queue w.pool = []) (hover : w.pool.Over)
    (op : Job) : ¬ NoneStranded (worldStep w (.enqueue op)) := by
  have hcount : w.pool.jobCount.toNat = 0 := by
    rw [← cells_length w.pool.operations w.pool.jobCount.toNat]
    exact congrArg List.length hempty
  have hbound : LOAD_BOUND = 1280 := rfl
  have haccept : (jobEnqueue w.pool op).1 = false := by
    rw [Bool.eq_false_iff, ne_eq, (jobEnqueue_refuses h op).1]
    omega
  obtain ⟨-,-,hqueue⟩ := jobEnqueue_accepts h op haccept
  have hstill : (worldStep w (.enqueue op)).pool.Over := by
    rw [Pool.Over, show (worldStep w (.enqueue op)).pool.workers = w.pool.workers from jobEnqueue_workers w.pool op]
    exact hover
  intro hnone
  have hleft : queue (jobEnqueue w.pool op).2 = [] := (hnone hstill).1
  rw [hqueue, hempty] at hleft
  cases hleft

/-- Run lemma: a timely run ends with an empty queue. -/
private theorem timely_drains {events : List Event} (h : Along worldStep Timely .start events) :
    NoneStranded (after events) := by
  have hinv : (after events).Exact ∧ ((after events).pool.Over → queue (after events).pool = []) := by
    refine Along.history (P := fun _ w => w.Exact ∧ (w.pool.Over → queue w.pool = [])) ?_ ?_ h
    · exact ⟨after_exact [],fun hover => absurd rfl hover.1.choose_spec⟩
    · intro inputs e hw ht
      refine ⟨?_,worldStep_over hw.1.within hw.2 ht⟩
      have hnext := after_exact (inputs ++ [e])
      rwa [after, run_snoc] at hnext
  intro hover
  have hqueue := hinv.2 hover
  have hexact := hinv.1.conserves.exact
  rw [hqueue, List.append_nil] at hexact
  exact ⟨hqueue,hexact⟩

/-- In every run, nothing is ever stranded exactly when no job_enqueue takes
the mutex after the last worker has left. -/
theorem shutdown_drains_iff (events : List Event) :
    (∀ before later, events = before ++ later → NoneStranded (after before)) ↔ Along worldStep Timely .start events := by
  constructor
  · intro hnone
    induction events using List.reverseRecOn with
    | nil => trivial
    | append_singleton events e ih =>
      rw [Along.append]
      refine ⟨ih fun before later he => hnone before (later ++ [e]) (by rw [he, List.append_assoc]),?_,trivial⟩
      cases e with
      | create | enter | handled | destroy => trivial
      | enqueue op =>
        intro hover
        have hempty := (hnone events [.enqueue op] rfl hover).1
        refine late_enqueue_stranded (after_exact events).within hempty hover op ?_
        have hlast := hnone (events ++ [.enqueue op]) [] (List.append_nil _).symm
        rwa [after, run_snoc] at hlast
  · rintro htimely before later rfl
    exact timely_drains (Along.append.mp htimely).1

/-- One worker starts, the pool is shut down, the worker leaves, and a job is
enqueued before thread_pool_destroy returns. -/
theorem late_job_stranded : (after [.create 0,.destroy,.enter 0,.enqueue ⟨3,4,5⟩]).pool.Over ∧
    (after [.create 0,.destroy,.enter 0,.enqueue ⟨3,4,5⟩]).log = [.quiet,.quiet,.quiet,.accepted ⟨3,4,5⟩] ∧
    ¬ NoneStranded (after [.create 0,.destroy,.enter 0,.enqueue ⟨3,4,5⟩]) := by
  have hover : (after [.create 0,.destroy,.enter 0,.enqueue ⟨3,4,5⟩]).pool.Over := by
    refine ⟨⟨0,nofun⟩,fun w => ?_⟩
    cases w with
    | zero => exact Or.inr rfl
    | succ w => exact Or.inl rfl
  refine ⟨hover,rfl,fun h => ?_⟩
  cases (h hover).1

end LazyTcp.ThreadPool
