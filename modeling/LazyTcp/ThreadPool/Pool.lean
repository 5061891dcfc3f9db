import LazyTcp.General.Fifo
import LazyTcp.General.Run

/-! The job queue and its workers. Every critical section under mutex_queue is
one step; which thread takes the mutex next is up to the run. A waiting worker
may enter again at any time, signalled or not. -/
namespace LazyTcp.ThreadPool
open General General.Fifo

structure Job where
  hostFd : Int
  clientFd : Int
  kq : Int
  deriving DecidableEq, Repr

def LOAD_BOUND : Int := 1280

/-- Where a worker is between two critical sections. The job it handles is
uninitialised when it left the section without taking one. -/
inductive Phase where
  | notStarted
  | ready
  | waiting
  | handling (job : Option Job)
  | left
  deriving DecidableEq, Repr

structure Pool where
  operations : Nat → Job
  jobCount : Int
  shutdown : Bool
  workers : Nat → Phase

/-- The globals as the program starts with them. -/
def Pool.start : Pool := ⟨fun _ => ⟨0,0,0⟩,0,false,fun _ => .notStarted⟩

def Pool.setWorker (p : Pool) (w : Nat) (phase : Phase) : Pool :=
  { p with workers := Function.update p.workers w phase }

/-- The result is the busy flag. -/
def jobEnqueue (p : Pool) (op : Job) : Bool × Pool :=
  if p.jobCount < LOAD_BOUND - 1 then
    (false,{ p with operations := Function.update p.operations p.jobCount.toNat op, jobCount := p.jobCount + 1 })
  else (true,p)

/-- The section of thread_pool_start, from taking the mutex at the loop head or
on the way out of pthread_cond_wait to releasing it again. -/
def threadPoolStart (p : Pool) : Pool × Phase :=
  if p.jobCount = 0 ∧ !p.shutdown then (p,.waiting)
  else if p.jobCount > 0 then
    let job := p.operations 0
    let operations := shiftDown p.operations 0 (p.jobCount - 1).toNat
    ({ p with operations := operations, jobCount := p.jobCount - 1 },.handling (some job))
  else if p.shutdown then (p,.left)
  else (p,.handling none)

def threadPoolDestroy (p : Pool) : Pool := { p with shutdown := true }

/-- Who runs next: a caller of job_enqueue, the creation of a worker, a worker
that takes the mutex, a worker that is done with its job, thread_pool_destroy. -/
inductive Event where
  | enqueue (op : Job)
  | create (w : Nat)
  | enter (w : Nat)
  | handled (w : Nat)
  | destroy

/-- One step and what the callers see of it; a thread that cannot run leaves
everything as it is. -/
def poolStep (p : Pool) : Event → Pool × Observation Job
  | .enqueue op =>
    let (busy,p) := jobEnqueue p op
    (p,if busy then .refused op else .accepted op)
  | .create w => if p.workers w = .notStarted then (p.setWorker w .ready,.quiet) else (p,.quiet)
  | .enter w =>
    if p.workers w = .ready ∨ p.workers w = .waiting then
      let (p,phase) := threadPoolStart p
      (p.setWorker w phase,match phase with | .handling (some job) => .handed job | _ => .quiet)
    else (p,.quiet)
  | .handled w =>
    match p.workers w with
    | .handling _ => (p.setWorker w .ready,.quiet)
    | _ => (p,.quiet)
  | .destroy => (threadPoolDestroy p,.quiet)

/-- The pool with the log of what its callers saw. -/
structure World where
  pool : Pool
  log : List (Observation Job)

def World.start : World := ⟨.start,[]⟩

def worldStep (w : World) (e : Event) : World := ⟨(poolStep w.pool e).1,w.log ++ [(poolStep w.pool e).2]⟩

/-- The pool and the log after a run from the start of the program. -/
def after (events : List Event) : World := run worldStep .start events

/-- The jobs in operations[0..job_count). -/
def queue (p : Pool) : List Job := cells p.operations p.jobCount.toNat

@[simp] theorem setWorker_same (p : Pool) (w : Nat) (phase : Phase) : (p.setWorker w phase).workers w = phase :=
  Function.update_self ..

@[simp] theorem queue_setWorker (p : Pool) (w : Nat) (phase : Phase) : queue (p.setWorker w phase) = queue p := rfl

/-- The queue is within the array, with the one cell job_enqueue never fills left over. -/
structure Pool.Within (p : Pool) : Prop where
  nonneg : 0 ≤ p.jobCount
  bound : p.jobCount ≤ LOAD_BOUND - 1

section Sections
variable {p : Pool} (h : p.Within)
include h

/-- job_enqueue refuses exactly when the queue is full, and leaves it alone then. -/
theorem jobEnqueue_refuses (op : Job) : ((jobEnqueue p op).1 = true ↔ p.jobCount = LOAD_BOUND - 1) ∧
    ((jobEnqueue p op).1 = true → (jobEnqueue p op).2 = p) := by
  have hmax := h.bound
  unfold jobEnqueue
  split
  case isTrue hlt => exact ⟨⟨nofun,fun e => absurd e (by omega)⟩,nofun⟩
  case isFalse hge => exact ⟨⟨fun _ => by omega,fun _ => rfl⟩,fun _ => rfl⟩

theorem jobEnqueue_accepts (op : Job) (ha : (jobEnqueue p op).1 = false) :
    (jobEnqueue p op).2.Within ∧ p.jobCount < LOAD_BOUND - 1 ∧ queue (jobEnqueue p op).2 = queue p ++ [op] := by
  obtain ⟨h0,-⟩ := h
  unfold jobEnqueue at ha ⊢
  split at ha
  case isFalse => cases ha
  case isTrue hlt =>
    rw [if_pos hlt]
    refine ⟨⟨by simp only; omega,by simp only; omega⟩,hlt,?_⟩
    have hnext : (p.jobCount + 1).toNat = p.jobCount.toNat + 1 := by omega
    rw [queue, hnext, cells_snoc, queue]

/-- A worker that takes the mutex waits on an empty queue, takes the first job,
or leaves an empty queue after shutdown. -/
theorem threadPoolStart_cases :
    (p.jobCount = 0 ∧ p.shutdown = false ∧ threadPoolStart p = (p,.waiting)) ∨
    (p.jobCount = 0 ∧ p.shutdown = true ∧ threadPoolStart p = (p,.left)) ∨
    (0 < p.jobCount ∧ ∃ p', threadPoolStart p = (p',.handling (some (p.operations 0))) ∧ p'.Within ∧
      p'.workers = p.workers ∧ queue p = p.operations 0 :: queue p') := by
  obtain ⟨h0,hmax⟩ := h
  rcases (show p.jobCount = 0 ∨ 0 < p.jobCount by omega) with hc | hc
  · cases hs : p.shutdown with
    | false =>
      left
      refine ⟨hc,rfl,?_⟩
      simp [threadPoolStart, hc, hs]
    | true =>
      right
      left
      refine ⟨hc,rfl,?_⟩
      simp [threadPoolStart, hc, hs]
  · right
    right
    have htake : (p.jobCount - 1).toNat + 1 = p.jobCount.toNat := by omega
    refine ⟨hc,⟨shiftDown p.operations 0 (p.jobCount - 1).toNat,p.jobCount - 1,p.shutdown,p.workers⟩,?_,?_,rfl,?_⟩
    · rw [threadPoolStart, if_neg (by omega), if_pos hc]
    · exact ⟨by simp only; omega,by simp only; omega⟩
    · rw [queue, queue, ← htake, cells_shiftDown]

/-- Step lemma: each step of the pool is one step of a bounded queue. -/
theorem poolStep_fifo (e : Event) : (poolStep p e).1.Within ∧
    Step (LOAD_BOUND - 1).toNat (queue p) (poolStep p e).2 (queue (poolStep p e).1) := by
  have hlen : (queue p).length = p.jobCount.toNat := cells_length _ _
  have hquiet : p.Within ∧ Step (LOAD_BOUND - 1).toNat (queue p) .quiet (queue p) := ⟨h,rfl⟩
  cases e with
  | enqueue op =>
    cases hb : (jobEnqueue p op).1 with
    | false =>
      obtain ⟨hw,hlt,hq⟩ := jobEnqueue_accepts h op hb
      have h0 := h.nonneg
      simp only [poolStep, hb]
      exact ⟨hw,by omega,hq⟩
    | true =>
      have href := jobEnqueue_refuses h op
      have hfull := href.1.mp hb
      simp only [poolStep, hb, href.2 hb]
      exact ⟨h,by rw [hlen, hfull],rfl⟩
  | create w =>
    rw [poolStep]
    split
    · exact ⟨⟨h.nonneg,h.bound⟩,rfl⟩
    · exact hquiet
  | enter w =>
    rw [poolStep]
    split
    case isFalse => exact hquiet
    case isTrue =>
      rcases threadPoolStart_cases h with ⟨-,-,e⟩ | ⟨-,-,e⟩ | ⟨-,p',e,hw,-,hq⟩
      · rw [e]
        exact ⟨⟨h.nonneg,h.bound⟩,rfl⟩
      · rw [e]
        exact ⟨⟨h.nonneg,h.bound⟩,rfl⟩
      · rw [e]
        exact ⟨⟨hw.nonneg,hw.bound⟩,hq⟩
  | handled w =>
    rw [poolStep]
    split
    · exact ⟨⟨h.nonneg,h.bound⟩,rfl⟩
    · exact hquiet
  | destroy => exact ⟨⟨h.nonneg,h.bound⟩,rfl⟩

end Sections

/-- The history invariant of the pool. -/
structure World.Exact (w : World) : Prop where
  within : w.pool.Within
  conserves : Conserves (LOAD_BOUND - 1).toNat w.log (queue w.pool)

/-- Run lemma. -/
theorem after_exact (events : List Event) : (after events).Exact := by
  refine Reachable.invariant (P := World.Exact) ⟨events,rfl⟩ ?_ fun w e h => ?_
  · exact ⟨⟨Int.le_refl _,by decide⟩,.start _⟩
  · obtain ⟨hw,hs⟩ := poolStep_fifo h.within e
    exact ⟨hw,h.conserves.step hs⟩

/-- For every interleaving: what was handed to workers, followed by what is
queued, is what was accepted, in order; the queue stays below the size of the
array, and a job is refused exactly when it is full, without a trace. -/
theorem jobQueue_exactlyOnce (events : List Event) :
    handed (after events).log ++ queue (after events).pool = accepted (after events).log ∧
      0 ≤ (after events).pool.jobCount ∧ (after events).pool.jobCount ≤ LOAD_BOUND - 1 ∧
      ∀ op, ((jobEnqueue (after events).pool op).1 = true ↔ (after events).pool.jobCount = LOAD_BOUND - 1) ∧
        ((jobEnqueue (after events).pool op).1 = true → (jobEnqueue (after events).pool op).2 = (after events).pool) := by
  obtain ⟨hw,hc⟩ := after_exact events
  exact ⟨hc.exact,hw.nonneg,hw.bound,jobEnqueue_refuses hw⟩

end LazyTcp.ThreadPool
