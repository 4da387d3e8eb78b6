import Mathlib.Tactic
import VectorTick.Concurrency.WorkerPool

/-! Runs of the worker pool: which threads exist, which commands have been executed
when `wait_all` returns, which workers are alive after a restart, and whether `stop`
can get its commands through. -/

set_option autoImplicit false

namespace VectorTick

open Foundation

namespace WorkerPool

variable {config : PoolConfig} {pool next : WorkerPool} {action : PoolAction}
  {running : Bool} {worker after : Worker}

def threads (pool : WorkerPool) (i : Nat) : Thread := (pool.workers i).thread

@[simp] theorem running_setWorker (i : Nat) :
    (pool.setWorker i worker).running = pool.running := rfl

@[simp] theorem controller_setWorker (i : Nat) :
    (pool.setWorker i worker).controller = pool.controller := rfl

theorem threads_setWorker (i : Nat) :
    (pool.setWorker i worker).threads = Function.update pool.threads i worker.thread := by
  funext j
  by_cases same : j = i
  · subst same
    simp [threads, setWorker]
  · simp [threads, setWorker, same]

theorem threads_setWorker_self {i : Nat} (same : worker.thread = (pool.workers i).thread) :
    (pool.setWorker i worker).threads = pool.threads := by
  rw [threads_setWorker, same]
  exact Function.update_eq_self i pool.threads

theorem thread_tryPush (command : WorkerCommand) :
    (worker.tryPush config command).thread = worker.thread := by
  unfold Worker.tryPush
  split <;> rfl

theorem forall_setWorker {holds : Nat → Worker → Prop} {i : Nat}
    (others : ∀ j, holds j (pool.workers j))
    (new : holds i worker) : ∀ j, holds j ((pool.setWorker i worker).workers j) := by
  intro j
  by_cases same : j = i
  · subst same
    simpa [setWorker] using new
  · simpa [setWorker, same] using others j

def Phase (running : Bool) (threads : Nat → Thread) : Controller → Prop
  | .starting k => running = true ∧ ∀ i, k ≤ i → threads i = .absent
  | .stopping _ => running = false
  | .joining k => running = false ∧ ∀ i < k, threads i = .left
  | _ => running = false → ∀ i, threads i = .absent

structure Lifecycle (config : PoolConfig) (pool : WorkerPool) : Prop where
  outside : ∀ i, config.numWorkers ≤ i → pool.threads i = .absent
  phase : Phase pool.running pool.threads pool.controller

theorem WorkerMoves.ne_absent (moved : WorkerMoves running worker after) :
    worker.thread ≠ .absent := by
  cases moved <;> simp_all

theorem WorkerMoves.ne_left (moved : WorkerMoves running worker after) : worker.thread ≠ .left := by
  cases moved <;> simp_all

theorem phase_update {threads : Nat → Thread} {controller : Controller} {i : Nat} (thread : Thread)
    (held : Phase running threads controller) (present : threads i ≠ .absent)
    (inLoop : threads i ≠ .left) :
    Phase running (Function.update threads i thread) controller := by
  cases controller with
  | starting k =>
    refine ⟨held.1, fun j far => ?_⟩
    have other : j ≠ i := fun same => present (same ▸ held.2 j far)
    rw [Function.update_of_ne other]
    exact held.2 j far
  | stopping k => exact held
  | joining k =>
    refine ⟨held.1, fun j below => ?_⟩
    have other : j ≠ i := fun same => inLoop (same ▸ held.2 j below)
    rw [Function.update_of_ne other]
    exact held.2 j below
  | idle => exact fun stopped => absurd (held stopped i) present
  | waitingCommands k => exact fun stopped => absurd (held stopped i) present
  | waitingResults k => exact fun stopped => absurd (held stopped i) present
  | waitedAll => exact fun stopped => absurd (held stopped i) present

theorem lifecycle_initial : Lifecycle config initial :=
  ⟨fun _ _ => rfl, fun _ _ => rfl⟩

theorem lifecycle_moves (held : Lifecycle config pool) (moved : Moves config pool action next) :
    Lifecycle config next := by
  obtain ⟨outside, phase⟩ := held
  cases moved with
  | @worker i after below stepped =>
    refine ⟨fun j far => ?_, ?_⟩
    · rw [threads_setWorker, Function.update_of_ne (by omega)]
      exact outside j far
    · rw [threads_setWorker]
      exact phase_update _ phase stepped.ne_absent stepped.ne_left
  | unchanged => exact ⟨outside, phase⟩
  | @sent i command idle below =>
    have same := @threads_setWorker_self pool _ i (@thread_tryPush config (pool.workers i) command)
    exact ⟨by rwa [same], by rwa [same]⟩
  | @received i idle below =>
    have same :=
      @threads_setWorker_self pool
      { pool.workers i with results := (pool.workers i).results.tail } i rfl
    exact ⟨by rwa [same], by rwa [same]⟩
  | calledStart work idle stopped =>
    rw [idle] at phase
    exact ⟨outside, rfl, fun i _ => phase stopped i⟩
  | calledStop idle running => exact ⟨outside, rfl⟩
  | calledWaitAll idle =>
    rw [idle] at phase
    exact ⟨outside, phase⟩
  | @spawned i here below =>
    rw [here] at phase
    have now : threads { pool.setWorker i
        { pool.workers i with thread := .loop } with controller := .starting (i + 1) } =
        Function.update pool.threads i .loop := threads_setWorker i
    refine ⟨fun j far => ?_, phase.1, fun j far => ?_⟩
    · rw [now, Function.update_of_ne (by omega)]
      exact outside j far
    · rw [now, Function.update_of_ne (by omega)]
      exact phase.2 j (by omega)
  | started here all =>
    rw [here] at phase
    exact ⟨outside, fun stopped => absurd phase.1 (by rw [stopped]; decide)⟩
  | @told i here below room =>
    rw [here] at phase
    have same : threads { pool.setWorker i ((pool.workers i).tryPush config stopCommand) with
        controller := .stopping (i + 1) } = pool.threads :=
          threads_setWorker_self (thread_tryPush stopCommand)
    exact ⟨by rwa [same], phase⟩
  | toldAll here all =>
    rw [here] at phase
    exact ⟨outside, phase, fun i below => absurd below (Nat.not_lt_zero i)⟩
  | @joined k here below gone =>
    rw [here] at phase
    refine ⟨outside, phase.1, fun i low => ?_⟩
    rcases Nat.lt_succ_iff_lt_or_eq.mp low with lower | rfl
    · exact phase.2 i lower
    · exact gone
  | joinedAll here all => exact ⟨fun _ _ => rfl, fun _ _ => rfl⟩
  | drained here below empty =>
    rw [here] at phase
    exact ⟨outside, phase⟩
  | drainedAll here all =>
    rw [here] at phase
    exact ⟨outside, phase⟩
  | consumed here below empty =>
    rw [here] at phase
    exact ⟨outside, phase⟩
  | consumedAll here all =>
    rw [here] at phase
    exact ⟨outside, phase⟩
  | returned here =>
    rw [here] at phase
    exact ⟨outside, phase⟩

def inHand : Thread → List WorkerCommand
  | .executing command => [command]
  | _ => []

/-- Every command that was sent has been executed, is being executed or is still queued. -/
def Accounted (worker : Worker) : Prop :=
  worker.sent = worker.executed ++ inHand worker.thread ++ worker.commands

/-- The worker has nothing to do. -/
def Finished (worker : Worker) : Prop := inHand worker.thread = [] ∧ worker.commands = []

/-- The number of workers whose queues `wait_all` has found empty. -/
def seenEmpty (config : PoolConfig) : Controller → Nat
  | .waitingCommands i => i
  | .waitingResults _ | .waitedAll => config.numWorkers
  | _ => 0

structure Waited (config : PoolConfig) (pool : WorkerPool) : Prop where
  lifecycle : Lifecycle config pool
  accounted : ∀ i, Accounted (pool.workers i)
  finished : ∀ i < seenEmpty config pool.controller, Finished (pool.workers i)

/-- At the step of `wait_all` that finds a worker's command queue empty, that worker
is not executing a command. -/
def FindsRested (config : PoolConfig) (pool : WorkerPool) (action : PoolAction) : Prop :=
  match action, pool.controller with
  | .controller, .waitingCommands i =>
    i < config.numWorkers → (pool.workers i).commands = [] → inHand (pool.workers i).thread = []
  | _, _ => True

instance : Decidable (FindsRested config pool action) :=
  match action with
  | .controller =>
    match controller : pool.controller with
    | .waitingCommands i => decidable_of_iff
        (i < config.numWorkers → (pool.workers i).commands = [] →
          inHand (pool.workers i).thread = [])
        (by simp only [FindsRested, controller])
    | .idle | .starting _ | .stopping _ | .joining _ | .waitingResults _ | .waitedAll =>
      isTrue (by simp only [FindsRested, controller])
  | .send _ _ | .receive _ | .callStart _ | .callStop | .callWaitAll | .worker _ => isTrue trivial

theorem accounted_moves (held : Accounted worker) (moved : WorkerMoves running worker after) :
    Accounted after := by
  unfold Accounted at held ⊢
  cases moved with
  | finished result here => simpa [here, inHand] using held
  | stopped here popped isStop => simpa [here, popped, inHand] using held
  | took here popped isWork => simpa [here, popped, inHand] using held
  | entered here => simpa [here, inHand] using held
  | leftLoop here => simpa [here, inHand] using held
  | foundNone here => simpa [here, inHand] using held
  | published here => simpa [here, inHand] using held
  | blocked here => simpa [here, inHand] using held
  | retried here => simpa [here, inHand] using held
  | gaveUp here => simpa [here, inHand] using held

theorem finished_moves (held : Finished worker) (moved : WorkerMoves running worker after) :
    Finished after := by
  obtain ⟨nothing, empty⟩ := held
  cases moved with
  | finished result here => simp [here, inHand] at nothing
  | stopped here popped isStop => simp [popped] at empty
  | took here popped isWork => simp [popped] at empty
  | _ => exact ⟨rfl, empty⟩

theorem accounted_tryPush (held : Accounted worker) (command : WorkerCommand) :
    Accounted (worker.tryPush config command) := by
  unfold Accounted at held
  unfold Worker.tryPush
  split
  case isTrue => simp [Accounted, held]
  case isFalse => exact held

theorem accounted_thread {thread : Thread} (held : Accounted worker)
    (before : inHand worker.thread = [])
    (now : inHand thread = []) : Accounted { worker with thread := thread } := by
  unfold Accounted at held ⊢
  rw [held, before]
  exact congrArg (fun taken => worker.executed ++ taken ++ worker.commands) now.symm

theorem waited_initial : Waited config initial :=
  ⟨lifecycle_initial, fun _ => rfl, fun i below => absurd below (Nat.not_lt_zero i)⟩

theorem waited_moves (held : Waited config pool) (rested : FindsRested config pool action)
    (moved : Moves config pool action next) : Waited config next := by
  have lifecycle := lifecycle_moves held.lifecycle moved
  obtain ⟨⟨outside, phase⟩, accounted, finished⟩ := held
  cases moved with
  | @worker i after below stepped =>
    refine ⟨lifecycle, forall_setWorker accounted (accounted_moves (accounted i) stepped), ?_⟩
    -- A worker that has finished stays so, whichever worker it is that moves.
    exact @forall_setWorker pool after (fun j worker => j < seenEmpty config pool.controller →
      Finished worker) i
      finished fun low => finished_moves (finished i low) stepped
  | unchanged => exact ⟨lifecycle, accounted, finished⟩
  | @sent i command idle below =>
    refine ⟨lifecycle, forall_setWorker accounted (accounted_tryPush (accounted i) command),
      fun j low => ?_⟩
    rw [controller_setWorker, idle] at low
    exact absurd low (Nat.not_lt_zero j)
  | @received i idle below =>
    refine ⟨lifecycle, @forall_setWorker pool _ (fun _ => Accounted) i accounted (accounted i),
      fun j low => ?_⟩
    rw [controller_setWorker, idle] at low
    exact absurd low (Nat.not_lt_zero j)
  | calledStart work idle stopped =>
    exact ⟨lifecycle, accounted, fun j low => absurd low (Nat.not_lt_zero j)⟩
  | calledStop idle running =>
    exact ⟨lifecycle, accounted, fun j low => absurd low (Nat.not_lt_zero j)⟩
  | calledWaitAll idle => exact ⟨lifecycle, accounted, fun j low => absurd low (Nat.not_lt_zero j)⟩
  | @spawned i here below =>
    rw [here] at phase
    have absent : (pool.workers i).thread = .absent := phase.2 i (Nat.le_refl i)
    refine ⟨lifecycle, ?_, fun j low => absurd low (Nat.not_lt_zero j)⟩
    exact @forall_setWorker pool _ (fun _ => Accounted) i accounted
      (accounted_thread (accounted i) (by rw [absent]; rfl) rfl)
  | started here all => exact ⟨lifecycle, accounted, fun j low => absurd low (Nat.not_lt_zero j)⟩
  | @told i here below room =>
    refine ⟨lifecycle, ?_, fun j low => absurd low (Nat.not_lt_zero j)⟩
    exact @forall_setWorker pool _ (fun _ => Accounted) i accounted
      (accounted_tryPush (accounted i) stopCommand)
  | toldAll here all => exact ⟨lifecycle, accounted, fun j low => absurd low (Nat.not_lt_zero j)⟩
  | joined here below gone =>
    exact ⟨lifecycle, accounted, fun j low => absurd low (Nat.not_lt_zero j)⟩
  | @joinedAll k here all =>
    rw [here] at phase
    refine ⟨lifecycle, fun j => ?_, fun j low => absurd low (Nat.not_lt_zero j)⟩
    -- The threads that go away have left their loop.
    have nothing : inHand (pool.workers j).thread = [] := by
      by_cases low : j < k
      · have gone : (pool.workers j).thread = .left := phase.2 j low
        rw [gone]
        rfl
      · have absent : (pool.workers j).thread = .absent := outside j (by omega)
        rw [absent]
        rfl
    exact accounted_thread (accounted j) nothing rfl
  | @drained i here below empty =>
    refine ⟨lifecycle, accounted, fun j low => ?_⟩
    rw [here] at finished
    rcases Nat.lt_succ_iff_lt_or_eq.mp low with lower | rfl
    · exact finished j lower
    · unfold FindsRested at rested
      rw [here] at rested
      exact ⟨rested below empty, empty⟩
  | @drainedAll i here all =>
    rw [here] at finished
    exact ⟨lifecycle, accounted, fun j low => finished j (Nat.lt_of_lt_of_le low all)⟩
  | consumed here below empty =>
    rw [here] at finished
    exact ⟨lifecycle, accounted, finished⟩
  | consumedAll here all =>
    rw [here] at finished
    exact ⟨lifecycle, accounted, finished⟩
  | returned here => exact ⟨lifecycle, accounted, fun j low => absurd low (Nat.not_lt_zero j)⟩

/-- When `wait_all` returns after a run in which it never found the queue of a busy worker empty,
all commands sent so far have been executed. -/
theorem wait_all_waits {config : PoolConfig} {actions : List PoolAction} {final : WorkerPool}
    (rested : Meets (step config) (FindsRested config) actions initial)
    (ran : runs (step config) actions initial = some final)
    (returns : final.controller = .waitedAll) :
    ∀ i < config.numWorkers, (final.workers i).executed = (final.workers i).sent := by
  have held : Waited config final :=
    runs_meets (fun before condition stepped => waited_moves before condition (step_moves stepped))
      waited_initial rested ran
  intro i below
  obtain ⟨nothing, empty⟩ := held.finished i (by rw [returns]; exact below)
  have account := held.accounted i
  unfold Accounted at account
  rw [nothing, empty, List.append_nil, List.append_nil] at account
  exact account.symm

def segmentCommand : WorkerCommand := ⟨.processSegment, 7, 0, 0⟩

def startAndSend : List PoolAction :=
  [.callStart none, .controller, .controller, .send 0 segmentCommand]

def patientSchedule : List PoolAction :=
  startAndSend ++ [.worker 0, .worker 0, .worker 0, .worker 0, .receive 0, .callWaitAll,
    .controller, .controller, .controller, .controller]

def hastySchedule : List PoolAction :=
  startAndSend ++ [.worker 0, .worker 0, .callWaitAll, .controller, .controller,
    .controller, .controller]

theorem wait_all_waits_patient :
    ∃ final, runs (step ⟨1, 1⟩) patientSchedule initial = some final ∧
      final.controller = .waitedAll ∧
      (final.workers 0).sent = [segmentCommand] ∧
        (final.workers 0).executed = (final.workers 0).sent := by
  refine ⟨_, rfl, rfl, rfl, ?_⟩
  exact wait_all_waits
    (by decide : Meets (step ⟨1, 1⟩) (FindsRested ⟨1, 1⟩) patientSchedule initial) rfl rfl 0
    (by decide)

/-- `wait_all` may return while a command is still being executed. -/
theorem wait_all_returns_early :
    ¬ ∀ (config : PoolConfig) (actions : List PoolAction) (final : WorkerPool),
      runs (step config) actions initial = some final → final.controller = .waitedAll →
        ∀ i < config.numWorkers, (final.workers i).executed = (final.workers i).sent := by
  intro claim
  have same := claim ⟨1, 1⟩ hastySchedule _ rfl rfl 0 (by decide)
  exact absurd same (by decide)

/-- No Stop command is queued for the worker. -/
def Unstopped (worker : Worker) : Prop := ∀ command ∈ worker.commands, command.type ≠ .stop

instance : Decidable (Unstopped worker) :=
  inferInstanceAs (Decidable (∀ command ∈ worker.commands, command.type ≠ .stop))

/-- A start that is not ignored finds no Stop command in a queue, and none is
queued by hand in a running pool. -/
def StartsClean (config : PoolConfig) (pool : WorkerPool) : PoolAction → Prop
  | .callStart _ => pool.running = false → ∀ i < config.numWorkers, Unstopped (pool.workers i)
  | .send i command => pool.running = true → i < config.numWorkers →
      (pool.workers i).commands.length < config.capacity → command.type ≠ .stop
  | _ => True

instance : Decidable (StartsClean config pool action) :=
  match action with
  | .callStart _ => inferInstanceAs
      (Decidable (pool.running = false → ∀ i < config.numWorkers, Unstopped (pool.workers i)))
  | .send i command => inferInstanceAs (Decidable (pool.running = true → i < config.numWorkers →
      (pool.workers i).commands.length < config.capacity → command.type ≠ .stop))
  | .receive _ | .callStop | .callWaitAll | .controller | .worker _ => isTrue trivial

/-- The worker is in its loop, or not yet started, and nothing tells it to stop. -/
def Alive (worker : Worker) : Prop := worker.thread ≠ .left ∧ Unstopped worker

structure Restarted (config : PoolConfig) (pool : WorkerPool) : Prop where
  lifecycle : Lifecycle config pool
  alive : pool.running = true → ∀ i, i < config.numWorkers → Alive (pool.workers i)

theorem alive_moves (held : Alive worker) (moved : WorkerMoves true worker after) :
    Alive after := by
  obtain ⟨inLoop, unstopped⟩ := held
  cases moved with
  | leftLoop here stopped => cases stopped
  | gaveUp here stopped => cases stopped
  | @stopped command rest here popped isStop =>
    exact absurd isStop (unstopped command (by rw [popped]; exact List.mem_cons_self))
  | @took command rest here popped isWork =>
    refine ⟨by simp, fun other queued => unstopped other ?_⟩
    rw [popped]
    exact List.mem_cons_of_mem command queued
  | _ => exact ⟨by simp, unstopped⟩

theorem unstopped_tryPush {command : WorkerCommand} (held : Unstopped worker)
    (isWork : worker.commands.length < config.capacity → command.type ≠ .stop) :
    Unstopped (worker.tryPush config command) := by
  unfold Worker.tryPush
  split
  case isTrue room =>
    intro other queued
    rcases List.mem_append.mp queued with earlier | new
    · exact held other earlier
    · rw [List.mem_singleton.mp new]
      exact isWork room
  case isFalse => exact held

theorem restarted_initial : Restarted config initial :=
  ⟨lifecycle_initial, fun running => by cases running⟩

theorem restarted_moves (held : Restarted config pool) (clean : StartsClean config pool action)
    (moved : Moves config pool action next) : Restarted config next := by
  have lifecycle := lifecycle_moves held.lifecycle moved
  obtain ⟨⟨outside, phase⟩, alive⟩ := held
  cases moved with
  | @worker i after below stepped =>
    refine ⟨lifecycle, fun running => ?_⟩
    rw [running_setWorker] at running
    rw [running] at stepped
    exact @forall_setWorker pool after (fun j worker => j < config.numWorkers →
      Alive worker) i (alive running)
      fun low => alive_moves (alive running i low) stepped
  | @sent i command idle below =>
    refine ⟨lifecycle, fun running => ?_⟩
    have ⟨inLoop, unstopped⟩ := alive running i below
    refine @forall_setWorker pool _ (fun j worker => j < config.numWorkers →
      Alive worker) i (alive running) ?_
    exact fun _ => ⟨by rwa [thread_tryPush], unstopped_tryPush unstopped (clean running below)⟩
  | @received i idle below =>
    refine ⟨lifecycle, fun running => ?_⟩
    exact @forall_setWorker pool _ (fun j worker => j < config.numWorkers →
      Alive worker) i (alive running)
      (alive running i)
  | calledStart work idle stopped =>
    refine ⟨lifecycle, fun _ i below => ⟨?_, clean stopped i below⟩⟩
    -- Between a stop and a start there are no threads.
    rw [idle] at phase
    have absent : (pool.workers i).thread = .absent := phase stopped i
    rw [absent]
    decide
  | calledStop idle running => exact ⟨lifecycle, fun running => by cases running⟩
  | @spawned i here below =>
    refine ⟨lifecycle, fun running => ?_⟩
    refine @forall_setWorker pool _ (fun j worker => j < config.numWorkers →
      Alive worker) i (alive running) ?_
    exact fun _ => ⟨by simp, (alive running i below).2⟩
  | @told i here below room =>
    rw [here] at phase
    exact ⟨lifecycle, fun running => absurd (phase.symm.trans running) (by decide)⟩
  | @joinedAll k here all =>
    rw [here] at phase
    exact ⟨lifecycle, fun running => absurd (phase.1.symm.trans running) (by decide)⟩
  | _ => exact ⟨lifecycle, alive⟩

/-- In a run whose starts all find the queues free of Stop commands, no worker of a
running pool has left its loop. -/
theorem restart_keeps_workers {config : PoolConfig} {actions : List PoolAction} {final : WorkerPool}
    (clean : Meets (step config) (StartsClean config) actions initial)
    (ran : runs (step config) actions initial = some final) (running : final.running = true) :
    ∀ i < config.numWorkers, (final.workers i).thread ≠ .left := by
  have held : Restarted config final :=
    runs_meets
      (fun before condition stepped => restarted_moves before condition (step_moves stepped))
      restarted_initial clean ran
  exact fun i below => (held.alive running i below).1

def cleanRestart : List PoolAction :=
  [.callStart none, .controller, .controller, .worker 0, .callStop,
    .controller, .controller, .worker 0,
    .controller, .controller, .callStart none, .controller, .controller, .worker 0, .worker 0]

/-- The worker leaves on the flag, so its Stop command is still queued when it is started again. -/
def staleRestart : List PoolAction :=
  [.callStart none, .controller, .controller, .callStop, .worker 0, .controller, .controller,
    .controller, .controller,
    .callStart none, .controller, .controller, .worker 0, .worker 0]

theorem restart_keeps_workers_clean :
    ∃ final, runs (step ⟨1, 1⟩) cleanRestart initial = some final ∧ final.running = true ∧
      (final.workers 0).thread ≠ .left := by
  refine ⟨_, rfl, rfl, ?_⟩
  exact restart_keeps_workers
    (by decide : Meets (step ⟨1, 1⟩) (StartsClean ⟨1, 1⟩) cleanRestart initial) rfl rfl 0
    (by decide)

/-- A worker may find the Stop command of an earlier stop. -/
theorem restart_loses_worker :
    ¬ ∀ (config : PoolConfig) (actions : List PoolAction) (final : WorkerPool),
      runs (step config) actions initial = some final → final.running = true →
        ∀ i < config.numWorkers, (final.workers i).thread ≠ .left := by
  intro claim
  exact claim ⟨1, 1⟩ staleRestart _ rfl rfl 0 (by decide) rfl

/-- A Stop command can be pushed, or the worker is about to pop. -/
def Reachable (config : PoolConfig) (worker : Worker) : Prop :=
  worker.commands.length < config.capacity ∨ worker.thread = .popping

instance : Decidable (Reachable config worker) :=
  inferInstanceAs (Decidable (worker.commands.length < config.capacity ∨ worker.thread = .popping))

/-- A stop that is not ignored finds every queue with room or its worker about to pop from it. -/
def StopsOpen (config : PoolConfig) (pool : WorkerPool) : PoolAction → Prop
  | .callStop => pool.running = true → ∀ i < config.numWorkers, Reachable config (pool.workers i)
  | _ => True

instance : Decidable (StopsOpen config pool action) :=
  match action with
  | .callStop => inferInstanceAs
      (Decidable (pool.running = true → ∀ i < config.numWorkers, Reachable config (pool.workers i)))
  | .send _ _ | .callStart _ | .receive _ | .callWaitAll | .controller | .worker _ => isTrue trivial

def firstUntold (config : PoolConfig) : Controller → Nat
  | .stopping k => k
  | _ => config.numWorkers

structure Stoppable (config : PoolConfig) (pool : WorkerPool) : Prop where
  bounded : ∀ i, (pool.workers i).commands.length ≤ config.capacity
  reachable : ∀ i, firstUntold config pool.controller ≤ i → i < config.numWorkers →
    Reachable config (pool.workers i)

theorem bounded_moves (held : worker.commands.length ≤ config.capacity)
    (moved : WorkerMoves running worker after) :
    after.commands.length ≤ config.capacity := by
  cases moved with
  | stopped here popped isStop =>
    rw [popped, List.length_cons] at held
    exact Nat.le_of_succ_le held
  | took here popped isWork =>
    rw [popped, List.length_cons] at held
    exact Nat.le_of_succ_le held
  | _ => exact held

theorem bounded_tryPush (held : worker.commands.length ≤ config.capacity)
    (command : WorkerCommand) :
    (worker.tryPush config command).commands.length ≤ config.capacity := by
  unfold Worker.tryPush
  split
  case isTrue room =>
    rw [List.length_append]
    exact room
  case isFalse => exact held

theorem reachable_moves (positive : 1 ≤ config.capacity)
    (bounded : worker.commands.length ≤ config.capacity)
    (held : Reachable config worker) (moved : WorkerMoves running worker after) :
    Reachable config after := by
  cases moved with
  | foundNone here empty =>
    refine .inl ?_
    change worker.commands.length < config.capacity
    rw [empty]
    exact positive
  | stopped here popped isStop =>
    rw [popped, List.length_cons] at bounded
    exact .inl bounded
  | took here popped isWork =>
    rw [popped, List.length_cons] at bounded
    exact .inl bounded
  | entered here =>
    exact held.imp id fun popping => rfl
  | finished result here =>
    exact held.imp id fun popping => absurd (here.symm.trans popping) (by simp)
  | _ here =>
    exact held.imp id fun popping => absurd (here.symm.trans popping) (by simp)

theorem stoppable_initial : Stoppable config initial :=
  ⟨fun _ => Nat.zero_le _, fun i untold below => absurd (Nat.lt_of_lt_of_le below untold)
    (Nat.lt_irrefl i)⟩

/-- When `stop` is not pushing its commands, nothing is asked of the queues but their bound. -/
theorem stoppable_of_bounded (bounded : ∀ i, (pool.workers i).commands.length ≤ config.capacity)
    (elsewhere : firstUntold config pool.controller = config.numWorkers) :
    Stoppable config pool := by
  refine ⟨bounded, fun i untold below => ?_⟩
  rw [elsewhere] at untold
  exact absurd below (Nat.not_lt_of_le untold)

theorem stoppable_moves (positive : 1 ≤ config.capacity) (held : Stoppable config pool)
    (condition : StopsOpen config pool action) (moved : Moves config pool action next) :
    Stoppable config next := by
  obtain ⟨bounded, reachable⟩ := held
  cases moved with
  | @worker i after below stepped =>
    refine ⟨@forall_setWorker pool after (fun _ worker => worker.commands.length ≤
      config.capacity) i bounded
      (bounded_moves (bounded i) stepped), ?_⟩
    exact @forall_setWorker pool after (fun j worker => firstUntold config pool.controller ≤ j →
      j < config.numWorkers → Reachable config worker) i reachable
      fun untold low => reachable_moves positive (bounded i) (reachable i untold low) stepped
  | unchanged => exact ⟨bounded, reachable⟩
  | @sent i command idle below =>
    refine stoppable_of_bounded ?_ (by rw [controller_setWorker, idle]; rfl)
    exact @forall_setWorker pool _ (fun _ worker => worker.commands.length ≤
      config.capacity) i bounded
      (bounded_tryPush (bounded i) command)
  | @received i idle below =>
    refine stoppable_of_bounded ?_ (by rw [controller_setWorker, idle]; rfl)
    exact @forall_setWorker pool _ (fun _ worker => worker.commands.length ≤
      config.capacity) i bounded (bounded i)
  | calledStop idle running => exact ⟨bounded, fun i _ below => condition running i below⟩
  | @spawned i here below =>
    refine stoppable_of_bounded ?_ rfl
    exact @forall_setWorker pool _ (fun _ worker => worker.commands.length ≤
      config.capacity) i bounded (bounded i)
  | @told i here below room =>
    refine ⟨@forall_setWorker pool _ (fun _ worker => worker.commands.length ≤
      config.capacity) i bounded
      (bounded_tryPush (bounded i) stopCommand), fun j untold low => ?_⟩
    -- The workers still to be told are not the one that has been.
    change i + 1 ≤ j at untold
    rw [here] at reachable
    have other : j ≠ i := by omega
    change Reachable config (Function.update pool.workers i _ j)
    rw [Function.update_of_ne other]
    exact reachable j (Nat.le_of_succ_le untold) low
  | _ => exact stoppable_of_bounded bounded rfl

/-- In a run whose stops all find the queues with room or the workers about to pop, every worker
that `stop` has still to tell can be told. -/
theorem stop_not_stranded {config : PoolConfig} (positive : 1 ≤ config.capacity)
    {actions : List PoolAction}
    {final : WorkerPool} (ready : Meets (step config) (StopsOpen config) actions initial)
    (ran : runs (step config) actions initial = some final) {k : Nat}
    (stopping : final.controller = .stopping k) :
    ∀ i, k ≤ i → i < config.numWorkers →
      (final.workers i).commands.length < config.capacity ∨ (final.workers i).thread ≠ .left := by
  have held : Stoppable config final :=
    runs_meets (fun before condition stepped =>
      stoppable_moves positive before condition (step_moves stepped))
      stoppable_initial ready ran
  intro i untold below
  rcases held.reachable i (by rw [stopping]; exact untold) below with room | popping
  · exact .inl room
  · exact .inr (by rw [popping]; decide)

def openStop : List PoolAction :=
  startAndSend ++ [.worker 0, .callStop, .worker 0, .worker 0, .worker 0, .worker 0]

def strandedStop : List PoolAction := startAndSend ++ [.callStop, .worker 0]

theorem stop_not_stranded_open :
    ∃ final, runs (step ⟨1, 1⟩) openStop initial = some final ∧ final.controller = .stopping 0 ∧
      ((final.workers 0).commands.length < 1 ∨ (final.workers 0).thread ≠ .left) := by
  refine ⟨_, rfl, rfl, ?_⟩
  exact @stop_not_stranded ⟨1, 1⟩ (by decide) _ _
    (by decide : Meets (step ⟨1, 1⟩) (StopsOpen ⟨1, 1⟩) openStop initial) rfl 0 rfl 0
      (by decide) (by decide)

/-- `stop` may be left pushing to a full queue that nobody empties any more. -/
theorem stop_stranded :
    ¬ ∀ (config : PoolConfig) (actions : List PoolAction) (final : WorkerPool) (k : Nat), 1 ≤
      config.capacity →
      runs (step config) actions initial = some final → final.controller = .stopping k →
        ∀ i, k ≤ i → i < config.numWorkers →
          (final.workers i).commands.length < config.capacity ∨
            (final.workers i).thread ≠ .left := by
  intro claim
  rcases claim ⟨1, 1⟩ strandedStop _ 0 (by decide) rfl rfl 0 (by decide)
    (by decide) with room | inLoop
  · exact absurd room (by decide)
  · exact inLoop rfl

end WorkerPool

end VectorTick
