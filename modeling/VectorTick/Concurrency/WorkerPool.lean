import Mathlib.Tactic
import VectorTick.Foundation.Transitions

/-! The worker pool: one controlling thread, any number of workers, and a command and a
result queue for each of them.

A queue operation is one step, and so is every load of the running flag by a worker. The flag is
written by the controlling thread only. A blocking send or receive is a repetition of one that may
fail, and is modelled as such. -/

set_option autoImplicit false

namespace VectorTick

open Foundation

inductive CommandType where
  | stop
  | processSegment
  | processQuery
  | wait
  deriving DecidableEq, Repr

structure WorkerCommand where
  type : CommandType
  segmentId : UInt32
  arg1 : UInt64
  arg2 : UInt64
  deriving DecidableEq, Repr

inductive ResultStatus where
  | success
  | error
  | cancelled
  deriving DecidableEq, Repr

structure WorkerResult where
  status : ResultStatus
  workerId : UInt32
  rowsProcessed : UInt64
  resultHash : UInt64
  deriving DecidableEq, Repr

def stopCommand : WorkerCommand := ⟨.stop, 0, 0, 0⟩

/-- Where a worker thread is in `worker_loop`. -/
inductive Thread where
  -- There is no thread.
  | absent
  -- About to load the flag at the head of the loop.
  | loop
  -- About to pop a command.
  | popping
  | executing (command : WorkerCommand)
  -- About to push the result.
  | publishing (result : WorkerResult)
  -- The push has failed; about to load the flag.
  | retrying (result : WorkerResult)
  -- The loop has been left.
  | left
  deriving DecidableEq, Repr

/-- A worker and its queues, with all commands that were ever put into
its queue and those executed. -/
structure Worker where
  commands : List WorkerCommand
  results : List WorkerResult
  thread : Thread
  sent : List WorkerCommand
  executed : List WorkerCommand
  deriving DecidableEq, Repr

/-- What the controlling thread is doing, with the number of the worker it is at. -/
inductive Controller where
  | idle
  | starting (worker : Nat)
  | stopping (worker : Nat)
  | joining (worker : Nat)
  | waitingCommands (worker : Nat)
  | waitingResults (worker : Nat)
  -- `wait_all` returns.
  | waitedAll
  deriving DecidableEq, Repr

/-- The number of workers and the capacity of their queues. -/
structure PoolConfig where
  numWorkers : Nat
  capacity : Nat
  deriving DecidableEq, Repr

abbrev WorkFunction := UInt32 → WorkerCommand → WorkerResult → WorkerResult

structure WorkerPool where
  running : Bool
  -- An empty `std::function` is `none`.
  workFunction : Option WorkFunction
  workers : Nat → Worker
  controller : Controller

inductive PoolAction where
  | send (worker : Nat) (command : WorkerCommand)
  | receive (worker : Nat)
  | callStart (work : Option WorkFunction)
  | callStop
  | callWaitAll
  -- The controlling thread goes on with what it is doing.
  | controller
  | worker (worker : Nat)

/-- `try_push` on the command queue; it does nothing if the queue is full. -/
def Worker.tryPush (config : PoolConfig) (worker : Worker) (command : WorkerCommand) : Worker :=
  if worker.commands.length < config.capacity then
    { worker with commands := worker.commands ++ [command], sent := worker.sent ++ [command] }
  else worker

namespace WorkerPool

variable (config : PoolConfig)

def initial : WorkerPool := ⟨false, none, fun _ => ⟨[], [], .absent, [], []⟩, .idle⟩

def setWorker (pool : WorkerPool) (i : Nat) (worker : Worker) : WorkerPool :=
  { pool with workers := Function.update pool.workers i worker }

def resultOf (work : Option WorkFunction) (i : Nat) (command : WorkerCommand) : WorkerResult :=
  let result : WorkerResult := ⟨.success, UInt32.ofNat i, 0, 0⟩
  match work with
  | none => result
  | some work => work (UInt32.ofNat i) command result

def workerStep (running : Bool) (work : Option WorkFunction) (i : Nat) (worker : Worker) :
    Option Worker :=
  match worker.thread with
  | .absent | .left => none
  | .loop => some { worker with thread := if running then .popping else .left }
  | .popping =>
    match worker.commands with
    | [] => some { worker with thread := .loop }
    | command :: rest =>
      if command.type = .stop then
        some { worker with commands := rest, thread := .left, executed := worker.executed ++
          [command] }
      else some { worker with commands := rest, thread := .executing command }
  | .executing command => some { worker with
      thread := .publishing (resultOf work i command)
      executed := worker.executed ++ [command] }
  | .publishing result =>
    if worker.results.length < config.capacity then
      some { worker with results := worker.results ++ [result], thread := .loop }
    else some { worker with thread := .retrying result }
  | .retrying result => some { worker with thread := if running then .publishing result else .left }

def controllerStep (pool : WorkerPool) : Option WorkerPool :=
  match pool.controller with
  | .idle => none
  | .starting i =>
    if i < config.numWorkers then
      some { pool.setWorker i
        { pool.workers i with thread := .loop } with controller := .starting (i + 1) }
    else some { pool with controller := .idle }
  | .stopping i =>
    if i < config.numWorkers then
      -- The push is repeated until it succeeds.
      if (pool.workers i).commands.length < config.capacity then
        some { pool.setWorker i
          ((pool.workers i).tryPush config stopCommand) with controller := .stopping (i + 1) }
      else some pool
    else some { pool with controller := .joining 0 }
  | .joining i =>
    if i < config.numWorkers then
      if (pool.workers i).thread = .left then
        some { pool with controller := .joining (i + 1) } else none
    else some { pool with
      workers := fun i => { pool.workers i with thread := .absent }
      controller := .idle }
  | .waitingCommands i =>
    if i < config.numWorkers then
      if (pool.workers i).commands = [] then
        some { pool with controller := .waitingCommands (i + 1) } else some pool
    else some { pool with controller := .waitingResults 0 }
  | .waitingResults i =>
    if i < config.numWorkers then
      if (pool.workers i).results = [] then
        some { pool with controller := .waitingResults (i + 1) } else some pool
    else some { pool with controller := .waitedAll }
  | .waitedAll => some { pool with controller := .idle }

def call (pool : WorkerPool) : PoolAction → Option WorkerPool
  | .send i command =>
    if i < config.numWorkers then some (pool.setWorker i ((pool.workers i).tryPush config command))
      else some pool
  | .receive i =>
    if i < config.numWorkers then
      some (pool.setWorker i { pool.workers i with results := (pool.workers i).results.tail })
    else some pool
  | .callStart work =>
    if pool.running then some pool
    else some { pool with running := true, workFunction := work, controller := .starting 0 }
  | .callStop =>
    if pool.running then
    some { pool with running := false, controller := .stopping 0 } else some pool
  | .callWaitAll => some { pool with controller := .waitingCommands 0 }
  | .controller | .worker _ => none

def step (pool : WorkerPool) (action : PoolAction) : Option WorkerPool :=
  match action with
  | .worker i =>
    if i < config.numWorkers then
      (workerStep config pool.running pool.workFunction i (pool.workers i)).map (pool.setWorker i)
    else none
  | .controller => controllerStep config pool
  | action => if pool.controller = .idle then call config pool action else none

inductive WorkerMoves (running : Bool) (worker : Worker) : Worker → Prop where
  | entered : worker.thread = .loop → running = true →
      WorkerMoves running worker { worker with thread := .popping }
  | leftLoop : worker.thread = .loop → running = false →
      WorkerMoves running worker { worker with thread := .left }
  | foundNone : worker.thread = .popping → worker.commands = [] →
      WorkerMoves running worker { worker with thread := .loop }
  | stopped {command : WorkerCommand} {rest : List WorkerCommand} : worker.thread = .popping →
      worker.commands = command :: rest → command.type = .stop →
      WorkerMoves running worker
        { worker with commands := rest, thread := .left, executed := worker.executed ++ [command] }
  | took {command : WorkerCommand} {rest : List WorkerCommand} : worker.thread = .popping →
      worker.commands = command :: rest → command.type ≠ .stop →
      WorkerMoves running worker { worker with commands := rest, thread := .executing command }
  | finished {command : WorkerCommand}
      (result : WorkerResult) : worker.thread = .executing command →
      WorkerMoves running worker
        { worker with thread := .publishing result, executed := worker.executed ++ [command] }
  | published {result : WorkerResult} : worker.thread = .publishing result →
      WorkerMoves running worker
        { worker with results := worker.results ++ [result], thread := .loop }
  | blocked {result : WorkerResult} : worker.thread = .publishing result →
      WorkerMoves running worker { worker with thread := .retrying result }
  | retried {result : WorkerResult} : worker.thread = .retrying result → running = true →
      WorkerMoves running worker { worker with thread := .publishing result }
  | gaveUp {result : WorkerResult} : worker.thread = .retrying result → running = false →
      WorkerMoves running worker { worker with thread := .left }

variable {config}

theorem workerStep_moves {running : Bool} {work : Option WorkFunction}
    {i : Nat} {worker after : Worker}
    (stepped : workerStep config running work i worker =
      some after) : WorkerMoves running worker after := by
  unfold workerStep at stepped
  split at stepped
  case h_1 => cases stepped
  case h_2 => cases stepped
  case h_3 atLoop =>
    cases running with
    | true =>
      cases stepped
      exact .entered atLoop rfl
    | false =>
      cases stepped
      exact .leftLoop atLoop rfl
  case h_4 atPop =>
    split at stepped
    case h_1 noCommand =>
      cases stepped
      exact .foundNone atPop noCommand
    case h_2 command rest popped =>
      split at stepped
      case isTrue isStop =>
        cases stepped
        exact .stopped atPop popped isStop
      case isFalse isWork =>
        cases stepped
        exact .took atPop popped isWork
  case h_5 command atWork =>
    cases stepped
    exact .finished _ atWork
  case h_6 result atPush =>
    split at stepped
    case isTrue => cases stepped; exact .published atPush
    case isFalse => cases stepped; exact .blocked atPush
  case h_7 result atRetry =>
    cases running with
    | true =>
      cases stepped
      exact .retried atRetry rfl
    | false =>
      cases stepped
      exact .gaveUp atRetry rfl

/-- The steps of the pool. -/
inductive Moves (config : PoolConfig) (pool : WorkerPool) : PoolAction → WorkerPool → Prop where
  | worker {i : Nat} {after : Worker} : i < config.numWorkers →
      WorkerMoves pool.running (pool.workers i) after →
      Moves config pool (.worker i) (pool.setWorker i after)
  -- Nothing happens: a call that returns at once, or a loop of the
  -- controlling thread that goes round.
  | unchanged (action : PoolAction) : Moves config pool action pool
  | sent {i : Nat} (command : WorkerCommand) : pool.controller = .idle → i < config.numWorkers →
      Moves config pool (.send i command)
        (pool.setWorker i ((pool.workers i).tryPush config command))
  | received {i : Nat} : pool.controller = .idle → i < config.numWorkers →
      Moves config pool (.receive i)
        (pool.setWorker i { pool.workers i with results := (pool.workers i).results.tail })
  | calledStart (work : Option WorkFunction) : pool.controller = .idle → pool.running = false →
      Moves config pool (.callStart work)
        { pool with running := true, workFunction := work, controller := .starting 0 }
  | calledStop : pool.controller = .idle → pool.running = true →
      Moves config pool .callStop { pool with running := false, controller := .stopping 0 }
  | calledWaitAll : pool.controller = .idle →
      Moves config pool .callWaitAll { pool with controller := .waitingCommands 0 }
  | spawned {i : Nat} : pool.controller = .starting i → i < config.numWorkers →
      Moves config pool .controller
        { pool.setWorker i
          { pool.workers i with thread := .loop } with controller := .starting (i + 1) }
  | started {i : Nat} : pool.controller = .starting i → config.numWorkers ≤ i →
      Moves config pool .controller { pool with controller := .idle }
  | told {i : Nat} : pool.controller = .stopping i → i < config.numWorkers →
      (pool.workers i).commands.length < config.capacity →
      Moves config pool .controller
        { pool.setWorker i
          ((pool.workers i).tryPush config stopCommand) with controller := .stopping (i + 1) }
  | toldAll {i : Nat} : pool.controller = .stopping i → config.numWorkers ≤ i →
      Moves config pool .controller { pool with controller := .joining 0 }
  | joined {i : Nat} : pool.controller = .joining i → i < config.numWorkers →
      (pool.workers i).thread = .left →
      Moves config pool .controller { pool with controller := .joining (i + 1) }
  | joinedAll {i : Nat} : pool.controller = .joining i → config.numWorkers ≤ i →
      Moves config pool .controller
        { pool with workers := fun i =>
          { pool.workers i with thread := .absent }, controller := .idle }
  | drained {i : Nat} : pool.controller = .waitingCommands i → i < config.numWorkers →
      (pool.workers i).commands = [] →
      Moves config pool .controller { pool with controller := .waitingCommands (i + 1) }
  | drainedAll {i : Nat} : pool.controller = .waitingCommands i → config.numWorkers ≤ i →
      Moves config pool .controller { pool with controller := .waitingResults 0 }
  | consumed {i : Nat} : pool.controller = .waitingResults i → i < config.numWorkers →
      (pool.workers i).results = [] →
      Moves config pool .controller { pool with controller := .waitingResults (i + 1) }
  | consumedAll {i : Nat} : pool.controller = .waitingResults i → config.numWorkers ≤ i →
      Moves config pool .controller { pool with controller := .waitedAll }
  | returned : pool.controller = .waitedAll →
      Moves config pool .controller { pool with controller := .idle }

theorem controllerStep_moves
    {pool next : WorkerPool} (stepped : controllerStep config pool = some next) :
    Moves config pool .controller next := by
  unfold controllerStep at stepped
  split at stepped
  case h_1 => cases stepped
  case h_2 i here =>
    split at stepped
    case isTrue below => cases stepped; exact .spawned here below
    case isFalse notBelow => cases stepped; exact .started here (Nat.le_of_not_lt notBelow)
  case h_3 i here =>
    split at stepped
    case isTrue below =>
      split at stepped
      case isTrue room => cases stepped; exact .told here below room
      case isFalse => cases stepped; exact .unchanged .controller
    case isFalse notBelow => cases stepped; exact .toldAll here (Nat.le_of_not_lt notBelow)
  case h_4 i here =>
    split at stepped
    case isTrue below =>
      split at stepped
      case isTrue gone => cases stepped; exact .joined here below gone
      case isFalse => cases stepped
    case isFalse notBelow => cases stepped; exact .joinedAll here (Nat.le_of_not_lt notBelow)
  case h_5 i here =>
    split at stepped
    case isTrue below =>
      split at stepped
      case isTrue empty => cases stepped; exact .drained here below empty
      case isFalse => cases stepped; exact .unchanged .controller
    case isFalse notBelow => cases stepped; exact .drainedAll here (Nat.le_of_not_lt notBelow)
  case h_6 i here =>
    split at stepped
    case isTrue below =>
      split at stepped
      case isTrue empty => cases stepped; exact .consumed here below empty
      case isFalse => cases stepped; exact .unchanged .controller
    case isFalse notBelow => cases stepped; exact .consumedAll here (Nat.le_of_not_lt notBelow)
  case h_7 here => cases stepped; exact .returned here

theorem call_moves {pool next : WorkerPool} {action : PoolAction} (idle : pool.controller = .idle)
    (called : call config pool action = some next) : Moves config pool action next := by
  unfold call at called
  split at called
  case h_1 i command =>
    split at called
    case isTrue below => cases called; exact .sent command idle below
    case isFalse => cases called; exact .unchanged _
  case h_2 i =>
    split at called
    case isTrue below => cases called; exact .received idle below
    case isFalse => cases called; exact .unchanged _
  case h_3 work =>
    split at called
    case isTrue => cases called; exact .unchanged _
    case isFalse stopped =>
      cases called; exact .calledStart work idle (Bool.eq_false_iff.mpr stopped)
  case h_4 =>
    split at called
    case isTrue running => cases called; exact .calledStop idle running
    case isFalse => cases called; exact .unchanged _
  case h_5 => cases called; exact .calledWaitAll idle
  case h_6 => cases called
  case h_7 => cases called

theorem step_moves
    {pool next : WorkerPool} {action : PoolAction} (stepped : step config pool action = some next) :
    Moves config pool action next := by
  unfold step at stepped
  split at stepped
  case h_1 i =>
    split at stepped
    case isTrue below =>
      obtain ⟨after, moved, rfl⟩ := Option.map_eq_some_iff.mp stepped
      exact .worker below (workerStep_moves moved)
    case isFalse => cases stepped
  case h_2 => exact controllerStep_moves stepped
  case h_3 =>
    split at stepped
    case isTrue idle => exact call_moves idle stepped
    case isFalse => cases stepped

end WorkerPool

end VectorTick
