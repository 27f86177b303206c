import ZtHttp.Foundation.Transition

/-!
# The thread pool

`ThreadPool` has a list of tasks, two flags, a mutex and a condition. A step of
the system is what a thread does between two points where another thread can
get in: a critical section, a read or a write of a flag outside the mutex, or a
broadcast. Nothing is known of a destroyed mutex, so a step that would use it
is not given.
-/

namespace ZtHttp

open Transition

/-- Where a worker stands in `runThread`. -/
inductive WorkerPc (Task : Type) where
  /-- before the test of the loop -/
  | testing
  /-- before `pthread_mutex_lock` -/
  | locking
  /-- blocked in `pthread_cond_wait` -/
  | waiting
  /-- woken in `pthread_cond_wait`, without the mutex yet -/
  | woken
  /-- in `tasks.back()` of an empty list -/
  | undefined
  /-- before the broadcast that passes the end of the pool on -/
  | relaying
  /-- in `task->run()` -/
  | running (task : Task)
  | finished
  deriving DecidableEq

/-- What a broadcast does to a worker. -/
def WorkerPc.wake {Task : Type} : WorkerPc Task → WorkerPc Task
  | .waiting => .woken
  | pc => pc

/-- Where a caller stands in the other methods. -/
inductive CallerPc (Task : Type) where
  /-- in none of them; the value is what its last call returned -/
  | outside (returned : Option Int)
  /-- `enqueue` before its critical section -/
  | pushing (task : Task)
  /-- `enqueue` before its broadcast -/
  | signalling
  /-- in the loop of `waitPool`, which `endPool` calls too -/
  | polling (ending : Bool)
  /-- `reStart` before `isWaited=0` -/
  | reopening
  /-- `endPool` before `isCancelled=1` -/
  | cancelling
  /-- `endPool` before its broadcast -/
  | announcing
  /-- `endPool` before it destroys the mutex and the condition -/
  | destroying
  deriving DecidableEq

/-- `ThreadPool` and the threads that use it. `enqueued` and `started` record
the tasks ever pushed and ever popped to be run; no step reads them. -/
structure ThreadPool (Worker Caller Task : Type) where
  tasks : List Task
  isWaited : Bool
  isCancelled : Bool
  destroyed : Bool
  worker : Worker → WorkerPc Task
  caller : Caller → CallerPc Task
  enqueued : List Task
  started : List Task

namespace ThreadPool

variable {Worker Caller Task : Type} [DecidableEq Worker] [DecidableEq Caller]

/-- After `startUp`. -/
def initial : ThreadPool Worker Caller Task where
  tasks := []
  isWaited := false
  isCancelled := false
  destroyed := false
  worker _ := .testing
  caller _ := .outside none
  enqueued := []
  started := []

def setWorker (worker : Worker) (pc : WorkerPc Task) (pool : ThreadPool Worker Caller Task) :
    ThreadPool Worker Caller Task :=
  { pool with worker := fun other => if other = worker then pc else pool.worker other }

def setCaller (caller : Caller) (pc : CallerPc Task) (pool : ThreadPool Worker Caller Task) :
    ThreadPool Worker Caller Task :=
  { pool with caller := fun other => if other = caller then pc else pool.caller other }

/-- `pthread_cond_broadcast(&cond)` -/
def broadcast (pool : ThreadPool Worker Caller Task) : ThreadPool Worker Caller Task :=
  { pool with worker := fun worker => (pool.worker worker).wake }

/-- `tasks.back()` and `tasks.pop_back()`, then `task->run()` without the mutex. -/
def popBack (worker : Worker) (pool : ThreadPool Worker Caller Task) :
    ThreadPool Worker Caller Task :=
  match pool.tasks.getLast? with
  | none => pool.setWorker worker .undefined
  | some task =>
      { pool.setWorker worker (.running task) with
        tasks := pool.tasks.dropLast
        started := pool.started ++ [task] }

/-- The critical section of `runThread` behind the wait. -/
def afterWait (worker : Worker) (pool : ThreadPool Worker Caller Task) :
    ThreadPool Worker Caller Task :=
  if pool.isCancelled then pool.setWorker worker .relaying else pool.popBack worker

/-- The pool's methods. -/
inductive Call (Task : Type) where
  | enqueue (task : Task)
  | waitPool
  | reStart
  | endPool

inductive Action (Worker Caller Task : Type) where
  /-- A worker goes on in `runThread`. -/
  | work (worker : Worker)
  | call (caller : Caller) (call : Call Task)
  /-- A caller goes on in the method it called. -/
  | resume (caller : Caller)

/-- `runThread`. A worker that holds the mutex runs to the end of its critical
section or to `pthread_cond_wait`. -/
def work (pool : ThreadPool Worker Caller Task) (worker : Worker) :
    Option (ThreadPool Worker Caller Task) :=
  match pool.worker worker with
  | .testing => some (pool.setWorker worker (if pool.isCancelled then .finished else .locking))
  | .locking =>
      if pool.destroyed then none
      else if pool.tasks = [] then some (pool.setWorker worker .waiting)
      else some (pool.afterWait worker)
  | .woken => if pool.destroyed then none else some (pool.afterWait worker)
  | .relaying => if pool.destroyed then none else some (pool.broadcast.setWorker worker .finished)
  | .running _ => some (pool.setWorker worker .testing)
  | .waiting | .undefined | .finished => none

/-- The first step of a method: the flag that it tests or sets without the
mutex. -/
def start (pool : ThreadPool Worker Caller Task) (caller : Caller) :
    Call Task → ThreadPool Worker Caller Task
  | .enqueue task =>
      pool.setCaller caller (if pool.isWaited then .outside (some (-1)) else .pushing task)
  | .waitPool => { pool with isWaited := true }.setCaller caller (.polling false)
  | .reStart =>
      pool.setCaller caller (if pool.isCancelled then .outside (some (-1)) else .reopening)
  | .endPool => { pool with isWaited := true }.setCaller caller (.polling true)

/-- The later steps of a method. -/
def resume (pool : ThreadPool Worker Caller Task) (caller : Caller) :
    Option (ThreadPool Worker Caller Task) :=
  match pool.caller caller with
  | .outside _ => none
  | .pushing task =>
      if pool.destroyed then none
      else
        some { pool.setCaller caller .signalling with
          tasks := pool.tasks ++ [task]
          enqueued := pool.enqueued ++ [task] }
  | .signalling =>
      if pool.destroyed then none
      else some (pool.broadcast.setCaller caller (.outside (some 0)))
  | .polling ending =>
      if pool.destroyed then none
      else if pool.tasks ≠ [] then some pool
      else some (pool.setCaller caller (if ending then .cancelling else .outside (some 0)))
  | .reopening => some ({ pool with isWaited := false }.setCaller caller (.outside (some 0)))
  | .cancelling => some ({ pool with isCancelled := true }.setCaller caller .announcing)
  | .announcing =>
      if pool.destroyed then none else some (pool.broadcast.setCaller caller .destroying)
  | .destroying =>
      if pool.destroyed then none
      else some ({ pool with destroyed := true }.setCaller caller (.outside (some 0)))

/-- A caller is in none of the methods. -/
def isOutside (pool : ThreadPool Worker Caller Task) (caller : Caller) : Bool :=
  match pool.caller caller with
  | .outside _ => true
  | _ => false

def next (pool : ThreadPool Worker Caller Task) :
    Action Worker Caller Task → Option (ThreadPool Worker Caller Task)
  | .work worker => pool.work worker
  | .call caller call => if pool.isOutside caller then some (pool.start caller call) else none
  | .resume caller => pool.resume caller

/-- The pool with any number of workers and callers. -/
def system (Worker Caller Task : Type) [DecidableEq Worker] [DecidableEq Caller] :
    Lts (ThreadPool Worker Caller Task) (Action Worker Caller Task) :=
  .ofNext initial next

end ThreadPool

end ZtHttp
