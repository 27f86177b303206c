import Mathlib.Data.List.Range
import ZtHttp.Foundation.Method

/-!
# The handles of the workers

`startUp` creates one thread for each element of the vector `threads`, and
`getPthread` reads that vector. The loop runs over copies of the elements, so
the handles go to a variable of the loop and the vector keeps its zeros.
-/

namespace ZtHttp

open Imperative

/-- `pthread_t`, an unsigned long. -/
abbrev Pthread := UInt64

/-- The members of `ThreadPool` that tell its threads. `created` records what
`pthread_create` produced, in the order of the workers; nothing reads it. -/
structure Threads where
  threads : List Pthread
  size : UInt32
  created : List Pthread
  deriving DecidableEq

namespace Threads

/-- `ThreadPool(int threadsNumber)`. The vector is asked for a size that a
negative number makes too large. -/
def create (threadsNumber : Int32) : Except Fault Threads :=
  if threadsNumber < 0 then .error .lengthError
  else .ok {
    threads := List.replicate threadsNumber.toNatClampNeg 0
    size := threadsNumber.toUInt32
    created := [] }

/-- `pthread_create(&aThread, ...)` that succeeds: the handle of the new worker
is what its argument holds then. -/
def pthreadCreate (handle : Nat → Pthread) (_aThread : Pthread) : Method Threads Pthread := do
  let aThread := handle (← get).created.length
  modify fun pool => { pool with created := pool.created ++ [aThread] }
  return aThread

/-- `for(auto aThread: threads)`, where `aThread` ends with the turn. -/
def startUpLoop (handle : Nat → Pthread) : List Pthread → Method Threads Unit
  | [] => pure ()
  | aThread :: rest => do
      let _ ← pthreadCreate handle aThread
      startUpLoop handle rest

/-- `startUp()`, for what `pthread_create` makes the handle of each worker. A
failed `pthread_create` ends the process. -/
def startUp (handle : Nat → Pthread) : Method Threads Int := do
  startUpLoop handle (← get).threads
  return 0

/-- `threads[idx%_size]`: the index is converted to unsigned, and nothing is
known of a division by zero. -/
def getPthread (idx : Int32) (pool : Threads) : Option Pthread :=
  if pool.size = 0 then none else pool.threads[(idx.toUInt32 % pool.size).toNat]?

/-- Every index has an answer, and from 0 up it is what `pthread_create` gave
for the worker. -/
structure ReturnsHandles (threadsNumber : Int32) (pool : Threads) : Prop where
  defined : ∀ idx, pool.getPthread idx ≠ none
  handle : ∀ idx, 0 ≤ idx →
    pool.getPthread idx = pool.created[idx.toNatClampNeg % threadsNumber.toNatClampNeg]?

/-! ### Creating the threads -/

variable {threadsNumber : Int32} {pool : Threads}

theorem create_eq_ok (hcreate : create threadsNumber = .ok pool) : 0 ≤ threadsNumber ∧
    pool = ⟨List.replicate threadsNumber.toNatClampNeg 0, threadsNumber.toUInt32, []⟩ := by
  unfold create at hcreate
  split at hcreate
  next => contradiction
  next hnegative =>
    cases hcreate
    exact ⟨Int32.not_lt.mp hnegative, rfl⟩

/-- The loop records the next handles and leaves the vector. -/
theorem startUpLoop_apply (handle : Nat → Pthread) (threads : List Pthread) (pool : Threads) :
    startUpLoop handle threads pool = .ok () { pool with
      created := pool.created ++
        (List.range' pool.created.length threads.length).map handle } := by
  induction threads generalizing pool with
  | nil =>
      rw [List.length_nil, List.range'_zero, List.map_nil, List.append_nil]
      rfl
  | cons aThread rest ih =>
      have hcreated : pthreadCreate handle aThread pool = .ok (handle pool.created.length)
          { pool with created := pool.created ++ [handle pool.created.length] } := rfl
      rw [startUpLoop, Method.bind_ok hcreated, ih]
      simp only [List.length_append, List.length_cons, List.length_nil, List.range'_succ,
        List.map_cons, List.append_assoc, List.singleton_append, Nat.zero_add]

theorem startUp_apply (handle : Nat → Pthread) (hcreated : pool.created = []) :
    startUp handle pool = .ok 0 { pool with
      created := (List.range pool.threads.length).map handle } := by
  rw [startUp, Method.bind_ok (Method.get_apply _),
    Method.bind_ok (startUpLoop_apply handle pool.threads pool), hcreated, List.length_nil,
    List.range_eq_range', List.nil_append]
  rfl

/-! ### Reading the handles -/

/-- The pool after `startUp`: the vector has the zeros of its constructor. -/
def started (threadsNumber : Int32) (handle : Nat → Pthread) : Threads where
  threads := List.replicate threadsNumber.toNatClampNeg 0
  size := threadsNumber.toUInt32
  created := (List.range threadsNumber.toNatClampNeg).map handle

theorem startUp_started (hcreate : create threadsNumber = .ok pool) (handle : Nat → Pthread) :
    startUp handle pool = .ok 0 (started threadsNumber handle) := by
  obtain ⟨-, rfl⟩ := create_eq_ok hcreate
  rw [startUp_apply handle rfl, List.length_replicate, started]

theorem toNatClampNeg_pos_iff (number : Int32) : 0 < number.toNatClampNeg ↔ 0 < number := by
  rw [← Int32.toNat_toInt, Int32.lt_iff_toInt_lt, Int32.toInt_zero]
  exact Int.pos_iff_toNat_pos.symm

/-- `getPthread` of a pool with threads reads one of the zeros. -/
theorem getPthread_started (hnumber : 0 < threadsNumber) (handle : Nat → Pthread) (idx : Int32) :
    (started threadsNumber handle).getPthread idx = some 0 := by
  have hsize : threadsNumber.toUInt32.toNat = threadsNumber.toNatClampNeg :=
    Int32.toNat_toUInt32_of_le (Int32.le_of_lt hnumber)
  have hpos := (toNatClampNeg_pos_iff threadsNumber).mpr hnumber
  have hne : threadsNumber.toUInt32 ≠ 0 := by
    intro hzero
    rw [hzero] at hsize
    exact hpos.ne hsize
  rw [getPthread, started, if_neg hne, UInt32.toNat_mod, hsize]
  exact List.getElem?_replicate_of_lt (Nat.mod_lt _ hpos)

/-- The record has the handle of each worker. -/
theorem created_started (handle : Nat → Pthread) {worker : Nat}
    (hworker : worker < threadsNumber.toNatClampNeg) :
    (started threadsNumber handle).created[worker]? = some (handle worker) := by
  rw [started, List.getElem?_map, List.getElem?_range hworker, Option.map_some]

/-- After `startUp` the handles are returned only where the zeros of the vector
are the handles: with at least one worker, all of whose handles are zero. -/
theorem returnsHandles_iff {after : Threads} {handle : Nat → Pthread} {ret : Int}
    (hcreate : create threadsNumber = .ok pool) (hstart : startUp handle pool = .ok ret after) :
    after.ReturnsHandles threadsNumber ↔
      0 < threadsNumber ∧ ∀ worker < threadsNumber.toNatClampNeg, handle worker = 0 := by
  rw [startUp_started hcreate handle] at hstart
  cases hstart
  constructor
  · intro hreturns
    have hnumber : 0 < threadsNumber := by
      cases Int32.lt_or_eq_of_le (create_eq_ok hcreate).1 with
      | inl hnumber => exact hnumber
      | inr hempty =>
          subst hempty
          exact absurd rfl (hreturns.defined 0)
    refine ⟨hnumber, fun worker hworker => ?_⟩
    -- the index of the worker itself
    have hbound : worker < 2 ^ 31 := hworker.trans (Int32.toNatClampNeg_lt _)
    have hidx : (0 : Int32) ≤ Int32.ofNat worker :=
      (Int32.ofNat_le_iff_le (by decide) hbound).mpr (Nat.zero_le worker)
    have hhandle := hreturns.handle (Int32.ofNat worker) hidx
    rw [getPthread_started hnumber, Int32.toNatClampNeg_ofNat_of_lt hbound,
      Nat.mod_eq_of_lt hworker, created_started handle hworker] at hhandle
    exact (Option.some.inj hhandle).symm
  · rintro ⟨hnumber, hzero⟩
    have hpos := (toNatClampNeg_pos_iff threadsNumber).mpr hnumber
    constructor
    · intro idx
      rw [getPthread_started hnumber]
      exact Option.some_ne_none 0
    · intro idx _
      have hworker := Nat.mod_lt idx.toNatClampNeg hpos
      rw [getPthread_started hnumber, created_started handle hworker, hzero _ hworker]

/-- Handles of a pool of two: addresses, each below the one before. -/
def twoHandles (worker : Nat) : Pthread := .ofNat (0x7f3c5a1fe700 - 0x801000 * worker)

/-- The constructor with two workers. -/
def pair : Threads := ⟨[0, 0], 2, []⟩

/-- A pool of two after `startUp`. -/
def pairStarted : Threads := ⟨[0, 0], 2, [0x7f3c5a1fe700, 0x7f3c599fd700]⟩

theorem create_pair : create 2 = .ok pair := rfl

theorem startUp_pair : startUp twoHandles pair = .ok 0 pairStarted := rfl

theorem pair_returnsHandles_iff : pairStarted.ReturnsHandles 2 ↔
    (0 : Int32) < 2 ∧ ∀ worker < (2 : Int32).toNatClampNeg, twoHandles worker = 0 :=
  returnsHandles_iff create_pair startUp_pair

/-- Worker 0 has a handle, and the vector still has 0. -/
theorem pair_loses_handles : create 2 = .ok pair ∧ startUp twoHandles pair = .ok 0 pairStarted ∧
    ¬ pairStarted.ReturnsHandles 2 := by
  refine ⟨create_pair, startUp_pair, fun hreturns => ?_⟩
  have hhandle := hreturns.handle 0 (by decide)
  contradiction

end Threads

end ZtHttp
