import Mathlib.Data.List.Perm.Basic
import ZtHttp.Foundation.Transition

/-!
# The threads of `main11`

The main thread hands each new thread the address of its own `client_sock`, and
goes on to `accept`, which writes the next socket there. A thread that reads the
address behind that has the later socket. The connections are numbered in the
order in which they are accepted.
-/

namespace ZtHttp.SimHttp

open Transition

/-- Where `main11` stands in its loop. -/
inductive MainPc where
  /-- before `accept` -/
  | accepting
  /-- before `pthread_create` -/
  | creating
  /-- behind `exit`, which ends all threads -/
  | exited
  deriving DecidableEq

/-- The process: `client_sock`, which is -1 at first; how many connections were
accepted; those whose thread was created; the threads that have not read their
argument, by the connection that they were created for; and what threads read. -/
structure Main where
  pc : MainPc
  clientSock : Option Nat
  accepted : Nat
  created : List Nat
  starting : List Nat
  served : List Nat

/-- The steps: `accept` and `pthread_create` with or without success, and
`int client = *(int*)arg` of a thread. -/
inductive MainStep where
  | accept (success : Bool)
  | create (success : Bool)
  | start (thread : Nat)

namespace Main

/-- `main11` behind `startup` -/
def initial : Main := ⟨.accepting, none, 0, [], [], []⟩

def next (main : Main) : MainStep → Option Main
  | .accept success =>
      match main.pc with
      | .accepting =>
          if success then
            some { main with
              pc := .creating
              clientSock := some main.accepted
              accepted := main.accepted + 1 }
          else some { main with pc := .exited }
      | .creating | .exited => none
  | .create success =>
      match main.pc with
      | .creating =>
          if success then
            some { main with
              pc := .accepting
              created := main.created ++ main.clientSock.toList
              starting := main.starting ++ main.clientSock.toList }
          else some { main with pc := .accepting }
      | .accepting | .exited => none
  | .start thread =>
      if main.pc = .exited then none
      else
        if thread < main.starting.length then
          some { main with
            starting := main.starting.eraseIdx thread
            served := main.served ++ main.clientSock.toList }
        else none

def system : Lts Main MainStep := .ofNext initial next

/-- The thread reads its argument before the next `accept`. -/
def InTime (main : Main) : MainStep → Prop
  | .start thread => main.starting[thread]? = main.clientSock
  | .accept _ | .create _ => True

/-- `client_sock` is the last socket that was accepted. Its thread is created
behind all others. -/
structure Numbered (main : Main) : Prop where
  clientSock : main.clientSock = if main.accepted = 0 then none else some (main.accepted - 1)
  created : ∀ connection ∈ main.created, connection < main.accepted
  creating : main.pc = .creating → 0 < main.accepted ∧
    ∀ connection ∈ main.created, connection + 1 < main.accepted

/-- No thread has read another socket than its own. -/
structure Kept (main : Main) : Prop where
  numbered : Numbered main
  starting : ∀ connection ∈ main.starting, connection ∈ main.created
  served : ∀ connection ∈ main.served, connection ∈ main.created
  once : ∀ connection ∈ main.created,
    main.served.count connection + main.starting.count connection = 1

/-- A connection has a thread and was not read by any, and will not be. -/
structure Lost (main : Main) : Prop where
  numbered : Numbered main
  never : ∃ connection ∈ main.created, connection ∉ main.served ∧ connection + 1 < main.accepted

variable {main after : Main} {label : MainStep}

/-- What a step does: `accept` and `pthread_create` with success, one of them
without, or a thread that reads its argument. -/
theorem next_cases (hnext : main.next label = some after) :
    (label = .accept true ∧ after = { main with
      pc := .creating
      clientSock := some main.accepted
      accepted := main.accepted + 1 }) ∨
    (label = .create true ∧ main.pc = .creating ∧ after = { main with
      pc := .accepting
      created := main.created ++ main.clientSock.toList
      starting := main.starting ++ main.clientSock.toList }) ∨
    ((label = .accept false ∨ label = .create false) ∧ after.pc ≠ .creating ∧
      after = { main with pc := after.pc }) ∨
    ∃ thread own rest, label = .start thread ∧ main.starting[thread]? = some own ∧
      main.starting.Perm (own :: rest) ∧
      after = { main with starting := rest, served := main.served ++ main.clientSock.toList } := by
  cases label with
  | accept success =>
      cases hpc : main.pc with
      | accepting =>
          cases success <;> simp only [next, hpc, Option.some.injEq, if_true, Bool.false_eq_true,
            if_false] at hnext <;> subst hnext
          · exact .inr (.inr (.inl ⟨.inl rfl, nofun, rfl⟩))
          · exact .inl ⟨rfl, rfl⟩
      | creating => simp [next, hpc] at hnext
      | exited => simp [next, hpc] at hnext
  | create success =>
      cases hpc : main.pc with
      | creating =>
          cases success <;> simp only [next, hpc, Option.some.injEq, if_true, Bool.false_eq_true,
            if_false] at hnext <;> subst hnext
          · exact .inr (.inr (.inl ⟨.inr rfl, nofun, rfl⟩))
          · exact .inr (.inl ⟨rfl, rfl, rfl⟩)
      | accepting => simp [next, hpc] at hnext
      | exited => simp [next, hpc] at hnext
  | start thread =>
      simp only [next] at hnext
      split_ifs at hnext with hexited hthread
      cases hnext
      exact .inr (.inr (.inr ⟨thread, _, _, rfl, List.getElem?_eq_getElem hthread,
        (List.getElem_cons_eraseIdx_perm hthread).symm, rfl⟩))

theorem Numbered.last (hmain : Numbered main) (hpos : 0 < main.accepted) :
    main.clientSock = some (main.accepted - 1) := by
  rw [hmain.clientSock, if_neg (Nat.ne_of_gt hpos)]

theorem numbered_step (hmain : Numbered main) (hnext : main.next label = some after) :
    Numbered after := by
  rcases next_cases hnext with ⟨-, rfl⟩ | ⟨-, hpc, rfl⟩ | ⟨-, hpc, heq⟩ | ⟨_, _, _, -, -, -, rfl⟩
  · exact ⟨rfl, fun connection hmem => Nat.lt_succ_of_lt (hmain.created connection hmem),
      fun _ => ⟨Nat.succ_pos _, fun connection hmem =>
        Nat.succ_lt_succ (hmain.created connection hmem)⟩⟩
  · obtain ⟨hpos, hless⟩ := hmain.creating hpc
    refine ⟨hmain.clientSock, ?_, nofun⟩
    intro connection hmem
    rcases List.mem_append.mp hmem with hmem | hmem
    · exact hmain.created connection hmem
    · rw [hmain.last hpos, Option.toList_some, List.mem_singleton] at hmem
      rw [hmem]
      exact Nat.sub_lt hpos Nat.one_pos
  · rw [heq]
    exact ⟨hmain.clientSock, hmain.created, fun hcreating => absurd hcreating hpc⟩
  · exact ⟨hmain.clientSock, hmain.created, hmain.creating⟩

/-- The thread that is created next is that of a connection without any. -/
theorem Numbered.fresh (hmain : Numbered main) (hpc : main.pc = .creating) :
    ∃ connection, main.clientSock = some connection ∧ connection ∉ main.created := by
  obtain ⟨hpos, hless⟩ := hmain.creating hpc
  refine ⟨main.accepted - 1, hmain.last hpos, fun hmem => ?_⟩
  have hlast := hless _ hmem
  omega

theorem kept_step (hmain : Kept main) (hintime : InTime main label)
    (hnext : main.next label = some after) : Kept after := by
  have hnumbered := numbered_step hmain.numbered hnext
  obtain ⟨hbefore, hstarting, hserved, honce⟩ := hmain
  rcases next_cases hnext with
    ⟨-, rfl⟩ | ⟨-, hpc, rfl⟩ | ⟨-, -, heq⟩ | ⟨thread, own, rest, rfl, hthread, hperm, rfl⟩
  · exact ⟨hnumbered, hstarting, hserved, honce⟩
  · obtain ⟨connection, hsock, hfresh⟩ := hbefore.fresh hpc
    simp only [hsock, Option.toList_some] at hnumbered ⊢
    refine ⟨hnumbered, ?_, ?_, ?_⟩
    · intro other hmem
      exact List.mem_append.mpr ((List.mem_append.mp hmem).imp_left (hstarting other))
    · intro other hmem
      exact List.mem_append_left _ (hserved other hmem)
    · intro other hmem
      dsimp only
      rw [List.count_append]
      rcases List.mem_append.mp hmem with hmem | hmem
      · have hne : connection ≠ other := fun heq => hfresh (heq ▸ hmem)
        rw [List.count_singleton, if_neg (by simpa using hne), Nat.add_zero, honce other hmem]
      · rw [List.mem_singleton.mp hmem,
          List.count_eq_zero.mpr (mt (hserved connection) hfresh),
          List.count_eq_zero.mpr (mt (hstarting connection) hfresh), List.count_singleton_self]
  · rw [heq] at hnumbered ⊢
    exact ⟨hnumbered, hstarting, hserved, honce⟩
  · have hsock : main.clientSock = some own := hintime.symm.trans hthread
    have hown := hstarting own (hperm.mem_iff.mpr List.mem_cons_self)
    refine ⟨hnumbered, ?_, ?_, ?_⟩
    · intro other hmem
      exact hstarting other (hperm.mem_iff.mpr (List.mem_cons_of_mem _ hmem))
    · intro other hmem
      dsimp only at hmem
      rw [hsock, Option.toList_some] at hmem
      rcases List.mem_append.mp hmem with hmem | hmem
      · exact hserved other hmem
      · rwa [List.mem_singleton.mp hmem]
    · intro other hmem
      have hcount := honce other hmem
      rw [hperm.count_eq, List.count_cons] at hcount
      dsimp only
      rw [hsock, Option.toList_some, List.count_append, List.count_singleton]
      omega

/-- A thread that is late has left its connection to none. -/
theorem lost_of_late (hmain : Kept main) (hlate : ¬ InTime main label)
    (hnext : main.next label = some after) : Lost after := by
  have hnumbered := numbered_step hmain.numbered hnext
  rcases next_cases hnext with
    ⟨rfl, -⟩ | ⟨rfl, -, -⟩ | ⟨rfl | rfl, -, -⟩ | ⟨thread, own, rest, rfl, hthread, hperm, rfl⟩
  · exact absurd trivial hlate
  · exact absurd trivial hlate
  · exact absurd trivial hlate
  · exact absurd trivial hlate
  · have hown := hmain.starting own (hperm.mem_iff.mpr List.mem_cons_self)
    have hless := hmain.numbered.created own hown
    have hsock := hmain.numbered.last (Nat.zero_lt_of_lt hless)
    have hother : own ≠ main.accepted - 1 := by
      rintro heq
      exact hlate (by rw [InTime, hthread, hsock, heq])
    have hunserved : own ∉ main.served := by
      have hcount := hmain.once own hown
      rw [hperm.count_eq, List.count_cons_self] at hcount
      exact List.count_eq_zero.mp (by omega)
    refine ⟨hnumbered, own, hown, ?_, show own + 1 < main.accepted by omega⟩
    dsimp only
    rw [hsock, Option.toList_some, List.mem_append, List.mem_singleton]
    rintro (hmem | heq)
    · exact hunserved hmem
    · exact hother heq

theorem lost_step (hmain : Lost main) (hnext : main.next label = some after) : Lost after := by
  have hnumbered := numbered_step hmain.numbered hnext
  obtain ⟨hbefore, own, hown, hunserved, hless⟩ := hmain
  rcases next_cases hnext with ⟨-, rfl⟩ | ⟨-, -, rfl⟩ | ⟨-, -, heq⟩ | ⟨_, _, _, -, -, -, rfl⟩
  · exact ⟨hnumbered, own, hown, hunserved, Nat.lt_succ_of_lt hless⟩
  · exact ⟨hnumbered, own, List.mem_append_left _ hown, hunserved, hless⟩
  · rw [heq] at hnumbered ⊢
    exact ⟨hnumbered, own, hown, hunserved, hless⟩
  · refine ⟨hnumbered, own, hown, ?_, hless⟩
    dsimp only
    rw [hbefore.last (Nat.zero_lt_of_lt hless), Option.toList_some, List.mem_append,
      List.mem_singleton]
    rintro (hmem | heq)
    · exact hunserved hmem
    · omega

theorem kept_initial : Kept initial where
  numbered := ⟨rfl, List.forall_mem_nil _, nofun⟩
  starting := List.forall_mem_nil _
  served := List.forall_mem_nil _
  once := List.forall_mem_nil _

/-- When all threads have read their argument, each connection that has a thread
was read exactly once if and only if every thread had read it before the next
`accept`. -/
theorem served_once_iff {labels : List MainStep} (hrun : system.Run initial labels main)
    (hread : main.starting = []) :
    (∀ connection ∈ main.created, main.served.count connection = 1) ↔
      (system.restrict InTime).Run initial labels main := by
  constructor
  · intro hserved
    rcases hrun.kept_or_lost Kept Lost (fun _ _ _ hkept hintime hnext =>
      kept_step hkept hintime hnext) (fun _ _ _ hkept hlate hnext =>
        lost_of_late hkept hlate hnext) (fun _ _ _ hlost hnext => lost_step hlost hnext)
      kept_initial with ⟨hintime, -⟩ | hlost
    · exact hintime
    · obtain ⟨own, hown, hunserved, -⟩ := hlost.never
      have hcount := hserved own hown
      rw [List.count_eq_zero.mpr hunserved] at hcount
      contradiction
  · intro hintime connection hmem
    have hkept : Kept main := by
      refine hintime.preserves Kept ?_ kept_initial
      rintro state label after hstate ⟨hallowed, hnext⟩
      exact kept_step hstate hallowed hnext
    have hcount := hkept.once connection hmem
    rwa [hread, List.count_nil, Nat.add_zero] at hcount

/-- Two connections, each of which is read before the next `accept`. -/
theorem inTime_served : ∃ main labels, system.Run initial labels main ∧
    ((∀ connection ∈ main.created, main.served.count connection = 1) ↔
      (system.restrict InTime).Run initial labels main) := by
  have hexec : Lts.exec next initial [.accept true, .create true, .start 0, .accept true,
      .create true, .start 0] = some ⟨.accepting, some 1, 2, [0, 1], [], [0, 1]⟩ := rfl
  have hrun : system.Run initial _ _ := Lts.run_of_exec hexec
  exact ⟨_, _, hrun, served_once_iff hrun rfl⟩

/-- Two threads that both read behind the second `accept`. -/
theorem late_served_twice : ∃ main, system.Reachable main ∧ main.starting = [] ∧
    main.created = [0, 1] ∧ main.served = [1, 1] := by
  have hexec : Lts.exec next initial [.accept true, .create true, .accept true, .create true,
      .start 0, .start 0] = some ⟨.accepting, some 1, 2, [0, 1], [], [1, 1]⟩ := rfl
  exact ⟨_, Lts.reachable_of_exec hexec, rfl, rfl, rfl⟩

end Main

end ZtHttp.SimHttp
