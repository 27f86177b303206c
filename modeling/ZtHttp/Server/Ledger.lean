import ZtHttp.Server.Shutdown

/-!
# The ledger of the closes

A ledger is in order when every `::close` hit a descriptor that the connection
in whose name it was called owned at that moment, and no connection was closed
twice. Closing a connection's only descriptor in its own name keeps that.
-/

namespace ZtHttp

namespace Ledger

/-- Every `::close` hit an open descriptor of the connection in whose name it
was called, and no connection's descriptor was closed twice. -/
structure ClosedOnce (ledger : Ledger) : Prop where
  owned : ∀ closing ∈ ledger.closings, ∃ h, closing.behalf = some h ∧ closing.owner = some h
  once : (ledger.closings.map Closing.behalf).Nodup

/-- The closes so far, of connections that own nothing any more. -/
structure Settled (ledger : Ledger) (count : Nat) : Prop where
  owned : ∀ closing ∈ ledger.closings, ∃ h, closing.behalf = some h ∧ closing.owner = some h ∧
    h < count ∧ ∀ fd, ledger.owner fd ≠ some h
  once : (ledger.closings.map Closing.behalf).Nodup

variable {ledger last : Ledger} {count : Nat} {h : HandlerId} {fd key : Fd}

theorem owner_accept : (ledger.accept fd h).owner key =
    if key = fd then some h else ledger.owner key :=
  Function.update_apply _ _ _ _

theorem owner_close {behalf : Option HandlerId} : (ledger.close behalf fd).owner key =
    if key = fd then none else ledger.owner key :=
  Function.update_apply _ _ _ _

theorem Settled.closedOnce (hsettled : ledger.Settled count) : ledger.ClosedOnce where
  owned closing hmem := by
    obtain ⟨h, hbehalf, howner, -, -⟩ := hsettled.owned closing hmem
    exact ⟨h, hbehalf, howner⟩
  once := hsettled.once

theorem ClosedOnce.of_grown (hclosed : last.ClosedOnce)
    (hgrown : ledger.closings <+: last.closings) : ledger.ClosedOnce where
  owned closing hmem := hclosed.owned closing (hgrown.subset hmem)
  once := hclosed.once.sublist (hgrown.sublist.map _)

/-- A new connection has closed nothing yet. -/
theorem Settled.accept (hsettled : ledger.Settled count) (fd : Fd) :
    (ledger.accept fd count).Settled (count + 1) where
  owned closing hmem := by
    obtain ⟨h, hbehalf, howner, hlt, hnone⟩ := hsettled.owned closing hmem
    refine ⟨h, hbehalf, howner, Nat.lt_succ_of_lt hlt, ?_⟩
    intro key
    rw [owner_accept]
    split
    · intro hsame
      cases hsame
      exact Nat.lt_irrefl _ hlt
    · exact hnone key
  once := hsettled.once

/-- The connection's only descriptor is closed in its own name. -/
theorem Settled.close (hsettled : ledger.Settled count) (howner : ledger.owner fd = some h)
    (hmade : h < count) (honly : ∀ other, ledger.owner other = some h → other = fd) :
    (ledger.close (some h) fd).Settled count where
  owned closing hmem := by
    have hless : ∀ key other, (ledger.close (some h) fd).owner key = some other →
        key ≠ fd ∧ ledger.owner key = some other := by
      intro key other hkey
      rw [owner_close] at hkey
      exact Option.ite_none_left_eq_some.mp hkey
    rcases List.mem_append.mp hmem with hold | hnew
    · obtain ⟨other, hbehalf, hother, hlt, hnone⟩ := hsettled.owned closing hold
      exact ⟨other, hbehalf, hother, hlt, fun key hkey => hnone key (hless key other hkey).2⟩
    · rw [List.mem_singleton.mp hnew]
      refine ⟨h, rfl, howner, hmade, ?_⟩
      intro key hkey
      exact (hless key h hkey).1 (honly key (hless key h hkey).2)
  once := by
    unfold Ledger.close
    rw [List.map_append, List.nodup_append]
    refine ⟨hsettled.once, by simp, ?_⟩
    rintro behalf hold _ hnew rfl
    obtain ⟨closing, hmem, hsame⟩ := List.mem_map.mp hold
    obtain ⟨other, hbehalf, -, -, hnone⟩ := hsettled.owned closing hmem
    have hother : some other = some h :=
      hbehalf.symm.trans (hsame.trans (List.mem_singleton.mp hnew))
    cases hother
    exact hnone fd howner

end Ledger

namespace Shutdown

variable {ledger : Ledger} {entries : List (Fd × UInt32 × Option HandlerId)} {fd : Fd}

theorem owner_enterAll : (enterAll entries ledger).owner fd =
    if fd ∈ entries.map Prod.fst then none else ledger.owner fd := by
  induction entries generalizing ledger with
  | nil => simp [enterAll]
  | cons entry rest ih =>
      have hhead : enterAll (entry :: rest) ledger =
          enterAll rest (ledger.close entry.2.2 entry.1) := rfl
      rw [hhead, ih, Ledger.owner_close]
      by_cases hrest : fd ∈ rest.map Prod.fst
      · simp [hrest]
      · by_cases hsame : fd = entry.1 <;> simp [hrest, hsame]

theorem prefix_enterAll (ledger : Ledger) :
    ledger.closings <+: (enterAll entries ledger).closings := by
  induction entries generalizing ledger with
  | nil => exact List.prefix_rfl
  | cons entry rest ih =>
      exact (List.prefix_append _ _).trans (ih (ledger.close entry.2.2 entry.1))

/-- Every key is closed, and its owner then is the one that it had at the start
or nobody. -/
theorem mem_enterAll {entry : Fd × UInt32 × Option HandlerId} (hmem : entry ∈ entries)
    (ledger : Ledger) :
    ∃ closing ∈ (enterAll entries ledger).closings, closing.behalf = entry.2.2 ∧
      ∀ h, closing.owner = some h → ledger.owner entry.1 = some h := by
  induction entries generalizing ledger with
  | nil => contradiction
  | cons head rest ih =>
      rcases List.mem_cons.mp hmem with rfl | hrest
      · refine ⟨⟨entry.2.2, entry.1, ledger.owner entry.1⟩, ?_, rfl, fun h => id⟩
        have hclosed : (ledger.close entry.2.2 entry.1).closings <+:
            (enterAll (entry :: rest) ledger).closings := prefix_enterAll _
        exact hclosed.subset (List.mem_append_right _ (List.mem_singleton_self _))
      · obtain ⟨closing, hclosing, hbehalf, howner⟩ :=
          ih hrest (ledger.close head.2.2 head.1)
        refine ⟨closing, hclosing, hbehalf, ?_⟩
        intro h hsome
        have hlater := howner h hsome
        rw [Ledger.owner_close, Option.ite_none_left_eq_some] at hlater
        exact hlater.2

/-- Every key belongs to the connection that is stored under it. -/
theorem settled_enterAll {count : Nat} (hsettled : ledger.Settled count)
    (hnodup : (entries.map Prod.fst).Nodup)
    (hentries : ∀ entry ∈ entries, ∃ h, entry.2.2 = some h ∧ ledger.owner entry.1 = some h ∧
      h < count ∧ ∀ other, ledger.owner other = some h → other = entry.1) :
    (enterAll entries ledger).Settled count := by
  induction entries generalizing ledger with
  | nil => exact hsettled
  | cons head rest ih =>
      obtain ⟨hfresh, hrest⟩ := List.nodup_cons.mp hnodup
      obtain ⟨h, hbehalf, howner, hmade, honly⟩ := hentries head List.mem_cons_self
      have hclosed : (ledger.close head.2.2 head.1).Settled count := by
        rw [hbehalf]
        exact hsettled.close howner hmade honly
      refine ih hclosed hrest ?_
      intro entry hentry
      obtain ⟨other, hother, hfound, hlt, hsame⟩ := hentries entry (List.mem_cons_of_mem _ hentry)
      have hne : entry.1 ≠ head.1 := by
        intro heq
        exact hfresh (heq ▸ List.mem_map_of_mem hentry)
      refine ⟨other, hother, ?_, hlt, ?_⟩
      · rw [Ledger.owner_close, if_neg hne, hfound]
      · intro key hkey
        rw [Ledger.owner_close, Option.ite_none_left_eq_some] at hkey
        exact hsame key hkey.2

end Shutdown

end ZtHttp
