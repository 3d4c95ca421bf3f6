import StrataDB.Lib.Transition

/-! Admission control between commits and lifecycle operations
(`txn/src/lifecycle_coordination.rs`): a mutex, three values under it and one
condition variable that both kinds of callers wait on. A step is one critical
section, from the lock to the release or to the wait; a wait gives the mutex up
and blocks in one action. A blocked thread can go on whether or not it was
notified, so that spurious wakeups are steps like any other. -/

namespace StrataDB.Txn.LifecycleCoordination

open Lib

/-- `State`. -/
structure Counters where
  waitingExecutors : ℕ
  activePreparations : ℕ
  executorActive : Bool
  deriving DecidableEq

/-- The two calls that wait. -/
inductive Call
  | preparation
  | exclusive
  deriving DecidableEq

/-- A thread: the guards it holds and, while it is blocked, the call it is in and
whether a notification has reached it. -/
structure Thread where
  leases : ℕ
  guards : ℕ
  blocked : Option (Call × Bool)
  deriving DecidableEq

structure Coordinator (ι : Type) where
  counters : Counters
  threads : ι → Thread

/-- What a thread does next. A guard that is dropped during unwinding runs the
same code as any other drop. -/
inductive Label (ι : Type)
  | acquirePreparation (i : ι)
  | acquireExclusive (i : ι)
  | wakeup (i : ι)
  | dropPreparation (i : ι)
  | dropExclusive (i : ι)

def usizeMax : ℕ := 2 ^ 64 - 1

variable {ι : Type} [DecidableEq ι]

namespace Coordinator

/-- Set the values under the mutex and the state of one thread. -/
def set (s : Coordinator ι) (counters : Counters) (i : ι) (thread : Thread) : Coordinator ι :=
  ⟨counters, Function.update s.threads i thread⟩

/-- `wake.notify_all()`. -/
def notifyAll (s : Coordinator ι) : Coordinator ι :=
  { s with threads := fun i =>
      { s.threads i with blocked := (s.threads i).blocked.map fun call => (call.1, true) } }

/-- `acquire_preparation` from a check of its loop on. The call that finds the
count at its maximum unwinds and leaves everything as it was. -/
def preparationLoop (s : Coordinator ι) (i : ι) : Coordinator ι :=
  let c := s.counters
  let t := s.threads i
  if c.executorActive = true ∨ 0 < c.waitingExecutors then
    s.set c i { t with blocked := some (.preparation, false) }
  else if c.activePreparations < usizeMax then
    s.set { c with activePreparations := c.activePreparations + 1 } i
      { t with leases := t.leases + 1, blocked := none }
  else s.set c i { t with blocked := none }

/-- `acquire_exclusive` from a check of its loop on; `none` is an underflow of the
count of waiting executors. -/
def exclusiveLoop (s : Coordinator ι) (i : ι) : Option (Coordinator ι) :=
  let c := s.counters
  let t := s.threads i
  if c.executorActive = true ∨ 0 < c.activePreparations then
    some (s.set c i { t with blocked := some (.exclusive, false) })
  else if 0 < c.waitingExecutors then
    some (s.set ⟨c.waitingExecutors - 1, c.activePreparations, true⟩ i
      { t with guards := t.guards + 1, blocked := none })
  else none

/-- `acquire_exclusive`. -/
def acquireExclusive (s : Coordinator ι) (i : ι) : Option (Coordinator ι) :=
  if s.counters.waitingExecutors < usizeMax then
    exclusiveLoop { s with counters :=
      { s.counters with waitingExecutors := s.counters.waitingExecutors + 1 } } i
  else some s

/-- `PreparationLease::drop`; `none` is its failed assertion. -/
def dropPreparation (s : Coordinator ι) (i : ι) : Option (Coordinator ι) :=
  let c := s.counters
  let t := s.threads i
  if 0 < c.activePreparations then
    let s' := s.set { c with activePreparations := c.activePreparations - 1 } i
      { t with leases := t.leases - 1 }
    some (if c.activePreparations - 1 = 0 then s'.notifyAll else s')
  else none

/-- `LifecycleExclusiveGuard::drop`; `none` is its failed assertion. -/
def dropExclusive (s : Coordinator ι) (i : ι) : Option (Coordinator ι) :=
  let t := s.threads i
  if s.counters.executorActive = true then
    some (s.set { s.counters with executorActive := false } i
      { t with guards := t.guards - 1 }).notifyAll
  else none

/-- One critical section. A thread that is not blocked can make any call and drop
any guard it holds; a blocked one can only go on with its call. -/
def step (s : Coordinator ι) : Label ι → Option (Coordinator ι)
  | .acquirePreparation i =>
    if (s.threads i).blocked = none then some (s.preparationLoop i) else none
  | .acquireExclusive i =>
    if (s.threads i).blocked = none then s.acquireExclusive i else none
  | .wakeup i =>
    match (s.threads i).blocked with
    | none => none
    | some (.preparation, _) => some (s.preparationLoop i)
    | some (.exclusive, _) => s.exclusiveLoop i
  | .dropPreparation i =>
    if (s.threads i).blocked = none ∧ 0 < (s.threads i).leases then s.dropPreparation i else none
  | .dropExclusive i =>
    if (s.threads i).blocked = none ∧ 0 < (s.threads i).guards then s.dropExclusive i else none

/-- `LifecycleCoordinator::default`, with every thread outside of it. -/
def default : Coordinator ι := ⟨⟨0, 0, false⟩, fun _ => ⟨0, 0, none⟩⟩

end Coordinator

/-- The coordinator under any interleaving of the threads. -/
def coordination (ι : Type) [DecidableEq ι] : TransitionSystem (Coordinator ι) (Label ι) where
  init s := s = .default
  step := Coordinator.step

/-- One for a thread that is blocked in `acquire_exclusive`. -/
def Thread.queued (t : Thread) : ℕ :=
  match t.blocked with
  | some (.exclusive, _) => 1
  | _ => 0

@[simp] theorem Thread.queued_none (leases guards : ℕ) :
    Thread.queued ⟨leases, guards, none⟩ = 0 := rfl

@[simp] theorem Thread.queued_preparation (leases guards : ℕ) (woken : Bool) :
    Thread.queued ⟨leases, guards, some (.preparation, woken)⟩ = 0 := rfl

@[simp] theorem Thread.queued_exclusive (leases guards : ℕ) (woken : Bool) :
    Thread.queued ⟨leases, guards, some (.exclusive, woken)⟩ = 1 := rfl

theorem Thread.queued_of_blocked {t : Thread} (h : t.blocked = none) : t.queued = 0 := by
  rw [Thread.queued, h]

/-- One while an executor runs. -/
def Counters.executors (c : Counters) : ℕ := if c.executorActive then 1 else 0

namespace Coordinator

variable [Fintype ι]

def liveLeases (s : Coordinator ι) : ℕ := ∑ i, (s.threads i).leases

def liveGuards (s : Coordinator ι) : ℕ := ∑ i, (s.threads i).guards

def queuedExecutors (s : Coordinator ι) : ℕ := ∑ i, (s.threads i).queued

/-- The values under the mutex count the guards and the queued calls. -/
structure Counts (s : Coordinator ι) : Prop where
  leases : s.counters.activePreparations = s.liveLeases
  guards : s.counters.executors = s.liveGuards
  waiting : s.counters.waitingExecutors = s.queuedExecutors

/-- When nobody holds a guard, the callers that can go on have been notified:
every executor, and every preparation if no executor is queued. -/
def Notified (s : Coordinator ι) : Prop :=
  s.counters.executorActive = false → s.counters.activePreparations = 0 →
    ∀ i call woken, (s.threads i).blocked = some (call, woken) →
      call = .exclusive ∨ s.counters.waitingExecutors = 0 → woken = true

/-- An executor runs alone, and no wakeup is lost. -/
structure Inv (s : Coordinator ι) : Prop extends s.Counts where
  alone : s.counters.executorActive = true → s.counters.activePreparations = 0
  notified : s.Notified

/-! ### What a step does to the counts -/

variable {s : Coordinator ι} {c : Counters} {i : ι} {t : Thread}

theorem counts_set
    (hl : c.activePreparations + (s.threads i).leases = s.liveLeases + t.leases)
    (hg : c.executors + (s.threads i).guards = s.liveGuards + t.guards)
    (hw : c.waitingExecutors + (s.threads i).queued = s.queuedExecutors + t.queued) :
    (s.set c i t).Counts where
  leases := Nat.add_right_cancel (hl.trans (sum_update_add Thread.leases s.threads i t).symm)
  guards := Nat.add_right_cancel (hg.trans (sum_update_add Thread.guards s.threads i t).symm)
  waiting := Nat.add_right_cancel (hw.trans (sum_update_add Thread.queued s.threads i t).symm)

omit [DecidableEq ι] in
theorem queued_notifyAll (s : Coordinator ι) : s.notifyAll.queuedExecutors = s.queuedExecutors := by
  refine Finset.sum_congr rfl fun i _ => ?_
  simp only [notifyAll, Thread.queued]
  rcases (s.threads i).blocked with _ | ⟨_ | _, _⟩ <;> rfl

omit [DecidableEq ι] in
theorem Counts.notifyAll (h : s.Counts) : s.notifyAll.Counts :=
  ⟨h.leases, h.guards, h.waiting.trans (queued_notifyAll s).symm⟩

omit [DecidableEq ι] [Fintype ι] in
theorem notified_notifyAll (s : Coordinator ι) : s.notifyAll.Notified := by
  intro _ _ j call woken hj _
  obtain ⟨_, _, heq⟩ := Option.map_eq_some_iff.mp hj
  exact (Prod.mk.inj heq).2.symm

/-! ### Every critical section keeps the invariant -/

theorem Inv.preparationLoop (h : s.Inv) (hq : (s.threads i).queued = 0) :
    (s.preparationLoop i).Inv := by
  have hl := h.leases
  have hg := h.guards
  have hw := h.waiting
  unfold Coordinator.preparationLoop
  dsimp only
  split
  -- The call waits: an executor runs or is queued, so that it need not be notified.
  · rename_i hwait
    refine ⟨counts_set (by dsimp only; omega) (by dsimp only; omega)
      (by rw [Thread.queued_preparation]; omega), h.alone, ?_⟩
    intro hidle hnone j call woken hj hgo
    by_cases hji : j = i
    · subst j
      have hbusy : 0 < s.counters.waitingExecutors :=
        hwait.resolve_left (by simpa [set] using hidle)
      simp only [set, Function.update_self, Option.some.injEq, Prod.mk.injEq] at hj
      rcases hgo with hgo | hgo
      · exact absurd (hj.1.trans hgo) (by decide)
      · exact absurd hgo hbusy.ne'
    · simp only [set, Function.update_of_ne hji] at hj
      exact h.notified hidle hnone j call woken hj hgo
  · rename_i hgo
    rw [not_or] at hgo
    split
    -- The call is admitted: from now on a lease is held.
    · refine ⟨counts_set (by dsimp only; omega) (by exact hg ▸ rfl)
        (by rw [Thread.queued_none, hq]; exact hw), fun hactive => absurd hactive hgo.1, ?_⟩
      exact fun _ hnone => absurd hnone (Nat.succ_ne_zero _)
    -- The count is at its maximum: the call unwinds, and leases are held.
    · rename_i hmax
      refine ⟨counts_set (by dsimp only; omega) (by dsimp only; omega)
        (by rw [Thread.queued_none]; omega), h.alone, fun _ hnone => ?_⟩
      exact absurd (show 0 < usizeMax by decide) (hnone ▸ hmax)

variable {s' : Coordinator ι} {a : Label ι}

/-- The call counts as waiting although its thread may not be blocked yet. -/
theorem inv_exclusiveLoop (hl : s.counters.activePreparations = s.liveLeases)
    (hg : s.counters.executors = s.liveGuards)
    (hw : s.counters.waitingExecutors + (s.threads i).queued = s.queuedExecutors + 1)
    (halone : s.counters.executorActive = true → s.counters.activePreparations = 0)
    (hs : s.exclusiveLoop i = some s') : s'.Inv := by
  unfold exclusiveLoop at hs
  dsimp only at hs
  split at hs
  · rename_i hwait
    cases hs
    refine ⟨counts_set (by dsimp only; omega) (by dsimp only; omega)
      (by rw [Thread.queued_exclusive]; exact hw), halone, fun hidle hnone => ?_⟩
    exact absurd hnone (hwait.resolve_left (by simpa [set] using hidle)).ne'
  · rename_i hgo
    rw [not_or, Nat.not_lt, Nat.le_zero, Bool.not_eq_true] at hgo
    split at hs
    · rename_i hpos
      cases hs
      have hnone : s.liveGuards = 0 := by rw [← hg, Counters.executors, hgo.1]; rfl
      refine ⟨counts_set (by dsimp only; omega) ?_ ?_, fun _ => hgo.2, fun hidle => ?_⟩
      · simp only [Counters.executors, if_true]
        omega
      · rw [Thread.queued_none]
        dsimp only
        omega
      · cases hidle
    · cases hs

theorem Inv.dropPreparation (h : s.Inv) (hheld : 0 < (s.threads i).leases)
    (hs : s.dropPreparation i = some s') : s'.Inv := by
  have hl := h.leases
  have hg := h.guards
  have hw := h.waiting
  unfold Coordinator.dropPreparation at hs
  dsimp only at hs
  split at hs
  · rename_i hpos
    have hcounts : (s.set { s.counters with activePreparations :=
        s.counters.activePreparations - 1 } i
        { s.threads i with leases := (s.threads i).leases - 1 }).Counts :=
      counts_set (by dsimp only; omega) (by exact hg ▸ rfl) (by exact hw ▸ rfl)
    have halone : s.counters.executorActive = true → s.counters.activePreparations - 1 = 0 :=
      fun hactive => absurd (h.alone hactive) hpos.ne'
    cases hs
    split
    · exact ⟨hcounts.notifyAll, halone, notified_notifyAll _⟩
    · rename_i hmore
      exact ⟨hcounts, halone, fun _ hnone => absurd hnone hmore⟩
  · cases hs

theorem Inv.dropExclusive (h : s.Inv) (hheld : 0 < (s.threads i).guards)
    (hs : s.dropExclusive i = some s') : s'.Inv := by
  have hg := h.guards
  unfold Coordinator.dropExclusive at hs
  dsimp only at hs
  split at hs
  · rename_i hactive
    cases hs
    have hcounts : (s.set { s.counters with executorActive := false } i
        { s.threads i with guards := (s.threads i).guards - 1 }).Counts := by
      refine counts_set (by exact h.leases ▸ rfl) ?_ (by exact h.waiting ▸ rfl)
      rw [Counters.executors, if_pos hactive] at hg
      simp only [Counters.executors, Bool.false_eq_true, if_false]
      omega
    exact ⟨hcounts.notifyAll, fun hfalse => (nomatch hfalse), notified_notifyAll _⟩
  · cases hs

theorem Inv.step (h : s.Inv) (hs : s.step a = some s') : s'.Inv := by
  cases a with
  | acquirePreparation i =>
    obtain ⟨hfree, hs⟩ := Option.ite_none_right_eq_some.mp hs
    exact Option.some.inj hs ▸ h.preparationLoop (Thread.queued_of_blocked hfree)
  | acquireExclusive i =>
    obtain ⟨hfree, hs⟩ := Option.ite_none_right_eq_some.mp hs
    unfold acquireExclusive at hs
    split at hs
    · refine inv_exclusiveLoop (by exact h.leases) (by exact h.guards) ?_ (by exact h.alone) hs
      dsimp only
      rw [Thread.queued_of_blocked hfree, h.waiting]
      rfl
    · cases hs
      exact h
  | wakeup i =>
    rcases hblocked : (s.threads i).blocked with _ | ⟨_ | _, woken⟩ <;>
      simp only [Coordinator.step, hblocked, reduceCtorEq] at hs
    · exact Option.some.inj hs ▸ h.preparationLoop (by rw [Thread.queued, hblocked])
    · exact inv_exclusiveLoop h.leases h.guards (by rw [Thread.queued, hblocked, h.waiting])
        h.alone hs
  | dropPreparation i =>
    obtain ⟨hheld, hs⟩ := Option.ite_none_right_eq_some.mp hs
    exact h.dropPreparation hheld.2 hs
  | dropExclusive i =>
    obtain ⟨hheld, hs⟩ := Option.ite_none_right_eq_some.mp hs
    exact h.dropExclusive hheld.2 hs

omit [DecidableEq ι] in
theorem inv_default : (default : Coordinator ι).Inv where
  leases := by simp [default, liveLeases]
  guards := by simp [default, liveGuards, Counters.executors]
  waiting := by simp [default, queuedExecutors]
  alone := fun h => (nomatch h)
  notified := fun _ _ _ _ _ h => (nomatch h)

theorem inv_of_reachable (h : (coordination ι).Reachable s) : s.Inv :=
  h.invariant (fun _ hinit => hinit ▸ inv_default) fun _ _ _ _ hi hs => hi.step hs

/-! ### What admission control guarantees -/

omit [Fintype ι] in
/-- A queued executor keeps new preparations out. -/
theorem activePreparations_le (hw : 0 < s.counters.waitingExecutors) (hs : s.step a = some s') :
    s'.counters.activePreparations ≤ s.counters.activePreparations := by
  have hpreparation : ∀ i, (s.preparationLoop i).counters = s.counters := fun i => by
    rw [preparationLoop, if_pos (Or.inr hw)]
    rfl
  have hexclusive : ∀ (t t' : Coordinator ι) (i : ι), t.exclusiveLoop i = some t' →
      t'.counters.activePreparations = t.counters.activePreparations := by
    intro t t' i ht
    unfold exclusiveLoop at ht
    dsimp only at ht
    split at ht
    · exact Option.some.inj ht ▸ rfl
    · obtain ⟨-, ht⟩ := Option.ite_none_right_eq_some.mp ht
      exact Option.some.inj ht ▸ rfl
  cases a with
  | acquirePreparation i =>
    obtain ⟨-, hs⟩ := Option.ite_none_right_eq_some.mp hs
    exact Option.some.inj hs ▸ (congrArg Counters.activePreparations (hpreparation i)).le
  | acquireExclusive i =>
    obtain ⟨-, hs⟩ := Option.ite_none_right_eq_some.mp hs
    unfold acquireExclusive at hs
    split at hs
    · exact (hexclusive _ _ i hs).le
    · exact Option.some.inj hs ▸ le_rfl
  | wakeup i =>
    rcases hblocked : (s.threads i).blocked with _ | ⟨_ | _, woken⟩ <;>
      simp only [Coordinator.step, hblocked, reduceCtorEq] at hs
    · exact Option.some.inj hs ▸ (congrArg Counters.activePreparations (hpreparation i)).le
    · exact (hexclusive _ _ i hs).le
  | dropPreparation i =>
    obtain ⟨-, hs⟩ := Option.ite_none_right_eq_some.mp hs
    obtain ⟨-, hs⟩ := Option.ite_none_right_eq_some.mp hs
    rw [← Option.some.inj hs]
    split <;> exact Nat.sub_le _ _
  | dropExclusive i =>
    obtain ⟨-, hs⟩ := Option.ite_none_right_eq_some.mp hs
    obtain ⟨-, hs⟩ := Option.ite_none_right_eq_some.mp hs
    exact Option.some.inj hs ▸ le_rfl

omit [Fintype ι] in
/-- A call that counts as waiting goes on or waits again. -/
theorem isSome_exclusiveLoop (hw : 0 < s.counters.waitingExecutors) (i : ι) :
    (s.exclusiveLoop i).isSome := by
  unfold exclusiveLoop
  dsimp only
  rw [if_pos hw]
  split <;> rfl

theorem Inv.isSome_wakeup (h : s.Inv) (hblocked : (s.threads i).blocked ≠ none) :
    (s.step (.wakeup i)).isSome := by
  rcases hcall : (s.threads i).blocked with _ | ⟨_ | _, woken⟩
  · exact absurd hcall hblocked
  · simp only [Coordinator.step, hcall, Option.isSome_some]
  · simp only [Coordinator.step, hcall]
    refine isSome_exclusiveLoop ?_ i
    have hone : (s.threads i).queued = 1 := by rw [Thread.queued, hcall]
    have hle : (s.threads i).queued ≤ s.queuedExecutors := le_sum_threads Thread.queued s.threads i
    rw [h.waiting]
    omega

omit [Fintype ι] in
theorem isSome_acquireExclusive (hfree : (s.threads i).blocked = none) :
    (s.step (.acquireExclusive i)).isSome := by
  rw [Coordinator.step, if_pos hfree, acquireExclusive]
  split
  · exact isSome_exclusiveLoop (Nat.succ_pos _) i
  · rfl

theorem Inv.isSome_dropPreparation (h : s.Inv) (hfree : (s.threads i).blocked = none)
    (hheld : 0 < (s.threads i).leases) : (s.step (.dropPreparation i)).isSome := by
  have hpos : 0 < s.counters.activePreparations :=
    h.leases ▸ hheld.trans_le (le_sum_threads Thread.leases s.threads i)
  simp only [Coordinator.step, if_pos (And.intro hfree hheld), Coordinator.dropPreparation,
    if_pos hpos, Option.isSome_some]

theorem Inv.isSome_dropExclusive (h : s.Inv) (hfree : (s.threads i).blocked = none)
    (hheld : 0 < (s.threads i).guards) : (s.step (.dropExclusive i)).isSome := by
  have hpos : 0 < s.counters.executors :=
    h.guards ▸ hheld.trans_le (le_sum_threads Thread.guards s.threads i)
  have hactive : s.counters.executorActive = true := by
    by_contra hidle
    rw [Counters.executors, if_neg hidle] at hpos
    exact hpos.false
  simp only [Coordinator.step, if_pos (And.intro hfree hheld), Coordinator.dropExclusive,
    if_pos hactive, Option.isSome_some]

omit [DecidableEq ι] in
/-- If nobody holds a guard, some blocked caller has been notified. -/
theorem Inv.exists_woken (h : s.Inv) (hleases : s.liveLeases = 0) (hguards : s.liveGuards = 0)
    (hblocked : (s.threads i).blocked ≠ none) :
    ∃ j call, (s.threads j).blocked = some (call, true) := by
  have hnone : s.counters.activePreparations = 0 := h.leases.trans hleases
  have hidle : s.counters.executorActive = false := by
    have hzero := h.guards.trans hguards
    rw [Counters.executors] at hzero
    split at hzero
    · cases hzero
    · exact Bool.not_eq_true _ ▸ ‹_›
  obtain ⟨⟨call, woken⟩, hcall⟩ := Option.ne_none_iff_exists'.mp hblocked
  by_cases hq : s.counters.waitingExecutors = 0
  · exact ⟨i, call, h.notified hidle hnone i call woken hcall (.inr hq) ▸ hcall⟩
  · -- A queued executor is blocked, and with no guard held it has been notified.
    obtain ⟨j, -, hj⟩ := Finset.exists_ne_zero_of_sum_ne_zero (h.waiting ▸ hq)
    rcases hexec : (s.threads j).blocked with _ | ⟨_ | _, woken'⟩
    · exact absurd (Thread.queued_of_blocked hexec) hj
    · exact absurd (by rw [Thread.queued, hexec]) hj
    · exact ⟨j, .exclusive,
        h.notified hidle hnone j .exclusive woken' hexec (.inl rfl) ▸ hexec⟩

end Coordinator

open Coordinator

variable [Fintype ι]

/-- An executor excludes every other guard, a queued executor keeps new
preparations out, the values under the mutex are the numbers of guards and of
queued executors and no assertion or subtraction on them fails, and callers are
never left blocked without a guard being held or a wakeup being due. -/
theorem lifecycle_admission {s : Coordinator ι} (h : (coordination ι).Reachable s) :
    (s.liveGuards ≤ 1 ∧ (0 < s.liveGuards → s.liveLeases = 0)) ∧
    (∀ a s', s.step a = some s' → s.liveLeases < s'.liveLeases → s.queuedExecutors = 0) ∧
    (s.counters.activePreparations = s.liveLeases ∧ s.counters.executors = s.liveGuards ∧
      s.counters.waitingExecutors = s.queuedExecutors) ∧
    (∀ i, (s.threads i).blocked ≠ none → (s.step (.wakeup i)).isSome) ∧
    (∀ i, (s.threads i).blocked = none →
      (s.step (.acquirePreparation i)).isSome ∧ (s.step (.acquireExclusive i)).isSome ∧
      (0 < (s.threads i).leases → (s.step (.dropPreparation i)).isSome) ∧
      (0 < (s.threads i).guards → (s.step (.dropExclusive i)).isSome)) ∧
    ¬ (s.liveLeases = 0 ∧ s.liveGuards = 0 ∧ (∃ i, (s.threads i).blocked ≠ none) ∧
      ∀ i call, (s.threads i).blocked ≠ some (call, true)) := by
  have hi := inv_of_reachable h
  refine ⟨⟨?_, fun hheld => ?_⟩, fun a s' hs hlt => ?_, ⟨hi.leases, hi.guards, hi.waiting⟩,
    fun i hblocked => hi.isSome_wakeup hblocked, fun i hfree => ⟨?_, ?_, ?_, ?_⟩, ?_⟩
  · rw [← hi.guards, Counters.executors]
    split <;> decide
  · rw [← hi.leases]
    apply hi.alone
    by_contra hidle
    rw [← hi.guards, Counters.executors, if_neg hidle] at hheld
    exact hheld.false
  · by_contra hq
    have hle := activePreparations_le (hi.waiting ▸ Nat.pos_of_ne_zero hq) hs
    rw [hi.leases, (hi.step hs).leases] at hle
    exact absurd hlt (Nat.not_lt.mpr hle)
  · rw [Coordinator.step, if_pos hfree]
    rfl
  · exact isSome_acquireExclusive hfree
  · exact hi.isSome_dropPreparation hfree
  · exact hi.isSome_dropExclusive hfree
  · rintro ⟨hleases, hguards, ⟨i, hblocked⟩, hnone⟩
    obtain ⟨j, call, hj⟩ := hi.exists_woken hleases hguards hblocked
    exact hnone j call hj

/-- A commit drops the last lease while an executor and a later commit wait. -/
def lastLeaseLabels : List (Label (Fin 3)) :=
  [.acquirePreparation 0, .acquireExclusive 1, .acquirePreparation 2, .dropPreparation 0]

theorem lifecycle_admission_lastLease :
    ∃ s : Coordinator (Fin 3), (coordination (Fin 3)).run .default lastLeaseLabels = some s ∧
      s.liveLeases = 0 ∧ s.liveGuards = 0 ∧ s.queuedExecutors = 1 ∧
      ¬ ∀ i call, (s.threads i).blocked ≠ some (call, true) := by
  obtain ⟨s, hs, hcounts⟩ : ∃ s : Coordinator (Fin 3),
      (coordination (Fin 3)).run .default lastLeaseLabels = some s ∧
        s.liveLeases = 0 ∧ s.liveGuards = 0 ∧ s.queuedExecutors = 1 ∧
        (s.threads 1).blocked = some (.exclusive, true) := by
    refine ⟨_, rfl, ?_⟩
    decide
  have hreach : (coordination (Fin 3)).Reachable s := (TransitionSystem.Reachable.init rfl).run hs
  have hfree := (lifecycle_admission hreach).2.2.2.2.2
  refine ⟨s, hs, hcounts.1, hcounts.2.1, hcounts.2.2.1, fun hnone =>
    hfree ⟨hcounts.1, hcounts.2.1, ⟨1, ?_⟩, hnone⟩⟩
  rw [hcounts.2.2.2]
  exact Option.some_ne_none _

end StrataDB.Txn.LifecycleCoordination
