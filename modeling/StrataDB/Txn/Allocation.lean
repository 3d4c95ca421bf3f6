import Mathlib.Order.Interval.Finset.Nat
import StrataDB.Txn.Growth

/-! Row ids over a whole run. Handles follow each other on one dataset, claims
succeed or fail in every way, and whatever was claimed is claimed never again. -/

namespace StrataDB.Txn

open Lib Arrow Index Storage

variable {P : Platform} {s s' : System}

/-- The ids of a range. -/
def RowIdRange.ids (r : RowIdRange) : Finset ℕ := Finset.Ico r.base (r.base + r.len)

/-- The range a step hands out, if it is a claim that succeeds. -/
def System.claimed (s : System) : Label → Option RowIdRange
  | .claim id faults =>
    match s.txns[id]? with
    | some ⟨txn, .numbered _ _⟩ => (claimForPending txn faults s.dataset).1.toOption
    | _ => none
  | _ => none

/-- All ranges handed out along a run, in order. -/
def claimsOf (P : Platform) : System → List Label → List RowIdRange
  | _, [] => []
  | s, label :: labels =>
    match (system P).step s label with
    | some s' => (s.claimed label).toList ++ claimsOf P s' labels
    | none => []

namespace System

variable {label : Label}

/-- No step lowers the counter, a crash with its reopening included. -/
theorem Inv.nextRowId_le (h : Inv P s) (hs : systemStep P s label = some s') :
    s.dataset.nextRowId ≤ s'.dataset.nextRowId := by
  rcases h.step_effect hs with ⟨new, cat, cat', hg⟩ | ⟨-, hstore⟩
  · obtain ⟨names, d, writeSet, hadv, -, hd⟩ := hg.dataset
    rw [hd]
    exact hadv.nextRowId_le
  · cases hstore with
    | kept _ hle => exact hle
    | advanced hadv _ => exact hadv.nextRowId_le
    | erased _ _ heq => exact heq.ge

/-- A claim hands out ids between the counter before it and the counter after. -/
theorem claimed_spec (hs : systemStep P s label = some s') {r : RowIdRange}
    (hr : s.claimed label = some r) :
    s.dataset.nextRowId ≤ r.base ∧ r.base + r.len = s'.dataset.nextRowId := by
  cases label with
  | claim id faults =>
    simp only [claimed] at hr
    split at hr
    · rename_i txn ts attempt hid
      simp only [systemStep, commitPart, hid, Option.some.injEq] at hs
      rcases hrun : claimForPending txn faults s.dataset with ⟨result, d⟩
      rw [hrun] at hr
      cases result with
      | error e => cases hr
      | ok range =>
        cases hr
        obtain ⟨hbase, -, hend⟩ := claimForPending_eq_ok hrun
        rw [commitStep, hrun] at hs
        rw [← hs]
        exact ⟨hbase, hend⟩
    · cases hr
  | _ => cases hr

end System

variable {labels : List Label}

/-- Along a run every claim is above all earlier ones and below the last counter. -/
theorem claimsOf_ordered (h : s.Inv P) (hrun : (system P).run s labels = some s') :
    s.dataset.nextRowId ≤ s'.dataset.nextRowId ∧
      (∀ r ∈ claimsOf P s labels, s.dataset.nextRowId ≤ r.base ∧
        r.base + r.len ≤ s'.dataset.nextRowId) ∧
      (claimsOf P s labels).Pairwise fun a b => a.base + a.len ≤ b.base := by
  induction labels generalizing s with
  | nil =>
    cases hrun
    exact ⟨le_rfl, by simp [claimsOf], .nil⟩
  | cons label labels ih =>
    obtain ⟨s₁, hstep, hrun⟩ := Option.bind_eq_some_iff.mp hrun
    have hle := h.nextRowId_le hstep
    obtain ⟨hle₁, hbounds, hordered⟩ := ih (h.step hstep) hrun
    have hfirst : ∀ r ∈ (s.claimed label).toList, s.dataset.nextRowId ≤ r.base ∧
        r.base + r.len = s₁.dataset.nextRowId := fun r hr =>
      System.claimed_spec hstep (Option.mem_toList.mp hr)
    rw [claimsOf, hstep]
    refine ⟨hle.trans hle₁, List.forall_mem_append.mpr ⟨fun r hr => ?_, fun r hr => ?_⟩,
      List.pairwise_append.mpr ⟨?_, hordered, fun a ha b hb => ?_⟩⟩
    · exact ⟨(hfirst r hr).1, (hfirst r hr).2.le.trans hle₁⟩
    · exact ⟨hle.trans (hbounds r hr).1, (hbounds r hr).2⟩
    · cases s.claimed label <;> simp
    · exact (hfirst a ha).2.le.trans (hbounds b hb).1

theorem System.Inv.history_prefix (h : s.Inv P) (hrun : (system P).run s labels = some s') :
    ∀ g ∈ s.history, g ∈ s'.history := by
  induction labels generalizing s with
  | nil =>
    cases hrun
    exact fun _ hg => hg
  | cons label labels ih =>
    obtain ⟨s₁, hstep, hrun⟩ := Option.bind_eq_some_iff.mp hrun
    intro g hg
    refine ih (h.step hstep) hrun g ?_
    rcases h.step_effect hstep with ⟨new, cat, cat', hgrows⟩ | ⟨hsame, -⟩
    · rw [hgrows.history]
      exact List.mem_append_left _ hg
    · rwa [hsame]

/-- Over any run the successful claims are pairwise disjoint and below the
greatest reservation record, and the rows of every published version are below
the counter of every later handle. -/
theorem rowIds_never_reused {s₀ : System} (hinit : (system P).init s₀) {labels : List Label}
    (hrun : (system P).run s₀ labels = some s) :
    ((claimsOf P s₀ labels).Pairwise fun a b => Disjoint a.ids b.ids) ∧
      (∃ highest, s.dataset.store.reservations.max? = some highest ∧
        ∀ r ∈ claimsOf P s₀ labels, ∀ i ∈ r.ids, i < highest) ∧
      ∀ later s', (system P).run s later = some s' → ∀ g ∈ s.history, ∀ i,
        g.snapshot.ownsRow i = true → i < s'.dataset.nextRowId := by
  have h₀ := System.inv_of_reachable (.init hinit)
  have h := System.inv_of_reachable (TransitionSystem.Reachable.run (.init hinit) hrun)
  obtain ⟨-, hbounds, hordered⟩ := claimsOf_ordered h₀ hrun
  refine ⟨hordered.imp fun hab => ?_, ?_, fun later s' hlater g hg i hi => ?_⟩
  · exact Finset.Ico_disjoint_Ico_consecutive _ _ _ |>.mono_right (Finset.Ico_subset_Ico_left hab)
  · obtain ⟨highest, hread, hle, -⟩ := h.recorded.durable.highWater
    refine ⟨highest, (readRowIdHighWater_eq_ok.mp hread).2.symm, fun r hr i hi => ?_⟩
    have := (hbounds r hr).2
    have := (Finset.mem_Ico.mp hi).2
    omega
  · have h' := System.inv_of_reachable
      ((TransitionSystem.Reachable.run (.init hinit) hrun).run hlater)
    exact h'.recorded.ownsRow_lt (h.history_prefix hlater g hg) hi

/-- A claim is lost with its handle, the next one is made durable but reported as
failed, and a third transaction commits. -/
def crashLabels : List Label :=
  [.begin, .insert 0 (idBatch [10, 20]), .start 0 (some 1), .number 0 {}, .claim 0 fun _ => {},
    .reopen, .begin, .insert 1 (idBatch [30]), .start 1 (some 2), .number 1 {},
    .claim 1 fun _ => { put := .late }, .begin, .insert 2 (idBatch [40])] ++ commitLabels 2 3

/-- Its claims, the lost one among them, are disjoint and recorded. -/
theorem rowIds_never_reused_crashLabels :
    ∃ s₀ s, (system plainPlatform).init s₀ ∧ (system plainPlatform).run s₀ crashLabels = some s ∧
      claimsOf plainPlatform s₀ crashLabels = [⟨0, 2⟩, ⟨3, 1⟩] ∧
      Disjoint (RowIdRange.ids ⟨0, 2⟩) (RowIdRange.ids ⟨3, 1⟩) ∧
      ∃ highest, s.dataset.store.reservations.max? = some highest ∧ 3 < highest := by
  have hclaims : ((createDataset plainPlatform ∅ idSchema 4 (some 0) {}).2.toOption.map fun d =>
      claimsOf plainPlatform (System.created d) crashLabels) = some [⟨0, 2⟩, ⟨3, 1⟩] := by
    decide +kernel
  have hrun : (plainRun idSchema crashLabels).isSome = true := by decide +kernel
  obtain ⟨s, hs⟩ := Option.isSome_iff_exists.mp hrun
  obtain ⟨d, hd, hrun⟩ := Option.bind_eq_some_iff.mp hs
  rw [hd] at hclaims
  have hclaims : claimsOf plainPlatform (System.created d) crashLabels = _ :=
    Option.some.inj hclaims
  have hinit : (system plainPlatform).init (System.created d) :=
    ⟨∅, idSchema, 4, some 0, {}, _, d, Prod.ext rfl (toOption_eq_some.mp hd), rfl⟩
  obtain ⟨hdisjoint, ⟨highest, hmax, hbelow⟩, -⟩ := rowIds_never_reused hinit hrun
  rw [hclaims] at hdisjoint hbelow
  exact ⟨_, s, hinit, hrun, hclaims, by simpa using hdisjoint, highest, hmax,
    hbelow ⟨3, 1⟩ (by simp) 3 (by decide)⟩

/-! ### The last id

A claim ends below `u64::MAX`, so the greatest id is never handed out and a version
has fewer rows than a counter of 64 bits can hold. -/

/-- Every range in use and every row ever published is below the last id. -/
structure System.IdsBelow (s : System) : Prop where
  ranges : ∀ t ∈ s.txns, ∀ r, t.stage.range? = some r → r.base + r.len < u64Bound
  events : ∀ g ∈ s.history, ∀ i ∈ g.event.newIds, i + 1 < u64Bound

namespace System.IdsBelow

variable {id : ℕ} {d : Dataset}

theorem set (h : s.IdsBelow) {t : TxnState}
    (ht : ∀ r, t.stage.range? = some r → r.base + r.len < u64Bound) :
    IdsBelow { s with dataset := d, txns := s.txns.set id t } where
  ranges t' ht' := by
    rcases List.mem_or_eq_of_mem_set ht' with ht' | rfl
    · exact h.ranges t' ht'
    · exact ht
  events := h.events

theorem commitStep {α : Type} (h : s.IdsBelow) {txn : Transaction} {action : Action α}
    {next : α → Stage}
    (hnext : ∀ a d, action s.dataset = (.ok a, d) → ∀ r, (next a).range? = some r →
      r.base + r.len < u64Bound) :
    IdsBelow (Txn.commitStep s id txn action next) := by
  unfold Txn.commitStep
  split
  · rename_i a d hrun
    exact h.set (hnext a d hrun)
  · exact h.set fun r hr => by cases hr

theorem record (h : s.IdsBelow) {event : Event} {txns : List TxnState} {executor : Executor}
    (htxns : ∀ t ∈ txns, ∀ r, t.stage.range? = some r → r.base + r.len < u64Bound)
    (hevent : ∀ i ∈ event.newIds, i + 1 < u64Bound) :
    IdsBelow { s with dataset := d, txns, executor, history := s.record d event } where
  ranges := htxns
  events g hg := by
    change g ∈ System.record s d event at hg
    unfold System.record at hg
    split at hg
    · exact h.events g hg
    · rcases List.mem_append.mp hg with hg | hg
      · exact h.events g hg
      · rw [List.mem_singleton.mp hg]
        exact hevent

/-- The new rows have the ids of the claim, of which there are as many as rows. -/
theorem publish (h : s.IdsBelow) (hi : s.Inv P) {txn : Transaction} {ts : ℤ}
    {claim : Option (ℕ × RowIdRange)} {files : List DataFileEntry}
    {segment : Option PublishedSegment} {r : Except TxnError Unit} {event : Event}
    (hid : s.txns[id]? = some ⟨txn, .prepared ts claim files segment⟩)
    (hevent : event.newIds = List.range' (rowIdBase claim) txn.rows.length) :
    IdsBelow { s with dataset := d, txns := s.txns.set id ⟨txn, .finished r⟩
                      history := s.record d event } := by
  have hmem := List.mem_of_getElem? hid
  refine h.record (fun t ht r hr => ?_) fun i hmem' => ?_
  · rcases List.mem_or_eq_of_mem_set ht with ht | rfl
    · exact h.ranges t ht r hr
    · cases hr
  · obtain ⟨_, _, _, _, _, _, _, hnil, _⟩ := (hi.txns _ hmem).written
    rw [hevent] at hmem'
    cases claim with
    | none =>
      rw [Transaction.rows, hnil rfl] at hmem'
      cases hmem'
    | some c =>
      have hlen := ((hi.txns _ hmem).range c.2 rfl).1
      have hlt := h.ranges _ hmem c.2 rfl
      rw [← hlen, List.mem_range'_1] at hmem'
      change c.2.base ≤ i ∧ i < c.2.base + c.2.len at hmem'
      omega

theorem planStep (h : s.IdsBelow) (plan : Except TxnError (List Candidate)) :
    (Txn.planStep s plan).IdsBelow := by
  unfold Txn.planStep
  split <;> exact ⟨h.ranges, h.events⟩

theorem step (h : s.IdsBelow) (hi : s.Inv P) {label : Label}
    (hs : systemStep P s label = some s') : s'.IdsBelow := by
  cases System.Move.of_step hs with
  | begin =>
    refine ⟨fun t ht r hr => ?_, h.events⟩
    rcases List.mem_append.mp ht with ht | ht
    · exact h.ranges t ht r hr
    · rw [List.mem_singleton.mp ht] at hr
      cases hr
  | stage _ _ _ | rollback _ | skip _ _ => exact h.set fun r hr => by cases hr
  | refuse _ => exact h
  | start _ _ | number _ => exact h.commitStep fun _ _ _ r hr => by cases hr
  | claim _ =>
    refine h.commitStep fun range d hrun r hr => ?_
    cases hr
    exact claimForPending_lt hrun
  | write hid | index hid =>
    exact h.commitStep fun _ _ _ r hr => h.ranges _ (List.mem_of_getElem? hid) r hr
  | publish hid _ => exact h.publish hi hid rfl
  | compact _ _ | migrate _ _ => exact h.record h.ranges fun _ hi => by cases hi
  | plan _ _ => exact h.planStep _
  | reopen hs =>
    unfold reopenStep at hs
    split at hs <;> cases hs
    refine ⟨fun t ht r hr => ?_, h.events⟩
    obtain ⟨t₀, ht₀, rfl⟩ := List.mem_map.mp ht
    split at hr
    · cases hr
    · exact h.ranges t₀ ht₀ r hr
  | _ => exact ⟨h.ranges, h.events⟩

end System.IdsBelow

theorem System.idsBelow_of_reachable (h : (system P).Reachable s) : s.IdsBelow := by
  refine h.invariant (fun s₀ h₀ => ?_) fun s _ s' hs hbelow hstep =>
    hbelow.step (System.inv_of_reachable hs) hstep
  obtain ⟨_, _, _, _, _, _, _, _, rfl⟩ := h₀
  refine ⟨fun t ht => absurd ht List.not_mem_nil, fun g hg => ?_⟩
  rw [List.mem_singleton.mp hg]
  exact fun i hi => by cases hi

/-- Every live row of a version was new in some version. -/
theorem Chain.exists_new {hs : List Publication} (hc : Chain P hs) :
    ∀ g ∈ hs, ∀ rows, g.Shows P rows → ∀ i ∈ rows.map storedRowId,
      ∃ g' ∈ hs, i ∈ g'.event.newIds := by
  induction hc with
  | created he hshow _ =>
    intro g hg rows hrows i hi
    rw [List.mem_singleton.mp hg] at hrows
    rw [hrows.unique hshow] at hi
    cases hi
  | @next hs last new hc hlast hsucc ih =>
    intro g hg rows hrows i hi
    rcases List.mem_append.mp hg with hg | hg
    · obtain ⟨g', hg', hnew⟩ := ih g hg rows hrows i hi
      exact ⟨g', List.mem_append_left _ hg', hnew⟩
    · obtain rfl := List.mem_singleton.mp hg
      obtain ⟨before, hbefore, hafter⟩ := hsucc.shows
      rw [hrows.unique hafter] at hi
      rcases Event.mem_apply hbefore.fits hi with ⟨hi, -⟩ | hnew
      · obtain ⟨g', hg', hnew⟩ :=
          ih last (List.mem_of_getLast? hlast) before hbefore i hi
        exact ⟨g', List.mem_append_left _ hg', hnew⟩
      · exact ⟨g, List.mem_append_right _ List.mem_cons_self, hnew⟩

/-- A version in use has fewer live rows than a counter of 64 bits can hold. -/
theorem liveRows_length_lt (h : (system P).Reachable s) {b : Snapshot}
    (hb : b ∈ s.dataset.current :: s.held) {cat : Catalog} (hv : b.Valid P cat) :
    (cat.liveRows b.tombstones).length < u64Bound := by
  have hi := System.inv_of_reachable h
  obtain ⟨g, hg, rfl, -⟩ := hi.live_mem hb
  obtain ⟨k, hk⟩ := List.mem_iff_getElem?.mp hg
  have hshows := hi.recorded.chain.shows hk
  have hsub : (cat.liveRows g.snapshot.tombstones).map storedRowId ⊆
      List.range (u64Bound - 1) := by
    intro i hmem
    rw [← hv.ownsLiveRow_iff, hshows.ownsLiveRow_iff] at hmem
    obtain ⟨g', hg', hnew⟩ := hi.recorded.chain.exists_new g hg _ hshows i hmem
    have hlt := (System.idsBelow_of_reachable h).events g' hg' i hnew
    exact List.mem_range.mpr (by omega)
  have hle := (hv.liveRows_nodup.subperm hsub).length_le
  rw [List.length_map, List.length_range] at hle
  have hpos : 0 < u64Bound := by decide
  omega

end StrataDB.Txn
