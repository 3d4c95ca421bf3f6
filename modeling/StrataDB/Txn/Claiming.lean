import StrataDB.Txn.Dataset

/-! Row-id claims: every claim hands out a range above all earlier ones, and the
greatest reservation record is never below the counter, so that ids are not
handed out again after the handle is lost. -/

namespace StrataDB.Txn

open Lib Storage

/-- Every reservation record holds the end its name says. -/
def RecordsValid (s : Store) : Prop :=
  ∀ last object, s.get (.reservation last) = some object → object = .reservation last

/-- Some record reaches up to the counter. -/
structure Durable (s : Store) (next : ℕ) : Prop where
  valid : RecordsValid s
  reaches : ∃ last, s.get (.reservation last) = some (.reservation last) ∧ next ≤ last

variable {s s' : Store} {next last requestedEnd count fuel next' : ℕ} {observed : Option ℕ}
  {key : Key} {r : Except HighWaterPersistenceError ℕ} {faults : ℕ → ReservationFaults}
  {range : RowIdRange}

theorem Durable.mono (h : Durable s next)
    (hget : ∀ last, s'.get (.reservation last) = s.get (.reservation last)) : Durable s' next where
  valid last object hl := h.valid last object (by rwa [hget] at hl)
  reaches := by
    obtain ⟨last, hl, hle⟩ := h.reaches
    exact ⟨last, by rwa [hget], hle⟩

theorem readRowIdHighWater_eq_ok {r : Option ℕ} :
    readRowIdHighWater s = .ok r ↔ RecordsValid s ∧ r = s.reservations.max? := by
  simp only [readRowIdHighWater, bind_eq_ok, forM_eq_ok, ensure_eq_ok, pure_eq_ok, exists_const,
    Store.mem_reservations]
  refine and_congr ⟨fun h last object hl => ?_, fun h last hl => ?_⟩ eq_comm
  · have := h last (by rw [hl]; rfl)
    rw [hl] at this
    exact Option.some.inj this
  · obtain ⟨object, hl⟩ := Option.isSome_iff_exists.mp hl
    rw [hl, h last object hl]

theorem reservations_max (hv : RecordsValid s) (h : s.reservations.max? = some last) :
    s.get (.reservation last) = some (.reservation last) ∧
      ∀ other, (s.get (.reservation other)).isSome → other ≤ last := by
  obtain ⟨hmem, hmax⟩ := List.max?_eq_some_iff.mp h
  refine ⟨?_, fun other ho => hmax other (Store.mem_reservations.mpr ho)⟩
  obtain ⟨object, hl⟩ := Option.isSome_iff_exists.mp (Store.mem_reservations.mp hmem)
  rw [hl, hv last object hl]

/-- The store after a record was linked under a free name. -/
theorem RecordsValid.insert (h : RecordsValid s) (last : ℕ) :
    RecordsValid (s.insert (.reservation last) (.reservation last)) := by
  intro other object ho
  rw [Store.get_insert] at ho
  split at ho
  · rename_i heq
    cases heq
    exact (Option.some.inj ho).symm
  · exact h other object ho

/-- What persisting an end can do: the store keeps its records, and a record that
is reported reaches the end asked for. A record above that end was there before. -/
structure Persisted (s : Store) (requestedEnd : ℕ) (s' : Store)
    (r : Except HighWaterPersistenceError ℕ) : Prop where
  store : s' = s ∨ s' = s.insert (.reservation requestedEnd) (.reservation requestedEnd)
  ok : ∀ last, r = .ok last → RecordsValid s ∧ requestedEnd ≤ last ∧
    s'.get (.reservation last) = some (.reservation last) ∧
    (last = requestedEnd ∨ s' = s ∧ s.reservations.max? = some last)
  ok_max : ∀ last, r = .ok last → ∀ highest, s.reservations.max? = some highest → highest ≤ last
  possibly : ∀ last source, r = .error (.possiblyPublished last source) → RecordsValid s ∧
    requestedEnd ≤ last ∧ s'.get (.reservation last) = some (.reservation last)

theorem readOrFail_eq_ok {fails : Bool} (h : readOrFail s fails = .ok observed) :
    RecordsValid s ∧ observed = s.reservations.max? := by
  unfold readOrFail at h
  split at h
  · cases h
  · exact readRowIdHighWater_eq_ok.mp h

theorem observed_filter (hv : RecordsValid s) (hobs : observed = s.reservations.max?)
    (h : observed.filter (requestedEnd ≤ ·) = some last) :
    s.reservations.max? = some last ∧ requestedEnd ≤ last ∧
      s.get (.reservation last) = some (.reservation last) := by
  obtain ⟨hsome, hle⟩ := Option.filter_eq_some_iff.mp h
  rw [hobs] at hsome
  exact ⟨hsome, by simpa using hle, (reservations_max hv hsome).1⟩

/-- Linking a record: the name was free, or nothing changes. -/
theorem putIfAbsent_store {object : Object} {fault : Fault} {r : Except StorageError Unit}
    (h : s.putIfAbsent key object fault = (s', r)) :
    (s' = s ∧ ∃ e, r = .error e) ∨
      (s' = s.insert key object ∧ s.get key = none ∧ ∀ k, r ≠ .error (.alreadyExists k)) := by
  unfold Store.putIfAbsent at h
  repeat' split at h
  all_goals
    obtain ⟨rfl, rfl⟩ := Prod.mk.inj h
    first
    | exact .inl ⟨rfl, _, rfl⟩
    | exact .inr ⟨rfl, by simp_all, by simp⟩

/-- A record that reaches the end was there: nothing is written. -/
theorem Persisted.of_observed {observed : Option ℕ} {last : ℕ} (hv : RecordsValid s)
    (hobs : observed = s.reservations.max?)
    (hfilter : observed.filter (requestedEnd ≤ ·) = some last) :
    Persisted s requestedEnd s (.ok last) := by
  obtain ⟨hmax, hle, hget⟩ := observed_filter hv hobs hfilter
  refine ⟨.inl rfl, fun last' hl => ?_, fun last' hl highest hh => ?_, by simp⟩
  · cases hl
    exact ⟨hv, hle, hget, .inr ⟨rfl, hmax⟩⟩
  · cases hl
    rw [hmax] at hh
    exact (Option.some.inj hh).ge

theorem persist_spec {faults : ReservationFaults}
    (h : persistRowIdHighWaterAtLeast s requestedEnd faults = (s', r)) :
    Persisted s requestedEnd s' r := by
  unfold persistRowIdHighWaterAtLeast at h
  split at h
  · obtain ⟨rfl, rfl⟩ := Prod.mk.inj h
    exact ⟨.inl rfl, by simp, by simp, by simp⟩
  · rename_i observed hread
    obtain ⟨hv, hobs⟩ := readOrFail_eq_ok hread
    split at h
    · rename_i last hfilter
      obtain ⟨rfl, rfl⟩ := Prod.mk.inj h
      exact .of_observed hv hobs hfilter
    · rename_i hbelow
      have hstore : ∀ {s₁ r₁}, s.putIfAbsent (.reservation requestedEnd)
          (.reservation requestedEnd) faults.put = (s₁, r₁) →
          s₁ = s ∨ s₁ = s.insert (.reservation requestedEnd) (.reservation requestedEnd) :=
        fun hput => (putIfAbsent_store hput).imp And.left And.left
      split at h
      · rename_i s₁ hput
        obtain ⟨rfl, rfl⟩ := Prod.mk.inj h
        rcases putIfAbsent_store hput with ⟨_, e, he⟩ | ⟨rfl, _⟩
        · cases he
        · refine ⟨.inr rfl, fun last hl => ?_, fun last hl highest hh => ?_, by simp⟩
          · cases hl
            exact ⟨hv, le_rfl, Store.get_insert_self _ _ _, .inl rfl⟩
          · cases hl
            rw [hobs, hh, Option.filter_eq_none_iff] at hbelow
            have := hbelow highest rfl
            rw [decide_eq_true_eq] at this
            omega
      · rename_i s₁ key hput
        obtain rfl : s₁ = s := by
          rcases putIfAbsent_store hput with ⟨hs, _⟩ | ⟨_, _, hne⟩
          · exact hs
          · exact absurd rfl (hne key)
        split at h
        · obtain ⟨rfl, rfl⟩ := Prod.mk.inj h
          exact ⟨.inl rfl, by simp, by simp, by simp⟩
        · rename_i observed' hread'
          split at h
          · rename_i last hfilter
            obtain ⟨rfl, rfl⟩ := Prod.mk.inj h
            exact .of_observed hv (readOrFail_eq_ok hread').2 hfilter
          · obtain ⟨rfl, rfl⟩ := Prod.mk.inj h
            exact ⟨.inl rfl, by simp, by simp, by simp⟩
      · rename_i s₁ source hne hput
        split at h
        · obtain ⟨rfl, rfl⟩ := Prod.mk.inj h
          exact ⟨hstore hput, by simp, by simp, by simp⟩
        · rename_i observed' hread'
          obtain ⟨hv', hobs'⟩ := readOrFail_eq_ok hread'
          split at h
          · rename_i last hfilter
            obtain ⟨rfl, rfl⟩ := Prod.mk.inj h
            obtain ⟨_, hle, hget⟩ := observed_filter hv' hobs' hfilter
            refine ⟨hstore hput, by simp, by simp, fun last' source' hl => ?_⟩
            cases hl
            exact ⟨hv, hle, hget⟩
          · obtain ⟨rfl, rfl⟩ := Prod.mk.inj h
            exact ⟨hstore hput, by simp, by simp, by simp⟩

/-! ### Claims -/

theorem Persisted.durable (h : Persisted s requestedEnd s' r) (hd : Durable s next) :
    Durable s' next := by
  rcases h.store with rfl | rfl
  · exact hd
  · refine ⟨hd.valid.insert _, ?_⟩
    obtain ⟨last, hget, hle⟩ := hd.reaches
    refine ⟨last, ?_, hle⟩
    rw [Store.get_insert]
    split
    · rename_i heq
      cases heq
      rfl
    · exact hget

theorem Persisted.get_eq (h : Persisted s requestedEnd s' r)
    (hkey : ∀ last, key ≠ .reservation last) : s'.get key = s.get key := by
  rcases h.store with rfl | rfl
  · rfl
  · exact Store.get_insert_of_ne _ _ (hkey _)

/-- What a claim does to the store and the counter, however it ends. -/
structure ClaimSpec (count : ℕ) (s : Store) (next : ℕ) (s' : Store) (next' : ℕ)
    (r : Option (Except TxnError RowIdRange)) : Prop where
  next_le : next ≤ next'
  get_eq : ∀ key, (∀ last, key ≠ .reservation last) → s'.get key = s.get key
  durable : Durable s next → Durable s' next'
  range : ∀ range, r = some (.ok range) →
    next ≤ range.base ∧ range.len = count ∧ range.base + range.len = next' ∧ next' < u64Bound

theorem claimWithin_spec {r : Option (Except TxnError RowIdRange)}
    (h : claimWithin count faults fuel s next = (s', next', r)) :
    ClaimSpec count s next s' next' r := by
  induction fuel generalizing s next with
  | zero =>
    simp only [claimWithin, Prod.mk.injEq] at h
    obtain ⟨rfl, rfl, rfl⟩ := h
    exact ⟨le_rfl, fun _ _ => rfl, id, by simp⟩
  | succ fuel ih =>
    unfold claimWithin at h
    split at h
    · simp only [Prod.mk.injEq] at h
      obtain ⟨rfl, rfl, rfl⟩ := h
      exact ⟨le_rfl, fun _ _ => rfl, id, by simp⟩
    · rename_i last hadd
      obtain ⟨rfl, hlt⟩ := checkedAdd_eq_ok.mp hadd
      split at h
      · rename_i s₁ persisted hpersist
        have hp := persist_spec hpersist
        obtain ⟨hv, hle, hget, _⟩ := hp.ok persisted rfl
        have hreach : Durable s next → Durable s₁ (max next persisted) := fun hd =>
          ⟨(hp.durable hd).valid, persisted, hget, by omega⟩
        split at h
        · rename_i heq
          simp only [Prod.mk.injEq] at h
          obtain ⟨rfl, rfl, rfl⟩ := h
          refine ⟨by omega, fun _ hkey => hp.get_eq hkey, fun hd => ?_, fun range hr => ?_⟩
          · have := hreach hd
            rwa [show max next persisted = next + count by omega] at this
          · cases hr
            exact ⟨le_rfl, rfl, rfl, hlt⟩
        · have hrec := ih h
          refine ⟨?_, fun key hkey => ?_, fun hd => hrec.durable (hreach hd), fun range hr => ?_⟩
          · have := hrec.next_le
            omega
          · rw [hrec.get_eq key hkey, hp.get_eq hkey]
          · obtain ⟨h₁, h₂, h₃, h₄⟩ := hrec.range range hr
            exact ⟨by omega, h₂, h₃, h₄⟩
      · rename_i s₁ observed source hpersist
        have hp := persist_spec hpersist
        obtain ⟨hv, hle, hget⟩ := hp.possibly observed source rfl
        simp only [Prod.mk.injEq] at h
        obtain ⟨rfl, rfl, rfl⟩ := h
        exact ⟨by omega, fun _ hkey => hp.get_eq hkey,
          fun hd => ⟨(hp.durable hd).valid, observed, hget, by omega⟩, by simp⟩
      · rename_i s₁ source hpersist
        have hp := persist_spec hpersist
        simp only [Prod.mk.injEq] at h
        obtain ⟨rfl, rfl, rfl⟩ := h
        exact ⟨le_rfl, fun _ hkey => hp.get_eq hkey, hp.durable, by simp⟩

/-- Two rounds are enough: the first one moves the counter to the greatest record
if it has to start over. -/
theorem claim_settles (count : ℕ) (faults : ℕ → ReservationFaults) (s : Store) (next : ℕ) :
    (claimWithin count faults claimRounds s next).2.2 ≠ none := by
  unfold claimRounds claimWithin
  split
  · simp
  · rename_i last hadd
    split
    · rename_i s₁ persisted hpersist
      split
      · simp
      · rename_i hne
        obtain ⟨hv, hle, _, heq | ⟨rfl, hmax⟩⟩ := (persist_spec hpersist).ok persisted rfl
        · exact absurd heq hne
        obtain ⟨rfl, _⟩ := checkedAdd_eq_ok.mp hadd
        have hnext : max next persisted = persisted := by omega
        rw [hnext]
        unfold claimWithin
        split
        · simp
        · rename_i last' hadd'
          split
          · rename_i s₂ persisted' hpersist'
            split
            · simp
            · rename_i hne'
              obtain ⟨rfl, _⟩ := checkedAdd_eq_ok.mp hadd'
              obtain ⟨_, hle', _, heq' | ⟨_, hmax'⟩⟩ := (persist_spec hpersist').ok persisted' rfl
              · exact absurd heq' hne'
              · rw [hmax] at hmax'
                cases hmax'
                omega
          · simp
          · simp
    · simp
    · simp

/-- Where the range of a successful claim starts: at the counter, or at the
greatest record if that is above the end first asked for. -/
theorem claimWithin_base {highest : ℕ} (hmax : s.reservations.max? = some highest)
    (h : claimWithin count faults fuel s next = (s', next', some (.ok range))) :
    s'.get (.reservation next') = some (.reservation next') ∧
      range.base = if highest ≤ next + count then next else highest := by
  induction fuel generalizing s next with
  | zero => simp [claimWithin] at h
  | succ fuel ih =>
    unfold claimWithin at h
    split at h
    · simp at h
    · rename_i last hadd
      obtain ⟨rfl, -⟩ := checkedAdd_eq_ok.mp hadd
      split at h
      · rename_i s₁ persisted hpersist
        have hp := persist_spec hpersist
        obtain ⟨-, hle, hget, hwhich⟩ := hp.ok persisted rfl
        have hfloor := hp.ok_max persisted rfl highest hmax
        split at h
        · rename_i heq
          simp only [Prod.mk.injEq, Option.some.injEq, Except.ok.injEq] at h
          obtain ⟨rfl, rfl, rfl⟩ := h
          rw [heq] at hget hfloor
          exact ⟨hget, by rw [if_pos hfloor]⟩
        · rename_i hne
          obtain ⟨rfl, hmax'⟩ := hwhich.resolve_left hne
          rw [hmax] at hmax'
          obtain rfl := Option.some.inj hmax'
          rw [show max next highest = highest by omega] at h
          obtain ⟨hget', hbase⟩ := ih hmax h
          rw [if_pos (Nat.le_add_right _ _)] at hbase
          exact ⟨hget', by rw [hbase, if_neg (by omega)]⟩
      · simp at h
      · simp at h

theorem claim_eq_ok (h : claim s next count faults = (s', next', .ok range)) :
    claimWithin count faults claimRounds s next = (s', next', some (.ok range)) := by
  unfold claim at h
  split at h
  · rename_i hwithin
    simp only [Prod.mk.injEq] at h
    obtain ⟨rfl, rfl, rfl⟩ := h
    exact hwithin
  · simp at h

/-- A successful claim starts above every record exactly when the greatest record
is not above the counter, or is above the end first asked for. A record in between
is covered by the end of the range, and is not told from the claim's own. -/
theorem claim_above_records_iff {count : ℕ} {faults : ℕ → ReservationFaults} {s s' : Store}
    {next next' highest : ℕ} {range : RowIdRange} (hmax : s.reservations.max? = some highest)
    (h : claim s next count faults = (s', next', .ok range)) :
    (highest ≤ range.base ∧ next' = range.base + range.len ∧
      ∃ last, s'.get (.reservation last) = some (.reservation last) ∧ next' ≤ last) ↔
      highest ≤ next ∨ next + count < highest := by
  have hwithin := claim_eq_ok h
  obtain ⟨hget, hbase⟩ := claimWithin_base hmax hwithin
  obtain ⟨-, -, hend, -⟩ := (claimWithin_spec hwithin).range range rfl
  constructor
  · rintro ⟨hle, -⟩
    rw [hbase] at hle
    split at hle <;> omega
  · intro hcond
    refine ⟨?_, hend.symm, next', hget, le_rfl⟩
    rw [hbase]
    split <;> omega

/-- One record, with the end in its name. -/
def recordStore (last : ℕ) : Store :=
  (∅ : Store).insert (.reservation last) (.reservation last)

/-- A record far above the counter: the claim starts there. -/
theorem claim_above_records_iff_far :
    ∃ s', claim (recordStore 41) 7 2 (fun _ => {}) = (s', 43, .ok ⟨41, 2⟩) ∧
      ∃ last, s'.get (.reservation last) = some (.reservation last) ∧ 43 ≤ last := by
  have hrun : (claim (recordStore 41) 7 2 fun _ => {}).2 = (43, .ok ⟨41, 2⟩) := by decide +kernel
  have hclaim : claim (recordStore 41) 7 2 (fun _ => {}) =
      ((claim (recordStore 41) 7 2 fun _ => {}).1, 43, .ok ⟨41, 2⟩) := Prod.ext rfl hrun
  have hmax : (recordStore 41).reservations.max? = some 41 := by decide +kernel
  exact ⟨_, hclaim, ((claim_above_records_iff hmax hclaim).mpr (.inr (by decide))).2.2⟩

/-- A record at the very end asked for: the claim takes it for its own, and hands
out ids below it. -/
theorem claim_below_record :
    (recordStore 2).reservations.max? = some 2 ∧
      (claim (recordStore 2) 0 2 fun _ => {}).2 = (2, .ok ⟨0, 2⟩) := by
  decide +kernel

/-- A claim on the handle: the ids it hands out are new. -/
theorem claimRowIds_spec {d d' : Dataset} {r : Except TxnError RowIdRange}
    (h : claimRowIds count faults d = (r, d')) :
    d' = { d with store := d'.store, nextRowId := d'.nextRowId } ∧
      ClaimSpec count d.store d.nextRowId d'.store d'.nextRowId (some r) := by
  unfold claimRowIds claim at h
  split at h
  rename_i s' next' result hclaim
  obtain ⟨rfl, rfl⟩ := Prod.mk.inj h
  split at hclaim
  · rename_i hwithin
    simp only [Prod.mk.injEq] at hclaim
    obtain ⟨rfl, rfl, rfl⟩ := hclaim
    exact ⟨rfl, claimWithin_spec hwithin⟩
  · rename_i hwithin
    have hsettled := claim_settles count faults d.store d.nextRowId
    rw [hwithin] at hsettled
    exact absurd rfl hsettled

end StrataDB.Txn
