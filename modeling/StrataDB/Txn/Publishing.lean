import StrataDB.Txn.Frame

/-! The one way a version becomes visible: its manifest is linked under a free
name, then the commit log and the current snapshot are replaced in memory. -/

namespace StrataDB.Txn

open Lib Arrow Index Storage

variable {F : Format} {m : Manifest} {P : Platform} {d : Dataset} {α : Type} {snapshot : Snapshot}
  {writeSet : List ℕ} {result : α}

theorem decodeManifest_error {version : ℕ} {e : StorageError}
    (h : decodeManifest F version m = .error e) (key : Key) :
    e ≠ .publicationIndeterminate key := by
  rintro rfl
  unfold decodeManifest validateSchemaVersion ensure at h
  repeat' split at h
  all_goals simp [bind, Except.bind, pure, Except.pure] at h

variable (fault : Fault)

/-- Under a free name, `commit_manifest_with` either links the manifest, which
decodes, or leaves the store alone. Only a linked manifest is reported as
indeterminate. -/
theorem commitManifestWith_cases {s : Store} (hfree : s.get m.key = none) :
    (∃ r, commitManifestWith F s m fault = (s.insert m.key (.manifest m), r) ∧
      (r = .ok () ∨ r = .error (.publicationIndeterminate m.key)) ∧
      decodeManifest F m.version m = .ok m) ∨
    ∃ e, commitManifestWith F s m fault = (s, .error e) ∧
      ∀ key, e ≠ .publicationIndeterminate key := by
  unfold commitManifestWith
  cases hdec : decodeManifest F m.version m with
  | error e => exact .inr ⟨e, rfl, decodeManifest_error hdec⟩
  | ok m' =>
    obtain rfl := (decodeManifest_eq_ok.mp hdec).1
    cases fault with
    | none =>
      refine .inl ⟨.ok (), ?_, .inl rfl, rfl⟩
      simp [Store.putIfAbsent, hfree]
    | early =>
      refine .inr ⟨.io "link failed", ?_, by simp⟩
      simp [Store.putIfAbsent, hfree]
    | late =>
      refine .inl ⟨.error (.publicationIndeterminate m'.key), ?_, .inr rfl, rfl⟩
      simp [Store.putIfAbsent, hfree]

theorem commitManifestWith_store (F : Format) (s : Store) (m : Manifest) (fault : Fault) :
    (commitManifestWith F s m fault).1 = s ∨
      (commitManifestWith F s m fault).1 = s.insert m.key (.manifest m) := by
  unfold commitManifestWith
  split
  · exact .inl rfl
  · rcases hput : s.putIfAbsent m.key (.manifest m) fault with ⟨s', r⟩
    have hs' : s' = s ∨ s' = s.insert m.key (.manifest m) :=
      (putIfAbsent_store hput).imp And.left And.left
    cases r with
    | ok u => exact hs'
    | error e =>
      cases e with
      | alreadyExists key => exact hs'
      | _ => dsimp only; split <;> exact hs'

/-- The handle after a version has become visible. -/
def Dataset.published (d : Dataset) (snapshot : Snapshot) (writeSet : List ℕ) : Dataset :=
  { d with
    store := d.store.insert snapshot.manifest.key (.manifest snapshot.manifest)
    log := d.log.push snapshot.version writeSet
    current := snapshot }

/-- A result that says the version is visible. -/
def VisibleResult {α : Type} (version : ℕ) (r : Except TxnError α) : Prop :=
  (∃ a, r = .ok a) ∨ ∃ e, r = .error (.indeterminateManifestPublication version e)

theorem publishCandidateManifest_eq (P : Platform) (m : Manifest) (fault : Fault) (d : Dataset) :
    (publishCandidateManifest P m fault d).2 =
      { d with store := (commitManifestWith P.format d.store m fault).1 } := by
  unfold publishCandidateManifest
  split <;> (rename_i heq; rw [heq])

theorem publishCandidateManifest_cases (hfree : d.store.get m.key = none) :
    (∃ indeterminate, publishCandidateManifest P m fault d =
        (.ok indeterminate, { d with store := d.store.insert m.key (.manifest m) }) ∧
      (∀ e ∈ indeterminate, ∃ source, e = .indeterminateManifestPublication m.version source) ∧
      decodeManifest P.format m.version m = .ok m) ∨
    ∃ e, publishCandidateManifest P m fault d = (.error (.storage e), d) := by
  unfold publishCandidateManifest
  rcases commitManifestWith_cases (F := P.format) fault hfree with
    ⟨res, hres, rfl | rfl, hdec⟩ | ⟨e, hres, hne⟩
  · rw [hres]
    exact .inl ⟨none, rfl, by simp, hdec⟩
  · rw [hres]
    exact .inl ⟨some _, rfl, by simp, hdec⟩
  · rw [hres]
    refine .inr ⟨e, ?_⟩
    cases e <;> first | rfl | exact absurd rfl (hne _)

/-- A publication either makes the version visible in full, or changes nothing. -/
theorem publish_cases {fault : Fault} {d' : Dataset} {r : Except TxnError α}
    (hfree : d.store.get snapshot.manifest.key = none)
    (hversion : snapshot.manifest.version = snapshot.version)
    (h : (publishCandidateManifest P snapshot.manifest fault >>=
      fun indeterminate => completeVisiblePublication snapshot writeSet indeterminate result) d =
      (r, d')) :
    (VisibleResult snapshot.version r ∧ d' = d.published snapshot writeSet ∧
      decodeManifest P.format snapshot.version snapshot.manifest = .ok snapshot.manifest) ∨
    ((∃ e, r = .error (.storage e)) ∧ d' = d) := by
  rw [Effect.bind_apply] at h
  rcases publishCandidateManifest_cases (P := P) fault hfree with
    ⟨indeterminate, hpub, hind, hdec⟩ | ⟨e, hpub⟩
  · rw [hpub] at h
    rw [hversion] at hdec hind
    cases indeterminate with
    | none =>
      obtain ⟨rfl, rfl⟩ := Prod.mk.inj h
      exact .inl ⟨.inl ⟨_, rfl⟩, rfl, hdec⟩
    | some e =>
      obtain ⟨rfl, rfl⟩ := Prod.mk.inj h
      obtain ⟨source, rfl⟩ := hind e rfl
      exact .inl ⟨.inr ⟨source, rfl⟩, rfl, hdec⟩
  · rw [hpub] at h
    obtain ⟨rfl, rfl⟩ := Prod.mk.inj h
    exact .inr ⟨⟨e, rfl⟩, rfl⟩

/-- Without a fault a publication succeeds exactly when the manifest decodes. -/
theorem publish_iff (hfree : d.store.get snapshot.manifest.key = none)
    (hversion : snapshot.manifest.version = snapshot.version) :
    (∃ a d', (publishCandidateManifest P snapshot.manifest .none >>= fun indeterminate =>
      completeVisiblePublication snapshot writeSet indeterminate result) d = (.ok a, d')) ↔
      decodeManifest P.format snapshot.version snapshot.manifest = .ok snapshot.manifest := by
  constructor
  · rintro ⟨a, d', hrun⟩
    rcases publish_cases hfree hversion hrun with ⟨-, -, hdec⟩ | ⟨⟨e, he⟩, -⟩
    · exact hdec
    · cases he
  · intro hdec
    rw [← hversion] at hdec
    have hcommit : commitManifestWith P.format d.store snapshot.manifest .none =
        (d.store.insert snapshot.manifest.key (.manifest snapshot.manifest), .ok ()) := by
      unfold commitManifestWith
      rw [hdec]
      simp [Store.putIfAbsent, hfree]
    have hpublish : publishCandidateManifest P snapshot.manifest .none d = (.ok none,
        { d with
          store := d.store.insert snapshot.manifest.key (.manifest snapshot.manifest) }) := by
      unfold publishCandidateManifest
      rw [hcommit]
    rw [Effect.bind_of_ok hpublish]
    exact ⟨result, _, rfl⟩

end StrataDB.Txn
