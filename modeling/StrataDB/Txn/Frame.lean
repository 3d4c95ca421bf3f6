import StrataDB.Txn.Claiming
import StrataDB.Txn.Transaction

/-! What the actions of a preparation leave alone. Data objects are only written
under names of the action's own attempt or version; everything else, the
manifests among it, is as before. -/

namespace StrataDB.Txn

open Lib Arrow Index Storage

/-- The handle is the same except for objects under the given data names. -/
structure WritesOnly (names : ObjectName → Prop) (d d' : Dataset) : Prop where
  current_eq : d'.current = d.current
  log_eq : d'.log = d.log
  nextRowId_eq : d'.nextRowId = d.nextRowId
  attempts_eq : d'.writeAttemptCounter = d.writeAttemptCounter
  issued_eq : d'.lastIssuedTimestamp = d.lastIssuedTimestamp
  get_eq : ∀ key, (∀ n, names n → key ≠ .data n) → d'.store.get key = d.store.get key

namespace WritesOnly

variable {names names' : ObjectName → Prop} {d d₁ d' : Dataset}

theorem refl (names : ObjectName → Prop) (d : Dataset) : WritesOnly names d d :=
  ⟨rfl, rfl, rfl, rfl, rfl, fun _ _ => rfl⟩

theorem trans (h : WritesOnly names d d₁) (h' : WritesOnly names d₁ d') :
    WritesOnly names d d' where
  current_eq := h'.current_eq.trans h.current_eq
  log_eq := h'.log_eq.trans h.log_eq
  nextRowId_eq := h'.nextRowId_eq.trans h.nextRowId_eq
  attempts_eq := h'.attempts_eq.trans h.attempts_eq
  issued_eq := h'.issued_eq.trans h.issued_eq
  get_eq key hkey := (h'.get_eq key hkey).trans (h.get_eq key hkey)

theorem mono (h : WritesOnly names d d') (hsub : ∀ n, names n → names' n) :
    WritesOnly names' d d' where
  current_eq := h.current_eq
  log_eq := h.log_eq
  nextRowId_eq := h.nextRowId_eq
  attempts_eq := h.attempts_eq
  issued_eq := h.issued_eq
  get_eq key hkey := h.get_eq key fun n hn => hkey n (hsub n hn)

theorem manifest_eq (h : WritesOnly names d d') (version : ℕ) :
    d'.store.get (.manifest version) = d.store.get (.manifest version) :=
  h.get_eq _ fun _ _ => by simp

theorem reservation_eq (h : WritesOnly names d d') (last : ℕ) :
    d'.store.get (.reservation last) = d.store.get (.reservation last) :=
  h.get_eq _ fun _ _ => by simp

theorem data_eq (h : WritesOnly names d d') {n : ObjectName} (hn : ¬ names n) :
    d'.store.get (.data n) = d.store.get (.data n) :=
  h.get_eq _ fun n' hn' heq => hn (by cases heq; exact hn')

end WritesOnly

section

variable {names : ObjectName → Prop} {α β : Type}

theorem within_bind {x : Action α} {f : α → Action β} (hx : Effect.Within (WritesOnly names) x)
    (hf : ∀ a, Effect.Within (WritesOnly names) (f a)) :
    Effect.Within (WritesOnly names) (x >>= f) :=
  Effect.Within.bind (R := WritesOnly names) (fun _ _ _ => WritesOnly.trans) hx hf

theorem within_lift (x : Except TxnError α) :
    Effect.Within (WritesOnly names) (Effect.lift x : Action α) :=
  .lift (WritesOnly.refl names) x

theorem within_pure (a : α) : Effect.Within (WritesOnly names) (pure a : Action α) :=
  .pure (WritesOnly.refl names) a

theorem within_reads (f : Dataset → α) :
    Effect.Within (WritesOnly names) (Effect.reads f : Action α) :=
  .reads (WritesOnly.refl names) f

theorem within_localCall (fails : Bool) (what : String) :
    Effect.Within (WritesOnly names) (localCall fails what) :=
  within_lift _

end

/-- `put` of a data object touches nothing but that object. -/
theorem within_putObject (name : ObjectName) (object : Object) (fault : Fault) :
    Effect.Within (WritesOnly (· = name)) (putObject (.data name) object fault) := by
  intro d
  have hget : ∀ key, (∀ n, n = name → key ≠ .data n) →
      Store.get (d.store.insert (.data name) object) key = d.store.get key :=
    fun key hkey => Store.get_insert_of_ne _ _ (hkey name rfl)
  cases fault
  · exact ⟨rfl, rfl, rfl, rfl, rfl, hget⟩
  · exact .refl _ d
  · exact ⟨rfl, rfl, rfl, rfl, rfl, hget⟩

variable {d d' : Dataset}

theorem putObject_eq_ok {key : Key} {object : Object} {fault : Fault} {u : Unit}
    (h : putObject key object fault d = (.ok u, d')) : d'.store.get key = some object := by
  unfold putObject at h
  cases fault <;> simp only [Store.put, Prod.mk.injEq, reduceCtorEq, false_and] at h
  obtain ⟨_, rfl⟩ := h
  exact Store.get_insert_self _ _ _

/-! ### Preparations -/

/-- What may happen to the handle before a publication: numbers and timestamps
are used up, and objects are written under the given data names. -/
structure Advances (names : ObjectName → Prop) (d d' : Dataset) : Prop where
  current_eq : d'.current = d.current
  log_eq : d'.log = d.log
  nextRowId_le : d.nextRowId ≤ d'.nextRowId
  attempts_le : d.writeAttemptCounter ≤ d'.writeAttemptCounter
  manifest_eq : ∀ version, d'.store.get (.manifest version) = d.store.get (.manifest version)
  data_eq : ∀ n, ¬ names n → d'.store.get (.data n) = d.store.get (.data n)
  durable : Durable d.store d.nextRowId → Durable d'.store d'.nextRowId

namespace Advances

variable {names names' : ObjectName → Prop} {d d₁ d' : Dataset}

theorem refl (names : ObjectName → Prop) (d : Dataset) : Advances names d d :=
  ⟨rfl, rfl, le_rfl, le_rfl, fun _ => rfl, fun _ _ => rfl, id⟩

theorem trans (h : Advances names d d₁) (h' : Advances names d₁ d') : Advances names d d' where
  current_eq := h'.current_eq.trans h.current_eq
  log_eq := h'.log_eq.trans h.log_eq
  nextRowId_le := h.nextRowId_le.trans h'.nextRowId_le
  attempts_le := h.attempts_le.trans h'.attempts_le
  manifest_eq version := (h'.manifest_eq version).trans (h.manifest_eq version)
  data_eq n hn := (h'.data_eq n hn).trans (h.data_eq n hn)
  durable hd := h'.durable (h.durable hd)

theorem mono (h : Advances names d d') (hsub : ∀ n, names n → names' n) :
    Advances names' d d' where
  current_eq := h.current_eq
  log_eq := h.log_eq
  nextRowId_le := h.nextRowId_le
  attempts_le := h.attempts_le
  manifest_eq := h.manifest_eq
  data_eq n hn := h.data_eq n fun hn' => hn (hsub n hn')
  durable := h.durable

end Advances

/-- The objects of the attempt with this number. -/
def ofAttempt (attempt : ℕ) (n : ObjectName) : Prop := n.attempt? = some attempt

theorem WritesOnly.advances {names : ObjectName → Prop} (h : WritesOnly names d d') :
    Advances names d d' where
  current_eq := h.current_eq
  log_eq := h.log_eq
  nextRowId_le := h.nextRowId_eq.ge
  attempts_le := h.attempts_eq.ge
  manifest_eq := h.manifest_eq
  data_eq _ hn := h.data_eq hn
  durable hd := by
    rw [h.nextRowId_eq]
    exact hd.mono h.reservation_eq

variable (names : ObjectName → Prop)

theorem advances_issueTimestamp (clock : Option ℕ) :
    Effect.Within (Advances names) (issueTimestamp clock) := by
  intro d
  unfold issueTimestamp
  split
  · exact .refl names d
  · exact ⟨rfl, rfl, le_rfl, le_rfl, fun _ => rfl, fun _ _ => rfl, id⟩

theorem issueTimestamp_eq_ok {clock : Option ℕ} {ts : ℤ}
    (h : issueTimestamp clock d = (.ok ts, d')) : d' = { d with lastIssuedTimestamp := ts } := by
  unfold issueTimestamp at h
  split at h
  · cases h
  · obtain ⟨hts, rfl⟩ := Prod.mk.inj h
    rw [← Except.ok.inj hts]

theorem advances_nextAttempt : Effect.Within (Advances names) nextAttempt :=
  fun _ => ⟨rfl, rfl, le_rfl, Nat.le_succ _, fun _ => rfl, fun _ _ => rfl, id⟩

theorem advances_claimRowIds (count : ℕ) (faults : ℕ → ReservationFaults) :
    Effect.Within (Advances names) (claimRowIds count faults) := by
  intro d
  obtain ⟨hd, hspec⟩ := claimRowIds_spec (Prod.mk.eta (p := claimRowIds count faults d)).symm
  rw [hd]
  exact ⟨rfl, rfl, hspec.next_le, le_rfl, fun _ => hspec.get_eq _ (by simp),
    fun _ _ => hspec.get_eq _ (by simp), hspec.durable⟩

section

variable {names : ObjectName → Prop} {α β : Type}

theorem advances_bind {x : Action α} {f : α → Action β} (hx : Effect.Within (Advances names) x)
    (hf : ∀ a, Effect.Within (Advances names) (f a)) :
    Effect.Within (Advances names) (x >>= f) :=
  Effect.Within.bind (R := Advances names) (fun _ _ _ => Advances.trans) hx hf

theorem advances_lift (x : Except TxnError α) :
    Effect.Within (Advances names) (Effect.lift x : Action α) :=
  .lift (Advances.refl names) x

end

end StrataDB.Txn
