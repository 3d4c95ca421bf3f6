import StrataDB.Lib.Except

/-! Computations that report an error. A checked operation returns the value of the
unchecked one unless there is an error to report; sequences and loops of such
operations report the first error. -/

namespace StrataDB.Lib

universe u

variable {ε : Type*} {α β σ : Type u} {xs : List α}

/-- The error if there is one, else the value. -/
def report (o : Option ε) (v : α) : Except ε α := o.elim (.ok v) .error

variable {o o' : Option ε} {v : α}

theorem report_inj : report o v = report o' v ↔ o = o' := by
  cases o <;> cases o' <;> simp [report]

theorem report_eq_ok {w : α} : report o v = .ok w ↔ o = none ∧ v = w := by
  cases o <;> simp [report]

theorem map_report (f : α → β) : (report o v).map f = report o (f v) := by
  cases o <;> rfl

theorem report_bind {f : α → Except ε β} {w : β} (h : o = none → f v = report o' w) :
    report o v >>= f = report (o.or o') w := by
  cases o with
  | none => exact h rfl
  | some e => rfl

/-- A loop reports the first error. -/
theorem mapM_report {f : α → Except ε β} {err : α → Option ε} {g : α → β}
    (h : ∀ x ∈ xs, f x = report (err x) (g x)) :
    xs.mapM f = report (xs.findSome? err) (xs.map g) := by
  induction xs with
  | nil => rfl
  | cons x xs ih =>
    rw [List.forall_mem_cons] at h
    have hrest : (xs.mapM f >>= fun ys => .ok (g x :: ys)) =
        report (xs.findSome? err) (g x :: xs.map g) := by
      rw [ih h.2]
      exact map_report (g x :: ·)
    rw [List.mapM_cons, h.1, report_bind fun _ => hrest, List.findSome?_cons]
    cases err x <;> rfl

variable {f : σ → α → Except ε σ}

/-- A loop over lists whose elements act alike, pair by pair. -/
theorem foldlM_of_forall₂ {g : σ → β → Except ε σ} {ys : List β}
    (h : List.Forall₂ (fun x y => ∀ s, f s x = g s y) xs ys) (s : σ) :
    xs.foldlM f s = ys.foldlM g s := by
  induction h generalizing s with
  | nil => rfl
  | @cons x y xs ys hxy _ ih =>
    rw [List.foldlM_cons, List.foldlM_cons, hxy]
    exact congrArg (g s y >>= ·) (funext ih)

/-- Elements that change nothing may be left out. -/
theorem foldlM_filter {q : α → Bool} (h : ∀ x ∈ xs, q x = false → ∀ s, f s x = .ok s) (s : σ) :
    (xs.filter q).foldlM f s = xs.foldlM f s := by
  induction xs generalizing s with
  | nil => rfl
  | cons x xs ih =>
    rw [List.forall_mem_cons] at h
    rw [List.filter_cons, List.foldlM_cons]
    split
    · rw [List.foldlM_cons]
      exact congrArg (f s x >>= ·) (funext (ih h.2))
    · rename_i hq
      rw [h.1 (by simpa using hq), ok_bind, ih h.2]

end StrataDB.Lib
