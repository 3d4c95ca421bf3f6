import Mathlib.Data.List.Forall2

/-! Reasoning about fallible computations in `Except`. A computation that
returned `ok` is taken apart step by step with `bind_eq_ok`; a loop that
collects one result per element is described by `mapM_eq_ok`, a loop of checks
by `forM_eq_ok`. -/

namespace StrataDB.Lib

universe u

variable {ε : Type*} {α β : Type u}

variable {x : Except ε α} {f : α → Except ε β} {a : α} {c : Prop} {xs : List α} {γ : Type u}

@[simp] theorem bind_eq_ok {b : β} : (x >>= f) = .ok b ↔ ∃ a, x = .ok a ∧ f a = .ok b := by
  cases x <;> simp [bind, Except.bind]

@[simp] theorem pure_eq_ok {b : α} : (pure a : Except ε α) = .ok b ↔ a = b := by
  simp [pure, Except.pure]

@[simp] theorem ok_bind (a : α) (f : α → Except ε β) : ((.ok a : Except ε α) >>= f) = f a := rfl

variable (e : ε)

@[simp] theorem error_bind (f : α → Except ε β) : ((.error e : Except ε α) >>= f) = .error e := rfl

/-- Stop with `e` unless the condition holds. -/
def ensure (c : Prop) [Decidable c] (e : ε) : Except ε Unit :=
  if c then .ok () else .error e

@[simp] theorem ensure_eq_ok {_ : Decidable c} {e : ε} {u : Unit} : ensure c e = .ok u ↔ c := by
  unfold ensure
  split <;> simp_all

theorem ensure_of [Decidable c] (h : c) : ensure c e = .ok () :=
  ensure_eq_ok.mpr h

/-- Require a value to be present. -/
def orElse (x : Option α) (e : ε) : Except ε α :=
  match x with
  | some a => .ok a
  | none => .error e

@[simp] theorem orElse_eq_ok {x : Option α} {e : ε} : orElse x e = .ok a ↔ x = some a := by
  cases x <;> simp [orElse]

/-- A loop that collects one result per element succeeds exactly when every
element does. -/
theorem mapM_eq_ok {ys : List β} :
    xs.mapM f = .ok ys ↔ List.Forall₂ (fun x y => f x = .ok y) xs ys := by
  induction xs generalizing ys with
  | nil => cases ys <;> simp [pure, Except.pure]
  | cons x xs ih =>
    simp only [List.mapM_cons, bind_eq_ok, pure_eq_ok, List.forall₂_cons_left_iff]
    constructor
    · rintro ⟨y, hy, ys', hys, rfl⟩
      exact ⟨y, ys', hy, ih.mp hys, rfl⟩
    · rintro ⟨y, ys', hy, hys, rfl⟩
      exact ⟨y, hy, ys', ih.mpr hys, rfl⟩

/-- A loop of checks succeeds exactly when every check does. -/
theorem forM_eq_ok {f : α → Except ε PUnit} {r : PUnit} :
    xs.forM f = .ok r ↔ ∀ x ∈ xs, f x = .ok ⟨⟩ := by
  induction xs with
  | nil => simp [List.forM, pure, Except.pure]
  | cons x xs ih =>
    have hcons : (x :: xs).forM f = (f x >>= fun _ => xs.forM f) := rfl
    rw [hcons, bind_eq_ok, List.forall_mem_cons]
    constructor
    · rintro ⟨_, hx, hxs⟩
      exact ⟨hx, ih.mp hxs⟩
    · rintro ⟨hx, hxs⟩
      exact ⟨_, hx, ih.mpr hxs⟩

theorem mapM_ok_of_forall {g : α → β} (h : ∀ x ∈ xs, f x = .ok (g x)) :
    xs.mapM f = .ok (xs.map g) := by
  rw [mapM_eq_ok, List.forall₂_map_right_iff, List.forall₂_same]
  exact h

theorem mapM_ok_of_exists {R : α → β → Prop} (h : ∀ x ∈ xs, ∃ y, f x = .ok y ∧ R x y) :
    ∃ ys, xs.mapM f = .ok ys ∧ List.Forall₂ R xs ys := by
  induction xs with
  | nil => exact ⟨[], rfl, .nil⟩
  | cons x xs ih =>
    rw [List.forall_mem_cons] at h
    obtain ⟨y, hy, hR⟩ := h.1
    obtain ⟨ys, hys, hRs⟩ := ih h.2
    refine ⟨y :: ys, ?_, .cons hR hRs⟩
    rw [List.mapM_cons, hy, ok_bind, hys]
    rfl

theorem exists_mapM_eq_ok : (∃ ys, xs.mapM f = .ok ys) ↔ ∀ x ∈ xs, ∃ y, f x = .ok y := by
  constructor
  · rintro ⟨ys, hys⟩ x hx
    induction (mapM_eq_ok.mp hys) with
    | nil => cases hx
    | cons hd _ ih =>
      rcases List.mem_cons.mp hx with rfl | hx
      · exact ⟨_, hd⟩
      · exact ih (mapM_eq_ok.mpr ‹_›) hx
  · intro h
    obtain ⟨ys, hys, _⟩ := mapM_ok_of_exists (R := fun _ _ => True)
      fun x hx => (h x hx).imp fun _ hy => ⟨hy, trivial⟩
    exact ⟨ys, hys⟩

theorem forM_congr {f g : α → Except ε PUnit} (h : ∀ x ∈ xs, f x = g x) :
    xs.forM f = xs.forM g := by
  induction xs with
  | nil => rfl
  | cons x xs ih =>
    rw [List.forall_mem_cons] at h
    change (f x >>= fun _ => xs.forM f) = (g x >>= fun _ => xs.forM g)
    rw [h.1, ih h.2]

theorem mapM_congr {g : α → Except ε β} (h : ∀ x ∈ xs, f x = g x) : xs.mapM f = xs.mapM g := by
  induction xs with
  | nil => rfl
  | cons x xs ih =>
    rw [List.forall_mem_cons] at h
    rw [List.mapM_cons, List.mapM_cons, h.1, ih h.2]

/-- A loop over nested lists, group by group. -/
theorem mapM_flatMap {f : β → Except ε γ} {g : α → List β} :
    (xs.flatMap g).mapM f = (xs.mapM fun x => (g x).mapM f).map List.flatten := by
  induction xs with
  | nil => rfl
  | cons x xs ih =>
    rw [List.flatMap_cons, List.mapM_append, List.mapM_cons, ih]
    cases (g x).mapM f with
    | error e => rfl
    | ok ys => cases xs.mapM fun x => (g x).mapM f <;> rfl

theorem foldlM_singleton (f : β → α → Except ε β) (b : β) (a : α) :
    [a].foldlM f b = f b a := by
  cases h : f b a <;> simp [h]

theorem foldlM_congr {f g : β → α → Except ε β} (h : ∀ b, ∀ x ∈ xs, f b x = g b x) (b : β) :
    xs.foldlM f b = xs.foldlM g b := by
  induction xs generalizing b with
  | nil => rfl
  | cons x xs ih =>
    rw [List.foldlM_cons, List.foldlM_cons, h b x List.mem_cons_self]
    exact congrArg (g b x >>= ·) (funext fun b' =>
      ih (fun b y hy => h b y (List.mem_cons_of_mem _ hy)) b')

theorem foldlM_flatMap {f : β → γ → Except ε β} {g : α → List γ} (b : β) :
    (xs.flatMap g).foldlM f b = xs.foldlM (fun b x => (g x).foldlM f b) b := by
  induction xs generalizing b with
  | nil => rfl
  | cons x xs ih =>
    rw [List.flatMap_cons, List.foldlM_append, List.foldlM_cons]
    exact congrArg ((g x).foldlM f b >>= ·) (funext ih)

/-- A loop whose state tells what has been visited. If one more element is accepted
exactly when the elements up to it are `good`, so are all of them together. -/
theorem foldlM_eq_ok_iff {step : β → α → Except ε β} (state : List α → β)
    (good : List α → Prop) (hinit : ∀ done more, good (done ++ more) → good done)
    (hstep : ∀ done x b, good done →
      (step (state done) x = .ok b ↔ good (done ++ [x]) ∧ b = state (done ++ [x])))
    {done : List α} (hdone : good done) (xs : List α) (b : β) :
    xs.foldlM step (state done) = .ok b ↔ good (done ++ xs) ∧ b = state (done ++ xs) := by
  induction xs generalizing done with
  | nil =>
    rw [List.foldlM_nil, pure_eq_ok, List.append_nil, and_iff_right hdone]
    exact eq_comm
  | cons x xs ih =>
    rw [List.foldlM_cons, bind_eq_ok, List.append_cons]
    constructor
    · rintro ⟨_, hx, hrest⟩
      obtain ⟨hgood, rfl⟩ := (hstep done x _ hdone).mp hx
      exact (ih hgood).mp hrest
    · rintro ⟨hgood, rfl⟩
      have hx := hinit _ _ hgood
      exact ⟨_, (hstep done x _ hdone).mpr ⟨hx, rfl⟩, (ih hx).mpr ⟨hgood, rfl⟩⟩

/-! ### What every failure is -/

/-- Every failure of `x` satisfies `p`. -/
def FailsWith (p : ε → Prop) (x : Except ε α) : Prop := ∀ e, x = .error e → p e

section

variable {p : ε → Prop}

theorem FailsWith.ok (a : α) : FailsWith p (.ok a : Except ε α) := fun _ h => by cases h

variable {e : ε} {x : Except ε α} {f : α → Except ε β}

theorem FailsWith.error (h : p e) : FailsWith p (.error e : Except ε α) :=
  fun _ he => by cases he; exact h

theorem FailsWith.imp {q : ε → Prop} (h : FailsWith p x) (hpq : ∀ e, p e → q e) :
    FailsWith q x := fun e he => hpq e (h e he)

theorem FailsWith.bind (hx : FailsWith p x) (hf : ∀ a, FailsWith p (f a)) :
    FailsWith p (x >>= f) := by
  cases x with
  | ok a => exact hf a
  | error e => exact .error (hx e rfl)

/-- The same, where what follows may use the result. -/
theorem FailsWith.bind_ok (hx : FailsWith p x) (hf : ∀ a, x = .ok a → FailsWith p (f a)) :
    FailsWith p (x >>= f) := by
  cases x with
  | ok a => exact hf a rfl
  | error e => exact .error (hx e rfl)

theorem FailsWith.ensure {c : Prop} [Decidable c] (h : p e) : FailsWith p (Lib.ensure c e) := by
  unfold Lib.ensure
  split
  · exact .ok _
  · exact .error h

theorem FailsWith.orElse {x : Option α} (h : p e) : FailsWith p (Lib.orElse x e) := by
  cases x with
  | some a => exact .ok a
  | none => exact .error h

theorem FailsWith.mapM (hf : ∀ a, FailsWith p (f a)) (xs : List α) : FailsWith p (xs.mapM f) := by
  induction xs with
  | nil => exact .ok _
  | cons x xs ih =>
    rw [List.mapM_cons]
    exact .bind (hf x) fun _ => .bind ih fun _ => .ok _

theorem FailsWith.forM {f : α → Except ε PUnit} (hf : ∀ a, FailsWith p (f a)) (xs : List α) :
    FailsWith p (xs.forM f) := by
  induction xs with
  | nil => exact .ok _
  | cons x xs ih => exact .bind (hf x) fun _ => ih

end

theorem exists_error_of_isOk_eq_false (h : x.isOk = false) : ∃ e, x = .error e := by
  cases x with
  | error e => exact ⟨e, rfl⟩
  | ok a => cases h

theorem exists_ok_of_isOk (h : x.isOk = true) : ∃ a, x = .ok a := by
  cases x with
  | error e => cases h
  | ok a => exact ⟨a, rfl⟩

theorem toOption_eq_some {ε α : Type*} {x : Except ε α} {a : α} :
    x.toOption = some a ↔ x = .ok a := by
  cases x <;> simp [Except.toOption]

end StrataDB.Lib
