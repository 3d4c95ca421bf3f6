import StrataDB.Lib.Except

/-! Computations over a shared state that may fail. A failure keeps the changes
made before it, as a function that returns early does. A successful computation
is taken apart with `bind_eq_ok`; what every outcome respects (a frame, an
invariant) is proved with `Within`, once per primitive. -/

namespace StrataDB.Lib

universe u

/-- A computation over the state `σ`. -/
def Effect (σ ε α : Type u) : Type u := σ → Except ε α × σ

namespace Effect

variable {σ ε α β : Type u}

instance : Monad (Effect σ ε) where
  pure a := fun s => (.ok a, s)
  bind x f := fun s =>
    match x s with
    | (.ok a, s') => f a s'
    | (.error e, s') => (.error e, s')

/-- A computation that neither reads nor changes the state. -/
def lift (x : Except ε α) : Effect σ ε α := fun s => (x, s)

/-- Read a part of the state. -/
def reads (f : σ → α) : Effect σ ε α := fun s => (.ok (f s), s)

/-- One result per element, in order. -/
def forEach (f : α → Effect σ ε β) : List α → Effect σ ε (List β)
  | [] => pure []
  | x :: xs => do
    let y ← f x
    let ys ← forEach f xs
    return y :: ys

variable (a : α) {x : Effect σ ε α} {s s' : σ} {r : Except ε β} {γ : Type u} {I : σ → Prop}
  {xs : List α}

@[simp] theorem pure_apply (s : σ) : (pure a : Effect σ ε α) s = (.ok a, s) := rfl

@[simp] theorem lift_apply (x : Except ε α) (s : σ) : lift x s = (x, s) := rfl

@[simp] theorem reads_apply (f : σ → α) (s : σ) : (reads f : Effect σ ε α) s = (.ok (f s), s) := rfl

theorem bind_apply (x : Effect σ ε α) (f : α → Effect σ ε β) (s : σ) :
    (x >>= f) s = match x s with
      | (.ok a, s') => f a s'
      | (.error e, s') => (.error e, s') := rfl

/-- A sequence succeeds exactly when both parts do. -/
theorem bind_eq_ok {f : α → Effect σ ε β} {b : β} :
    (x >>= f) s = (.ok b, s') ↔ ∃ a s₁, x s = (.ok a, s₁) ∧ f a s₁ = (.ok b, s') := by
  rw [bind_apply]
  split
  · rename_i a s₁ h
    constructor
    · intro hf
      exact ⟨a, s₁, h, hf⟩
    · rintro ⟨a', s₂, h', hf⟩
      rw [h] at h'
      cases h'
      exact hf
  · rename_i e s₁ h
    constructor
    · intro hf
      cases hf
    · rintro ⟨a', s₂, h', _⟩
      rw [h] at h'
      cases h'

/-- The ways a sequence can end. -/
theorem bind_cases {f : α → Effect σ ε β} (h : (x >>= f) s = (r, s')) :
    (∃ a s₁, x s = (.ok a, s₁) ∧ f a s₁ = (r, s')) ∨
      ∃ e, x s = (.error e, s') ∧ r = .error e := by
  rw [bind_apply] at h
  split at h
  · rename_i a s₁ hx
    exact .inl ⟨a, s₁, hx, h⟩
  · rename_i e s₁ hx
    cases h
    exact .inr ⟨e, hx, rfl⟩

theorem bind_of_ok {s₁ : σ} {a : α} (hx : x s = (.ok a, s₁)) (f : α → Effect σ ε β) :
    (x >>= f) s = f a s₁ := by
  rw [bind_apply, hx]

@[simp] theorem reads_bind (g : σ → α) (f : α → Effect σ ε β) (s : σ) :
    (reads g >>= f) s = f (g s) s := rfl

/-- A pure computation in front goes on in the same state or ends there. -/
theorem lift_bind_cases {x : Except ε α} {f : α → Effect σ ε β} (h : (lift x >>= f) s = (r, s')) :
    (∃ a, x = .ok a ∧ f a s = (r, s')) ∨ ∃ e, x = .error e ∧ r = .error e ∧ s' = s := by
  rcases bind_cases h with ⟨a, s₁, hx, hf⟩ | ⟨e, hx, hr⟩
  · obtain ⟨hok, rfl⟩ := Prod.mk.inj hx
    exact .inl ⟨a, hok, hf⟩
  · obtain ⟨herr, rfl⟩ := Prod.mk.inj hx
    exact .inr ⟨e, herr, hr, rfl⟩

/-! ### What every outcome respects -/

/-- However `x` ends, its final state is related to its first one. -/
def Within (R : σ → σ → Prop) (x : Effect σ ε α) : Prop := ∀ s, R s (x s).2

section

variable {R : σ → σ → Prop}

variable {x : Effect σ ε α} {f : α → Effect σ ε β}

theorem Within.of_eq (h : Within R x) {s s' : σ} {r : Except ε α} (hx : x s = (r, s')) :
    R s s' := by
  have := h s
  rwa [hx] at this

theorem Within.pure (hrefl : ∀ s, R s s) (a : α) : Within R (pure a : Effect σ ε α) := hrefl

theorem Within.lift (hrefl : ∀ s, R s s) (x : Except ε α) : Within R (lift x) := hrefl

theorem Within.reads (hrefl : ∀ s, R s s) (f : σ → α) : Within R (reads f : Effect σ ε α) := hrefl

theorem Within.bind (htrans : ∀ a b c, R a b → R b c → R a c) (hx : Within R x)
    (hf : ∀ a, Within R (f a)) : Within R (x >>= f) := by
  intro s
  rcases h : (x >>= f) s with ⟨r, s'⟩
  rcases bind_cases h with ⟨a, s₁, h₁, h₂⟩ | ⟨e, h₁, rfl⟩
  · exact htrans _ _ _ (hx.of_eq h₁) ((hf a).of_eq h₂)
  · exact hx.of_eq h₁

theorem Within.forEach (hrefl : ∀ s, R s s) (htrans : ∀ a b c, R a b → R b c → R a c) {xs : List α}
    (hf : ∀ x ∈ xs, Within R (f x)) : Within R (Effect.forEach f xs) := by
  induction xs with
  | nil => exact .pure hrefl _
  | cons x xs ih =>
    rw [List.forall_mem_cons] at hf
    exact .bind htrans hf.1 fun y => .bind htrans (ih hf.2) fun _ => .pure hrefl _

end

/-! ### Loops -/

theorem forEach_map (f : β → Effect σ ε γ) (g : α → β) (xs : List α) :
    forEach f (xs.map g) = forEach (fun x => f (g x)) xs := by
  induction xs with
  | nil => rfl
  | cons x xs ih => simp only [List.map_cons, forEach, ih]

/-- A loop that ran to its end: what each round establishes and the later rounds
keep holds at the end. `I` is what every round may rely on. -/
theorem forEach_spec {f : α → Effect σ ε β} {Q : α → β → σ → Prop}
    (hI : ∀ x ∈ xs, Within (fun s s' => I s → I s') (f x))
    (hpost : ∀ x ∈ xs, ∀ s y s', I s → f x s = (.ok y, s') → Q x y s')
    (hkeep : xs.Pairwise fun x x' => ∀ y, Within (fun s s' => Q x y s → Q x y s') (f x'))
    {ys : List β} (hs : I s) (h : forEach f xs s = (.ok ys, s')) :
    List.Forall₂ (fun x y => Q x y s') xs ys := by
  induction xs generalizing s ys with
  | nil =>
    cases h
    exact .nil
  | cons x xs ih =>
    rw [List.forall_mem_cons] at hI hpost
    rw [List.pairwise_cons] at hkeep
    simp only [forEach, bind_eq_ok, pure_apply, Prod.mk.injEq, Except.ok.injEq] at h
    obtain ⟨y, s₁, hx, ys', s₂, hxs, rfl, rfl⟩ := h
    have hkept : Within (fun s s' => Q x y s → Q x y s') (forEach f xs) :=
      .forEach (fun _ => id) (fun _ _ _ h₁ h₂ hq => h₂ (h₁ hq)) fun x' hx' => hkeep.1 x' hx' y
    exact .cons (hkept.of_eq hxs (hpost.1 s y s₁ hs hx))
      (ih hI.2 hpost.2 hkeep.2 (hI.1.of_eq hx hs) hxs)

/-- A loop runs to its end when each of its rounds does. -/
theorem forEach_ok {f : α → Effect σ ε β}
    (hf : ∀ x ∈ xs, ∀ s, I s → ∃ y s', f x s = (.ok y, s') ∧ I s') (hs : I s) :
    ∃ ys s', forEach f xs s = (.ok ys, s') ∧ I s' := by
  induction xs generalizing s with
  | nil => exact ⟨[], s, rfl, hs⟩
  | cons x xs ih =>
    rw [List.forall_mem_cons] at hf
    obtain ⟨y, s₁, hx, hs₁⟩ := hf.1 s hs
    obtain ⟨ys, s₂, hxs, hs₂⟩ := ih hf.2 hs₁
    refine ⟨y :: ys, s₂, ?_, hs₂⟩
    simp only [forEach, bind_eq_ok, pure_apply, Prod.mk.injEq, Except.ok.injEq]
    exact ⟨y, s₁, hx, ys, s₂, hxs, rfl, rfl⟩

/-- Every failure of `x` satisfies `p`. -/
def FailsWith (p : ε → Prop) (x : Effect σ ε α) : Prop := ∀ s, Lib.FailsWith p (x s).1

section

variable {p : ε → Prop}

variable {x : Effect σ ε α} {f : α → Effect σ ε β}

theorem FailsWith.of_eq (h : FailsWith p x) {s s' : σ} {e : ε} (hx : x s = (.error e, s')) : p e :=
  h s e (by rw [hx])

theorem FailsWith.pure (a : α) : FailsWith p (pure a : Effect σ ε α) := fun _ => .ok a

theorem FailsWith.lift {x : Except ε α} (h : Lib.FailsWith p x) :
    FailsWith p (Effect.lift x : Effect σ ε α) := fun _ => h

theorem FailsWith.reads (f : σ → α) : FailsWith p (reads f : Effect σ ε α) := fun _ => .ok _

theorem FailsWith.bind (hx : FailsWith p x) (hf : ∀ a, FailsWith p (f a)) :
    FailsWith p (x >>= f) := by
  intro s e he
  rcases h : (x >>= f) s with ⟨r, s'⟩
  rw [h] at he
  obtain rfl : r = .error e := he
  rcases bind_cases h with ⟨a, s₁, h₁, h₂⟩ | ⟨e', h₁, h₂⟩
  · exact (hf a).of_eq h₂
  · cases h₂
    exact hx.of_eq h₁

theorem FailsWith.forEach (hf : ∀ a, FailsWith p (f a)) (xs : List α) :
    FailsWith p (Effect.forEach f xs) := by
  induction xs with
  | nil => exact .pure _
  | cons x xs ih => exact .bind (hf x) fun _ => .bind ih fun _ => .pure _

end

/-! ### Records

Computations whose state is a record of what they did and nothing they depend on return
what a pure computation does. -/

section

variable {σ ε ε' α β : Type u}

/-- Add to the record. -/
def record (f : σ → σ) : Effect σ ε PUnit := fun s => (.ok ⟨⟩, f s)

def mapError (f : ε → ε') (x : Effect σ ε α) : Effect σ ε' α := fun s =>
  ((x s).1.mapError f, (x s).2)

/-- Whatever the record, `x` returns what `y` is. -/
def Erases (x : Effect σ ε α) (y : Except ε α) : Prop := ∀ s, (x s).1 = y

theorem Erases.pure (a : α) : Erases (pure a : Effect σ ε α) (.ok a) := fun _ => rfl

theorem Erases.lift (x : Except ε α) : Erases (Effect.lift x : Effect σ ε α) x := fun _ => rfl

variable {x : Effect σ ε α} {y : Except ε α}

theorem Erases.bind {f : α → Effect σ ε β} {g : α → Except ε β} (hx : Erases x y)
    (hf : ∀ a, Erases (f a) (g a)) : Erases (x >>= f) (y >>= g) := by
  intro s
  rw [bind_apply, ← hx s]
  rcases x s with ⟨_ | a, s'⟩
  · rfl
  · exact hf a s'

theorem Erases.record_bind {f : σ → σ} (hx : Erases x y) :
    Erases (record f >>= fun _ => x) y := fun s => hx (f s)

theorem Erases.mapError (hx : Erases x y) (f : ε → ε') :
    Erases (x.mapError f) (y.mapError f) := fun s => congrArg (Except.mapError f) (hx s)

/-- A record in front of a computation, and how it goes on. -/
@[simp] theorem record_bind_apply (f : σ → σ) (x : PUnit → Effect σ ε α) (s : σ) :
    (record f >>= x) s = x ⟨⟩ (f s) := rfl

theorem mapError_eq_ok {f : ε → ε'} {s s' : σ} {a : α} :
    x.mapError f s = (.ok a, s') ↔ x s = (.ok a, s') := by
  rw [mapError]
  rcases x s with ⟨_ | b, s₁⟩ <;> simp [Except.mapError]

end

end Effect

end StrataDB.Lib
