import Mathlib.Data.List.Induction
import Mathlib.Data.List.Infix
import StrataDB.Lib.Report

/-! Folding a list group by group. A state is kept for every key, in the order in
which the keys first appear; each element updates the state of its key. -/

namespace StrataDB.Lib

universe u

variable {ε : Type*} {α κ σ : Type u} [DecidableEq κ]

/-! ### Keys -/

/-- One more key, unless it is there. -/
def addKey (seen : List κ) (k : κ) : List κ := if k ∈ seen then seen else seen ++ [k]

/-- The elements without repetitions, in the order in which they first appear. -/
def firsts (ks : List κ) : List κ := ks.foldl addKey []

variable (ks : List κ) {k : κ} {κ' β : Type*} {f : κ' → κ} {i : σ}

theorem firsts_concat (k : κ) :
    firsts (ks ++ [k]) = if k ∈ firsts ks then firsts ks else firsts ks ++ [k] := by
  rw [firsts, List.foldl_append]
  rfl

@[simp] theorem mem_firsts {ks : List κ} : k ∈ firsts ks ↔ k ∈ ks := by
  induction ks using List.reverseRecOn with
  | nil => simp [firsts]
  | append_singleton ks a ih =>
    rw [firsts_concat]
    split
    · rename_i ha
      rw [ih, List.mem_append, List.mem_singleton]
      exact ⟨.inl, fun h => h.elim id fun h => h ▸ ih.mp (by rwa [h])⟩
    · rw [List.mem_append, List.mem_append, ih]

theorem nodup_firsts : (firsts ks).Nodup := by
  induction ks using List.reverseRecOn with
  | nil => simp [firsts]
  | append_singleton ks a ih =>
    rw [firsts_concat]
    split
    · exact ih
    · rename_i ha
      exact List.nodup_append.mpr ⟨ih, by simp, by
        rintro x hx _ hy rfl
        exact ha (List.mem_singleton.mp hy ▸ hx)⟩

theorem firsts_map_of_injOn [DecidableEq κ'] {ks : List κ'}
    (hf : ∀ a ∈ ks, ∀ b ∈ ks, f a = f b → a = b) : firsts (ks.map f) = (firsts ks).map f := by
  induction ks using List.reverseRecOn with
  | nil => rfl
  | append_singleton ks k ih =>
    rw [List.map_append, List.map_singleton, firsts_concat, firsts_concat,
      ih fun a ha b hb => hf a (List.mem_append_left _ ha) b (List.mem_append_left _ hb)]
    have hmem : f k ∈ (firsts ks).map f ↔ k ∈ firsts ks := by
      refine ⟨fun h => ?_, List.mem_map_of_mem⟩
      obtain ⟨a, ha, heq⟩ := List.mem_map.mp h
      rwa [← hf a (List.mem_append_left _ (mem_firsts.mp ha)) k (by simp) heq]
    simp only [hmem]
    split <;> simp

theorem firsts_map [DecidableEq κ'] (hf : Function.Injective f) (ks : List κ') :
    firsts (ks.map f) = (firsts ks).map f :=
  firsts_map_of_injOn fun _ _ _ _ h => hf h

theorem firsts_append_firsts (acc ks : List κ) :
    firsts (acc ++ firsts ks) = firsts (acc ++ ks) := by
  induction ks using List.reverseRecOn with
  | nil => rfl
  | append_singleton ks a ih =>
    rw [firsts_concat, ← List.append_assoc, firsts_concat (acc ++ ks), ← ih]
    split
    · rename_i ha
      rw [if_pos (by simp [mem_firsts.mp ha])]
    · rw [← List.append_assoc, firsts_concat]

/-! ### Slots by the number of a key -/

theorem map_modify {f : α → β} {g : α → α} {g' : β → β} (h : ∀ a, f (g a) = g' (f a)) (xs : List α)
    (i : ℕ) : (xs.modify i g).map f = (xs.map f).modify i g' := by
  induction xs generalizing i with
  | nil => simp
  | cons x xs ih => cases i <;> simp [List.modify_cons, h, ih]

/-- Changing the slot of a key leaves those of the others alone. -/
theorem modify_idxOf {keys : List κ} (hnodup : keys.Nodup) (hk : k ∈ keys) (f : κ → β) (g : β → β) :
    (keys.map f).modify (keys.idxOf k) g = keys.map fun a => if a = k then g (f a) else f a := by
  induction keys with
  | nil => cases hk
  | cons a keys ih =>
    obtain ⟨ha, hnodup⟩ := List.nodup_cons.mp hnodup
    by_cases hak : a = k
    · subst hak
      have hrest : keys.map f = keys.map fun b => if b = a then g (f b) else f b := by
        refine List.map_congr_left fun b hb => ?_
        rw [if_neg fun h : b = a => ha (h ▸ hb)]
      simpa [List.idxOf_cons, List.modify_cons] using hrest
    · have hk : k ∈ keys := (List.mem_cons.mp hk).resolve_left (Ne.symm hak)
      simpa [List.idxOf_cons, List.modify_cons, hak] using ih hnodup hk

/-! ### One state for each key -/

/-- The state of a key. -/
def stateOf (groups : List (κ × σ)) (k : κ) : Option σ :=
  (groups.find? (·.1 == k)).map Prod.snd

/-- Replace the state of a key, or add the key at the end. -/
def place (groups : List (κ × σ)) (k : κ) (s : σ) : List (κ × σ) :=
  if k ∈ groups.map Prod.fst then groups.map fun p => if p.1 = k then (k, s) else p
  else groups ++ [(k, s)]

/-- Update the state of a key; a new key starts from `init`. -/
def upsert (groups : List (κ × σ)) (k : κ) (init : σ) (f : σ → Except ε σ) :
    Except ε (List (κ × σ)) :=
  (f ((stateOf groups k).getD init)).map (place groups k)

variable {ks : List κ} {f : κ → σ} {s : σ} {o : Option ε}

theorem stateOf_map :
    stateOf (ks.map fun a => (a, f a)) k = if k ∈ ks then some (f k) else none := by
  induction ks with
  | nil => rfl
  | cons a ks ih =>
    unfold stateOf at ih ⊢
    rw [List.map_cons, List.find?_cons]
    by_cases hk : a = k
    · simp [hk]
    · simp only [beq_eq_false_iff_ne.mpr hk, ih, List.mem_cons, Ne.symm hk, false_or]

theorem place_map : place (ks.map fun a => (a, f a)) k s =
    (addKey ks k).map fun a => (a, if a = k then s else f a) := by
  have hkeys : (ks.map fun a => (a, f a)).map Prod.fst = ks := by simp [Function.comp_def]
  rw [place, addKey, hkeys]
  split
  · rw [List.map_map]
    refine List.map_congr_left fun a _ => ?_
    by_cases ha : a = k <;> simp [ha]
  · rename_i hk
    rw [List.map_append, List.map_singleton, if_pos rfl]
    refine congrArg (· ++ _) (List.map_congr_left fun a ha => ?_)
    rw [if_neg fun h : a = k => hk (h ▸ ha)]

theorem upsert_map {g : σ → Except ε σ} (h : g (if k ∈ ks then f k else i) = report o s) :
    upsert (ks.map fun a => (a, f a)) k i g =
      report o ((addKey ks k).map fun a => (a, if a = k then s else f a)) := by
  have hstate : (stateOf (ks.map fun a => (a, f a)) k).getD i = if k ∈ ks then f k else i := by
    rw [stateOf_map]
    split <;> rfl
  rw [upsert, hstate, h, map_report, place_map]

/-- A loop over elements, each of which updates the state of its key: `state` describes
what each key holds after any of the first elements, and `err` what the last one of them
reports. -/
theorem foldlM_upsert {key : α → κ} {init : α → σ} {step : α → σ → Except ε σ} {xs : List α}
    (state : κ → List α → σ) (err : List α → Option ε) (hnil : err [] = none)
    (hinit : ∀ ys x, key x ∉ ys.map key → state (key x) ys = init x)
    (hother : ∀ ys x k, k ≠ key x → state k (ys ++ [x]) = state k ys)
    (hstep : ∀ ys x, ys ++ [x] <+: xs → ys.inits.findSome? err = none →
      step x (state (key x) ys) = report (err (ys ++ [x])) (state (key x) (ys ++ [x]))) :
    xs.foldlM (fun groups x => upsert groups (key x) (init x) (step x)) [] =
      report (xs.inits.findSome? err)
        ((firsts (xs.map key)).map fun k => (k, state k xs)) := by
  induction xs using List.reverseRecOn with
  | nil => simp [hnil, report, firsts]
  | append_singleton xs x ih =>
    rw [List.foldlM_append, ih fun ys y hys => hstep ys y (hys.trans (List.prefix_append _ _)),
      List.inits_append, List.findSome?_append]
    refine report_bind fun hnone => ?_
    have hstep := hstep xs x List.prefix_rfl hnone
    have hsame : (if key x ∈ firsts (xs.map key) then state (key x) xs else init x) =
        state (key x) xs := by
      split
      · rfl
      · rename_i hx
        exact (hinit xs x fun h => hx (mem_firsts.mpr h)).symm
    rw [← hsame] at hstep
    rw [foldlM_singleton, upsert_map (f := fun k => state k xs) hstep]
    congr 1
    · simp
    · rw [List.map_append, List.map_singleton, firsts_concat]
      refine List.map_congr_left fun a _ => Prod.ext rfl ?_
      dsimp only
      split
      · rename_i ha
        rw [ha]
      · exact (hother xs x a ‹_›).symm

/-- A loop that updates each of several keys once. -/
theorem foldlM_upsert_keys {init : κ → σ} {step : κ → σ → Except ε σ} {updated : List κ}
    (new : κ → σ) (err : κ → Option ε) (hnodup : updated.Nodup)
    (hstep : ∀ k ∈ updated, step k (if k ∈ ks then f k else init k) = report (err k) (new k)) :
    updated.foldlM (fun groups k => upsert groups k (init k) (step k))
        (ks.map fun a => (a, f a)) =
      report (updated.findSome? err)
        ((updated.foldl addKey ks).map fun a => (a, if a ∈ updated then new a else f a)) := by
  induction updated generalizing ks f with
  | nil => simp [report, pure, Except.pure]
  | cons k updated ih =>
    rw [List.forall_mem_cons] at hstep
    obtain ⟨hk, hnodup⟩ := List.nodup_cons.mp hnodup
    have hkept : ∀ a ∈ updated, step a (if a ∈ addKey ks k then if a = k then new k else f a
        else init a) = report (err a) (new a) := by
      intro a ha
      have hne : a ≠ k := fun h => hk (h ▸ ha)
      have hmem : a ∈ addKey ks k ↔ a ∈ ks := by
        unfold addKey
        split <;> simp [hne]
      simpa only [hmem, if_neg hne] using hstep.2 a ha
    have hrest := ih (f := fun a => if a = k then new k else f a) hnodup hkept
    rw [List.foldlM_cons, upsert_map hstep.1, List.findSome?_cons, List.foldl_cons]
    refine (report_bind (f := fun groups => updated.foldlM _ groups) fun _ => hrest).trans ?_
    congr 1
    · cases err k <;> rfl
    · refine List.map_congr_left fun a _ => Prod.ext rfl ?_
      by_cases ha : a = k
      · subst ha
        simp [hk]
      · simp [ha]

end StrataDB.Lib
