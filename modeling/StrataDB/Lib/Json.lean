import Mathlib.Data.List.Basic

/-! JSON documents over an arbitrary type of numbers, with the fields of an object as
they are written, and the values they stand for, in which an object has each key once
and the keys in order. -/

namespace StrataDB.Lib

section Fields

variable {α : Type*}

/-- Insertion into a map kept sorted by key; the value of a present key is
replaced. -/
def putField (key : String) (value : α) : List (String × α) → List (String × α)
  | [] => [(key, value)]
  | (k, v) :: rest =>
    if key < k then (key, value) :: (k, v) :: rest
    else if key = k then (key, value) :: rest
    else (k, v) :: putField key value rest

/-- The sorted map of a list of fields, of which a later one replaces an earlier
one with its key. -/
def sortFields (fields : List (String × α)) : List (String × α) :=
  fields.foldl (fun sorted field => putField field.1 field.2 sorted) []

theorem putField_subset {key : String} {value : α} {fields : List (String × α)} :
    putField key value fields ⊆ (key, value) :: fields := by
  induction fields with
  | nil => exact List.Subset.refl _
  | cons field rest ih =>
    simp only [putField]
    split_ifs
    · exact List.Subset.refl _
    · exact List.cons_subset_cons _ (List.subset_cons_self _ _)
    · intro x hx
      rcases List.mem_cons.mp hx with rfl | hx
      · exact List.mem_cons_of_mem _ List.mem_cons_self
      · rcases List.mem_cons.mp (ih hx) with rfl | hx
        · exact List.mem_cons_self
        · exact List.mem_cons_of_mem _ (List.mem_cons_of_mem _ hx)

theorem length_putField_le (key : String) (value : α) (fields : List (String × α)) :
    (putField key value fields).length ≤ fields.length + 1 := by
  induction fields with
  | nil => exact Nat.le_refl 1
  | cons field rest ih =>
    simp only [putField]
    split_ifs <;> simp only [List.length_cons] <;> omega

/-- A map holds none but the fields it was made of, and no more of them. -/
theorem sortFields_spec (fields : List (String × α)) :
    sortFields fields ⊆ fields ∧ (sortFields fields).length ≤ fields.length := by
  have hfold : ∀ sorted : List (String × α),
      fields.foldl (fun s field => putField field.1 field.2 s) sorted ⊆ sorted ++ fields ∧
        (fields.foldl (fun s field => putField field.1 field.2 s) sorted).length ≤
          sorted.length + fields.length := by
    induction fields with
    | nil => exact fun sorted => ⟨by simp, by simp⟩
    | cons field rest ih =>
      intro sorted
      obtain ⟨hsub, hlen⟩ := ih (putField field.1 field.2 sorted)
      have hput := length_putField_le field.1 field.2 sorted
      refine ⟨fun x hx => ?_, by simp only [List.foldl_cons, List.length_cons]; omega⟩
      rcases List.mem_append.mp (hsub hx) with hx | hx
      · rcases List.mem_cons.mp (putField_subset hx) with rfl | hx
        · simp
        · exact List.mem_append_left _ hx
      · exact List.mem_append_right _ (List.mem_cons_of_mem _ hx)
  simpa [sortFields] using hfold []

end Fields

/-- A JSON document. -/
inductive Json (ν : Type)
  | null
  | bool (value : Bool)
  | number (value : ν)
  | string (value : String)
  | array (items : List (Json ν))
  | object (fields : List (String × Json ν))

namespace Json

variable {ν : Type}

mutual

/-- The value that a document stands for. -/
def value : Json ν → Json ν
  | .array items => .array (valueItems items)
  | .object fields => .object (sortFields (valueFields fields))
  | .null => .null
  | .bool b => .bool b
  | .number n => .number n
  | .string s => .string s

def valueItems : List (Json ν) → List (Json ν)
  | [] => []
  | item :: rest => item.value :: valueItems rest

def valueFields : List (String × Json ν) → List (String × Json ν)
  | [] => []
  | (key, item) :: rest => (key, item.value) :: valueFields rest

end

theorem value_array (items : List (Json ν)) : (array items).value = .array (items.map value) := by
  have hitems : valueItems items = items.map value := by
    induction items with
    | nil => simp [valueItems]
    | cons item rest ih => rw [valueItems, ih, List.map_cons]
  rw [value, hitems]

theorem value_object (fields : List (String × Json ν)) :
    (object fields).value = .object (sortFields (fields.map fun f => (f.1, f.2.value))) := by
  have hfields : valueFields fields = fields.map fun f => (f.1, f.2.value) := by
    induction fields with
    | nil => simp [valueFields]
    | cons field rest ih =>
      obtain ⟨key, item⟩ := field
      rw [valueFields, ih, List.map_cons]
  rw [value, hfields]

end Json

end StrataDB.Lib
