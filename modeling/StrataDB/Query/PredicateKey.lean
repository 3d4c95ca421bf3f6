import StrataDB.Query.Predicate

/-! The identity of a predicate as a key of a map (`query/src/predicate_key.rs`):
the tree as it is, with the bits of its float literals. Predicates that select
different rows have different keys since different predicates do. -/

namespace StrataDB.Query

open Storage

/-- `KeyValue`. -/
inductive KeyValue
  | int (value : ℤ)
  | float (bits : ℕ)
  | str (value : String)
  deriving DecidableEq

def KeyValue.ofValue : Value → KeyValue
  | .int64 v => .int v
  | .float64 v => .float v.toBits
  | .utf8 v => .str v

def KeyValue.byteSize : KeyValue → ℕ
  | .str s => s.utf8ByteSize
  | .int _ | .float _ => 0

/-- `PredicateKey`; a leaf has the number of its comparison. -/
inductive PredicateKey
  | leaf (discriminant : ℕ) (column : String) (value : KeyValue)
  | and (left right : PredicateKey)
  | or (left right : PredicateKey)
  deriving DecidableEq

namespace PredicateKey

/-- `NODE_OVERHEAD_BYTES`. -/
def nodeOverheadBytes : ℕ := 128

def variableByteSize : PredicateKey → ℕ
  | .leaf _ column value => column.utf8ByteSize + value.byteSize
  | .and l r | .or l r => nodeOverheadBytes + l.variableByteSize + r.variableByteSize

def ofPredicate : Predicate → PredicateKey
  | .eq c v => .leaf 0 c (.ofValue v)
  | .lt c v => .leaf 1 c (.ofValue v)
  | .ltEq c v => .leaf 2 c (.ofValue v)
  | .gt c v => .leaf 3 c (.ofValue v)
  | .gtEq c v => .leaf 4 c (.ofValue v)
  | .and l r => .and (ofPredicate l) (ofPredicate r)
  | .or l r => .or (ofPredicate l) (ofPredicate r)

end PredicateKey

theorem KeyValue.ofValue_injective : Function.Injective KeyValue.ofValue := by
  intro v w h
  cases v <;> cases w <;> simp only [ofValue, reduceCtorEq] at h
  case int64.int64 a b => rw [KeyValue.int.inj h]
  case float64.float64 a b => rw [Lib.Binary.toBits_injective (KeyValue.float.inj h)]
  case utf8.utf8 a b => rw [KeyValue.str.inj h]

theorem PredicateKey.ofPredicate_injective : Function.Injective ofPredicate := by
  intro p
  induction p with
  | and l r ihl ihr | or l r ihl ihr =>
    intro q h
    cases q <;> simp only [ofPredicate, reduceCtorEq, and.injEq, or.injEq] at h
    rw [ihl h.1, ihr h.2]
  | _ c v =>
    intro q h
    cases q <;> simp [ofPredicate] at h
    rw [h.1, KeyValue.ofValue_injective h.2]

end StrataDB.Query
