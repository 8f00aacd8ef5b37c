import RecordFlow.Error
import RecordFlow.Schema

/-! Where the columns of a schema stand in a source that names its columns. -/

namespace RecordFlow

/-- For each column its position in the source, none for a column that the source lacks. -/
structure Projection where
  positions : List (Option Nat)

namespace Projection

def ofColumns (names : List String) (record : String) :
    List Column → Except ReadError (List (Option Nat))
  | [] => .ok []
  | c :: cs =>
    match names.findIdx? (· == c.name) with
    | some position => do return some position :: (← ofColumns names record cs)
    | none =>
      if c.nullable then do return none :: (← ofColumns names record cs)
      else .error (.missingColumn c.name record "source")

/-- The first position of each column's name; only a nullable column may be missing. -/
def ofNames (schema : Schema) (names : List String) : Except ReadError Projection := do
  return ⟨← ofColumns names schema.name schema.columns⟩

def position? (p : Projection) (column : Nat) : Option Nat := p.positions[column]?.join

end Projection

end RecordFlow
