import RecordFlow.Value

/-! The partial order of values. Values of one kind compare with each other, whole numbers and
floats also across, lists item by item; nulls, records and values of different kinds do not. -/

namespace RecordFlow.Value

mutual

def compare? : Value → Value → Option Ordering
  | .bool a, .bool b => some (compare a b)
  | .int a, .int b => some (compare a.toInt b.toInt)
  | .int a, .float y => (Double.ofInt a).compare? y
  | .float x, .int b => x.compare? (.ofInt b)
  | .float x, .float y => x.compare? y
  | .text a, .text b => some (compare a b)
  | .bytes a, .bytes b => some (compare a b)
  | .list a, .list b => compareAll? a b
  | _, _ => none

/-- The first two items that are not equal in order decide, then the lengths. -/
def compareAll? : List Value → List Value → Option Ordering
  | [], [] => some .eq
  | [], _ :: _ => some .lt
  | _ :: _, [] => some .gt
  | v :: vs, w :: ws =>
    match v.compare? w with
    | some .eq => compareAll? vs ws
    | order => order

end

def isLess (v w : Value) : Bool := v.compare? w == some .lt

def isGreater (v w : Value) : Bool := v.compare? w == some .gt

end RecordFlow.Value
