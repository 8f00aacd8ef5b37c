import RecordFlow.Aggregation
import RecordFlow.Value.Order
import RecordFlow.Whole

/-! What is kept of the values of one field of one group. Nulls count only as keys and in arrays. -/

namespace RecordFlow

/-- A running sum: whole as long as all values are whole and it fits in 64 bits. -/
inductive Sum where
  | nothing
  | whole (n : Int64)
  | float (x : Double)
  deriving DecidableEq

namespace Sum

/-- The sum of two whole numbers, none beyond the range. -/
def addWhole? (a b : Int64) : Option Int64 := Whole.ofInt? (a.toInt + b.toInt)

/-- A value that is no number adds zero, as a float. -/
def addFloat (x : Double) (v : Value) : Sum := .float (x.add (v.asDouble?.getD .zero))

def add : Sum → Value → Sum
  | .nothing, .int n => .whole n
  | .nothing, v => addFloat .zero v
  | .whole a, .int b =>
    match addWhole? a b with
    | some n => .whole n
    | none => .float ((Double.ofInt a).add (.ofInt b))
  | .whole a, v => addFloat (.ofInt a) v
  | .float x, v => addFloat x v

def value : Sum → Value
  | .nothing => .null
  | .whole n => .int n
  | .float x => .float x

end Sum

inductive Accumulator where
  | key (v : Value)
  | count (n : Nat)
  | min (best : Option Value)
  | max (best : Option Value)
  | sum (s : Sum)
  | mean (total : Double) (n : Nat)
  | toSet (distinct : List Value)
  | toArray (values : List Value)
  | countDistinct (distinct : List Value)
  deriving DecidableEq

namespace Accumulator

def fresh : AggregationKind → Accumulator
  | .groupBy => .key .null
  | .count => .count 0
  | .min => .min none
  | .max => .max none
  | .sum => .sum .nothing
  | .mean => .mean .zero 0
  | .toSet => .toSet []
  | .toArray => .toArray []
  | .countDistinct => .countDistinct []

/-- Adds a value that is not there yet. -/
def addDistinct (values : List Value) (v : Value) : List Value :=
  if v ∈ values then values else values ++ [v]

/-- The value itself where it is better than the best so far. -/
def better (isBetter : Value → Value → Bool) (best : Option Value) (v : Value) : Option Value :=
  match best with
  | none => some v
  | some b => if isBetter v b then some v else some b

/-- Adds a value that is not null. -/
def addPresent (v : Value) : Accumulator → Accumulator
  | .count n => .count (n + 1)
  | .min best => .min (better Value.isLess best v)
  | .max best => .max (better Value.isGreater best v)
  | .sum s => .sum (s.add v)
  | .mean total n =>
    match v.asDouble? with
    | some x => .mean (total.add x) (n + 1)
    | none => .mean total n
  | .toSet distinct => .toSet (addDistinct distinct v)
  | .countDistinct distinct => .countDistinct (addDistinct distinct v)
  | a => a

def add (a : Accumulator) (v : Value) : Accumulator :=
  match a with
  | .key _ => .key v
  | .toArray values => .toArray (values ++ [v])
  | a => if v.isNull then a else a.addPresent v

def value : Accumulator → Value
  | .key v => v
  | .count n => .int (.ofNat n)
  | .min best => best.getD .null
  | .max best => best.getD .null
  | .sum s => s.value
  | .mean _ 0 => .null
  | .mean total n => .float (total.div (.ofNat n))
  | .toSet distinct => .list distinct
  | .toArray values => .list values
  | .countDistinct distinct => .int (.ofNat distinct.length)

end Accumulator

end RecordFlow
