/-! Binary64 numbers held as their bits, so that equality of values is equality of bits and the
order is a comparison of ranks. -/

namespace RecordFlow

/-- A binary64 number. -/
structure Double where
  bits : UInt64
  deriving DecidableEq, Repr

namespace Double

def ofFloat (x : Float) : Double := ⟨x.toBits⟩

def toFloat (x : Double) : Float := Float.ofBits x.bits

def ofNat (n : Nat) : Double := ofFloat n.toFloat

def zero : Double := ⟨0⟩

/-- The value of the sign among the bits. -/
def signBit : Nat := 0x8000000000000000

/-- The highest bit of a significand, which is not stored. -/
def unit : Nat := 0x10000000000000

/-- The whole number nearest to a quotient, of two equally near ones the even one. -/
def roundDiv (num den : Nat) : Nat :=
  let below := num / den
  let twice := 2 * (num % den)
  if den < twice ∨ (twice = den ∧ below % 2 = 1) then below + 1 else below

/-- The magnitude of the number nearest to a whole number. The highest bit of the significand adds one
to the exponent above it, and carries into it where the significand is rounded up to a power of two. -/
def wholeMagnitude (n : Nat) : Nat :=
  if n = 0 then 0
  else (n.log2 + 1022) * unit + roundDiv (n * unit) (Nat.pow 2 n.log2)

/-- The nearest number to an integer. -/
def ofInt (n : Int64) : Double :=
  let size := wholeMagnitude n.toInt.natAbs
  ⟨.ofNat (if n.toInt < 0 then signBit + size else size)⟩

def isNegative (x : Double) : Bool := signBit ≤ x.bits.toNat

/-- The bits without the sign. -/
def magnitude (x : Double) : Nat := x.bits.toNat % signBit

/-- The magnitude of the infinities; that of a NaN is larger, that of a finite number smaller. -/
def infiniteMagnitude : Nat := 0x7ff0000000000000

def infinity (negative : Bool) : Double :=
  if negative then ⟨0xfff0000000000000⟩ else ⟨0x7ff0000000000000⟩

/-- A NaN of either sign. -/
def nan (negative : Bool) : Double :=
  if negative then ⟨0xfff8000000000000⟩ else ⟨0x7ff8000000000000⟩

def isNaN (x : Double) : Bool := infiniteMagnitude < x.magnitude

def isFinite (x : Double) : Bool := x.magnitude < infiniteMagnitude

/-- The place of a number in the order of numbers: both zeros have rank 0, a NaN has none. -/
def rank? (x : Double) : Option Int :=
  if x.isNaN then none else some (if x.isNegative then -(x.magnitude : Int) else x.magnitude)

/-- The order of two numbers; a NaN has no order to anything. -/
def compare? (x y : Double) : Option Ordering :=
  match x.rank?, y.rank? with
  | some i, some j => some (compare i j)
  | _, _ => none

/-- The result of an operation: the first operand that is a NaN, if there is one, and the negative
NaN where the operation has no result. -/
def combine (op : Float → Float → Float) (x y : Double) : Double :=
  if x.isNaN then x
  else if y.isNaN then y
  else
    let r := ofFloat (op x.toFloat y.toFloat)
    if r.isNaN then nan true else r

def add (x y : Double) : Double := combine (· + ·) x y

def div (x y : Double) : Double := combine (· / ·) x y

end Double

end RecordFlow
