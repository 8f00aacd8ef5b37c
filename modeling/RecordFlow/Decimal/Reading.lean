import RecordFlow.Decimal

/-! Numbers read from text: the parts that written numbers share, whole numbers with a sign, and
binary64 numbers with the words for what is infinite or no number. -/

namespace RecordFlow.Decimal

def natOfDigits (digits : List Char) : Nat :=
  digits.foldl (fun n c => 10 * n + (c.toNat - '0'.toNat)) 0

/-- A run of at least one digit, and what follows it. -/
def readDigits (cs : List Char) : Option (List Char × List Char) :=
  match cs.takeWhile Char.isDigit with
  | [] => none
  | digits => some (digits, cs.dropWhile Char.isDigit)

/-- A sign if there is one; true for a minus. -/
def readSign : List Char → Bool × List Char
  | '-' :: rest => (true, rest)
  | '+' :: rest => (false, rest)
  | cs => (false, cs)

/-- An exponent if the letter for one is there. -/
def readExponent : List Char → Option (Option Int × List Char)
  | c :: rest =>
    if c == 'e' || c == 'E' then
      let (negative, rest) := readSign rest
      (readDigits rest).map fun (digits, rest) =>
        let n : Int := natOfDigits digits
        (some (if negative then -n else n), rest)
    else some (none, c :: rest)
  | [] => some (none, [])

/-- A text that is a whole number, plus or minus in front allowed. -/
def integer? (s : String) : Option Int :=
  let (negative, cs) := readSign s.toList
  match readDigits cs with
  | some (digits, []) =>
    let n : Int := natOfDigits digits
    some (if negative then -n else n)
  | _ => none

/-- Digits with at most one point among or around them, then perhaps an exponent. -/
def unsigned? (negative : Bool) (cs : List Char) : Option Decimal := do
  let whole := cs.takeWhile Char.isDigit
  let rest := cs.dropWhile Char.isDigit
  let (places, rest) := match rest with
    | '.' :: rest => (rest.takeWhile Char.isDigit, rest.dropWhile Char.isDigit)
    | rest => ([], rest)
  if whole.isEmpty && places.isEmpty then none
  let (exponent, rest) ← readExponent rest
  if rest.isEmpty then
    return ⟨negative, natOfDigits (whole ++ places), exponent.getD 0 - places.length⟩
  else none

/-- A text that is a number, an infinity or a NaN; the words may be in any case. -/
def double? (s : String) : Option Double :=
  let (negative, cs) := readSign s.toList
  let word := String.ofList (cs.map Char.toLower)
  if word = "inf" ∨ word = "infinity" then some (.infinity negative)
  else if word = "nan" then some (.nan negative)
  else (unsigned? negative cs).map toDouble

end RecordFlow.Decimal
