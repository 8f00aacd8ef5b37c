import RecordFlow.Decimal.Reading
import RecordFlow.Json

/-! JSON texts. A text is read into a tree that keeps what was written: repeated keys, the form of
numbers, escapes that stand for no character. A second step turns a tree into a value and refuses
numbers beyond range, such escapes, and nesting beyond a limit. -/

namespace RecordFlow.Json

/-- A number as written: `whole` when it has neither a fraction nor an exponent. -/
structure Numeral where
  decimal : Decimal
  whole : Bool

/-- A text is none where an escape stands for half a character. -/
inductive Tree where
  | null
  | bool (b : Bool)
  | number (n : Numeral)
  | text (s : Option String)
  | list (items : List Tree)
  | object (members : List (Option String × Tree))

namespace Tree

def isSpace (c : Char) : Bool := c == ' ' || c == '\t' || c == '\n' || c == '\r'

def skipSpace (cs : List Char) : List Char := cs.dropWhile isSpace

/-! ### Texts -/

def hexDigit? (c : Char) : Option Nat :=
  if '0' ≤ c && c ≤ '9' then some (c.toNat - '0'.toNat)
  else if 'a' ≤ c && c ≤ 'f' then some (c.toNat - 'a'.toNat + 10)
  else if 'A' ≤ c && c ≤ 'F' then some (c.toNat - 'A'.toNat + 10)
  else none

def hexNumber? (digits : List Char) : Option Nat :=
  digits.foldlM (fun n c => (hexDigit? c).map (16 * n + ·)) 0

def escaped? : Char → Option Nat
  | '"' => some 0x22
  | '\\' => some 0x5c
  | '/' => some 0x2f
  | 'b' => some 0x8
  | 'f' => some 0xc
  | 'n' => some 0xa
  | 'r' => some 0xd
  | 't' => some 0x9
  | _ => none

/-- The code units of a text up to its closing quote, and what follows the quote. -/
def readUnits : List Char → Option (List Nat × List Char)
  | [] => none
  | '"' :: rest => some ([], rest)
  | '\\' :: 'u' :: a :: b :: c :: d :: rest => do
    let unit ← hexNumber? [a, b, c, d]
    let (units, rest) ← readUnits rest
    return (unit :: units, rest)
  | '\\' :: c :: rest => do
    let unit ← escaped? c
    let (units, rest) ← readUnits rest
    return (unit :: units, rest)
  | c :: rest =>
    if c.toNat < 0x20 then none
    else do
      let (units, rest) ← readUnits rest
      return (c.toNat :: units, rest)

def isHighHalf (unit : Nat) : Bool := 0xd800 ≤ unit && unit < 0xdc00

def isLowHalf (unit : Nat) : Bool := 0xdc00 ≤ unit && unit < 0xe000

/-- Joins the two halves of a character; a half on its own stands for none. -/
def joinHalves : List Nat → Option (List Char)
  | [] => some []
  | high :: low :: rest =>
    if isHighHalf high then
      if isLowHalf low then
        (joinHalves rest).map (.ofNat (0x10000 + (high - 0xd800) * 0x400 + (low - 0xdc00)) :: ·)
      else none
    else if isLowHalf high then none
    else (joinHalves (low :: rest)).map (.ofNat high :: ·)
  | [unit] => if isHighHalf unit || isLowHalf unit then none else some [.ofNat unit]

def readText (cs : List Char) : Option (Option String × List Char) :=
  (readUnits cs).map fun (units, rest) => ((joinHalves units).map String.ofList, rest)

/-! ### Numbers -/

open Decimal (natOfDigits readDigits readExponent)

/-- Leading zeros are refused. -/
def readWhole (cs : List Char) : Option (List Char × List Char) := do
  let (digits, rest) ← readDigits cs
  if digits.head? = some '0' && digits.length != 1 then none
  return (digits, rest)

def readFraction : List Char → Option (Option (List Char) × List Char)
  | '.' :: rest => (readDigits rest).map fun (digits, rest) => (some digits, rest)
  | cs => some (none, cs)

def readNumeral (cs : List Char) : Option (Numeral × List Char) := do
  let (negative, cs) := match cs with
    | '-' :: rest => (true, rest)
    | cs => (false, cs)
  let (whole, cs) ← readWhole cs
  let (fraction, cs) ← readFraction cs
  let (exponent, cs) ← readExponent cs
  let places := fraction.getD []
  return (⟨⟨negative, natOfDigits (whole ++ places), exponent.getD 0 - places.length⟩,
    fraction.isNone && exponent.isNone⟩, cs)

/-! ### Trees -/

mutual

/-- Each opening bracket costs two steps and each further item one, so twice the length of the
text is enough fuel. -/
def readTree : Nat → List Char → Option (Tree × List Char)
  | 0, _ => none
  | fuel + 1, cs =>
    match skipSpace cs with
    | 'n' :: 'u' :: 'l' :: 'l' :: rest => some (.null, rest)
    | 't' :: 'r' :: 'u' :: 'e' :: rest => some (.bool true, rest)
    | 'f' :: 'a' :: 'l' :: 's' :: 'e' :: rest => some (.bool false, rest)
    | '"' :: rest => (readText rest).map fun (s, rest) => (.text s, rest)
    | '[' :: rest =>
      match skipSpace rest with
      | ']' :: rest => some (.list [], rest)
      | rest => (readItems fuel rest).map fun (items, rest) => (.list items, rest)
    | '{' :: rest =>
      match skipSpace rest with
      | '}' :: rest => some (.object [], rest)
      | rest => (readMembers fuel rest).map fun (members, rest) => (.object members, rest)
    | cs => (readNumeral cs).map fun (n, rest) => (.number n, rest)

/-- The items of a list up to its closing bracket. -/
def readItems : Nat → List Char → Option (List Tree × List Char)
  | 0, _ => none
  | fuel + 1, cs => do
    let (item, rest) ← readTree fuel cs
    match skipSpace rest with
    | ',' :: rest => do
      let (items, rest) ← readItems fuel rest
      return (item :: items, rest)
    | ']' :: rest => return ([item], rest)
    | _ => none

/-- The members of an object up to its closing bracket. -/
def readMembers : Nat → List Char → Option (List (Option String × Tree) × List Char)
  | 0, _ => none
  | fuel + 1, cs =>
    match skipSpace cs with
    | '"' :: rest => do
      let (key, rest) ← readText rest
      match skipSpace rest with
      | ':' :: rest => do
        let (item, rest) ← readTree fuel rest
        match skipSpace rest with
        | ',' :: rest => do
          let (members, rest) ← readMembers fuel rest
          return ((key, item) :: members, rest)
        | '}' :: rest => return ([(key, item)], rest)
        | _ => none
      | _ => none
    | _ => none

end

/-- Reads a whole text: nothing but white space may follow the value. -/
def parse (s : String) : Option Tree :=
  match readTree (2 * s.length + 2) s.toList with
  | some (tree, rest) => if (skipSpace rest).isEmpty then some tree else none
  | none => none

end Tree

/-- Whole numbers that fit in 64 bits stay whole, a negative zero does not. -/
def Numeral.toJson? (n : Numeral) : Option Json :=
  let d := n.decimal
  if n.whole && !d.negative && d.digits < 0x10000000000000000 then some (.int d.digits)
  else if n.whole && d.negative && 0 < d.digits && d.digits ≤ 0x8000000000000000 then some (.int (-d.digits))
  else
    let x := d.toDouble
    if x.isFinite then some (.float x) else none

mutual

/-- The value of a tree in which at most `depth` lists and objects are open at once. -/
def Tree.toJson? : Nat → Tree → Option Json
  | _, .null => some .null
  | _, .bool b => some (.bool b)
  | _, .number n => n.toJson?
  | _, .text s => s.map .text
  | 0, .list _ => none
  | 0, .object _ => none
  | depth + 1, .list items => (toJsonItems? depth items).map .list
  | depth + 1, .object members => (toJsonMembers? depth members).map ofMembers

def Tree.toJsonItems? : Nat → List Tree → Option (List Json)
  | _, [] => some []
  | depth, item :: rest => do
    let first ← item.toJson? depth
    let rest ← toJsonItems? depth rest
    return first :: rest

def Tree.toJsonMembers? : Nat → List (Option String × Tree) → Option (List (String × Json))
  | _, [] => some []
  | depth, (key, item) :: rest => do
    let key ← key
    let first ← item.toJson? depth
    let rest ← toJsonMembers? depth rest
    return (key, first) :: rest

end

/-- The most lists and objects that may be open at once. -/
def maxDepth : Nat := 127

def parse (s : String) : Option Json := do (← Tree.parse s).toJson? maxDepth

end RecordFlow.Json
