import RecordFlow.Text.Unprintable

/-! Texts between double quotes, as they stand in messages and labels: quotes, backslashes and
line controls are escaped by a letter, other unprintable characters by their code point. -/

namespace RecordFlow.Text

/-- The digits of a code point in base sixteen, without leading zeros. -/
def hex (n : Nat) : String := String.ofList (Nat.toDigits 16 n)

def escapeChar (c : Char) : String :=
  match c with
  | '"' => "\\\""
  | '\\' => "\\\\"
  | '\n' => "\\n"
  | '\r' => "\\r"
  | '\t' => "\\t"
  | '\x00' => "\\0"
  | _ => if isUnprintable c then "\\u\x7b" ++ hex c.toNat ++ "\x7d" else c.toString

def quote (s : String) : String :=
  "\"" ++ String.join (s.toList.map escapeChar) ++ "\""

/-- A bracketed list of items that are texts already. -/
def bracketed (items : List String) : String := "[" ++ ", ".intercalate items ++ "]"

/-- A bracketed list of quoted texts. -/
def quoteList (names : List String) : String := bracketed (names.map quote)

end RecordFlow.Text
