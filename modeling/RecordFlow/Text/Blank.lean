/-! White space as the Unicode property has it, and texts stripped of it at both ends. -/

namespace RecordFlow.Text

/-- The characters with the property White_Space. -/
def isBlank (c : Char) : Bool :=
  let n := c.toNat
  (9 ≤ n && n ≤ 13) || n == 0x20 || n == 0x85 || n == 0xa0 || n == 0x1680 ||
    (0x2000 ≤ n && n ≤ 0x200a) || n == 0x2028 || n == 0x2029 || n == 0x202f || n == 0x205f ||
    n == 0x3000

def stripLeft (cs : List Char) : List Char := cs.dropWhile isBlank

def strip (s : String) : String :=
  String.ofList (stripLeft (stripLeft s.toList).reverse).reverse

end RecordFlow.Text
