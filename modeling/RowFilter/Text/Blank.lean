/-!
Blank characters.

Two sets matter to filters. Between the tokens of a filter only space, tab, carriage return and
line feed may stand (`isGap`). Where text is tidied for people, all characters with the property
`White_Space` count as blank (`isBlank`).
-/

namespace RowFilter.Text

/-- The four characters that may stand between the tokens of a filter. -/
def isGap (c : Char) : Bool :=
  c = ' ' || c = '\t' || c = '\r' || c = '\n'

/-- The characters with the property `White_Space`. -/
def isBlank (c : Char) : Bool :=
  let n := c.toNat
  (9 ≤ n && n ≤ 13) || n = 0x20 || n = 0x85 || n = 0xA0 || n = 0x1680 ||
    (0x2000 ≤ n && n ≤ 0x200A) || n = 0x2028 || n = 0x2029 || n = 0x202F || n = 0x205F ||
    n = 0x3000

/-- A text without its trailing characters that satisfy `p`. -/
def trimEnd (p : Char → Bool) (text : List Char) : List Char :=
  (text.reverse.dropWhile p).reverse

end RowFilter.Text
