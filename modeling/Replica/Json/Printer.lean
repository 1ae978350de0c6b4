import Replica.Json.Basic
import Replica.Decimal.Layout

/-!
# The text of a value

`Json.render` writes a value without blanks, the members of an object in the order of the list.
`Json.renderIndented` spreads it over lines. A floating-point number is written with the fewest
digits that read back, positionally from `1e-5` up to `1e16`, and never looks like an integer.
-/

namespace Replica.Json

/-- Numbers are positional from `1e-5` up to `1e16`, with a point in any case, and otherwise have an
exponent with its sign. -/
def numberLayout : Decimal.Layout where
  leastPositional := -5
  greatestPositional := 15
  integralTail := ['.', '0']
  positiveMark := ['e', '+']
  negativeMark := ['e', '-']

/-- The characters of an integer. -/
def integerChars (n : Int) : List Char :=
  if n < 0 then '-' :: Decimal.digitChars n.natAbs else Decimal.digitChars n.natAbs

/-- The text of an integer. -/
def integerText (n : Int) : String := String.ofList (integerChars n)

/-- The lower-case hexadecimal digit of a number below sixteen. -/
def hexDigit (n : Nat) : Char := (Nat.digitChar n)

/-- A character as it stands in a quoted text: the quote, the backslash and the control characters
are escaped. -/
def escape (c : Char) : List Char :=
  match c with
  | '"' => ['\\', '"']
  | '\\' => ['\\', '\\']
  | '\x08' => ['\\', 'b']
  | '\x0c' => ['\\', 'f']
  | '\n' => ['\\', 'n']
  | '\r' => ['\\', 'r']
  | '\t' => ['\\', 't']
  | c =>
    if c.toNat < 0x20 then ['\\', 'u', '0', '0', hexDigit (c.toNat / 16), hexDigit (c.toNat % 16)]
    else [c]

/-- A text between quotes. -/
def quoteChars (s : String) : List Char := '"' :: (s.toList.flatMap escape ++ ['"'])

mutual

/-- The characters of a value. -/
def chars : Json → List Char
  | null => ['n', 'u', 'l', 'l']
  | bool true => ['t', 'r', 'u', 'e']
  | bool false => ['f', 'a', 'l', 's', 'e']
  | int n => integerChars n
  | float x => Decimal.write numberLayout x
  | str s => quoteChars s
  | arr items => '[' :: (itemChars items ++ [']'])
  | obj members => '{' :: (memberChars members ++ ['}'])

/-- The characters of the items of a list, with commas between them. -/
def itemChars : List Json → List Char
  | [] => []
  | [x] => chars x
  | x :: xs => chars x ++ ',' :: itemChars xs

/-- The characters of the members of an object, with commas between them. -/
def memberChars : Members → List Char
  | [] => []
  | [(k, x)] => quoteChars k ++ ':' :: chars x
  | (k, x) :: xs => quoteChars k ++ ':' :: (chars x ++ ',' :: memberChars xs)

end

/-- The text of a value, without blanks. -/
def render (value : Json) : String := String.ofList value.chars

/-- A new line that is indented by two blanks per level. -/
def newLine (level : Nat) : List Char := '\n' :: List.replicate (2 * level) ' '

mutual

/-- The characters of a value that is spread over lines, `level` being that of its first line. -/
def indentedChars (level : Nat) : Json → List Char
  | arr (x :: xs) => '[' :: (indentedItems (level + 1) (x :: xs) ++ newLine level ++ [']'])
  | obj (m :: ms) => '{' :: (indentedMembers (level + 1) (m :: ms) ++ newLine level ++ ['}'])
  | value => value.chars

/-- Items on lines of their own, with commas between them. -/
def indentedItems (level : Nat) : List Json → List Char
  | [] => []
  | [x] => newLine level ++ indentedChars level x
  | x :: xs => newLine level ++ indentedChars level x ++ ',' :: indentedItems level xs

/-- Members on lines of their own, with commas between them. -/
def indentedMembers (level : Nat) : Members → List Char
  | [] => []
  | [(k, x)] => newLine level ++ quoteChars k ++ ':' :: ' ' :: indentedChars level x
  | (k, x) :: xs =>
    newLine level ++ quoteChars k ++ ':' :: ' ' :: indentedChars level x ++
      ',' :: indentedMembers level xs

end

/-- The text of a value, one item or member per line. -/
def renderIndented (value : Json) : String := String.ofList (value.indentedChars 0)

end Replica.Json
