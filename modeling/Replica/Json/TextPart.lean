/-!
# Texts as they are written

A text stands between quotes. A character of it is written as itself or behind a backslash, or as
one or two 16-bit units by their numbers. A unit that is only half of a character may be written,
but it has no meaning alone: `TextPart.decode?` finds a text only where the halves are paired.
-/

namespace Replica.Json

/-- The value of a hexadecimal digit. -/
def hexValue? (c : Char) : Option Nat :=
  if '0' ≤ c ∧ c ≤ '9' then some (c.toNat - '0'.toNat)
  else if 'a' ≤ c ∧ c ≤ 'f' then some (c.toNat - 'a'.toNat + 10)
  else if 'A' ≤ c ∧ c ≤ 'F' then some (c.toNat - 'A'.toNat + 10)
  else none

/-- The number that four hexadecimal digits stand for. -/
def hexWord? (a b c d : Char) : Option Nat := do
  return ((← hexValue? a) * 16 + (← hexValue? b)) * 256 + (← hexValue? c) * 16 + (← hexValue? d)

/-- Whether a 16-bit unit is the first half of a pair. -/
def isLeading (unit : Nat) : Bool := 0xD800 ≤ unit && unit ≤ 0xDBFF

/-- Whether a 16-bit unit is the second half of a pair. -/
def isTrailing (unit : Nat) : Bool := 0xDC00 ≤ unit && unit ≤ 0xDFFF

/-- The character that the two halves of a pair stand for. -/
def paired (leading trailing : Nat) : Char :=
  Char.ofNat (0x10000 + (leading - 0xD800) * 0x400 + (trailing - 0xDC00))

/-- The character that one letter stands for behind a backslash. -/
def escaped? : Char → Option Char
  | '"' => some '"'
  | '\\' => some '\\'
  | '/' => some '/'
  | 'b' => some '\x08'
  | 'f' => some '\x0c'
  | 'n' => some '\n'
  | 'r' => some '\r'
  | 't' => some '\t'
  | _ => none

/-- A part of a text as it is written. -/
inductive TextPart where
  /-- A character. -/
  | char (c : Char)
  /-- A 16-bit unit by its number. -/
  | unit (n : Nat)

namespace TextPart

/-- The rest of a quoted text behind its first quote: its parts and what follows the last quote. -/
def list? : List Char → Option (List TextPart × List Char)
  | [] => none
  | '"' :: r => some ([], r)
  | '\\' :: 'u' :: a :: b :: c :: d :: r => do
    let n ← hexWord? a b c d
    let (parts, rest) ← list? r
    return (unit n :: parts, rest)
  | '\\' :: c :: r => do
    let plain ← escaped? c
    let (parts, rest) ← list? r
    return (char plain :: parts, rest)
  | ['\\'] => none
  | c :: r =>
    if c.toNat < 0x20 then none
    else do
      let (parts, rest) ← list? r
      return (char c :: parts, rest)

/-- The characters that the parts of a text stand for. -/
def decode? : List TextPart → Option (List Char)
  | [] => some []
  | char c :: parts => (decode? parts).map (c :: ·)
  | unit n :: parts =>
    if isTrailing n then none
    else if isLeading n then
      match parts with
      | unit m :: parts => if isTrailing m then (decode? parts).map (paired n m :: ·) else none
      | _ => none
    else (decode? parts).map (Char.ofNat n :: ·)

/-- The text that its parts stand for. -/
def text? (parts : List TextPart) : Option String := (decode? parts).map String.ofList

end TextPart

end Replica.Json
