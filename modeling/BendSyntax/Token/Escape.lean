import BendSyntax.Number.Numeral

/-!
# Escape sequences

A backslash in a string or character literal begins an escape: a letter that stands for
one character, or `u` with four digits of a code point. `Escape.decode?` gives the text
that the part between the quotation marks denotes.
-/

namespace BendSyntax.Escape

/-- The character that a letter behind a backslash stands for. -/
def letter? : Char → Option Char
  | 'n' => some '\n'
  | 't' => some '\t'
  | 'r' => some '\r'
  | '0' => some '\x00'
  | '\\' => some '\\'
  | '\'' => some '\''
  | '"' => some '"'
  | _ => none

/-- The character with a code point. -/
def scalar? (n : Nat) : Option Char :=
  if n.isValidChar then some (Char.ofNat n) else none

/-- Of the four digits the first may be a plus sign. -/
def decode? : List Char → Option (List Char)
  | [] => some []
  | '\\' :: 'u' :: a :: b :: c :: d :: cs =>
      match Numeral.unsigned? 16 [a, b, c, d] >>= scalar? with
      | some x => (decode? cs).map (x :: ·)
      | none => none
  | '\\' :: c :: cs =>
      match letter? c with
      | some x => (decode? cs).map (x :: ·)
      | none => none
  | c :: cs => if c = '\\' then none else (decode? cs).map (c :: ·)

@[simp] theorem decode?_nil : decode? [] = some [] := rfl

end BendSyntax.Escape
