import BendSyntax.Text.Extender

/-!
# Quoted characters and strings

A quoted text stands between quotation marks and shows one line of visible
characters: what would end the quotation, break the line or not be seen is written
as an escape.
-/

namespace BendSyntax.Text

def hexDigits (n : Nat) : List Char := Nat.toDigits 16 n

/-- A character as it is written between quotation marks of the given kind. -/
def escape (mark : Char) (c : Char) : List Char :=
  match c with
  | '\x00' => ['\\', '0']
  | '\t' => ['\\', 't']
  | '\n' => ['\\', 'n']
  | '\r' => ['\\', 'r']
  | '\\' => ['\\', '\\']
  | c =>
      if c = mark then ['\\', c]
      else if isExtender c || !isPrintable c then
        ['\\', 'u', '\x7b'] ++ hexDigits c.toNat ++ ['\x7d']
      else [c]

def quoted (mark : Char) (text : List Char) : List Char :=
  mark :: text.flatMap (escape mark) ++ [mark]

def quotedChar (c : Char) : String := String.ofList (quoted '\'' [c])

def quotedString (s : String) : String := String.ofList (quoted '"' s.toList)

end BendSyntax.Text
