import BendSyntax.Diagnostic
import BendSyntax.Token.Basic

/-!
# Flaws of tokens

What can be wrong inside a token, counted in characters from its start. A flaw becomes
a diagnostic once the position of the token is known.
-/

namespace BendSyntax

namespace Flaw

inductive Cause where
  | unclosedComment
  | unexpected (c : Char)
  | missingDigits (mark : String)
  | signedNatural
  | outOfRange (kind : TokenKind)
  | unclosedString
  | unclosedChar
  | emptyChar
  | badEscape (c : Char)
  | badCodePoint
  deriving Repr, DecidableEq

/-- The character whose code is the first byte of the encoding of `c`. -/
def leadByte (c : Char) : Char :=
  let n := c.toNat
  if n < 0x80 then c
  else if n < 0x800 then Char.ofNat (0xC0 + n / 0x40)
  else if n < 0x10000 then Char.ofNat (0xE0 + n / 0x1000)
  else Char.ofNat (0xF0 + n / 0x40000)

def Cause.message : Cause → String
  | unclosedComment => "unterminated block comment"
  | unexpected c => s!"unexpected character `{c}`"
  | missingDigits mark => s!"expected digits after `{mark}`"
  | signedNatural => "natural literals cannot carry a sign"
  | outOfRange kind => s!"{kind.name} out of range"
  | unclosedString => "unterminated string literal"
  | unclosedChar => "unterminated character literal"
  | emptyChar => "empty character literal"
  | badEscape c => s!"invalid escape sequence `\\{leadByte c}`"
  | badCodePoint => "expected four hex digits naming a character after `\\u`"

/-- Whether a diagnostic quotes the flawed text. -/
def Cause.quotes : Cause → Bool
  | unclosedComment => false
  | badCodePoint => false
  | _ => true

end Flaw

/-- A flaw covers `length` characters from the one at `start`. -/
structure Flaw where
  start : Nat
  length : Nat
  cause : Flaw.Cause
  deriving Repr, DecidableEq

namespace Flaw

/-- The diagnostic about a flaw in a text that begins at `p`. -/
def toDiagnostic (f : Flaw) (p : Position) (text : List Char) : Diagnostic :=
  let covered := (text.drop f.start).take f.length
  let first := p.after (text.take f.start)
  { kind := .lexical
    message := f.cause.message
    span := .between first (first.after covered)
    expected := none
    found := if f.cause.quotes then some (String.ofList covered) else none }

end Flaw

end BendSyntax
