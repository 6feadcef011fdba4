import BendSyntax.Number.Decimal
import BendSyntax.Number.Shortest
import BendSyntax.Text.Quoted
import BendSyntax.Token.Basic
import BendSyntax.Token.Escape

/-!
# Literals

The values that literal tokens denote. Natural numbers have 64 bits, integers 64 bits
with a sign, and floating-point numbers are finite.
-/

namespace BendSyntax

inductive Literal where
  | bool (value : Bool)
  | nat (value : Nat)
  | int (value : Int)
  | float (value : Binary64)
  | char (value : Char)
  | str (value : String)
  deriving Repr, DecidableEq, Inhabited

namespace Literal

/-- How a literal is shown in structural dumps. -/
def shown : Literal → String
  | bool true => "True"
  | bool false => "False"
  | nat n => s!"{n}n"
  | int i => toString i
  | float x => x.shown
  | char c => Text.quotedChar c
  | str s => Text.quotedString s

/-- The value of a natural literal such as `42n`. -/
def nat? (lexeme : List Char) : Option Nat :=
  match lexeme.getLast? with
  | some 'n' =>
      match Numeral.unsigned? 10 lexeme.dropLast with
      | some n => if n < 0x10000000000000000 then some n else none
      | none => none
  | _ => none

/-- The number that a numeral denotes by its notation: hexadecimal after `0x`, binary
after `0b`, and decimal otherwise. -/
def magnitude? : List Char → Option Int
  | '0' :: 'x' :: cs => Numeral.signed? 16 cs
  | '0' :: 'b' :: cs => Numeral.signed? 2 cs
  | cs => Numeral.signed? 10 cs

/-- The value of an integer literal, with its sign in front. -/
def int? (lexeme : List Char) : Option Int :=
  let value? :=
    match lexeme with
    | '-' :: cs => (magnitude? cs).map fun i => -i
    | '+' :: cs => magnitude? cs
    | cs => magnitude? cs
  match value? with
  | some i => if -0x8000000000000000 ≤ i ∧ i < 0x8000000000000000 then some i else none
  | none => none

/-- What stands between two quotation marks. -/
def unquote? (mark : Char) : List Char → Option (List Char)
  | [] => none
  | c :: cs => if c = mark ∧ cs.getLast? = some mark then some cs.dropLast else none

def char? (lexeme : List Char) : Option Char :=
  match unquote? '\'' lexeme >>= Escape.decode? with
  | some [c] => some c
  | _ => none

def str? (lexeme : List Char) : Option String :=
  (unquote? '"' lexeme >>= Escape.decode?).map String.ofList

/-- The value that the text of a token of some kind denotes. -/
def ofLexeme? (kind : TokenKind) (lexeme : List Char) : Option Literal :=
  match kind with
  | .nat => (nat? lexeme).map nat
  | .int => (int? lexeme).map int
  | .float => (Decimal.read? lexeme).map float
  | .char => (char? lexeme).map char
  | .str => (str? lexeme).map str
  | .word .true => some (bool true)
  | .word .false => some (bool false)
  | _ => none

end Literal

/-- The value of a literal token. -/
def Token.literal? (t : Token) : Option Literal := Literal.ofLexeme? t.kind t.lexeme.toList

end BendSyntax
