import BendSyntax.Grammar.Cursor
import BendSyntax.Grammar.Slot
import BendSyntax.Token.Literal

/-!
# Looking ahead

What the next tokens can begin. The heads of cases are recognised by at most six tokens,
so that the body of one case can stop in front of the next.
-/

namespace BendSyntax

/-- The heads of cases in a case block. -/
inductive CaseHead where
  | unit | pair | false | true | zero | succ | nil | cons | refl | ctor | sym | sup
  deriving Repr, DecidableEq, Inhabited

/-- A head with its colon as messages show it. -/
def CaseHead.described : CaseHead → String
  | unit => "`():`"
  | pair => "`(,):`"
  | false => "`False:`"
  | true => "`True:`"
  | zero => "`0n:`"
  | succ => "`1n+:`"
  | nil => "`[]:`"
  | cons => "`<>:`"
  | refl => "`\x7b==\x7d:`"
  | ctor => "`@Tag:`"
  | sym => "`&sym:`"
  | sup => "`&L\x7b,\x7d:`"

namespace Cursor

/-- Whether the next token is the natural literal `n`. -/
def isNat (c : Cursor) (n : Nat) : Bool := Literal.nat? c.lexeme.toList == some n

/-- The head of a case with its colon, whatever the slot. The label of a superposition
is recognised here only if it is a single token. -/
def caseHead? (c : Cursor) : Option CaseHead :=
  match c.kind, c.kindAt 1, c.kindAt 2, c.kindAt 3 with
  | .mark .leftParen, .mark .rightParen, .mark .colon, _ => some .unit
  | .mark .leftParen, .mark .comma, .mark .rightParen, .mark .colon => some .pair
  | .word .false, .mark .colon, _, _ => some .false
  | .word .true, .mark .colon, _, _ => some .true
  | .nat, .mark .colon, _, _ => if c.isNat 0 then some .zero else none
  | .nat, .mark .plus, .mark .colon, _ =>
      if c.tightAt 1 && c.isNat 1 then some .succ else none
  | .mark .leftBracket, .mark .rightBracket, .mark .colon, _ => some .nil
  | .mark .cons, .mark .colon, _, _ => some .cons
  | .mark .leftBrace, .mark .eqEq, .mark .rightBrace, .mark .colon => some .refl
  | .mark .atSign, .ident, .mark .colon, _ => some .ctor
  | .mark .ampersand, .ident, .mark .colon, _ => some .sym
  | .mark .ampersand, _, .mark .leftBrace, .mark .comma =>
      if c.kindAt 4 = .mark .rightBrace ∧ c.kindAt 5 = .mark .colon then some .sup else none
  | _, _, _, _ => none

/-- Whether a case ends here in a case block. -/
def atCaseHead (c : Cursor) (s : Slot) : Bool := s.caseHeads && c.caseHead?.isSome

/-- Whether a field ends here in a constructor. -/
def atFieldHead (c : Cursor) (s : Slot) : Bool :=
  s.fieldHeads && c.kind = .ident && c.kindAt 1 = .mark .colon

/-- Whether an expression ends here because of its slot. -/
def atHead (c : Cursor) (s : Slot) : Bool := c.atCaseHead s || c.atFieldHead s

/-- Tokens that can begin an argument in any slot. -/
def opensArgument : TokenKind → Bool
  | .ident | .nat | .int | .float | .char | .str => true
  | .word k =>
      k.isOperand || k ∈ [.lambda, .mu, .all, .any, .enum, .ref, .view]
  | .mark s => s ∈ [.leftParen, .leftBracket, .atSign, .question]
  | _ => false

/-- Whether an argument can begin here. In `f &a` a symbol is an argument, while
`A & B` is a product. -/
def startsArgument (c : Cursor) (s : Slot) : Bool :=
  !c.atHead s &&
    (opensArgument c.kind ||
      (c.kind = .mark .ampersand && !c.isTight && c.kindAt 1 = .ident && c.tightAt 1))

def atRefl (c : Cursor) : Bool :=
  c.kind = .mark .leftBrace && c.kindAt 1 = .mark .eqEq && c.kindAt 2 = .mark .rightBrace

/-- Tokens that can begin an operand but not an argument. -/
def opensOperand : TokenKind → Bool
  | .mark s => s ∈ [.minus, .tilde]
  | .word k =>
      k ∈ [.not, .if_, .fork, .match_, .use, .rewrite, .log, .trust, .absurd, .return_, .sub]
  | _ => false

/-- Whether an operand can begin here. -/
def startsOperand (c : Cursor) (s : Slot) : Bool :=
  c.startsArgument s || (!c.atHead s && (opensOperand c.kind || c.atRefl))

/-- Whether a brace here belongs to the operand in front of it. -/
def bracesOperand (c : Cursor) (s : Slot) : Bool :=
  c.kind = .mark .leftBrace && !s.noBrace && (c.isTight || !s.noLooseBrace) && !c.atCaseHead s

end Cursor

end BendSyntax
