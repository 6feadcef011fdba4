import BendSyntax.Syntax.Operator
import BendSyntax.Token.Basic

/-!
# Binding levels

Operators bind at levels, a higher one more tightly. `Infix.ofKind?` is the table of
the operators that stand between two operands.
-/

namespace BendSyntax

abbrev Level := Nat

namespace Level

def assignment : Level := 1
def check : Level := 2
def product : Level := 3
def arrow : Level := 4
def cons : Level := 5
def or : Level := 6
def xor : Level := 7
def and : Level := 8
def equality : Level := 9
def comparison : Level := 10
def shift : Level := 11
def additive : Level := 12
def multiplicative : Level := 13
def power : Level := 14
def sigma : Level := 15
/-- The operand of a sign or a negation. -/
def operand : Level := 16
/-- Application by juxtaposition. -/
def application : Level := 17
/-- An operand with what directly follows it. -/
def suffix : Level := 18

end Level

inductive Associativity where
  | left | right
  deriving Repr, DecidableEq

/-- What an operator between two operands builds. -/
inductive InfixForm where
  | op (op : BinaryOp)
  | arrow
  | check
  | sigma
  deriving Repr, DecidableEq

structure Infix where
  form : InfixForm
  level : Level
  associativity : Associativity
  deriving Repr, DecidableEq

namespace Infix

def leftOp (op : BinaryOp) (level : Level) : Infix := ⟨.op op, level, .left⟩

def rightOp (op : BinaryOp) (level : Level) : Infix := ⟨.op op, level, .right⟩

def ofSymbol? : Symbol → Option Infix
  | .equals => some (rightOp .assign .assignment)
  | .colonEq => some (rightOp .define .assignment)
  | .doubleColon => some ⟨.check, .check, .right⟩
  | .ampersand => some (rightOp .product .product)
  | .arrow => some ⟨.arrow, .arrow, .right⟩
  | .cons => some (rightOp .cons .cons)
  | .eqEq => some (leftOp .eq .equality)
  | .notEq => some (leftOp .neq .equality)
  | .strictEq => some (leftOp .strictEq .equality)
  | .strictNotEq => some (leftOp .strictNeq .equality)
  | .less => some (leftOp .lt .comparison)
  | .greater => some (leftOp .gt .comparison)
  | .lessEq => some (leftOp .le .comparison)
  | .greaterEq => some (leftOp .ge .comparison)
  | .shiftLeft => some (leftOp .shl .shift)
  | .shiftRight => some (leftOp .shr .shift)
  | .plus => some (leftOp .add .additive)
  | .minus => some (leftOp .sub .additive)
  | .star => some (leftOp .mul .multiplicative)
  | .slash => some (leftOp .div .multiplicative)
  | .percent => some (leftOp .mod .multiplicative)
  | .power => some (rightOp .pow .power)
  | .dot => some ⟨.sigma, .sigma, .right⟩
  | _ => none

/-- The operator that a token of some kind stands for. -/
def ofKind? : TokenKind → Option Infix
  | .mark s => ofSymbol? s
  | .word .or => some (leftOp .or .or)
  | .word .xor => some (leftOp .xor .xor)
  | .word .and => some (leftOp .and .and)
  | _ => none

/-- The least level of the right operand. -/
def next (i : Infix) : Level :=
  match i.associativity with
  | .left => i.level + 1
  | .right => i.level

end Infix

end BendSyntax
