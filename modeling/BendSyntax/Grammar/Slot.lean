import BendSyntax.Syntax.Term

/-!
# Slots

The same grammar reads types and terms in all places; a slot says what the place rules
out. Brackets lift every restriction, because nothing inside them can run into a token
outside.
-/

namespace BendSyntax

structure Slot where
  /-- Types of binders: a dot ends the type. -/
  noDot : Bool
  /-- Heads of `~e{...}` and `&L{a, b}`: no brace follows the operand. -/
  noBrace : Bool
  /-- Types of `try`: a brace behind a blank opens the proof. -/
  noLooseBrace : Bool
  /-- Scrutinees of `match`: no application by juxtaposition. -/
  noJuxtapose : Bool
  /-- Case blocks: the head of the next case ends an expression. -/
  caseHeads : Bool
  /-- Constructor fields: the name of the next field ends a type. -/
  fieldHeads : Bool
  usage : Usage
  deriving Repr, DecidableEq

namespace Slot

/-- No restriction. -/
def free (usage : Usage) : Slot := ⟨false, false, false, false, false, false, usage⟩

/-- The slot inside brackets. -/
def delimited (s : Slot) : Slot := free s.usage

def withUsage (s : Slot) (usage : Usage) : Slot := { s with usage }

@[simp] theorem delimited_free (usage : Usage) : (free usage).delimited = free usage := rfl

@[simp] theorem delimited_usage (s : Slot) : s.delimited.usage = s.usage := rfl

end Slot

end BendSyntax
