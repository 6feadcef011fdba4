import BendSyntax.Grammar.Level
import BendSyntax.Grammar.Reading

/-!
# Nested readings

A construct that contains statements, expressions or patterns reads them one level
deeper. Every production takes the readings of the next level as a parameter and does
not call itself, so the depth of the nesting is the depth of the recursion.
-/

namespace BendSyntax

/-- What is read one level deeper. -/
inductive Goal where
  | statement
  /-- An expression whose operators bind at `min` or more tightly. -/
  | expr (min : Level)
  | pattern
  /-- A pattern without `<>`. -/
  | patternAtom
  deriving Repr, DecidableEq

abbrev Goal.Result : Goal → Type
  | statement => TermId
  | expr _ => TermId
  | pattern => PatternId
  | patternAtom => PatternId

/-- The readings of the next level. -/
abbrev Deeper := (g : Goal) → Reading g.Result

namespace Deeper

variable (deep : Deeper)

def statement : Reading TermId := deep .statement

def expr (min : Level) : Reading TermId := deep (.expr min)

def pattern : Reading PatternId := deep .pattern

/-- A type in a slot of its own. -/
def type : Reading TermId := .withUsage .type (deep.expr .product)

/-- A term in a slot of its own. -/
def term : Reading TermId := .withUsage .term (deep.expr .check)

/-- An operand in brackets, which has the usage of its surroundings. -/
def inner : Reading TermId := deep.expr .check

/-- The type behind `x:` in a list of binders that a dot ends. -/
def binderType : Reading TermId :=
  .within (fun s => { s with noDot := true, usage := .type }) (deep.expr .product)

end Deeper

/-- `x: A` with the given reading of the type. -/
def Reading.binder (type : Reading TermId) : Reading (Binder TermId) := do
  let (name, span) ← identifier
  let _ ← expect (.mark .colon)
  return ⟨name, span, ← type⟩

end BendSyntax
