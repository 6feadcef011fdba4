import BendSyntax.Grammar.Expressions

/-!
# Statements

The bodies of definitions, cases and lambdas. To expressions they add bindings, `x = v`
or `x: T = v` with a body behind it, and assignments, which have none.
-/

namespace BendSyntax.Grammar

open Reading

variable (deep : Deeper)

/-- A name with its type in front of `=`. -/
def typedName : Reading (Option (String × Span × TermId)) := do
  let (name, span) ← identifier
  let _ ← expect (.mark .colon)
  let type ← deep.type
  if ← sees (.mark .equals) then return some (name, span, type) else return none

/-- A name with its type, unless no value follows. -/
def typedName? : Reading (Option (String × Span × TermId)) := attempt .typedLet (typedName deep)

/-- The assignment to a name that has no body behind it. -/
def assignment (name : String) (start : Span) (type : Option TermId) (value : TermId) :
    Reading TermId := do
  let var ← addTerm (.var name) start
  let stop ← spanOf value
  match type with
  | some type =>
      let target ← addTerm (.check var type) (start.hull (← spanOf type))
      addTerm (.op2 .assign target value) (start.hull stop)
  | none => addTerm (.op2 .assign var value) (start.hull stop)

/-- What follows the name of a binding. -/
def binding (name : String) (start : Span) (type : Option TermId) : Reading TermId := do
  let _ ← expect (.mark .equals)
  let value ← deep.term
  let _ ← accept (.mark .semicolon)
  if (← cursor).startsOperand (← slot) then
    let body ← deep.statement
    close start (.letIn name type value body)
  else assignment name start type value

def statement : Reading TermId := do
  let c ← cursor
  match c.kind, c.kindAt 1 with
  | .ident, .mark .equals =>
      let (name, span) ← identifier
      binding deep name span none
  | .ident, .mark .colon =>
      match ← typedName? deep with
      | some (name, span, type) => binding deep name span (some type)
      | none => deep.expr .assignment
  | _, _ => deep.expr .assignment

end BendSyntax.Grammar
