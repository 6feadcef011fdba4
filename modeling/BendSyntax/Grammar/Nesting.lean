import BendSyntax.Grammar.Statements

/-!
# Nesting

`nested d` reads constructs that are nested at most `d` levels deep, and refuses to go
one level deeper than that.
-/

namespace BendSyntax.Grammar

open Reading

/-- The production of a goal, given the readings of the next level. -/
def produce (deep : Deeper) : Deeper
  | .statement => withUsage .term (statement deep)
  | .expr min => expression deep min
  | .pattern => pattern deep
  | .patternAtom => patternAtom deep

/-- The failure at the depth limit. -/
def refuse {α : Type} : Reading α := do
  fail (.tooDeep (← config).maxDepth (← here))

def nested : Nat → Deeper
  | 0, _ => refuse
  | d + 1, g => produce (nested d) g

theorem nested_zero (g : Goal) : nested 0 g = refuse := rfl

theorem nested_succ (d : Nat) (g : Goal) : nested (d + 1) g = produce (nested d) g := rfl

end BendSyntax.Grammar
