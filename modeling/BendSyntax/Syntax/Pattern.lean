import BendSyntax.Token.Literal

/-!
# Patterns

One layer of a pattern over the subpatterns `π`.
-/

namespace BendSyntax

inductive Pattern (π : Type) where
  | var (name : String)
  | lit (value : Literal)
  | tag (name : String)
  | ctor (name : String) (args : List π)
  | sym (name : String)
  /-- `Nn + rest` -/
  | succ (n : Nat) (rest : π)
  | tuple (items : List π)
  | list (items : List π)
  | emptyList
  | cons (head tail : π)
  | paren (inner : π)
  deriving Repr, DecidableEq, Inhabited

namespace Pattern

def map {π ρ : Type} (f : π → ρ) : Pattern π → Pattern ρ
  | var name => var name
  | lit value => lit value
  | tag name => tag name
  | ctor name args => ctor name (args.map f)
  | sym name => sym name
  | succ n rest => succ n (f rest)
  | tuple items => tuple (items.map f)
  | list items => list (items.map f)
  | emptyList => emptyList
  | cons head tail => cons (f head) (f tail)
  | paren inner => paren (f inner)

/-- The subpatterns in source order. -/
def children {π : Type} : Pattern π → List π
  | var _ | lit _ | tag _ | sym _ | emptyList => []
  | ctor _ args => args
  | succ _ rest => [rest]
  | tuple items => items
  | list items => items
  | cons head tail => [head, tail]
  | paren inner => [inner]

end Pattern

end BendSyntax
