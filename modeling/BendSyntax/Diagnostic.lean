import BendSyntax.Source.Span

/-!
# Diagnostics

A diagnostic says what is wrong with a source text and where. It is data only:
showing the source line under it is the business of whoever owns the terminal.
-/

namespace BendSyntax

namespace Diagnostic

inductive Kind where
  /-- A malformed token: bad escape, unterminated literal, stray character. -/
  | lexical
  /-- The tokens do not follow the grammar. -/
  | syntactic
  /-- Every reading of an ambiguous construct failed. -/
  | ambiguity
  /-- The nesting is deeper than the limit. -/
  | tooDeep
  deriving Repr, DecidableEq, Inhabited

namespace Kind

/-- The word that introduces a diagnostic of this kind when it is shown. -/
def word : Kind → String
  | lexical => "lexical"
  | syntactic => "syntax"
  | ambiguity => "ambiguity"
  | tooDeep => "nesting"

/-- The name of the kind in records. -/
def tag : Kind → String
  | lexical => "Lexical"
  | syntactic => "Syntax"
  | ambiguity => "Ambiguity"
  | tooDeep => "TooDeep"

def all : List Kind := [lexical, syntactic, ambiguity, tooDeep]

def ofTag? (tag : String) : Option Kind := all.find? (·.tag == tag)

theorem ofTag?_tag (k : Kind) : ofTag? k.tag = some k := by
  cases k <;> decide

end Kind

end Diagnostic

structure Diagnostic where
  kind : Diagnostic.Kind
  message : String
  span : Span
  /-- What was looked for, when that is a single clear thing. -/
  expected : Option String
  /-- The offending text, when there is one. -/
  found : Option String
  deriving Repr, DecidableEq, Inhabited

namespace Diagnostic

/-- `LINE:COLUMN: WORD error: MESSAGE` -/
def shown (d : Diagnostic) : String :=
  s!"{d.span.place}: {d.kind.word} error: {d.message}"

end Diagnostic

end BendSyntax
