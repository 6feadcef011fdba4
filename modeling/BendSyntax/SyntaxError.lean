import BendSyntax.Diagnostic

/-!
# Syntax errors

What stops a reading. Every error can be stated as a diagnostic; only an exceeded
nesting limit is fatal, that is, no alternative reading may hide it.
-/

namespace BendSyntax

inductive SyntaxError where
  | expected (what found : String) (span : Span)
  | invalid (message : String) (span : Span)
  /-- Every form of a construct failed; `last` is the failure of the last one. -/
  | ambiguous (construct attempts : String) (last : SyntaxError) (span : Span)
  | tooDeep (limit : Nat) (span : Span)
  deriving Repr, DecidableEq, Inhabited

namespace SyntaxError

def span : SyntaxError → Span
  | expected _ _ span => span
  | invalid _ span => span
  | ambiguous _ _ _ span => span
  | tooDeep _ span => span

def isFatal : SyntaxError → Bool
  | tooDeep _ _ => true
  | _ => false

def kind : SyntaxError → Diagnostic.Kind
  | expected _ _ _ => .syntactic
  | invalid _ _ => .syntactic
  | ambiguous _ _ _ _ => .ambiguity
  | tooDeep _ _ => .tooDeep

def message : SyntaxError → String
  | expected what found _ => s!"expected {what}, found {found}"
  | invalid message _ => message
  | ambiguous construct attempts last _ =>
      s!"{construct} matches none of its forms ({attempts}): {last.message}"
  | tooDeep limit _ => s!"too deeply nested: more than {limit} levels"

/-- The text that an error stumbled over. Of an ambiguity, whose message lists the
forms, only the culprit of the last form is kept. -/
def found? : SyntaxError → Option String
  | expected _ found _ => some found
  | ambiguous _ _ (expected _ found _) _ => some found
  | _ => none

def expected? : SyntaxError → Option String
  | expected what _ _ => some what
  | _ => none

def toDiagnostic (e : SyntaxError) : Diagnostic :=
  ⟨e.kind, e.message, e.span, e.expected?, e.found?⟩

theorem isFatal_iff_kind (e : SyntaxError) : e.isFatal = true ↔ e.kind = .tooDeep := by
  cases e <;> simp [isFatal, kind]

end SyntaxError

end BendSyntax
