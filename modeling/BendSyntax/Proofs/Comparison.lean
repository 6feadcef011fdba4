import BendSyntax.Grammar.Items
import BendSyntax.Proofs.Alike
import BendSyntax.Proofs.Brackets

/-! Two runs of the grammar are compared step by step. A comparison says which cursors,
spans, usages and errors of the runs correspond; what each run has added to its own tree
corresponds node by node. A run may be excused when it meets the depth limit, and a pair of
sessions can be void, in which case nothing more is said about the runs. -/

namespace BendSyntax

/-- Two arrays that have grown by corresponding elements from where they began. -/
def Grown {α β : Type} (R : α → β → Prop) (a : Array α) (b : Array β) (x : Array α)
    (y : Array β) : Prop :=
  ∃ k l, x.toList = a.toList ++ k ∧ y.toList = b.toList ++ l ∧ List.Forall₂ R k l

/-- What one of two runs is done under, and what is there when it begins. -/
structure Side where
  config : Config
  remembers : Bool
  tree : Tree
  diagnostics : Array Diagnostic

def Side.setting (side : Side) (slot : Slot) : Setting := ⟨side.config, side.remembers, slot⟩

/-- What may stand in one text where the other one ends: a keyword that begins an item, or the
parenthesis that closes around the text. -/
def TokenKind.endsText : TokenKind → Bool
  | .mark .rightParen => true
  | k => k.startsItem

/-- The kinds of corresponding tokens. The right text may go on where the left one ends. -/
inductive Kinds : TokenKind → TokenKind → Prop
  | same (k) : Kinds k k
  | rightParen : Kinds .eof (.mark .rightParen)
  | def_ : Kinds .eof (.word .def_)
  | type : Kinds .eof (.word .type)
  | assert : Kinds .eof (.word .assert)
  | try_ : Kinds .eof (.word .try_)

/-- What corresponds in two runs. -/
structure Correspondence where
  left : Side
  right : Side
  cursors : Cursor → Cursor → Prop
  spans : Span → Span → Prop
  /-- Spans of corresponding tokens. -/
  marks : Span → Span → Prop
  /-- Spans of a name that takes so many bytes, perhaps with parentheses around it. -/
  named : Nat → Span → Span → Prop
  usages : Usage → Usage → Prop
  errors : SyntaxError → SyntaxError → Prop
  failures : List Failure → List Failure → Prop

namespace Correspondence

variable (C : Correspondence)

def terms (a b : TermId) : Prop :=
  ∃ n, a.index = C.left.tree.terms.size + n ∧ b.index = C.right.tree.terms.size + n

def patterns (p q : PatternId) : Prop :=
  ∃ n, p.index = C.left.tree.patterns.size + n ∧ q.index = C.right.tree.patterns.size + n

structure TermNodes (m n : TermNode) : Prop where
  term : m.term.Alike C.spans C.terms C.patterns n.term
  span : C.spans m.span n.span
  usage : C.usages m.usage n.usage
  name : ∀ k ∈ m.term.nameLength?, C.named k m.span n.span

structure PatternNodes (m n : PatternNode) : Prop where
  pattern : m.pattern.Alike C.patterns n.pattern
  span : C.spans m.span n.span

def reports (d e : Diagnostic) : Prop :=
  ∃ a b, C.errors a b ∧ d = a.toDiagnostic ∧ e = b.toDiagnostic

structure Slots (s t : Slot) : Prop where
  flags : s.withUsage .term = t.withUsage .term
  usage : C.usages s.usage t.usage

structure Sessions (s t : Session) : Prop where
  cursor : C.cursors s.cursor t.cursor
  terms : Grown C.TermNodes C.left.tree.terms C.right.tree.terms s.tree.terms t.tree.terms
  patterns : Grown C.PatternNodes C.left.tree.patterns C.right.tree.patterns
    s.tree.patterns t.tree.patterns
  diagnostics : Grown C.reports C.left.diagnostics C.right.diagnostics s.diagnostics t.diagnostics
  failures : C.failures s.failures t.failures

end Correspondence

structure Comparison extends Correspondence where
  /-- Whether a run is excused when it meets the depth limit. -/
  leftExcused : Prop
  rightExcused : Prop
  void : Session → Session → Prop

namespace Comparison

variable (C : Comparison)

/-- How the ends of two readings may compare. -/
inductive Outcomes {α : Type} (Q : α → α → Prop) : Outcome α → Outcome α → Prop
  | ok {a b s t} : Q a b → C.Sessions s t → Outcomes Q (.ok a s) (.ok b t)
  | error {e f s t} : C.errors e f → C.Sessions s t → Outcomes Q (.error e s) (.error f t)
  | leftTooDeep {e s o} : C.leftExcused → e.isFatal = true → Outcomes Q (.error e s) o
  | rightTooDeep {o f t} : C.rightExcused → f.isFatal = true → Outcomes Q o (.error f t)
  | void {o p} : C.void o.session p.session → Outcomes Q o p

/-- Two readings end alike from all corresponding sessions with these cursors. -/
def Agree {α : Type} (c d : Cursor) (r q : Reading α) (Q : α → α → Prop) : Prop :=
  ∀ slot slot' s t, C.Slots slot slot' → C.Sessions s t → s.cursor = c → t.cursor = d →
    C.Outcomes Q (r.run (C.left.setting slot) s) (q.run (C.right.setting slot') t)

/-- Two readings end alike from all corresponding sessions. -/
def Agrees {α : Type} (r q : Reading α) (Q : α → α → Prop) : Prop :=
  ∀ c d, C.cursors c d → C.Agree c d r q Q

/-- Behind tokens that leave no parenthesis open since the beginning of `ts`, closing parentheses
correspond to each other. -/
def Inside (ts : List Token) : Prop :=
  ∀ c d, C.cursors c d → c.Open ts 0 → (c.kind = .mark .rightParen ↔ d.kind = .mark .rightParen)

/-- What makes a comparison work for all readings of the grammar. -/
class Lawful : Prop where
  kind {c d} : C.cursors c d → Kinds c.kind d.kind
  eof {c d} : C.cursors c d → c.eof.kind = .eof
  /-- Neither text ends where a parenthesis is open. -/
  inside {c d} : C.cursors c d → c.kind = .mark .leftParen → C.Inside c.advance.rest
  rest {c d} : C.cursors c d → c.kind ≠ .eof → c.rest ≠ [] ∧ d.rest ≠ []
  token {c d} : C.cursors c d → c.kind ≠ .eof →
    c.token.kind = d.token.kind ∧ c.lexeme = d.lexeme ∧ c.isTight = d.isTight
  caseHead {c d} : C.cursors c d → c.caseHead? = d.caseHead?
  advance {c d} : C.cursors c d → c.kind ≠ .eof → C.cursors c.advance d.advance
  halve {c d} : C.cursors c d → c.kind = .mark .shiftRight → C.cursors c.halve d.halve
  whole {c d} : C.cursors c d → C.cursors c.whole d.whole
  mark {c d} : C.cursors c d → c.kind ≠ .eof → C.marks c.span d.span
  span {c d} : C.cursors c d → C.spans c.span d.span
  last {c d} : C.cursors c d → C.spans c.last d.last
  index {c d c' d'} : C.cursors c d → C.cursors c' d' → (c'.index = c.index ↔ d'.index = d.index)
  /-- In front of a token there is no end of the text. -/
  index_kind {c d c' d'} : C.cursors c d → C.cursors c' d' → c'.index = c.index →
    c.kind ≠ .eof → c'.whole.kind ≠ .eof
  remaining {c d c' d'} : C.cursors c d → C.cursors c' d' →
    (c'.remaining < c.remaining ↔ d'.remaining < d.remaining)
  marks_spans {s t} : C.marks s t → C.spans s t
  marks_hull {s t s' t'} : C.marks s t → C.marks s' t' → C.marks (s.hull s') (t.hull t')
  named_ident {c d} : C.cursors c d → c.kind = .ident →
    C.named c.lexeme.utf8ByteSize c.span d.span
  named_hull {k s t s' t'} : C.named k s t → C.marks s' t' → C.named k (s.hull s') (t.hull t')
  named_length {k s t} : C.named k s t → (s.length = k ↔ t.length = k)
  spans_zero : C.spans .zero .zero
  spans_hull {s t s' t'} : C.spans s t → C.spans s' t' → C.spans (s.hull s') (t.hull t')
  spans_opening {s t} : C.spans s t → C.spans s.opening t.opening
  usages_refl u : C.usages u u
  errors_fatal {e f} : C.errors e f → e.isFatal = f.isFatal
  expected {c d} what : C.cursors c d →
    C.errors (.expected what c.described c.span) (.expected what d.described d.span)
  /-- Only of a literal without a value is it said that it is malformed. -/
  invalid {c d} message : C.cursors c d → Grammar.isLiteral c.kind = true →
    c.token.literal? = none → C.errors (.invalid message c.span) (.invalid message d.span)
  noDefinition {e f} : C.errors e f → C.errors (Grammar.noDefinition e) (Grammar.noDefinition f)
  void_onward {s t s' t'} : C.void s t → s.Onward s' → t.Onward t' → C.void s' t'

end Comparison

end BendSyntax
