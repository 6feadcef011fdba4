import BendSyntax.Proofs.Agreement.Nesting
import BendSyntax.Proofs.Dumps
import BendSyntax.Proofs.SameText
import BendSyntax.Reader

/-! Types and terms have one grammar. A slot says whether a type or a term is read in it, and
the terms that are read there are marked so, but nothing else depends on it: two runs from the
same session whose slots differ in the usage only have the same end, up to these marks. -/

namespace BendSyntax

open Reading Grammar

/-! ## Without usages -/

def TermNode.withoutUsage (node : TermNode) : TermNode := { node with usage := .term }

/-- A tree whose terms are not told apart from types. -/
def Tree.withoutUsages (t : Tree) : Tree := { t with terms := t.terms.map (·.withoutUsage) }

def Failure.withoutUsage (f : Failure) : Failure := { f with slot := f.slot.withUsage .term }

def Session.withoutUsages (s : Session) : Session :=
  { s with tree := s.tree.withoutUsages, failures := s.failures.map (·.withoutUsage) }

def Outcome.withoutUsages {α : Type} : Outcome α → Outcome α
  | ok a s => ok a s.withoutUsages
  | error e s => error e s.withoutUsages

/-- Which attempts a failure rules out does not depend on the usage of its slot. -/
theorem Failure.any_matches_withoutUsage (f : Failure) (log : List Failure) :
    (log.map (·.withoutUsage)).any f.matches = log.any f.matches := by
  rw [List.any_map]
  rfl

/-! ## Runs for different usages -/

namespace Comparison

/-- Two runs from the same session whose slots may differ in the usage. -/
def usageFree (ts : Tokens) (config : Config) (remembers : Bool) (diagnostics : Array Diagnostic) :
    Comparison :=
  sameText ts ⟨config, remembers, .empty, diagnostics⟩ ⟨config, remembers, .empty, diagnostics⟩
    Eq (fun _ _ => True) (fun l l' => l.map (·.withoutUsage) = l'.map (·.withoutUsage)) False False
    fun _ _ => False

variable {ts : Tokens} {config : Config} {remembers : Bool} {diagnostics : Array Diagnostic}

instance : (usageFree ts config remembers diagnostics).Lawful :=
  sameText_lawful (fun _ => rfl) (fun h h' => by rw [h, h']) (fun h => by rw [h])
    (fun _ => trivial) fun h _ _ => h.elim

instance : (usageFree ts config remembers diagnostics).Retractable :=
  ⟨fun h _ => h.elim, fun h _ => h.elim⟩

instance : (usageFree ts config remembers diagnostics).Recalling where
  known {c d slot slot' l l'} what hcd hl := by
    have hl : l.map (·.withoutUsage) = l'.map (·.withoutUsage) := hl
    have hmatches : (⟨c.index, what, slot⟩ : Failure).matches =
        (⟨d.index, what, slot'⟩ : Failure).matches := by
      rw [hcd.2.1.index]
      rfl
    rw [← Failure.any_matches_withoutUsage, hl, Failure.any_matches_withoutUsage, hmatches]
    rfl
  remember {c d slot slot' l l'} what hcd _ hslot hl := by
    have hflags : slot.withUsage .term = slot'.withUsage .term := hslot.flags
    show Failure.withoutUsage _ :: _ = Failure.withoutUsage _ :: _
    rw [Failure.withoutUsage, Failure.withoutUsage, hcd.2.1.index, hflags]
    exact congrArg _ hl

/-- The runs agree at every depth; where one of them refuses, so does the other. -/
theorem usageFree_levels (d : Nat) :
    (usageFree ts config remembers diagnostics).Levels (nested d) (nested d) := by
  induction d with
  | zero =>
      refine fun g => agrees_refuse fun {c c'} hcc => ?_
      show SyntaxError.tooDeep _ _ = .tooDeep _ _
      rw [hcc.2.1.span]
      rfl
  | succ d ih => exact agrees_produce ih.supports

theorem usageFree_terms : (usageFree ts config remembers diagnostics).terms = Eq :=
  sameText_terms rfl rfl

theorem usageFree_patterns : (usageFree ts config remembers diagnostics).patterns = Eq :=
  sameText_patterns rfl rfl

theorem usageFree_initial {s : Session} (hs : s.cursor.On ts) :
    (usageFree ts config remembers s.diagnostics).Sessions s s where
  cursor := ⟨hs, ⟨rfl, rfl, rfl, rfl⟩, rfl⟩
  terms := by
    refine ⟨s.tree.terms.toList, s.tree.terms.toList, rfl, rfl, forall₂_refl (fun m => ?_) _⟩
    refine ⟨?_, rfl, trivial, fun _ _ => rfl⟩
    rw [usageFree_terms, usageFree_patterns]
    exact m.term.alike_self
  patterns := by
    refine ⟨s.tree.patterns.toList, s.tree.patterns.toList, rfl, rfl, forall₂_refl (fun m => ?_) _⟩
    refine ⟨?_, rfl⟩
    rw [usageFree_patterns]
    exact m.pattern.alike_self
  diagnostics := .start _ _ _
  failures := rfl

theorem usageFree_sessions {s t : Session}
    (h : (usageFree ts config remembers diagnostics).Sessions s t) :
    s.withoutUsages = t.withoutUsages := by
  obtain ⟨⟨-, hplace, hlast⟩, ⟨nodes, nodes', hterms, hterms', hnodes⟩, hpatterns, hreports,
    hfailures⟩ := h
  have hcursor : s.cursor = t.cursor := by
    have hlast : s.cursor.last = t.cursor.last := hlast
    rw [hplace.eq_setLast, ← hlast]
  have hterms : s.tree.terms.map (·.withoutUsage) = t.tree.terms.map (·.withoutUsage) := by
    apply Array.toList_inj.mp
    rw [Array.toList_map, Array.toList_map, hterms, hterms']
    change nodes.map _ = nodes'.map _
    refine map_eq_of_forall₂ hnodes fun m n hmn => ?_
    have hterm := hmn.term
    rw [usageFree_terms, usageFree_patterns] at hterm
    have hspan : m.span = n.span := hmn.span
    rw [TermNode.withoutUsage, TermNode.withoutUsage, Term.Alike.eq hterm, hspan]
  have hpatterns : s.tree.patterns = t.tree.patterns :=
    hpatterns.eq (sameText_patternNodes rfl rfl)
  have hreports : s.diagnostics = t.diagnostics := hreports.eq sameText_reports
  have hfailures : s.failures.map (·.withoutUsage) = t.failures.map (·.withoutUsage) := hfailures
  simp only [Session.withoutUsages, Tree.withoutUsages, hcursor, hterms, hpatterns, hreports,
    hfailures]

/-- The ends of two runs that differ in the usage only. -/
theorem usageFree_outcomes {α : Type} {o p : Outcome α}
    (h : (usageFree ts config remembers diagnostics).Outcomes Eq o p) :
    o.withoutUsages = p.withoutUsages := by
  cases h with
  | ok hab hst => rw [Outcome.withoutUsages, Outcome.withoutUsages, hab, usageFree_sessions hst]
  | @error e f _ _ he hst =>
      obtain rfl : e = f := he
      rw [Outcome.withoutUsages, Outcome.withoutUsages, usageFree_sessions hst]
  | leftTooDeep hx => exact hx.elim
  | rightTooDeep hx => exact hx.elim
  | void hv => exact hv.elim

end Comparison

/-! ## One grammar -/

/-- From this session a reading has the same end for every usage: the same answer or failure,
cursor, reports, memory, terms, patterns and spans. Only the usages of the terms may differ. -/
def Reading.UsageFree {α : Type} (r : Reading α) (s : Session) : Prop :=
  ∀ (config : Config) (remembers : Bool) (slot slot' : Slot),
    slot.withUsage .term = slot'.withUsage .term →
      (r.run ⟨config, remembers, slot⟩ s).withoutUsages =
        (r.run ⟨config, remembers, slot'⟩ s).withoutUsages

/-- What agrees in all runs that differ in the usage only does not depend on the usage. -/
theorem Reading.usageFree_of_agrees {α : Type} {r : Reading α} {ts : Tokens} {s : Session}
    (hs : s.cursor.On ts)
    (h : ∀ config remembers,
      (Comparison.usageFree ts config remembers s.diagnostics).Agrees r r Eq) :
    r.UsageFree s := fun config remembers _ _ hslot =>
  Comparison.usageFree_outcomes
    ((h config remembers).run ⟨hslot, trivial⟩ (Comparison.usageFree_initial hs))

open Comparison in
/-- Types and terms have one grammar. In whatever session of a text expressions, statements,
patterns, operands with what goes in front of them, or case blocks are read, and however deep
they may nest, the usage of the slot decides nothing but how the terms are marked. -/
theorem grammar_usageFree {ts : Tokens} {s : Session} (hs : s.cursor.On ts) (d : Nat) :
    (∀ g : Goal, (nested d g).UsageFree s) ∧ (statement (nested d)).UsageFree s ∧
      (leading (nested d)).UsageFree s ∧ (caseBlock (nested d)).UsageFree s := by
  refine ⟨fun g => ?_, usageFree_of_agrees hs fun config remembers => ?_,
    usageFree_of_agrees hs fun config remembers => ?_,
    usageFree_of_agrees hs fun config remembers => ?_⟩
  · have hlevels (config : Config) (remembers : Bool) :
        (usageFree ts config remembers s.diagnostics).Levels (nested d) (nested d) :=
      usageFree_levels d
    cases g with
    | statement => exact usageFree_of_agrees hs fun c b => usageFree_terms ▸ hlevels c b .statement
    | expr min => exact usageFree_of_agrees hs fun c b => usageFree_terms ▸ hlevels c b (.expr min)
    | pattern => exact usageFree_of_agrees hs fun c b => usageFree_patterns ▸ hlevels c b .pattern
    | patternAtom =>
        exact usageFree_of_agrees hs fun c b => usageFree_patterns ▸ hlevels c b .patternAtom
  · exact usageFree_terms ▸ agrees_statement (usageFree_levels d).supports
  · exact usageFree_terms ▸ agrees_leading (usageFree_levels d).supports
  · intro c c' hcc
    refine (agrees_caseBlock (usageFree_levels d) c c' hcc).weaken fun _ _ hab => ?_
    rw [usageFree_terms] at hab
    exact hab.eq

set_option maxRecDepth 100000 in
/-- The type `f(x) -> y` read as a type and as a term. -/
theorem grammar_usageFree_arrow :
    let s := initial (Lexing.ofText "f(x) -> y")
    s.cursor.On (Lexing.ofText "f(x) -> y").tokens ∧ (nested 9 (.expr .check)).UsageFree s ∧
      ((nested 9 (.expr .check)).run ⟨.standard, true, .free .type⟩ s).session.tree ≠
        ((nested 9 (.expr .check)).run ⟨.standard, true, .free .term⟩ s).session.tree := by
  have hs : (initial (Lexing.ofText "f(x) -> y")).cursor.On (Lexing.ofText "f(x) -> y").tokens :=
    .start (Lexing.eof_kind_onward _ _ _)
  exact ⟨hs, (grammar_usageFree hs 9).1 _, by decide +kernel⟩

end BendSyntax
