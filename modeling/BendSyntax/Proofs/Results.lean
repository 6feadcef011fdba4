import BendSyntax.Proofs.Agreement.Nesting
import BendSyntax.Proofs.SameText
import BendSyntax.Reader

/-! What readers make of the ends of runs. Ends that differ only in what is remembered are the
same program or the same expression. -/

namespace BendSyntax

open Reading Grammar

namespace Outcome

variable {α : Type} {o p : Outcome α}

/-- All that is reported at the end of a reading. -/
def reports : Outcome α → Array Diagnostic
  | ok _ s => s.diagnostics
  | error e s => s.diagnostics.push e.toDiagnostic

/-- Ends that differ only in what is remembered. -/
inductive Same : Outcome α → Outcome α → Prop
  | ok {a s t} : s.tree = t.tree → s.diagnostics = t.diagnostics → Same (.ok a s) (.ok a t)
  | error {e s t} : s.tree = t.tree → s.diagnostics = t.diagnostics → Same (.error e s) (.error e t)

/-- The program at the end of a reading of items. -/
def report : Outcome (List (Item TermId)) → Report
  | ok items s => ⟨⟨s.tree, items⟩, s.diagnostics.toList⟩
  | error e s => ⟨⟨s.tree, []⟩, (s.diagnostics.push e.toDiagnostic).toList⟩

/-- The expression at the end of a reading of a statement. -/
def expression : Outcome TermId → Except (List Diagnostic) Expression
  | ok root s => if s.diagnostics.isEmpty then .ok ⟨s.tree, root⟩ else .error s.diagnostics.toList
  | error e s => .error (s.diagnostics.push e.toDiagnostic).toList

theorem Same.report {o p : Outcome (List (Item TermId))} (h : o.Same p) : o.report = p.report := by
  cases h with
  | ok htree hdiagnostics => simp only [Outcome.report, htree, hdiagnostics]
  | error htree hdiagnostics => simp only [Outcome.report, htree, hdiagnostics]

theorem Same.expression {o p : Outcome TermId} (h : o.Same p) : o.expression = p.expression := by
  cases h with
  | ok htree hdiagnostics => simp only [Outcome.expression, htree, hdiagnostics]
  | error htree hdiagnostics => simp only [Outcome.expression, hdiagnostics]

theorem diagnostics_report (o : Outcome (List (Item TermId))) :
    o.report.diagnostics = o.reports.toList := by
  cases o <;> rfl

theorem ok_of_expression {o : Outcome TermId} {e : Expression} (h : o.expression = .ok e) :
    ∃ s, o = .ok e.root s ∧ s.tree = e.tree ∧ s.diagnostics = #[] := by
  cases o with
  | ok root s =>
      simp only [expression] at h
      split at h
      · rename_i hempty
        cases h
        exact ⟨s, rfl, rfl, Array.isEmpty_iff.mp hempty⟩
      · cases h
  | error e s => cases h

theorem mem_reports_of_expression {o : Outcome TermId} {ds : List Diagnostic} {d : Diagnostic}
    (h : o.expression = .error ds) (hd : d ∈ ds) : d ∈ o.reports := by
  cases o with
  | ok root s =>
      simp only [expression] at h
      split at h
      · cases h
      · cases h
        exact Array.mem_toList_iff.mp hd
  | error e s =>
      cases h
      exact Array.mem_toList_iff.mp hd

/-- What is wrong with no error list is not reported at all. -/
theorem forall_reports_of_expression {o : Outcome TermId} {P : Diagnostic → Prop}
    (h : ∀ ds, o.expression = .error ds → ∀ d ∈ ds, P d) : ∀ d ∈ o.reports.toList, P d := by
  intro d hd
  cases o with
  | ok root s =>
      by_cases hempty : s.diagnostics.isEmpty = true
      · simp_all [reports]
      · exact h s.diagnostics.toList (by simp [expression, hempty]) d hd
  | error e s => exact h _ rfl d hd

end Outcome

theorem Program.read_eq (config : Config) (remembers : Bool) (source : String) :
    Program.read config remembers source =
      ((sourceFile (nested config.maxDepth)).onText config remembers source).report := by
  unfold Program.read
  cases (sourceFile (nested config.maxDepth)).onText config remembers source <;> rfl

/-- A program is what the rounds over its items leave behind. -/
theorem Program.read_of_runLoop {config : Config} {remembers : Bool} {source : String}
    {items : Array (Item TermId)} {s : Session}
    (h : runLoop (itemRound (nested config.maxDepth)) (setting config remembers) #[]
      (initial (Lexing.ofText source)) = .ok items s) :
    Program.read config remembers source = ⟨⟨s.tree, items.toList⟩, s.diagnostics.toList⟩ := by
  have hrun : (sourceFile (nested config.maxDepth)).onText config remembers source =
      (runLoop (itemRound (nested config.maxDepth)) (setting config remembers) #[]
        (initial (Lexing.ofText source))).andThen fun items now => .ok items.toList now := rfl
  rw [Program.read_eq, hrun, h]
  rfl

theorem Expression.read_eq (config : Config) (remembers : Bool) (source : String) :
    Expression.read config remembers source =
      ((wholeStatement (nested config.maxDepth)).onText config remembers source).expression := by
  unfold Expression.read
  cases (wholeStatement (nested config.maxDepth)).onText config remembers source <;> rfl

theorem run_wholeStatement {deep : Deeper} {setting : Setting} {s u : Session} {id : TermId} :
    (wholeStatement deep).run setting s = .ok id u ↔
      deep.statement.run setting s = .ok id u ∧ u.cursor.kind = .eof := by
  rw [wholeStatement, run_bind]
  cases deep.statement.run setting s with
  | error e t => simp
  | ok root t =>
      simp only [sees, Reading.kind, Reading.cursor, asks, run_bind, run_pure, Outcome.andThen_ok]
      by_cases hkind : t.cursor.kind = .eof
      · simp only [hkind, decide_true, if_true, run_pure, Outcome.ok.injEq]
        constructor
        · rintro ⟨rfl, rfl⟩
          exact ⟨⟨rfl, rfl⟩, hkind⟩
        · exact fun h => h.1
      · simp only [hkind, decide_false, Bool.false_eq_true, if_false, Outcome.ok.injEq]
        refine iff_of_false (fun h => by cases h) ?_
        rintro ⟨⟨-, rfl⟩, hkind'⟩
        exact hkind hkind'

/-- A statement up to the end of the text, about which nothing is reported, is the expression that the
text stands for. -/
theorem Expression.ofText_of_statement {source : String} {config : Config} {id : TermId} {t : Session}
    (h : (nested config.maxDepth).statement.run (Reading.setting config true)
      (initial (Lexing.ofText source)) = .ok id t)
    (hend : t.cursor.kind = .eof) (hclean : t.diagnostics = #[]) :
    Expression.ofText source config = .ok ⟨t.tree, id⟩ := by
  rw [ofText, read_eq, onText, run_wholeStatement.mpr ⟨h, hend⟩, Outcome.expression, hclean]
  rfl

namespace Comparison

variable {C : Comparison} [C.Lawful] {deep deep' : Deeper}

theorem agrees_wholeStatement (h : C.Levels deep deep')
    (hend : ∀ c d, C.cursors c d → (c.kind = .eof ↔ d.kind = .eof)) :
    C.Agrees (wholeStatement deep) (wholeStatement deep') C.terms := by
  refine agrees_bind h.statement fun a b hab c d hcd => ?_
  have hsees : C.Agree c d (sees .eof) (sees .eof) Eq := by
    intro slot slot' s t hslot hst hs ht
    subst hs ht
    exact .ok (by simp [hend _ _ hcd]) hst
  refine agree_bind hsees fun x y hxy => ?_
  subst hxy
  cases x with
  | true => exact agrees_pure hab
  | false => exact fun c d hcd => agree_unexpected hcd _

end Comparison

end BendSyntax
