import BendSyntax.Proofs.Integrity
import BendSyntax.Proofs.Layout.Texts
import BendSyntax.Proofs.Lexing.Joined

/-! Recovery accounts for every error once: with recovery, each error of the grammar is reported
behind those about single tokens, further on in the text than the one before, and is marked in the
program either by an error item or by an error node that is the body of a definition. -/

namespace BendSyntax

open Reading Grammar Owner

/-- What was reported that is not about single tokens. -/
def Report.grammarErrors (r : Report) : List Diagnostic := r.diagnostics.filter (·.kind ≠ .lexical)

/-- A report in which every error of the grammar has one mark in the program. -/
structure Report.Accounts (r : Report) (lexical : List Diagnostic) : Prop where
  diagnostics : r.diagnostics = lexical ++ r.grammarErrors
  marks : r.grammarErrors.length =
    r.program.tree.errorCount + r.program.items.countP (·.isError)
  /-- An error node is the body of a definition, or the value of one that is an equation. -/
  bodies : ∀ id, r.program.tree.term? id = some .error →
    ∃ d, .definition d ∈ r.program.items ∧ d.form.body = id
  /-- No error node is a child of another node. -/
  roots : ∀ id, r.program.tree.term? id = some .error → ∀ parent ∈ r.program.tree.nodes,
    .term id ∉ r.program.tree.childrenOf parent
  ordered : r.grammarErrors.Pairwise (·.span.start < ·.span.start)

theorem SyntaxError.kind_toDiagnostic (e : SyntaxError) : e.toDiagnostic.kind ≠ .lexical := by
  cases e <;> nofun

/-- Behind the reports about tokens there are only errors of the grammar. -/
theorem Report.grammarErrors_eq {r : Report} {lexical : List Diagnostic} {es : List SyntaxError}
    (hlexical : ∀ d ∈ lexical, d.kind = .lexical)
    (h : r.diagnostics = lexical ++ es.map (·.toDiagnostic)) :
    r.grammarErrors = es.map (·.toDiagnostic) := by
  have hnone : lexical.filter (·.kind ≠ .lexical) = [] :=
    List.filter_eq_nil_iff.mpr fun d hd => by simp [hlexical d hd]
  have hall : (es.map (·.toDiagnostic)).filter (·.kind ≠ .lexical) = es.map (·.toDiagnostic) := by
    refine List.filter_eq_self.mpr fun d hd => ?_
    obtain ⟨e, -, rfl⟩ := List.mem_map.mp hd
    simpa using e.kind_toDiagnostic
  rw [grammarErrors, h, List.filter_append, hnone, hall, List.nil_append]

theorem Item.exists_definition_of_mem_body? {item : Item TermId} {id : TermId}
    (h : id ∈ item.body?) : ∃ d, item = .definition d ∧ d.form.body = id := by
  cases item with
  | definition d => exact ⟨d, rfl, Option.some.inj h⟩
  | _ => cases h

theorem Item.body_mem_roots (d : Def TermId) : d.form.body ∈ (Item.definition d).roots := by
  cases hform : d.form <;> simp [Item.roots, Def.roots, DefForm.roots, DefForm.body, hform]

/-- With recovery, every error of the grammar is reported and marked exactly once. -/
theorem errors_accounted (source : String) {config : Config} (hrecover : config.recover = true) :
    (Program.ofText source config).Accounts (Lexing.ofText source).diagnostics := by
  obtain ⟨items, s, hread, -, haccounted⟩ := Program.accounted_read config true source
  have hforest := Program.read_forest hrecover true source
  rw [hread] at hforest
  rw [Program.ofText, hread]
  obtain haccounted | ⟨hno, -⟩ := haccounted
  swap
  · simp [hrecover] at hno
  obtain ⟨es, hes, hlength, hsorted, -⟩ := haccounted.reports
  have hbodies : ∀ id, s.tree.term? id = some .error →
      ∃ d, Item.definition d ∈ items ∧ d.form.body = id := by
    intro id hid
    obtain ⟨item, hitem, hbody⟩ := haccounted.bodies id hid
    obtain ⟨d, rfl, hd⟩ := Item.exists_definition_of_mem_body? hbody
    exact ⟨d, hitem, hd⟩
  have herrors := Report.grammarErrors_eq (r := ⟨⟨s.tree, items⟩, s.diagnostics.toList⟩)
    (fun d hd => Lexing.kind_of_mem_onward hd) hes
  refine ⟨?_, ?_, hbodies, fun id hid parent hparent => ?_, ?_⟩
  · rw [herrors]
    exact hes
  · rw [herrors, List.length_map]
    exact hlength
  · obtain ⟨d, hd, rfl⟩ := hbodies id hid
    have hroot : Child.term d.form.body ∈ ((items.flatMap (·.roots)).map .term : List Ref) :=
      List.mem_map_of_mem (List.mem_flatMap.mpr ⟨_, hd, Item.body_mem_roots d⟩)
    exact Tree.Forest.notMem_childrenOf hforest (Multiset.mem_coe.mpr hroot) hparent
  · rw [herrors, List.pairwise_map]
    exact hsorted

set_option maxRecDepth 100000 in
theorem errors_accounted_broken :
    Config.standard.recover = true ∧
      (Program.ofText "def f : (g<a, b def : x ) def h : A = type 0x" .standard).grammarErrors.length
        = 4 ∧
      (Program.ofText "def f : (g<a, b def : x ) def h : A = type 0x" .standard).Accounts
        (Lexing.ofText "def f : (g<a, b def : x ) def h : A = type 0x").diagnostics :=
  ⟨rfl, by decide +kernel, errors_accounted _ rfl⟩

end BendSyntax
