import BendSyntax.Proofs.Dumps
import BendSyntax.Proofs.Lexing.Flawless
import BendSyntax.Proofs.Respaced

/-! What a text is read as depends on its tokens only: on their kinds, on their texts and on
whether they touch, but not on how far apart they stand. Comments and blanks that keep the tokens
apart can be replaced by others. -/

namespace BendSyntax

open Reading Grammar

/-! ## The same results in other places -/

/-- Trees that have the same nodes for the same usages, with other spans. -/
structure Tree.Alike (t u : Tree) : Prop where
  terms : List.Forall₂ (fun m n : TermNode =>
    m.term.Alike (fun _ _ => True) Eq Eq n.term ∧ m.usage = n.usage) t.terms.toList u.terms.toList
  patterns : List.Forall₂ (fun p q : PatternNode => p.pattern = q.pattern)
    t.patterns.toList u.patterns.toList

/-- Programs with the same items and the same nodes, with other spans. -/
structure Program.Alike (p q : Program) : Prop where
  tree : p.tree.Alike q.tree
  items : List.Forall₂ (Item.Alike (fun _ _ => True) Eq) p.items q.items

/-- Expressions with the same nodes, with other spans. -/
structure Expression.Alike (e f : Expression) : Prop where
  tree : e.tree.Alike f.tree
  root : e.root = f.root

namespace Tree.Alike

variable {t u : Tree}

theorem patternDumps (h : t.Alike u) : t.patternDumps = u.patternDumps := by
  rw [patternDumps_eq, patternDumps_eq]
  exact foldl_pushing_alike (fun p q done hpq => by rw [hpq]) h.patterns #[]

theorem termDumps (h : t.Alike u) : t.termDumps = u.termDumps := by
  rw [termDumps_eq, termDumps_eq, h.patternDumps]
  refine foldl_pushing_alike (fun m n done hmn => ?_) h.terms #[]
  exact hmn.1.dump (fun _ _ hab => by rw [hab]) fun _ _ hpq => by rw [hpq]

end Tree.Alike

theorem Program.Alike.itemDumps {p q : Program} (h : p.Alike q) : p.itemDumps = q.itemDumps := by
  simp only [Program.itemDumps, h.tree.termDumps]
  exact map_eq_of_forall₂ h.items fun i j hij => hij.dump fun _ _ hab => by rw [hab]

theorem Expression.Alike.dump {e f : Expression} (h : e.Alike f) : e.dump = f.dump := by
  simp only [Expression.dump, Tree.dump, h.tree.termDumps, h.root]

/-- Diagnostics about the tokens of two texts, and behind them the same ones in other places. -/
def Lexing.SameReports (l l' : Lexing) (ds ds' : List Diagnostic) : Prop :=
  ∃ es es', ds = l.diagnostics ++ es ∧ ds' = l'.diagnostics ++ es' ∧
    es.map Diagnostic.unplaced = es'.map Diagnostic.unplaced

theorem Lexing.SameReports.isEmpty {l l' : Lexing} {ds ds' : List Diagnostic}
    (h : l.SameReports l' ds ds') (hlexical : l.diagnostics = [] ↔ l'.diagnostics = []) :
    ds.isEmpty = ds'.isEmpty := by
  obtain ⟨es, es', rfl, rfl, hes⟩ := h
  have hempty : es = [] ↔ es' = [] := by
    rw [← List.map_eq_nil_iff (f := Diagnostic.unplaced), hes, List.map_eq_nil_iff]
  rw [Bool.eq_iff_iff, List.isEmpty_iff, List.isEmpty_iff, List.append_eq_nil_iff,
    List.append_eq_nil_iff, hlexical, hempty]

/-! ## Ends of runs -/

namespace Comparison

section Respaced

variable {l l' : Lexing} {config : Config} {s t : Session}

theorem respaced_tree (h : (respaced l l' config).Sessions s t) : s.tree.Alike t.tree := by
  obtain ⟨nodes, nodes', hterms, hterms', hnodes⟩ := h.terms
  obtain ⟨patterns, patterns', hpatterns, hpatterns', halike⟩ := h.patterns
  constructor
  · rw [hterms, hterms']
    refine hnodes.imp fun m n hmn => ⟨?_, hmn.usage⟩
    have hterm := hmn.term
    rwa [Correspondence.terms_eq rfl rfl, Correspondence.patterns_eq rfl rfl] at hterm
  · rw [hpatterns, hpatterns']
    refine halike.imp fun p q hpq => ?_
    have hpattern := hpq.pattern
    rw [Correspondence.patterns_eq rfl rfl] at hpattern
    exact hpattern.eq

theorem respaced_reports (h : (respaced l l' config).Sessions s t) :
    l.SameReports l' s.diagnostics.toList t.diagnostics.toList := by
  obtain ⟨es, es', hes, hes', hreports⟩ := h.diagnostics
  refine ⟨es, es', hes, hes', ?_⟩
  refine map_eq_of_forall₂ hreports fun d d' ⟨e, f, hef, hd, hd'⟩ => ?_
  have hef : e.unplaced = f.unplaced := hef
  rw [hd, hd', e.unplaced_toDiagnostic, f.unplaced_toDiagnostic, hef]

end Respaced

end Comparison

/-! ## Readers -/

section Readers

variable {source source' : String} (config : Config)

theorem Comparison.respaced_initial (source source' : String) :
    (respaced (.ofText source) (.ofText source') config).Sessions
      (initial (Lexing.ofText source)) (initial (Lexing.ofText source')) where
  cursor := ⟨.start (Lexing.eof_kind_onward _ _ _), .start (Lexing.eof_kind_onward _ _ _), rfl, rfl⟩
  terms := .start _ _ _
  patterns := .start _ _ _
  diagnostics := .start _ _ _
  failures := rfl

/-- Readings of two texts end alike if they agree. -/
theorem Comparison.respaced_onText {α : Type} {r q : Reading α} {Q : α → α → Prop}
    {void : Session → Session → Prop}
    (h : ((respaced (.ofText source) (.ofText source') config).beyond void).Agrees r q Q) :
    ((respaced (.ofText source) (.ofText source') config).beyond void).Outcomes Q
      (r.onText config true source) (q.onText config true source') :=
  have hstart := respaced_initial config source source'
  h _ _ hstart.cursor (.free .term) (.free .term) _ _ ⟨rfl, rfl⟩ hstart rfl rfl

variable (htokens : (Lexing.ofText source).tokens.body.map Token.unplaced =
  (Lexing.ofText source').tokens.body.map Token.unplaced)

include htokens

theorem Comparison.respaced_lawful_ofText :
    (respaced (.ofText source) (.ofText source') config).Lawful :=
  respaced_lawful (Lexing.measured_ofText source) (Lexing.measured_ofText source')
    (Token.forall₂_alike htokens)

theorem Comparison.respaced_reporting_ofText :
    (respaced (.ofText source) (.ofText source') config).Reporting fun _ _ => False :=
  respaced_reporting (Token.forall₂_alike htokens)

/-- Programs with the same tokens are alike, and the same is reported about them. -/
theorem Program.alike_ofText :
    (ofText source config).program.Alike (ofText source' config).program ∧
      (Lexing.ofText source).SameReports (.ofText source') (ofText source config).diagnostics
        (ofText source' config).diagnostics := by
  have := Comparison.respaced_lawful_ofText config htokens
  have hlevels : (Comparison.respaced (.ofText source) (.ofText source') config).Levels
      (nested config.maxDepth) (nested config.maxDepth) := Comparison.respaced_levels _
  have hreporting := Comparison.respaced_reporting_ofText config htokens
  have hagree := Comparison.agrees_sourceFile hlevels hreporting
    fun c d hcd hc => (hcd.kind (Token.forall₂_alike htokens)).trans hc
  rw [Correspondence.terms_eq rfl rfl] at hagree
  have hends := Comparison.respaced_onText config hagree
  rw [ofText, ofText, read_eq, read_eq]
  generalize (sourceFile (nested config.maxDepth)).onText config true source = o at hends ⊢
  generalize (sourceFile (nested config.maxDepth)).onText config true source' = p at hends ⊢
  cases hends with
  | ok hitems hst => exact ⟨⟨Comparison.respaced_tree hst, hitems⟩, Comparison.respaced_reports hst⟩
  | error he hst =>
      exact ⟨⟨Comparison.respaced_tree hst, .nil⟩,
        Comparison.respaced_reports (Comparison.Sessions.report hst he)⟩
  | leftTooDeep hx _ => exact hx.elim
  | rightTooDeep hx _ => exact hx.elim
  | void hv => exact hv.elim

/-- If both texts or neither of them leave a comment open, something is wrong with the tokens of both
or of neither. -/
theorem Lexing.clean_iff
    (hcomments : (ofText source).LeavesComment ↔ (ofText source').LeavesComment) :
    (ofText source).diagnostics = [] ↔ (ofText source').diagnostics = [] := by
  have hkinds : (ofText source).tokens.body.map Token.kind =
      (ofText source').tokens.body.map Token.kind := by
    have hmap := congrArg (List.map Token.kind) htokens
    rwa [List.map_map, List.map_map] at hmap
  have hinvalid (ts : List Token) :
      (∀ t ∈ ts, t.kind ≠ .invalid) ↔ TokenKind.invalid ∉ ts.map Token.kind := by
    simp
  have hbodies : (∀ t ∈ (ofText source).tokens.body, t.kind ≠ .invalid) ↔
      ∀ t ∈ (ofText source').tokens.body, t.kind ≠ .invalid := by
    rw [hinvalid, hinvalid, hkinds]
  rw [ofText, ofText, diagnostics_eq_nil_iff, diagnostics_eq_nil_iff]
  exact and_congr (not_congr hcomments) hbodies

/-- Expressions with the same tokens are alike, or the same is wrong with both, if both texts or
neither of them leave a comment open. -/
theorem Expression.alike_ofText (hcomments : (Lexing.ofText source).LeavesComment ↔
      (Lexing.ofText source').LeavesComment) :
    (∀ e, ofText source config = .ok e → ∃ e', ofText source' config = .ok e' ∧ e.Alike e') ∧
      ∀ ds, ofText source config = .error ds → ∃ ds', ofText source' config = .error ds' ∧
        (Lexing.ofText source).SameReports (.ofText source') ds ds' := by
  have := Comparison.respaced_lawful_ofText config htokens
  have hlevels : (Comparison.respaced (.ofText source) (.ofText source') config).Levels
      (nested config.maxDepth) (nested config.maxDepth) := Comparison.respaced_levels _
  have hreporting := Comparison.respaced_reporting_ofText config htokens
  have hagree := fun c d hcd => (Comparison.agrees_wholeStatement hlevels (fun _ _ h => by
    rw [h.kind (Token.forall₂_alike htokens)]) c d hcd).beyond hreporting
  rw [Correspondence.terms_eq rfl rfl] at hagree
  have hends := Comparison.respaced_onText config hagree
  have hclean := Lexing.clean_iff htokens hcomments
  rw [ofText, ofText, read_eq, read_eq]
  generalize (wholeStatement (nested config.maxDepth)).onText config true source = o at hends ⊢
  generalize (wholeStatement (nested config.maxDepth)).onText config true source' = p at hends ⊢
  cases hends with
  | @ok a b s t hab hst =>
      have hreports := Comparison.respaced_reports hst
      have hempty := hreports.isEmpty hclean
      rw [Array.isEmpty_toList, Array.isEmpty_toList] at hempty
      simp only [Outcome.expression, ← hempty]
      split
      · refine ⟨fun e he => ?_, fun ds hds => ?_⟩
        · cases he
          exact ⟨_, rfl, Comparison.respaced_tree hst, hab⟩
        · cases hds
      · refine ⟨fun e he => ?_, fun ds hds => ?_⟩
        · cases he
        · cases hds
          exact ⟨_, rfl, hreports⟩
  | error he hst =>
      refine ⟨fun e he => ?_, fun ds hds => ?_⟩
      · cases he
      · cases hds
        exact ⟨_, rfl, Comparison.respaced_reports (Comparison.Sessions.report hst he)⟩
  | leftTooDeep hx _ => exact hx.elim
  | rightTooDeep hx _ => exact hx.elim
  | void hv => exact hv.elim

end Readers

/-- What is read depends on the kinds and the texts of the tokens and on which of them touch. A
program with the same tokens in other places has the same items with the same dumps, the same nodes
and the same diagnostics of the grammar, but for spans. An expression with the same tokens is read
as the same nodes, or the same is wrong with it, unless just one of the texts leaves a comment open
at its end. -/
theorem reading_respaced (source source' : String) (config : Config)
    (htokens : (Lexing.ofText source).tokens.body.map Token.unplaced =
      (Lexing.ofText source').tokens.body.map Token.unplaced) :
    ((Program.ofText source config).program.Alike (Program.ofText source' config).program ∧
      (Program.ofText source config).program.itemDumps =
        (Program.ofText source' config).program.itemDumps ∧
      (Lexing.ofText source).SameReports (.ofText source')
        (Program.ofText source config).diagnostics (Program.ofText source' config).diagnostics) ∧
    (((Lexing.ofText source).LeavesComment ↔ (Lexing.ofText source').LeavesComment) →
      (∀ e, Expression.ofText source config = .ok e →
        ∃ e', Expression.ofText source' config = .ok e' ∧ e.Alike e' ∧ e.dump = e'.dump) ∧
      ∀ ds, Expression.ofText source config = .error ds →
        ∃ ds', Expression.ofText source' config = .error ds' ∧
          (Lexing.ofText source).SameReports (.ofText source') ds ds') := by
  obtain ⟨halike, hreports⟩ := Program.alike_ofText config htokens
  refine ⟨⟨halike, halike.itemDumps, hreports⟩, fun hcomments => ?_⟩
  obtain ⟨hok, herror⟩ := Expression.alike_ofText config htokens hcomments
  refine ⟨fun e he => ?_, herror⟩
  obtain ⟨e', he', halike⟩ := hok e he
  exact ⟨e', he', halike, halike.dump⟩

set_option maxRecDepth 100000 in
/-- A name in parentheses is compared with what follows, a name alone takes type arguments, however
far apart the tokens stand. -/
theorem reading_respaced_parentheses :
    let source := "(x)<y + x<y>(z)"
    let source' := "(x)<y\t# y\n+ \x7b- x -\x7d x<y>(z)\n"
    (Program.ofText source .standard).program.itemDumps =
        (Program.ofText source' .standard).program.itemDumps ∧
      ∃ e e', Expression.ofText source .standard = .ok e ∧
        Expression.ofText source' .standard = .ok e' ∧ e.dump = e'.dump := by
  intro source source'
  have htokens : (Lexing.ofText source).tokens.body.map Token.unplaced =
      (Lexing.ofText source').tokens.body.map Token.unplaced := by decide +kernel
  have hcomments : (Lexing.ofText source).LeavesComment ↔ (Lexing.ofText source').LeavesComment := by
    decide +kernel
  have hok : (Expression.ofText source .standard).isOk = true := by decide +kernel
  obtain ⟨⟨-, hdumps, -⟩, hexpression⟩ := reading_respaced source source' .standard htokens
  refine ⟨hdumps, ?_⟩
  cases he : Expression.ofText source .standard with
  | ok e =>
      obtain ⟨e', he', -, hdump⟩ := (hexpression hcomments).1 e he
      exact ⟨e, e', rfl, he', hdump⟩
  | error ds =>
      rw [he] at hok
      cases hok

set_option maxRecDepth 100000 in
/-- A comment that is left open is none of the tokens, but no expression has one behind it. -/
theorem reading_respaced_comment :
    (Lexing.ofText "x ").tokens.toList.map Token.unplaced =
        (Lexing.ofText "x \x7b-").tokens.toList.map Token.unplaced ∧
      (Expression.ofText "x " .standard).isOk = true ∧
      (Expression.ofText "x \x7b-" .standard).isOk = false := by
  decide +kernel

end BendSyntax
