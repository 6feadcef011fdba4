import BendSyntax.Proofs.Adjacency.Expressions
import BendSyntax.Proofs.Safety

/-! Items keep the tree joined, also those that stand for what could not be read. So the tree of a
program or of an expression says truly which brackets touch what stands in front of them. -/

namespace BendSyntax

open Reading Grammar

variable {source : String} {place : Nat} {old : Tree} {deep : Deeper} {c : Cursor} {start : Span}

/-! ## Recovery -/

theorem joins_skipToItem : (skipToItem start).Joins source place old :=
  .maintains_loop (fun _ => Triple.kind.bind fun _ => .ite (fun _ => .pure fun _ _ => trivial) fun _ =>
    Triple.advance.bind fun _ => .pure fun _ _ => trivial) _

/-- What stands for text that could not be read stands behind nothing. -/
theorem joins_errorNode : (errorNode start).Joins source place old :=
  joins_skipToItem.bind fun _ => Triple.forget (.addTerm_free rfl)

theorem joins_skipItem : (skipItem c).Joins source place old := by
  have hfirst : (skipFirst c).Joins source place old :=
    Triple.ask.bind fun _ => .ite (fun _ => Triple.advance.bind fun _ => .pure fun _ _ => trivial)
      fun _ => .pure fun _ _ => trivial
  exact .whole (hfirst.bind fun _ => joins_skipToItem.bind fun _ => .pure fun _ _ => trivial)

theorem joins_semicolons : semicolons.Joins source place old :=
  .maintains_loop (fun _ => (Triple.accept _).bind fun _ => .ite
    (fun _ => .pure fun _ _ => trivial) fun _ => .pure fun _ _ => trivial) ()

section Items

variable (h : deep.Adjacent source)

include h

theorem joins_statementOrError {describe : SyntaxError → SyntaxError}
    (hdescribe : ∀ e, (describe e).span = e.span) :
    (statementOrError deep describe start).Joins source place old :=
  .recovering hdescribe h.statement joins_errorNode

theorem joins_body : (body deep).Joins source place old :=
  Triple.here.bind fun _ => joins_statementOrError h fun _ => rfl

/-! ## Definitions -/

theorem joins_typeParams : (typeParams deep).Joins source place old := by
  have hparam : (typeParam deep).Joins source place old :=
    Triple.identifier.bind fun x => (Triple.accept _).bind fun _ =>
      .ite (fun _ => (h.joins _).withUsage.bind fun _ => .pure fun _ _ => trivial) fun _ =>
        .pure fun _ _ => trivial
  refine (Triple.accept _).bind fun _ => .ite (fun _ => ?_) fun _ => .pure fun _ _ => trivial
  exact (Triple.commaList (p := fun _ => True) hparam).forget.delimited.bind fun _ =>
    Triple.closeAngle.bind fun _ => .pure fun _ _ => trivial

theorem joins_params : (params deep).Joins source place old :=
  (Triple.separated (p := fun _ => True) _ (joins_binder h.type)).forget.delimited.bind fun _ =>
    (Triple.expect _).bind fun _ => .pure fun _ _ => trivial

theorem joins_result? : (result? deep).Joins source place old :=
  (Triple.accept _).bind fun _ => .ite (fun _ => .map h.type) fun _ => .pure fun _ _ => trivial

theorem joins_definitionTail : (definitionTail deep).Joins source place old := by
  have hequation : (equationType deep).Joins source place old :=
    h.type.bind fun _ => (Triple.sees _).bind fun _ =>
      .ite (fun _ => .pure fun _ _ => trivial) fun _ => .unexpected _
  have htype : (speculate (some <$> equationType deep)).Joins source place old :=
    .speculate (.map hequation) trivial
  refine Triple.here.bind fun start => htype.bind fun found => ?_
  split
  · exact (Triple.expect _).bind fun _ => (joins_body h).bind fun _ => .pure fun _ _ => trivial
  · exact (joins_statementOrError h span_noDefinition).bind fun _ => .pure fun _ _ => trivial

theorem joins_definitionForm : (definitionForm deep).Joins source place old := by
  refine (Triple.accept _).bind fun _ => .ite (fun _ => ?_) fun _ => ?_
  · exact (joins_params h).bind fun _ => (joins_result? h).bind fun _ => (Triple.expect _).bind fun _ =>
      (joins_body h).bind fun _ => .pure fun _ _ => trivial
  · exact (Triple.expect _).bind fun _ => joins_definitionTail h

theorem joins_definition : (definition deep).Joins source place old :=
  Triple.advance.bind fun _ => Triple.identifier.bind fun _ => (joins_typeParams h).bind fun _ =>
    (joins_definitionForm h).bind fun _ => (Triple.since _).bind fun _ => .pure fun _ _ => trivial

/-! ## Type definitions -/

theorem joins_ctorCase : (ctorCase deep).Joins source place old := by
  refine (Triple.expect _).bind fun _ => (Triple.expect _).bind fun _ => Triple.identifier.bind fun _ =>
    (Triple.expect _).bind fun _ => ?_
  have hfield : atField.Joins source place old := Triple.ask.bind fun _ => .pure fun _ _ => trivial
  refine (Triple.collectWhile (p := fun _ => True) hfield (joins_binder (h.joins _))).within.bind
    fun _ => ?_
  exact (Triple.since _).bind fun _ => .pure fun _ _ => trivial

theorem joins_typeDefinition : (typeDefinition deep).Joins source place old := by
  have hparams : (optionalParams deep).Joins source place old :=
    (Triple.accept _).bind fun _ => .ite (fun _ => joins_params h) fun _ => .pure fun _ _ => trivial
  refine Triple.advance.bind fun _ => Triple.identifier.bind fun _ => (joins_typeParams h).bind fun _ =>
    hparams.bind fun _ => (Triple.expect _).bind fun _ => ?_
  refine (Triple.collectWhile (p := fun _ => True) (.sees _) (joins_ctorCase h)).bind fun _ => ?_
  exact (Triple.require _ _).bind fun _ => (Triple.since _).bind fun _ => .pure fun _ _ => trivial

/-! ## Other items -/

theorem joins_assertion : (assertion deep).Joins source place old :=
  Triple.advance.bind fun _ => h.term.bind fun _ => (Triple.expect _).bind fun _ => h.type.bind fun _ =>
    (Triple.since _).bind fun _ => .pure fun _ _ => trivial

theorem joins_proof : (proof deep).Joins source place old :=
  Triple.advance.bind fun _ => Triple.identifier.bind fun _ => (Triple.expect _).bind fun _ =>
    h.type.within.bind fun _ => (Triple.expect _).bind fun _ => h.statement.delimited.bind fun _ =>
      (Triple.expect _).bind fun _ => (Triple.since _).bind fun _ => .pure fun _ _ => trivial

theorem joins_item : (item deep).Joins source place old := by
  refine Triple.kind.bind fun k => ?_
  split
  · exact joins_definition h
  · exact joins_typeDefinition h
  · exact joins_assertion h
  · exact joins_proof h
  · exact h.statement.bind fun _ => .pure fun _ _ => trivial

/-! ## Texts -/

theorem joins_sourceFile : (sourceFile deep).Joins source place old := by
  refine (Triple.maintains_loop (fun items => ?_) _).bind fun _ => .pure fun _ _ => trivial
  refine Triple.cursor.bind fun c => .anywhere (.ite (fun _ => .pure fun _ _ => trivial) fun _ => ?_)
  refine (Triple.reported (p := fun _ => True)
    (.recovering (fun _ => rfl) (joins_item h) joins_skipItem)).forget.bind fun found => ?_
  cases found with
  | none => exact .pure fun _ _ => trivial
  | some item => exact joins_semicolons.bind fun _ => .pure fun _ _ => trivial

theorem joins_wholeStatement : (wholeStatement deep).Joins source place old :=
  h.statement.bind fun _ => (Triple.sees _).bind fun _ => .ite (fun _ => .pure fun _ _ => trivial)
    fun _ => .unexpected _

end Items

theorem Session.adjacent_initial (source : String) :
    (initial (Lexing.ofText source)).Adjacent source 0 .empty where
  cursor := .start source
  reached := Nat.zero_le _
  grown := .refl _
  tree := .empty

theorem Program.adjacent_read (config : Config) (remembers : Bool) (source : String) :
    (Program.read config remembers source).program.tree.Adjacent source := by
  have hjoins := (joins_sourceFile (adjacent_nested config.maxDepth)
    (setting config remembers) _ (Session.adjacent_initial source) trivial).1
  rw [Program.read_eq]
  cases hrun : (sourceFile (nested config.maxDepth)).onText config remembers source with
  | ok items s =>
      rw [onText] at hrun
      rw [hrun] at hjoins
      exact hjoins.tree.adjacent
  | error e s =>
      rw [onText] at hrun
      rw [hrun] at hjoins
      exact hjoins.tree.adjacent

theorem Expression.adjacent_read {config : Config} {remembers : Bool} {source : String} {e : Expression}
    (he : Expression.read config remembers source = .ok e) : e.tree.Adjacent source := by
  rw [Expression.read_eq] at he
  obtain ⟨s, hrun, htree, -⟩ := Outcome.ok_of_expression he
  have hjoins := (joins_wholeStatement (adjacent_nested config.maxDepth)
    (setting config remembers) _ (Session.adjacent_initial source) trivial).1
  rw [onText] at hrun
  rw [hrun] at hjoins
  exact htree ▸ hjoins.tree.adjacent

/-- In the tree of every text a bracket behind a term is the next token there. A call, implicit
arguments, type arguments and a list type say truly whether their bracket touches the term. -/
theorem adjacency_recorded (source : String) (config : Config) :
    (Program.ofText source config).program.tree.Adjacent source ∧
      ∀ e, Expression.ofText source config = .ok e → e.tree.Adjacent source :=
  ⟨Program.adjacent_read config true source, fun _ he => Expression.adjacent_read he⟩

set_option maxRecDepth 100000 in
theorem adjacency_recorded_touching :
    (Program.ofText "f (x)" .standard).program.tree.Adjacent "f (x)" ∧
      ∃ e, Expression.ofText "f<g<a>>(x)" .standard = .ok e ∧ e.tree.Adjacent "f<g<a>>(x)" := by
  have hok : (Expression.ofText "f<g<a>>(x)" .standard).isOk = true := by decide +kernel
  refine ⟨(adjacency_recorded _ _).1, ?_⟩
  cases h : Expression.ofText "f<g<a>>(x)" .standard with
  | ok e => exact ⟨e, rfl, (adjacency_recorded _ _).2 e h⟩
  | error ds =>
      rw [h] at hok
      cases hok

end BendSyntax
