import BendSyntax.Proofs.Results
import BendSyntax.Proofs.Shapes.Expressions

/-! Items keep trees in shape and are in shape themselves, also those that stand for what could not
be read. So is everything that is read from a text. -/

namespace BendSyntax

open Reading Grammar

variable {deep : Deeper} {start : Span} {P : Session → Prop}

/-! ## Recovery -/

theorem shapes_skipToItem : Triple Session.Shaped P (skipToItem start) fun _ _ => True :=
  .maintains_loop (fun _ => Triple.kind.bind fun _ => .ite (fun _ => .pure fun _ _ => trivial)
    fun _ => Triple.advance.bind fun _ => .pure fun _ _ => trivial) _

theorem shapes_errorNode : (errorNode start).Shapes :=
  shapes_skipToItem.bind fun _ => .addTerm fun _ _ => trivial

theorem shaped_skipItem (first : Cursor) :
    Triple Session.Shaped P (skipItem first) fun item _ => item.Shaped := by
  have hfirst : (skipFirst first).Shapes :=
    Triple.ask.bind fun _ => .ite (fun _ => Triple.advance.bind fun _ => .pure fun _ _ => trivial)
      fun _ => .pure fun _ _ => trivial
  exact .whole (hfirst.bind fun _ => shapes_skipToItem.bind fun _ => .pure fun _ _ => trivial)

theorem shapes_semicolons : semicolons.Shapes :=
  .maintains_loop (fun _ => (Triple.accept _).bind fun _ => .ite
    (fun _ => .pure fun _ _ => trivial) fun _ => .pure fun _ _ => trivial) ()

section Items

variable (h : deep.Shapely)

include h

theorem shapes_statementOrError {describe : SyntaxError → SyntaxError}
    (hdescribe : ∀ e, (describe e).span = e.span) :
    (statementOrError deep describe start).Shapes :=
  .recovering hdescribe h.statement shapes_errorNode

theorem shapes_body : (body deep).Shapes :=
  Triple.here.bind fun _ => shapes_statementOrError h fun _ => rfl

/-! ## Items -/

theorem shapes_typeParam : (typeParam deep).Shapes := by
  refine Triple.identifier.bind fun _ => (Triple.accept _).bind fun _ =>
    .ite (fun _ => ?_) fun _ => .pure fun _ _ => trivial
  exact (h.expr _).withUsage.bind fun _ => .pure fun _ _ => trivial

theorem shapes_typeParams : (typeParams deep).Shapes := by
  refine (Triple.accept _).bind fun _ => .ite (fun _ => ?_) fun _ => .pure fun _ _ => trivial
  refine (Triple.commaList (shapes_typeParam h)).delimited.bind fun _ => ?_
  exact Triple.closeAngle.bind fun _ => .pure fun _ _ => trivial

theorem shapes_params : (params deep).Shapes :=
  (Triple.separated _ (shapes_binder h.type)).delimited.bind fun _ =>
    (Triple.expect _).bind fun _ => .pure fun _ _ => trivial

theorem shapes_result? : (result? deep).Shapes :=
  (Triple.accept _).bind fun _ => .ite (fun _ => .map h.type) fun _ => .pure fun _ _ => trivial

theorem shapes_equationType : (equationType deep).Shapes :=
  h.type.bind fun _ => (Triple.sees _).bind fun _ =>
    .ite (fun _ => .pure fun _ _ => trivial) fun _ => .unexpected _

theorem shapes_definitionTail : (definitionTail deep).Shapes := by
  have htype : (speculate (some <$> equationType deep)).Shapes :=
    .speculate (.map (shapes_equationType h)) trivial
  refine Triple.here.bind fun start => htype.bind fun found => ?_
  split
  · exact (Triple.expect _).bind fun _ => (shapes_body h).bind fun _ => .pure fun _ _ => trivial
  · exact (shapes_statementOrError h span_noDefinition).bind fun _ => .pure fun _ _ => trivial

theorem shapes_definitionForm : (definitionForm deep).Shapes := by
  refine (Triple.accept _).bind fun _ => .ite (fun _ => ?_) fun _ => ?_
  · exact (shapes_params h).bind fun _ => (shapes_result? h).bind fun _ =>
      (Triple.expect _).bind fun _ => (shapes_body h).bind fun _ => .pure fun _ _ => trivial
  · exact (Triple.expect _).bind fun _ => shapes_definitionTail h

theorem shaped_definition : Triple Session.Shaped P (definition deep) fun item _ => item.Shaped :=
  Triple.advance.bind fun _ => Triple.identifier.bind fun _ => (shapes_typeParams h).bind fun _ =>
    (shapes_definitionForm h).bind fun _ => (Triple.since _).bind fun _ => .pure fun _ _ => trivial

theorem shapes_ctorCase : (ctorCase deep).Shapes := by
  refine (Triple.expect _).bind fun start => (Triple.expect _).bind fun _ =>
    Triple.identifier.bind fun _ => (Triple.expect _).bind fun _ => ?_
  have hfield : atField.Shapes := Triple.ask.bind fun _ => .pure fun _ _ => trivial
  have hfields : (collectWhile atField (binder (deep.expr .product))).Shapes :=
    (Triple.collectWhile hfield (shapes_binder (h.expr _))).forget
  exact hfields.within.bind fun _ => (Triple.since _).bind fun _ => .pure fun _ _ => trivial

theorem shapes_optionalParams : (optionalParams deep).Shapes :=
  (Triple.accept _).bind fun _ => .ite (fun _ => shapes_params h) fun _ =>
    .pure fun _ _ => trivial

/-- A type definition without a case is an error. -/
theorem shaped_typeDefinition :
    Triple Session.Shaped P (typeDefinition deep) fun item _ => item.Shaped := by
  refine Triple.advance.bind fun start => Triple.identifier.bind fun _ =>
    (shapes_typeParams h).bind fun _ => (shapes_optionalParams h).bind fun _ => ?_
  refine (Triple.expect _).bind fun _ => ?_
  refine (Triple.collectWhile (.sees _) (shapes_ctorCase h)).forget.bind fun cases => ?_
  refine (Triple.require _ _).given fun _ hcases => (Triple.since _).bind fun _ => ?_
  exact .pure fun _ _ => by simpa [Item.Shaped] using hcases

theorem shaped_assertion : Triple Session.Shaped P (assertion deep) fun item _ => item.Shaped :=
  Triple.advance.bind fun _ => h.term.bind fun _ => (Triple.expect _).bind fun _ =>
    h.type.bind fun _ => (Triple.since _).bind fun _ => .pure fun _ _ => trivial

theorem shaped_proof : Triple Session.Shaped P (proof deep) fun item _ => item.Shaped := by
  refine Triple.advance.bind fun _ => Triple.identifier.bind fun _ =>
    (Triple.expect _).bind fun _ => ?_
  refine h.type.within.bind fun _ => (Triple.expect _).bind fun _ => ?_
  exact h.statement.delimited.bind fun _ => (Triple.expect _).bind fun _ =>
    (Triple.since _).bind fun _ => .pure fun _ _ => trivial

theorem shaped_item : Triple Session.Shaped P (item deep) fun item _ => item.Shaped := by
  refine Triple.kind.bind fun k => ?_
  split
  · exact shaped_definition h
  · exact shaped_typeDefinition h
  · exact shaped_assertion h
  · exact shaped_proof h
  · exact h.statement.anywhere.bind fun _ => .pure fun _ _ => trivial

/-! ## Texts -/

theorem shaped_itemRound (items : Array (Item TermId)) :
    Triple Session.Shaped (fun _ => ∀ item ∈ items, item.Shaped) (itemRound deep items)
      (Round.Meets (fun items _ => ∀ item ∈ items, item.Shaped)
        fun items _ => ∀ item ∈ items, item.Shaped) := by
  refine .extract (fun _ hitems => hitems) fun hitems => Triple.ask.bind fun c => ?_
  refine .ite (fun _ => .pure fun _ _ => hitems) fun _ => ?_
  have hitem : Triple Session.Shaped (fun _ => True)
      (reported (recovering id (skipItem c) (item deep)))
      fun found _ => ∀ item, found = some item → item.Shaped :=
    .reported (.recovering (fun _ => rfl) (shaped_item h) (shaped_skipItem c))
  refine hitem.given fun found hfound => ?_
  cases found with
  | none => exact .pure fun _ _ => hitems
  | some item =>
      refine shapes_semicolons.bind fun _ => .pure fun _ _ => ?_
      have hpush : ∀ i ∈ items.push item, i.Shaped := by
        intro i hi
        rcases Array.mem_push.mp hi with hi | rfl
        · exact hitems i hi
        · exact hfound i rfl
      exact ⟨hpush, hpush⟩

theorem shaped_sourceFile :
    Triple Session.Shaped P (sourceFile deep) fun items _ => ∀ item ∈ items, item.Shaped := by
  have hloop : Triple Session.Shaped P (loop (itemRound deep) #[])
      fun items _ => ∀ item ∈ items, item.Shaped :=
    (Triple.loop (shaped_itemRound h) #[]).mono fun _ _ => by simp
  exact hloop.bind fun items => .pure fun _ hitems => by simpa using hitems

theorem shapes_wholeStatement : (wholeStatement deep).Shapes :=
  h.statement.bind fun _ => (Triple.sees _).bind fun _ => .ite (fun _ => .pure fun _ _ => trivial)
    fun _ => .unexpected _

end Items

theorem Session.shaped_initial (source : String) : (initial (Lexing.ofText source)).Shaped where
  tree := .empty
  segmented _ ht := Lexing.segmented_of_mem ht

structure Program.Shaped (p : Program) : Prop where
  tree : p.tree.Shaped
  items : ∀ item ∈ p.items, item.Shaped

theorem Reading.shaped_onText {α : Type} {Q : α → Session → Prop} {r : Reading α}
    (h : Triple Session.Shaped (fun _ => True) r Q) (config : Config) (remembers : Bool)
    (source : String) : (r.onText config remembers source).settled.Shaped ∧
      ∀ a t, r.onText config remembers source = .ok a t → Q a t :=
  h _ _ (Session.shaped_initial source) trivial

theorem Program.shaped_read (config : Config) (remembers : Bool) (source : String) :
    (Program.read config remembers source).program.Shaped := by
  obtain ⟨hs, hitems⟩ := Reading.shaped_onText (shaped_sourceFile (shapely_nested config.maxDepth))
    config remembers source
  rw [Program.read_eq]
  cases hrun : (sourceFile (nested config.maxDepth)).onText config remembers source with
  | ok items s =>
      rw [hrun] at hs
      exact ⟨hs.tree, hitems items s hrun⟩
  | error e s =>
      rw [hrun] at hs
      exact ⟨hs.tree, by simp [Outcome.report]⟩

/-- Everything that is read from a text is in shape. -/
theorem trees_shaped (source : String) (config : Config) :
    (Program.ofText source config).program.Shaped ∧
      ∀ e, Expression.ofText source config = .ok e → e.tree.Shaped := by
  refine ⟨Program.shaped_read config true source, fun e he => ?_⟩
  rw [Expression.ofText, Expression.read_eq] at he
  obtain ⟨s, hrun, htree, -⟩ := Outcome.ok_of_expression he
  obtain ⟨hs, -⟩ := Reading.shaped_onText (shapes_wholeStatement (shapely_nested config.maxDepth))
    config true source
  rw [hrun] at hs
  exact htree ▸ hs.tree

set_option maxRecDepth 100000 in
theorem trees_shaped_blocks :
    ∃ e, Expression.ofText "λ{&(f x){,}: λ{False: g<a> True: m/n (y)}}" .standard = .ok e ∧
      e.tree.Shaped := by
  have hok : (Expression.ofText "λ{&(f x){,}: λ{False: g<a> True: m/n (y)}}" .standard).isOk =
      true := by decide +kernel
  cases h : Expression.ofText "λ{&(f x){,}: λ{False: g<a> True: m/n (y)}}" .standard with
  | ok e =>
      obtain ⟨-, hshaped⟩ := trees_shaped "λ{&(f x){,}: λ{False: g<a> True: m/n (y)}}" .standard
      exact ⟨e, rfl, hshaped e h⟩
  | error ds =>
      rw [h] at hok
      cases hok

end BendSyntax
