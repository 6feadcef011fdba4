import BendSyntax.Proofs.Places.Expressions
import BendSyntax.Proofs.Results

/-! Items own terms with the usages of the table, also the error nodes that stand for what could not
be read. So the usage of everything that is read from a text is told by its place. -/

namespace BendSyntax

open Reading Grammar

variable {deep : Deeper} {start : Span} {u : Usage} {ps : List (TermId × Usage)}

/-! ## Recovery -/

theorem usages_skipToItem : (skipToItem start).Places u ps fun _ => [] :=
  .loop (fun _ => []) (fun _ => .bind .kind fun _ => .ite (fun _ => .pure (by simp)) fun _ =>
    .bind .advance fun _ => .pure (by simp)) (by simp)

theorem usages_errorNode : (errorNode start).Places u ps fun id => [(id, u)] :=
  .bind usages_skipToItem fun _ => .addTerm (by simp [Term.places, Term.subterms, Term.children])

theorem usages_skipItem (first : Cursor) : (skipItem first).Places u ps (·.places) := by
  have hfirst : (skipFirst first).Places u ps fun _ => [] :=
    .bind .ask fun _ => .ite (fun _ => .bind .advance fun _ => .pure (by simp)) fun _ =>
      .pure (by simp)
  exact .whole (.bind hfirst fun _ => .bind usages_skipToItem fun _ => .pure (by simp [Item.places]))

theorem usages_semicolons : semicolons.Places u ps fun _ => [] :=
  .loop (fun _ => []) (fun _ => .bind (.accept _) fun _ =>
    .ite (fun _ => .pure (by simp)) fun _ => .pure (by simp)) (by simp)

section Items

variable (h : deep.Placing)

include h

theorem usages_statementOrError {describe : SyntaxError → SyntaxError} :
    (statementOrError deep describe start).Places .term ps fun id => [(id, .term)] :=
  .recovering h.statement usages_errorNode

theorem usages_body : (body deep).Places .term ps fun id => [(id, .term)] :=
  .bind .here fun _ => usages_statementOrError h

/-! ## Items -/

theorem usages_typeParam :
    (typeParam deep).Places u ps fun p => Usage.type.of p.bound.toList := by
  refine .bind .identifier fun _ => .bind (.accept _) fun _ =>
    .ite (fun _ => ?_) fun _ => .pure (by simp)
  exact .bind (.withUsage (h.expr _)) fun _ => .pure (by simp)

theorem usages_typeParams :
    (typeParams deep).Places u ps fun params => Usage.type.of (params.filterMap (·.bound)) := by
  refine .bind (.accept _) fun _ => .ite (fun _ => ?_) fun _ => .pure (by simp)
  refine .bind (.delimited (.commaList (usages_typeParam h))) fun _ => .bind .closeAngle fun _ => ?_
  exact .pure (by simp +contextual)

theorem usages_params :
    (params deep).Places u ps fun params => Usage.type.of (params.map (·.type)) := by
  refine .bind (.delimited (.separated _ (usages_binder fun _ => h.type))) fun _ => ?_
  exact .bind (.expect _) fun _ => .pure (by simp +contextual)

theorem usages_result? : (result? deep).Places u ps fun type => Usage.type.of type.toList :=
  .bind (.accept _) fun _ => .ite (fun _ => .map h.type) fun _ =>
    .pure (by simp)

theorem usages_equationType : (equationType deep).Places u ps fun id => [(id, .type)] :=
  .bind h.type fun _ => .bind (.sees _) fun _ =>
    .ite (fun _ => .pure (by simp)) fun _ => .unexpected _

/-- A type that no `=` follows leaves nothing behind. -/
theorem usages_definitionTail : (definitionTail deep).Places .term ps (·.places) := by
  have htype {ps : List (TermId × Usage)} : (speculate (some <$> equationType deep)).Places .term ps
      fun type => Usage.type.of type.toList :=
    .speculate (.map (usages_equationType h)) rfl
  refine .bind .here fun start => .bind htype fun found => ?_
  cases found with
  | some type =>
      exact .bind (.expect _) fun _ => .bind (usages_body h) fun _ =>
        .pure (by simp [DefForm.places])
  | none => exact .bind (usages_statementOrError h) fun _ => .pure (by simp [DefForm.places])

theorem usages_definitionForm : (definitionForm deep).Places .term ps (·.places) := by
  refine .bind (.accept _) fun _ => .ite (fun _ => ?_) fun _ => ?_
  · refine .bind (usages_params h) fun _ => .bind (usages_result? h) fun _ => ?_
    refine .bind (.expect _) fun _ => .bind (usages_body h) fun _ => .pure ?_
    simp +contextual [DefForm.places, or_imp]
  · exact .bind (.expect _) fun _ => usages_definitionTail h

theorem usages_definition : (definition deep).Places .term ps (·.places) := by
  refine .bind .advance fun _ => .bind .identifier fun _ => .bind (usages_typeParams h) fun _ => ?_
  refine .bind (usages_definitionForm h) fun _ => .bind (.since _) fun _ => .pure ?_
  simp +contextual [Item.places]

/-- The fields of a case have a slot of their own, which is one of types. -/
theorem usages_ctorCase :
    (ctorCase deep).Places u ps fun c => Usage.type.of (c.fields.map (·.type)) := by
  refine .bind (.expect _) fun start => .bind (.expect _) fun _ => .bind .identifier fun _ =>
    .bind (.expect _) fun _ => ?_
  have hfield : atField.Places .type [] fun _ => [] := .bind .ask fun _ => .pure (by simp)
  have hfields {ps : List (TermId × Usage)} : (collectWhile atField (binder (deep.expr .product))).Places
      .type ps fun fields => fields.flatMap fun b => [(b.type, .type)] :=
    .collectWhile hfield (usages_binder fun _ => h.expr .product)
  refine .bind (.within hfields fun _ _ => rfl) fun _ => .bind (.since _) fun _ => .pure ?_
  simp +contextual

theorem usages_optionalParams :
    (optionalParams deep).Places u ps fun params => Usage.type.of (params.map (·.type)) :=
  .bind (.accept _) fun _ => .ite (fun _ => usages_params h) fun _ => .pure (by simp)

theorem usages_typeDefinition : (typeDefinition deep).Places u ps (·.places) := by
  refine .bind .advance fun start => .bind .identifier fun _ => .bind (usages_typeParams h) fun _ =>
    .bind (usages_optionalParams h) fun _ => .bind (.expect _) fun _ => ?_
  refine .bind (.collectWhile (.sees _) (usages_ctorCase h)) fun cases => ?_
  refine .bind (.require _ _) fun _ => .bind (.since _) fun _ => .pure ?_
  simp +contextual [Item.places, TypeDef.roots, or_imp]

theorem usages_assertion : (assertion deep).Places u ps (·.places) :=
  .bind .advance fun _ => .bind h.term fun _ => .bind (.expect _) fun _ => .bind h.type fun _ =>
    .bind (.since _) fun _ => .pure (by simp [Item.places])

theorem usages_proof : (proof deep).Places u ps (·.places) := by
  refine .bind .advance fun _ => .bind .identifier fun _ => .bind (.expect _) fun _ => ?_
  refine .bind (.within h.type fun _ hu => hu) fun _ => .bind (.expect _) fun _ => ?_
  refine .bind (.delimited h.statement) fun _ => .bind (.expect _) fun _ => .bind (.since _) fun _ => ?_
  exact .pure (by simp [Item.places])

theorem usages_item : (item deep).Places .term ps (·.places) := by
  refine .bind .kind fun k => ?_
  split
  · exact usages_definition h
  · exact usages_typeDefinition h
  · exact usages_assertion h
  · exact usages_proof h
  · exact .bind h.statement fun _ => .pure (by simp [Item.places])

/-! ## Texts -/

theorem usages_itemRound (items : Array (Item TermId)) :
    (itemRound deep items).Places .term (items.toList.flatMap (·.places) ++ ps)
      fun round => round.answer.toList.flatMap (·.places) := by
  have hdone {ps : List (TermId × Usage)} (hitems : items.toList.flatMap (·.places) ⊆ ps) :
      (pure (.done items) : Reading (Round (Array (Item TermId)))).Places .term ps
        fun round => round.answer.toList.flatMap (·.places) := .pure hitems
  refine .bind .ask fun c => .ite (fun _ => hdone (by simp)) fun _ => ?_
  refine .bind (.reported (.recovering (usages_item h) (usages_skipItem c))) fun found => ?_
  cases found with
  | none => exact hdone (by simp)
  | some item =>
      refine .bind usages_semicolons fun _ => .pure ?_
      simp [Round.answer]

theorem usages_sourceFile :
    (sourceFile deep).Places .term ps fun items => items.flatMap (·.places) :=
  .bind (.loop (fun items => items.toList.flatMap (·.places)) (usages_itemRound h) (by simp))
    fun items => .pure (by simp)

theorem usages_wholeStatement : (wholeStatement deep).Places u ps fun id => [(id, .term)] :=
  .bind h.statement fun _ => .bind (.sees _) fun _ => .ite (fun _ => .pure (by simp)) fun _ =>
    .unexpected _

end Items

theorem Reading.Places.onText {α : Type} {r : Reading α} {qs : α → List (TermId × Usage)}
    (h : r.Places .term [] qs) (config : Config) (remembers : Bool) (source : String) :
    (r.onText config remembers source).session.tree.ByPlace ∧
      ∀ a t, r.onText config remembers source = .ok a t → t.tree.Has (qs a) :=
  h _ _ rfl .empty nofun

/-! ## Usages -/

theorem Tree.Has.map_usage? {t : Tree} {ps : List (TermId × Usage)} (h : t.Has ps) :
    (ps.map Prod.fst).map t.usage? = ps.map fun p => some p.2 := by
  rw [List.map_map]
  exact List.map_congr_left h

/-- Every subterm in a tree has the usage of its place. -/
def Tree.UsedByPlace (t : Tree) : Prop :=
  ∀ node ∈ t.terms,
    node.term.subterms.map t.usage? = (node.term.places node.usage).map fun p => some p.2

theorem Tree.ByPlace.usedByPlace {t : Tree} (h : t.ByPlace) : t.UsedByPlace := by
  intro node hnode
  rw [← node.term.map_fst_places node.usage]
  exact (h node hnode).map_usage?

/-- So has every term that an item owns. -/
structure Program.UsedByPlace (p : Program) : Prop where
  tree : p.tree.UsedByPlace
  roots : ∀ item ∈ p.items, item.roots.map p.tree.usage? = item.places.map fun q => some q.2

/-- An expression is a term. -/
structure Expression.UsedByPlace (e : Expression) : Prop where
  tree : e.tree.UsedByPlace
  root : e.tree.usage? e.root = some .term

theorem Program.usedByPlace_read (config : Config) (remembers : Bool) (source : String) :
    (Program.read config remembers source).program.UsedByPlace := by
  obtain ⟨hbyPlace, hitems⟩ :=
    (usages_sourceFile (placing_nested config.maxDepth)).onText config remembers source
  rw [Program.read_eq]
  cases hrun : (sourceFile (nested config.maxDepth)).onText config remembers source with
  | ok items s =>
      rw [hrun] at hbyPlace
      refine ⟨hbyPlace.usedByPlace, fun item hitem => ?_⟩
      have hhas : s.tree.Has item.places := (hitems items s hrun).subset fun p hp =>
        List.mem_flatMap.mpr ⟨item, hitem, hp⟩
      rw [← item.map_fst_places]
      exact hhas.map_usage?
  | error e s =>
      rw [hrun] at hbyPlace
      exact ⟨hbyPlace.usedByPlace, nofun⟩

/-- Whether a node was read as a type or as a term is told by its place, in everything that is read
from a text. -/
theorem usages_by_place (source : String) (config : Config) :
    (Program.ofText source config).program.UsedByPlace ∧
      ∀ e, Expression.ofText source config = .ok e → e.UsedByPlace := by
  refine ⟨Program.usedByPlace_read config true source, fun e he => ?_⟩
  rw [Expression.ofText, Expression.read_eq] at he
  obtain ⟨s, hrun, htree, -⟩ := Outcome.ok_of_expression he
  obtain ⟨hbyPlace, hroot⟩ :=
    (usages_wholeStatement (placing_nested config.maxDepth)).onText config true source
  rw [hrun] at hbyPlace
  have htrees : s.tree.UsedByPlace := hbyPlace.usedByPlace
  have hroots : s.tree.usage? e.root = some .term := hroot e.root s hrun (e.root, .term) (by simp)
  exact ⟨htree ▸ htrees, htree ▸ hroots⟩

set_option maxRecDepth 100000 in
theorem usages_by_place_quantified :
    ∃ e, Expression.ofText "λ(f: all x: A<B>. x). f<T{a == b}>(c :: D)" .standard = .ok e ∧
      e.UsedByPlace := by
  have hok : (Expression.ofText "λ(f: all x: A<B>. x). f<T{a == b}>(c :: D)" .standard).isOk =
      true := by decide +kernel
  cases h : Expression.ofText "λ(f: all x: A<B>. x). f<T{a == b}>(c :: D)" .standard with
  | ok e =>
      obtain ⟨-, hplaces⟩ :=
        usages_by_place "λ(f: all x: A<B>. x). f<T{a == b}>(c :: D)" .standard
      exact ⟨e, rfl, hplaces e h⟩
  | error ds =>
      rw [h] at hok
      cases hok

end BendSyntax
