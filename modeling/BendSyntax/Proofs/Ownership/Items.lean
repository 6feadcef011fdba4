import BendSyntax.Proofs.Ownership.Expressions
import BendSyntax.Proofs.Progress

/-! What items own. With recovery an item is always read: an error discards the nodes that were
added for what could not be read, and an error node or an error item stands for it. -/

namespace BendSyntax

open Reading Grammar Owner

variable {config : Config} {α β : Type}

/-! ## Recovery -/

/-- What was added before an error is discarded. -/
theorem Session.forest_discard {s t : Session} {roots : Multiset Ref} (h : s.Onward t)
    (hs : s.tree.Forest roots) : (t.discard s).tree.Forest roots :=
  hs.congr h.tree.contents_rewind.symm h.tree.patterns_rewind.symm

theorem owns_recovering {k : Multiset Ref} {o : α → Multiset Ref}
    {describe : SyntaxError → SyntaxError} {handler r : Reading α}
    (h : Owns config k r o) (hhandler : Owns config k handler o) :
    Owns config k (recovering describe handler r) o := by
  intro remembers slot s roots hs a t ht
  have honward := r.onward ⟨config, remembers, slot⟩ s
  have hr := h remembers slot s roots hs
  change (r.run _ s).recovered config.recover describe s _ = .ok a t at ht
  generalize r.run ⟨config, remembers, slot⟩ s = p at ht honward hr
  cases p with
  | ok b u =>
      cases ht
      exact hr _ _ rfl
  | error e u =>
      cases hrecover : config.recover with
      | true =>
          rw [hrecover] at ht
          have hdiscard : ((u.discard s).report (describe e)).tree.Forest (k + roots) :=
            Session.forest_discard honward hs
          exact hhandler remembers slot _ roots hdiscard a t ht
      | false =>
          rw [hrecover] at ht
          cases ht

theorem yields_reported [Owner α] {r : Reading α} (hsure : Sure config r)
    (h : Yields config r) : Yields config (reported r) := by
  intro remembers slot s roots hs a t ht
  obtain ⟨b, u, hu⟩ := hsure remembers slot s
  have hr := h remembers slot s roots hs b u hu
  change (r.run _ s).reported = .ok a t at ht
  rw [hu] at ht
  cases ht
  rwa [held, refs_some]

theorem idle_skipToItem (start : Span) : Idle config (skipToItem start) :=
  owns_loop (o := fun _ => 0) (fun _ => idle_kind.skip fun _ =>
    .ite (fun _ => .pure rfl) fun _ => idle_advance.skip fun _ => .pure rfl) start.opening

theorem yields_errorNode (start : Span) : Yields config (errorNode start) :=
  (idle_skipToItem start).skip fun _ => owns_addTerm rfl

theorem yields_skipItem (first : Cursor) : Yields config (skipItem first) := by
  have hskip : Idle config (skipFirst first) := idle_cursor.bind fun _ =>
    .ite (fun _ => idle_advance.bind fun _ => idle_pure _) fun _ => idle_pure _
  have hrest : Yields config (do
      skipFirst first
      return .error (← skipToItem first.span) : Reading (Item TermId)) :=
    hskip.skip fun _ => (idle_skipToItem _).skip fun _ => .pure rfl
  exact fun remembers slot s roots hs a t ht =>
    hrest remembers slot { s with cursor := s.cursor.whole } roots hs a t ht

theorem idle_semicolons : Idle config semicolons :=
  owns_loop (o := fun _ => 0) (fun _ => (idle_accept _).skip fun _ =>
    .ite (fun _ => .pure rfl) fun _ => .pure rfl) ()

/-! ## Items -/

section Items

variable {deep : Deeper} (h : deep.Yields config)

include h

theorem yields_statementOrError (describe : SyntaxError → SyntaxError) (start : Span) :
    Yields config (statementOrError deep describe start) :=
  owns_recovering h.statement (yields_errorNode start)

theorem yields_body : Yields config (body deep) :=
  idle_here.skip fun start => yields_statementOrError h id start

theorem yields_typeParam : Yields config (typeParam deep) := by
  refine idle_identifier.skip fun _ => (idle_accept _).skip fun _ => .ite (fun _ => ?_) fun _ => ?_
  · exact (h.expr _).withUsage.bind fun bound => .pure (zero_add _)
  · exact .pure rfl

theorem yields_typeParams : Yields config (typeParams deep) := by
  refine (idle_accept _).skip fun _ => .ite (fun _ => ?_) fun _ => .pure rfl
  exact (yields_commaList (yields_typeParam h)).delimited.bind fun _ =>
    idle_closeAngle.skip fun _ => .pure (zero_add _)

theorem yields_params : Yields config (params deep) :=
  (yields_separated _ (yields_binder h.type)).delimited.bind fun _ =>
    (idle_expect _).skip fun _ => .pure (zero_add _)

theorem yields_result? : Yields config (result? deep) :=
  (idle_accept _).skip fun _ => .ite (fun _ => h.type.map fun _ => by simp [held]) fun _ => .pure rfl

theorem yields_equationType : Yields config (equationType deep) :=
  h.type.bind fun _ => (idle_sees _).skip fun _ =>
    .ite (fun _ => .pure (zero_add _)) fun _ => owns_unexpected _

omit h in
theorem offers_some [Owner α] {r : Reading α} (h : Yields config r) :
    Offers config 0 (some <$> r) held :=
  Owns.offers (k := 0) h fun a => Offers.some (zero_add (held a))

omit h in
@[simp] theorem refs_defForm (form : DefForm TermId) : refs form = form.roots.map .term :=
  refs_terms form.roots

theorem yields_definitionTail : Yields config (definitionTail deep) := by
  refine idle_here.skip fun start => ?_
  refine (yields_speculate (offers_some (yields_equationType h))).bind fun found => ?_
  split
  · refine (idle_expect _).skip fun _ => (yields_body h).bind fun value => .pure ?_
    simp [held, DefForm.roots, -Multiset.coe_singleton]
  · exact (yields_statementOrError h _ start).bind fun value => .pure (by simp [held, DefForm.roots])

theorem yields_definitionForm : Yields config (definitionForm deep) := by
  refine (idle_accept _).skip fun _ => .ite (fun _ => ?_) fun _ => ?_
  · refine (yields_params h).bind fun params => (yields_result? h).bind fun result => ?_
    refine (idle_expect _).skip fun _ => (yields_body h).bind fun id => .pure ?_
    cases result <;> simp [held, DefForm.roots, Function.comp_def, -Multiset.coe_singleton]
  · exact (idle_expect _).skip fun _ => yields_definitionTail h

omit h in
@[simp] theorem refs_item (item : Item TermId) : refs item = item.roots.map .term :=
  refs_terms item.roots

omit h in
@[simp] theorem refs_typeParams (ps : List (TypeParam TermId)) :
    refs ps = (ps.filterMap (·.bound)).map .term := by
  induction ps with
  | nil => rfl
  | cons p ps ih =>
      obtain ⟨name, span, bound⟩ := p
      cases bound with
      | none => exact ih
      | some bound => exact congrArg (Child.term bound :: ·) ih

theorem yields_definition : Yields config (definition deep) := by
  refine idle_advance.skip fun start => idle_identifier.skip fun _ => ?_
  refine (yields_typeParams h).bind fun typeParams => (yields_definitionForm h).bind fun form => ?_
  refine (idle_since _).skip fun _ => .pure ?_
  simp [held, Item.roots, Def.roots]

theorem yields_ctorCase : Yields config (ctorCase deep) := by
  refine (idle_expect _).skip fun start => (idle_expect _).skip fun _ => idle_identifier.skip fun _ => ?_
  refine (idle_expect _).skip fun _ => ?_
  have hfield : Idle config atField := idle_cursor.bind fun _ => idle_pure _
  refine (yields_collectWhile hfield (yields_binder (h.expr _))).within.bind fun fields => ?_
  exact (idle_since _).skip fun _ => .pure (zero_add _)

theorem yields_typeDefinition : Yields config (typeDefinition deep) := by
  refine idle_advance.skip fun start => idle_identifier.skip fun _ => ?_
  refine (yields_typeParams h).bind fun typeParams => ?_
  have hparams : Yields config (optionalParams deep) :=
    (idle_accept _).skip fun _ => .ite (fun _ => yields_params h) fun _ => .pure rfl
  refine hparams.bind fun params => (idle_expect _).skip fun _ => ?_
  refine (yields_collectWhile (idle_sees _) (yields_ctorCase h)).bind fun cases => ?_
  refine (idle_require _ _).skip fun _ => (idle_since _).skip fun _ => .pure ?_
  have hcases : refs cases = (cases.flatMap fun c => c.fields.map (·.type)).map .term := by
    simp only [List.map_flatMap, List.map_map]
    exact congrArg (List.flatMap · cases) (funext fun c => refs_binders c.fields)
  simp [held, hcases, Item.roots, TypeDef.roots, Function.comp_def]

theorem yields_assertion : Yields config (assertion deep) := by
  refine idle_advance.skip fun start => h.term.bind fun term => (idle_expect _).skip fun _ => ?_
  refine h.type.bind fun type => (idle_since _).skip fun _ => .pure ?_
  simp [held, Item.roots, -Multiset.coe_singleton]

theorem yields_proof : Yields config (proof deep) := by
  refine idle_advance.skip fun start => idle_identifier.skip fun _ => (idle_expect _).skip fun _ => ?_
  refine h.type.within.bind fun type => (idle_expect _).skip fun _ => ?_
  refine h.statement.delimited.bind fun id => (idle_expect _).skip fun _ => ?_
  exact (idle_since _).skip fun _ => .pure (by simp [held, Item.roots, -Multiset.coe_singleton])

theorem yields_item : Yields config (item deep) := by
  refine idle_kind.skip fun kind => ?_
  split
  · exact yields_definition h
  · exact yields_typeDefinition h
  · exact yields_assertion h
  · exact yields_proof h
  · exact h.statement.map fun id => rfl

theorem yields_sourceFile (hrecover : config.recover = true) : Yields config (sourceFile deep) := by
  refine (owns_loop (o := fun items : Array (Item TermId) => held items) (fun items => ?_)
    #[]).seq fun items => .pure rfl
  refine idle_cursor.skip fun c => .ite (fun _ => .pure rfl) fun _ => ?_
  have hitem : Yields config (recovering id (skipItem c) (item deep)) :=
    owns_recovering (yields_item h) (yields_skipItem c)
  refine (yields_reported ((Sure.skipItem c).recovering hrecover) hitem).bind fun item => ?_
  cases item with
  | none => exact .pure (add_zero _)
  | some item =>
      refine idle_semicolons.skip fun _ => .pure ?_
      rw [Round.held, held_push, held, held, held, refs_some]

end Items

end BendSyntax
