import BendSyntax.Proofs.Positions.Expressions
import BendSyntax.Proofs.Safety

/-! Items have spans of the source, also those that stand for what could not be read. So has
everything that is read from a text, and so has everything that is reported about it. -/

namespace BendSyntax

open Reading Grammar

variable {source : List Char} {deep : Deeper} {c : Cursor} {start : Span} {P : Session → Prop}

/-! ## Recovery -/

theorem within_skipToItem (hstart : start.Within source) :
    Triple (Session.Accurate source) P (skipToItem start) fun region _ => region.Within source := by
  refine (Triple.loop (I := fun region _ => region.Within source)
    (D := fun region _ => region.Within source) (fun region => ?_) start.opening).mono
    fun _ _ => hstart.opening
  refine .extract (fun _ hregion => hregion) fun hregion => Triple.kind.bind fun _ =>
    .ite (fun _ => .pure fun _ _ => hregion) fun _ => ?_
  exact Triple.advance_within.given fun _ hspan => .pure fun _ _ =>
    ⟨hregion.hull hspan, hregion.hull hspan⟩

/-- What stands for text that could not be read may be empty. -/
theorem accurate_errorNode (hstart : start.Within source) :
    Maintains (Session.Accurate source) (errorNode start) :=
  (within_skipToItem hstart).given fun _ hregion => Triple.forget <|
    Triple.addTerm_accurate fun _ => ⟨hregion, fun h => absurd rfl h, nofun⟩

theorem accurate_skipItem (hc : c.Accurate source) :
    Triple (Session.Accurate source) P (skipItem c) fun item _ => item.Accurate source := by
  have hfirst : Maintains (Session.Accurate source) (skipFirst c) :=
    Triple.ask.bind fun _ => .ite (fun _ => Triple.advance.bind fun _ => .pure fun _ _ => trivial)
      fun _ => .pure fun _ _ => trivial
  exact .whole (hfirst.bind fun _ => (within_skipToItem hc.span_within).given fun _ hregion =>
    .pure fun _ _ => by simpa [Item.Accurate, Item.spans] using hregion)

theorem accurate_semicolons : Maintains (Session.Accurate source) semicolons :=
  .maintains_loop (fun _ => (Triple.accept _).bind fun _ => .ite
    (fun _ => .pure fun _ _ => trivial) fun _ => .pure fun _ _ => trivial) ()

section Items

variable (h : deep.Accurate source)

include h

theorem accurate_statementOrError {describe : SyntaxError → SyntaxError}
    (hdescribe : ∀ e, (describe e).span = e.span) (hstart : start.Within source) :
    (statementOrError deep describe start).Accurate source :=
  .recovering hdescribe h.statement.accurate (accurate_errorNode hstart).begun

theorem accurate_body : (body deep).Accurate source :=
  Triple.here_within.begun.given fun _ hstart => accurate_statementOrError h (fun _ => rfl) hstart

/-! ## Definitions -/

theorem within_typeParams : Triple (Session.Begun source) P (typeParams deep)
    fun params _ => ∀ p ∈ params, p.span.Within source := by
  have hparam : Triple (Session.Begun source) (fun _ => True) (typeParam deep)
      fun p _ => p.span.Within source := by
    refine Triple.identifier_within.begun.given fun x hx => (Triple.accept _).bind fun _ =>
      .ite (fun _ => ?_) fun _ => .pure fun _ _ => hx
    exact (h.expr _).begun.withUsage.bind fun _ => .pure fun _ _ => hx
  refine (Triple.accept _).bind fun _ => .ite (fun _ => ?_) fun _ => .pure fun _ _ => nofun
  refine (Triple.commaList hparam).delimited.given fun params hparams => ?_
  exact Triple.closeAngle.bind fun _ => .pure fun _ _ => hparams.2

theorem within_params : Triple (Session.Begun source) P (params deep)
    fun params _ => ∀ p ∈ params, p.span.Within source :=
  (Triple.separated _ (within_binder h.type)).delimited.given fun _ hparams =>
    (Triple.expect _).bind fun _ => .pure fun _ _ => hparams

theorem accurate_result? : (result? deep).Accurate source :=
  (Triple.accept _).bind fun _ => .ite (fun _ => .map h.type.accurate) fun _ =>
    .pure fun _ _ => trivial

theorem within_definitionTail : Triple (Session.Begun source) P (definitionTail deep)
    fun form _ => form.spans = [] := by
  have hequation : (equationType deep).Accurate source :=
    h.type.begun.bind fun _ => (Triple.sees _).bind fun _ =>
      .ite (fun _ => .pure fun _ _ => trivial) fun _ => .unexpected _
  have htype : (speculate (some <$> equationType deep)).Accurate source :=
    .speculate (.map hequation) trivial
  refine Triple.here_within.begun.given fun start hstart => htype.bind fun found => ?_
  split
  · exact (Triple.expect _).bind fun _ => (accurate_body h).bind fun _ => .pure fun _ _ => rfl
  · exact (accurate_statementOrError h span_noDefinition hstart).bind fun _ => .pure fun _ _ => rfl

theorem within_definitionForm : Triple (Session.Begun source) P (definitionForm deep)
    fun form _ => ∀ s ∈ form.spans, s.Within source := by
  refine (Triple.accept _).bind fun _ => .ite (fun _ => ?_) fun _ => ?_
  · exact (within_params h).given fun _ hparams => (accurate_result? h).bind fun _ =>
      (Triple.expect _).bind fun _ => (accurate_body h).bind fun _ =>
        .pure fun _ _ => within_map hparams
  · exact (Triple.expect _).bind fun _ => (within_definitionTail h).weaken (fun _ hs => hs)
      fun form _ hform => by simp [hform]

/-- The item that begins with the token at a cursor. -/
abbrev Reading.ItemAt (source : List Char) (c : Cursor) (r : Reading (Item TermId)) : Prop :=
  r.EntersAt source c fun item _ => item.Accurate source

theorem item_definition (hc : c.kind ≠ .eof) : (definition deep).ItemAt source c := by
  refine .advance hc fun hstart => Triple.identifier.bind fun _ =>
    (within_typeParams h).given fun typeParams htypeParams =>
      (within_definitionForm h).given fun form hform => ?_
  refine (Triple.since_within hstart.within).given fun span hspan => .pure fun _ _ s hs => ?_
  rcases List.mem_cons.mp hs with rfl | hs
  · exact hspan
  · exact (List.mem_append.mp hs).elim (within_map htypeParams s) (hform s)

/-! ## Type definitions -/

theorem within_ctorCase : Triple (Session.Begun source) P (ctorCase deep)
    fun case _ => ∀ s ∈ case.span :: case.fields.map (·.span), s.Within source := by
  refine (Triple.expect_within _).begun.given fun start hstart => (Triple.expect _).bind fun _ =>
    Triple.identifier.bind fun _ => (Triple.expect _).bind fun _ => ?_
  have hfield : atField.Accurate source := Triple.ask.bind fun _ => .pure fun _ _ => trivial
  refine (Triple.collectWhile hfield (within_binder (h.expr _))).within.given fun fields hfields => ?_
  refine (Triple.since_within hstart).given fun span hspan => .pure fun _ _ s hs => ?_
  exact (List.mem_cons.mp hs).elim (fun heq => heq ▸ hspan) (within_map hfields s)

theorem within_optionalParams : Triple (Session.Begun source) P (optionalParams deep)
    fun params _ => ∀ p ∈ params, p.span.Within source :=
  (Triple.accept _).bind fun _ => .ite (fun _ => within_params h) fun _ => .pure fun _ _ => nofun

theorem item_typeDefinition (hc : c.kind ≠ .eof) : (typeDefinition deep).ItemAt source c := by
  refine .advance hc fun hstart => Triple.identifier.bind fun _ =>
    (within_typeParams h).given fun typeParams htypeParams =>
      (within_optionalParams h).given fun params hparams => (Triple.expect _).bind fun _ => ?_
  refine (Triple.collectWhile (.sees _) (within_ctorCase h)).given fun cases hcases => ?_
  refine (Triple.require _ _).bind fun _ => (Triple.since_within hstart.within).given
    fun span hspan => .pure fun _ _ s hs => ?_
  rcases List.mem_cons.mp hs with rfl | hs
  · exact hspan
  rcases List.mem_append.mp hs with hs | hs
  · exact (List.mem_append.mp hs).elim (within_map htypeParams s) (within_map hparams s)
  · obtain ⟨case, hcase, hs⟩ := List.mem_flatMap.mp hs
    exact hcases case hcase s hs

/-! ## Other items -/

theorem item_assertion (hc : c.kind ≠ .eof) : (assertion deep).ItemAt source c :=
  .advance hc fun hstart => h.term.begun.bind fun _ => (Triple.expect _).bind fun _ =>
    h.type.begun.bind fun _ => (Triple.since_within hstart.within).given fun _ hspan =>
      .pure fun _ _ => by simpa [Item.Accurate, Item.spans] using hspan

theorem item_proof (hc : c.kind ≠ .eof) : (proof deep).ItemAt source c := by
  refine .advance hc fun hstart => Triple.identifier.bind fun _ => (Triple.expect _).bind fun _ =>
    h.type.begun.within.bind fun _ => (Triple.expect _).bind fun _ => ?_
  exact h.statement.begun.delimited.bind fun _ => (Triple.expect _).bind fun _ =>
    (Triple.since_within hstart.within).given fun _ hspan =>
      .pure fun _ _ => by simpa [Item.Accurate, Item.spans] using hspan

theorem accurate_item :
    Triple (Session.Accurate source) P (item deep) fun item _ => item.Accurate source := by
  refine .at_cursor fun c => ?_
  have hitem : (item deep).ItemAt source c := by
    refine .stay (p := fun k => k = c.kind) ?_ fun k hk => ?_
    · exact Triple.kind_eq.weaken (fun _ hs => hs) fun _ _ hs => ⟨hs.2 ▸ hs.1.symm, hs.2⟩
    · subst hk
      split
      · exact item_definition h (by simp_all)
      · exact item_typeDefinition h (by simp_all)
      · exact item_assertion h (by simp_all)
      · exact item_proof h (by simp_all)
      · exact (h.statement c).bind fun _ _ => .pure fun _ _ => nofun
  exact Triple.weaken hitem (fun _ hs => hs.1) fun _ _ hs => hs.1

/-! ## Texts -/

theorem accurate_itemRound (items : Array (Item TermId)) :
    Triple (Session.Accurate source) (fun _ => ∀ item ∈ items, item.Accurate source)
      (itemRound deep items)
      (Round.Meets (fun items _ => ∀ item ∈ items, item.Accurate source)
        fun items _ => ∀ item ∈ items, item.Accurate source) := by
  refine .extract (fun _ hitems => hitems) fun hitems => Triple.cursor_accurate.bind fun c =>
    .extract (fun _ hs => hs.1) fun hc => .ite (fun _ => .pure fun _ _ => hitems) fun _ => .anywhere ?_
  have hitem : Triple (Session.Accurate source) (fun _ => True)
      (reported (recovering id (skipItem c) (item deep)))
      fun found _ => ∀ item, found = some item → item.Accurate source :=
    .reported (.recovering (fun _ => rfl) (accurate_item h) (accurate_skipItem hc))
  refine hitem.given fun found hfound => ?_
  cases found with
  | none => exact .pure fun _ _ => hitems
  | some item =>
      refine accurate_semicolons.bind fun _ => .pure fun _ _ => ?_
      have hpush : ∀ i ∈ items.push item, i.Accurate source := by
        intro i hi
        rcases Array.mem_push.mp hi with hi | rfl
        · exact hitems i hi
        · exact hfound i rfl
      exact ⟨hpush, hpush⟩

theorem accurate_sourceFile : Triple (Session.Accurate source) P (sourceFile deep)
    fun items _ => ∀ item ∈ items, item.Accurate source := by
  have hloop : Triple (Session.Accurate source) P (loop (itemRound deep) #[])
      fun items _ => ∀ item ∈ items, item.Accurate source :=
    (Triple.loop (accurate_itemRound h) #[]).mono fun _ _ => by simp
  exact hloop.bind fun items => .pure fun _ hitems => by simpa using hitems

theorem accurate_wholeStatement : Maintains (Session.Accurate source) (wholeStatement deep) :=
  .at_cursor fun c => (Triple.mono (h.statement c) fun _ hs => hs.1).forget.bind fun _ =>
    (Triple.sees _).bind fun _ => .ite (fun _ => .pure fun _ _ => trivial) fun _ => .unexpected _

end Items

theorem Session.accurate_initial (source : String) :
    (initial (Lexing.ofText source)).Accurate source.toList where
  cursor := .start source
  tree := ⟨fun _ h => by simp [initial, Tree.empty] at h, fun _ h => by simp [initial, Tree.empty] at h⟩
  diagnostics d hd := (Lexing.tiles_ofText source).diagnostics d (List.mem_toArray.mp hd)

/-- A program whose spans are all spans of the source. -/
structure Program.Accurate (source : List Char) (p : Program) : Prop where
  tree : p.tree.Accurate source
  spans : ∀ item ∈ p.items, (p.itemSpan item).Within source
  inner : ∀ item ∈ p.items, item.Accurate source

theorem Program.itemSpan_within {p : Program} {item : Item TermId} (htree : p.tree.Accurate source)
    (hitem : item.Accurate source) (hroots : ∀ id ∈ item.roots, id.index < p.tree.terms.size) :
    (p.itemSpan item).Within source := by
  cases item with
  | expr id => exact htree.span (hroots id (List.mem_singleton_self id))
  | definition d => exact hitem d.span List.mem_cons_self
  | typeDef d => exact hitem d.span List.mem_cons_self
  | assertion term type span => exact hitem span List.mem_cons_self
  | proof name type body span => exact hitem span List.mem_cons_self
  | error span => exact hitem span List.mem_cons_self

theorem Outcome.accurate_reports {α : Type} {o : Outcome α} (h : o.settled.Accurate source) :
    ∀ d ∈ o.reports, d.span.Within source := by
  cases o with
  | ok _ s => exact h.diagnostics
  | error e s => exact h.diagnostics

theorem Program.accurate_read (config : Config) (remembers : Bool) (source : String) :
    (Program.read config remembers source).program.Accurate source.toList ∧
      ∀ d ∈ (Program.read config remembers source).diagnostics, d.span.Within source.toList := by
  obtain ⟨haccurate, hitems⟩ := accurate_sourceFile (P := fun _ => True)
    (accurate_nested config.maxDepth) _ _ (Session.accurate_initial source) trivial
  have hroots := (Program.inRange_read config remembers source).roots
  rw [Program.read_eq] at hroots ⊢
  refine ⟨?_, fun d hd => Outcome.accurate_reports haccurate d ?_⟩
  · cases hrun : (sourceFile (nested config.maxDepth)).onText config remembers source with
    | ok items s =>
        rw [hrun] at hroots
        have htree : s.tree.Accurate source.toList := by
          rw [onText] at hrun
          rw [hrun] at haccurate
          exact haccurate.tree
        have hinner := hitems items s hrun
        exact ⟨htree, fun item hitem => itemSpan_within htree (hinner item hitem)
          (hroots item hitem), hinner⟩
    | error e s =>
        rw [onText] at hrun
        rw [hrun] at haccurate
        exact ⟨haccurate.tree, by simp [Outcome.report], by simp [Outcome.report]⟩
  · rw [Outcome.diagnostics_report] at hd
    exact Array.mem_toList_iff.mp hd

theorem Expression.accurate_read (config : Config) (remembers : Bool) (source : String) :
    (∀ e, Expression.read config remembers source = .ok e → e.tree.Accurate source.toList) ∧
      ∀ ds, Expression.read config remembers source = .error ds →
        ∀ d ∈ ds, d.span.Within source.toList := by
  obtain ⟨haccurate, -⟩ := accurate_wholeStatement (accurate_nested config.maxDepth)
    (setting config remembers) _ (Session.accurate_initial source) trivial
  rw [Expression.read_eq]
  refine ⟨fun e he => ?_, fun ds hds d hd => Outcome.accurate_reports haccurate d ?_⟩
  · obtain ⟨s, hrun, htree, -⟩ := Outcome.ok_of_expression he
    rw [onText] at hrun
    rw [hrun] at haccurate
    exact htree ▸ haccurate.tree
  · exact Outcome.mem_reports_of_expression hds hd

/-- Every span in what is read from a text, and every span that is reported about it, is a span of
the text. -/
theorem positions_accurate (source : String) (config : Config) :
    ((Program.ofText source config).program.Accurate source.toList ∧
      ∀ d ∈ (Program.ofText source config).diagnostics, d.span.Within source.toList) ∧
    (∀ e, Expression.ofText source config = .ok e → e.tree.Accurate source.toList) ∧
      ∀ ds, Expression.ofText source config = .error ds → ∀ d ∈ ds, d.span.Within source.toList :=
  ⟨Program.accurate_read config true source, Expression.accurate_read config true source⟩

set_option maxRecDepth 100000 in
theorem positions_accurate_refused :
    (∃ e, Expression.ofText "f<g<a>>(x)" .standard = .ok e ∧
      e.tree.Accurate "f<g<a>>(x)".toList) ∧
    ∃ ds, Expression.ofText "f(\n g<a>>" .standard = .error ds ∧
      ∀ d ∈ ds, d.span.Within "f(\n g<a>>".toList := by
  have hok : (Expression.ofText "f<g<a>>(x)" .standard).isOk = true := by decide +kernel
  have herror : (Expression.ofText "f(\n g<a>>" .standard).isOk = false := by decide +kernel
  refine ⟨?_, ?_⟩
  · cases h : Expression.ofText "f<g<a>>(x)" .standard with
    | ok e => exact ⟨e, rfl, (positions_accurate _ _).2.1 e h⟩
    | error ds =>
        rw [h] at hok
        cases hok
  · cases h : Expression.ofText "f(\n g<a>>" .standard with
    | ok e =>
        rw [h] at herror
        cases herror
    | error ds => exact ⟨ds, rfl, (positions_accurate _ _).2.2 ds h⟩

end BendSyntax
