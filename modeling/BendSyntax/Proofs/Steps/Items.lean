import BendSyntax.Proofs.Layout.Items
import BendSyntax.Proofs.Lexing.Order
import BendSyntax.Proofs.Ownership.Items
import BendSyntax.Proofs.Results
import BendSyntax.Proofs.Steps.Expressions

/-! The steps of items. An item takes a token also where it could not be read, so every round of
items begins behind the one before. -/

namespace BendSyntax

open Reading Grammar Owner

variable {tokens : Tokens} {known : List Ref} {deep : Deeper} {start : Span}

/-- The span that an item has of its own is in order. -/
def Item.Ordered : Item TermId → Prop
  | .definition d => d.span.start ≤ d.span.stop
  | .typeDef d => d.span.start ≤ d.span.stop
  | .assertion _ _ span => span.start ≤ span.stop
  | .proof _ _ _ span => span.start ≤ span.stop
  | .expr _ => True
  | .error span => span.start ≤ span.stop

/-! ## Recovery -/

theorem keeps_skipToItemRound (region : Span) :
    Keeps tokens known (do
      if (← kind).startsItem then return Round.done region
      else return Round.more (region.hull (← advance))) :=
  Keeps.kind.skip fun _ => .ite (fun _ => .pure (List.nil_subset _)) fun _ =>
    Keeps.advance.skip fun _ => .pure (List.nil_subset _)

theorem goes_skipToItemRound (region : Span) :
    (do
      if (← kind).startsItem then return Round.done region
      else return Round.more (region.hull (← advance))).Goes := by
  refine fun c => .lookKind (.ite (fun _ => .done _) fun hstarts => .of_advances ?_)
  refine (AdvancesFrom.advance fun hkind => hstarts ?_).bind _
  rw [hkind]
  rfl

theorem keeps_skipToItem : Keeps tokens known (skipToItem start) :=
  .loopFrom keeps_skipToItemRound goes_skipToItemRound (List.nil_subset _)

/-- The region that was skipped is in order. -/
theorem answers_skipToItem :
    Answers tokens known (skipToItem start) fun region => region.start ≤ region.stop := by
  refine Keeps.answers_loop keeps_skipToItemRound (fun region hregion => ?_) (Nat.le_refl _)
    (List.nil_subset _)
  rintro setting s round t hs - ht region' hround
  obtain ⟨k, u, ⟨⟩, ht⟩ := ok_of_bind ht
  split at ht
  · cases ht
    obtain rfl : region = region' := by simpa using hround
    exact hregion
  · cases ht
    obtain rfl : region.hull s.cursor.span = region' := by simpa using hround
    exact Span.le_hull _ hs.ahead.span_le

theorem keeps_errorNode : Keeps tokens known (errorNode start) :=
  keeps_skipToItem.given answers_skipToItem fun _ hregion =>
    .addTerm hregion (List.nil_subset _) trivial

theorem keeps_skipFirst (first : Cursor) : Keeps tokens known (skipFirst first) :=
  Keeps.cursor.skip fun _ => .ite (fun _ => Keeps.advance.skip fun _ => .pure (List.nil_subset _))
    fun _ => .pure (List.nil_subset _)

section Skipping

variable {c : Cursor} (hstarts : c.kind.startsItem = false)

include hstarts

theorem kind_ne_eof_of_not_startsItem : c.kind ≠ .eof := by
  rintro hkind
  rw [hkind] at hstarts
  cases hstarts

theorem advancesFrom_skipToItem : (skipToItem start).AdvancesFrom c := by
  refine .loop (.lookKind (.ite (fun h => absurd h (by simp [hstarts])) fun _ => ?_))
  exact (AdvancesFrom.advance (kind_ne_eof_of_not_startsItem hstarts)).bind _

theorem advancesFrom_skipRest (first : Cursor) :
    (do
      skipFirst first
      return .error (← skipToItem first.span) : Reading (Item TermId)).AdvancesFrom c := by
  have hskip : ((if c.index = first.index then advance >>= fun _ => pure () else pure ()) >>=
      fun _ => (return .error (← skipToItem first.span) :
        Reading (Item TermId))).AdvancesFrom c := by
    split
    · exact ((AdvancesFrom.advance (kind_ne_eof_of_not_startsItem hstarts)).bind _).bind _
    · exact .stay (stays_asks _) fun _ => (advancesFrom_skipToItem hstarts).bind _
  rintro setting s item u rfl heof hu
  exact hskip setting s item u rfl heof hu

end Skipping

/-- What is left of a `>>` begins no item. -/
theorem keeps_skipItem (first : Cursor) : Keeps tokens known (skipItem first) := by
  intro setting t ht _
  have hwhole : { t with cursor := t.cursor.whole }.Fits tokens :=
    ⟨ht.reaches.trans (.whole _), ht.ahead.whole, ht.last, ht.tree⟩
  let rest : Reading (Item TermId) := do
    skipFirst first
    return .error (← skipToItem first.span)
  have hskip : Keeps tokens [] rest :=
    (keeps_skipFirst _).skip fun _ => keeps_skipToItem.skip fun _ => .pure (List.nil_subset _)
  obtain ⟨hsteps, hfits, hnotPast, hanswer⟩ := hskip setting _ hwhole (List.nil_subset _)
  refine ⟨hsteps, hfits, ?_, hanswer⟩
  cases hsplit : t.cursor.split with
  | false =>
      rcases hnotPast with hlt | ⟨hindex, -⟩
      · exact .inl hlt
      · exact .inr ⟨hindex, by simp [hsplit]⟩
  | true =>
      have hkind : t.cursor.whole.kind = .mark .shiftRight := ht.ahead.split hsplit
      have hadvances : rest.AdvancesFrom t.cursor.whole :=
        advancesFrom_skipRest (by rw [hkind]; rfl) first
      have hsure : Sure setting.config (skipItem first) := .skipItem first
      obtain ⟨item, u, hu⟩ := hsure setting.remembers setting.slot t
      have hlt := hadvances setting _ item u rfl ht.ahead.eof_kind hu
      change (skipItem first).run setting t = .ok item u at hu
      exact .inl ((congrArg (·.session.cursor.index) hu).symm ▸ hlt)

theorem answers_skipItem (first : Cursor) :
    Answers tokens [] (skipItem first) Item.Ordered := by
  intro setting t item u ht _ hu
  have hwhole : { t with cursor := t.cursor.whole }.Fits tokens :=
    ⟨ht.reaches.trans (.whole _), ht.ahead.whole, ht.last, ht.tree⟩
  have hskip : Answers tokens [] (do
      skipFirst first
      return .error (← skipToItem first.span) : Reading (Item TermId)) Item.Ordered :=
    .behind (keeps_skipFirst _) fun _ => .given keeps_skipToItem answers_skipToItem fun _ hregion =>
      .pure hregion
  exact hskip setting _ item u hwhole (List.nil_subset _) hu

/-! ## Items -/

theorem keeps_semicolons : Keeps tokens known semicolons := by
  refine .loopFrom (fun _ => ?_) (fun _ c => ?_) (List.nil_subset _)
  · exact (Keeps.accept _).skip fun _ => .ite (fun _ => .pure (List.nil_subset _)) fun _ =>
      .pure (List.nil_subset _)
  · exact .accept (by simp) (.done _)

section Items

variable (h : deep.Steady tokens)

include h

theorem keeps_statementOrError (describe : SyntaxError → SyntaxError) :
    Keeps tokens known (statementOrError deep describe start) :=
  (h.statement.mono (List.nil_subset _)).recovering keeps_errorNode

theorem keeps_body : Keeps tokens known (body deep) :=
  Keeps.here.skip fun _ => keeps_statementOrError h id

theorem keeps_typeParam : Keeps tokens known (typeParam deep) := by
  refine Keeps.identifier.skip fun _ => (Keeps.accept _).skip fun _ =>
    .ite (fun _ => ?_) fun _ => ?_
  · exact (h.expr _).withUsage.bind fun bound => .pure (List.subset_append_left _ _)
  · exact .pure (List.nil_subset _)

theorem keeps_typeParams : Keeps tokens known (typeParams deep) := by
  refine (Keeps.accept _).skip fun _ => .ite (fun _ => ?_) fun _ => .pure (List.nil_subset _)
  refine (Keeps.commaList (keeps_typeParam h)
    (Advances.identifier.bind _)).delimited.bind fun _ => ?_
  exact Keeps.closeAngle.skip fun _ => .pure (List.subset_append_left _ _)

theorem keeps_params : Keeps tokens known (params deep) :=
  (Keeps.separated _ (keeps_binder h.type) (advances_binder _)).delimited.bind fun _ =>
    (Keeps.expect _).skip fun _ => .pure (List.subset_append_left _ _)

theorem keeps_result? : Keeps tokens known (result? deep) :=
  (Keeps.accept _).skip fun _ =>
    .ite (fun _ => (h.type.mono (List.nil_subset _)).map fun _ => by simp) fun _ =>
      .pure (List.nil_subset _)

theorem keeps_equationType : Keeps tokens known (equationType deep) :=
  h.type.bind fun _ => (Keeps.sees _).skip fun _ => .ite (fun _ => .pure (by simp)) fun _ =>
    .unexpected _

theorem keeps_definitionTail : Keeps tokens known (definitionTail deep) := by
  refine Keeps.here.skip fun start => ?_
  have htype : Keeps tokens [] (speculate (some <$> equationType deep)) :=
    ((keeps_equationType h).map fun _ => by simp).speculate
  refine htype.bind fun found => ?_
  split
  · exact (Keeps.expect _).skip fun _ => (keeps_body h).bind fun value =>
      .pure (by simp [DefForm.roots])
  · exact (keeps_statementOrError h _).bind fun value => .pure (by simp [DefForm.roots])

theorem keeps_definitionForm : Keeps tokens known (definitionForm deep) := by
  refine (Keeps.accept _).skip fun _ => .ite (fun _ => ?_) fun _ => ?_
  · refine (keeps_params h).bind fun params => (keeps_result? h).bind fun result => ?_
    refine (Keeps.expect _).skip fun _ => (keeps_body h).bind fun id => .pure ?_
    have hparams (l l' : List Ref) :
        refs params ⊆ l ++ (l' ++ (refs params ++ known)) := fun c hc =>
      List.mem_append_right _ (List.mem_append_right _ (List.mem_append_left _ hc))
    cases result with
    | none => simp [DefForm.roots, Function.comp_def]
    | some result =>
        simpa [DefForm.roots, Function.comp_def] using hparams (refs id) (refs result)
  · exact (Keeps.expect _).skip fun _ => keeps_definitionTail h

theorem keeps_definition : Keeps tokens known (definition deep) := by
  refine Keeps.advance.skip fun start => Keeps.identifier.skip fun _ => ?_
  refine (keeps_typeParams h).bind fun typeParams => (keeps_definitionForm h).bind fun form => ?_
  exact (Keeps.since _).skip fun _ => .pure (by simp [Item.roots, Def.roots])

theorem keeps_ctorCase : Keeps tokens known (ctorCase deep) := by
  refine (Keeps.expect _).skip fun start => (Keeps.expect _).skip fun _ =>
    Keeps.identifier.skip fun _ => ?_
  refine (Keeps.expect _).skip fun _ => ?_
  have hfield : Keeps tokens [] atField := Keeps.cursor.skip fun _ => .pure (List.nil_subset _)
  have hfields := Keeps.collectWhile hfield (keeps_binder (h.expr .product)) (advances_binder _)
  exact hfields.within.bind fun fields => (Keeps.since _).skip fun _ =>
    .pure (List.subset_append_left _ _)

theorem keeps_optionalParams : Keeps tokens known (optionalParams deep) :=
  (Keeps.accept _).skip fun _ => .ite (fun _ => keeps_params h) fun _ => .pure (List.nil_subset _)

theorem keeps_typeDefinition : Keeps tokens known (typeDefinition deep) := by
  refine Keeps.advance.skip fun start => Keeps.identifier.skip fun _ => ?_
  refine (keeps_typeParams h).bind fun typeParams => ?_
  refine (keeps_optionalParams h).bind fun params => (Keeps.expect _).skip fun _ => ?_
  have hcase : (ctorCase deep).Advances := (Advances.expect (by simp)).bind _
  refine (Keeps.collectWhile (.sees _) (keeps_ctorCase h) hcase).bind fun cases => ?_
  refine (Keeps.require _ _).skip fun _ => (Keeps.since _).skip fun _ => .pure ?_
  have hcases : refs cases = (cases.flatMap fun c => c.fields.map (·.type)).map .term := by
    simp only [List.map_flatMap, List.map_map]
    exact congrArg (List.flatMap · cases) (funext fun c => refs_binders c.fields)
  have htypeParams : refs typeParams ⊆ refs cases ++ (refs params ++ (refs typeParams ++ known)) :=
    fun c hc => List.mem_append_right _ (List.mem_append_right _ (List.mem_append_left _ hc))
  simpa [hcases, Item.roots, TypeDef.roots, Function.comp_def] using htypeParams

theorem keeps_assertion : Keeps tokens known (assertion deep) := by
  refine Keeps.advance.skip fun start => h.term.bind fun term => (Keeps.expect _).skip fun _ => ?_
  refine h.type.bind fun type => (Keeps.since _).skip fun _ => .pure ?_
  simp [Item.roots]

theorem keeps_proof : Keeps tokens known (proof deep) := by
  refine Keeps.advance.skip fun start => Keeps.identifier.skip fun _ =>
    (Keeps.expect _).skip fun _ => ?_
  refine h.type.within.bind fun type => (Keeps.expect _).skip fun _ => ?_
  refine h.statement.delimited.bind fun id => (Keeps.expect _).skip fun _ => ?_
  exact (Keeps.since _).skip fun _ => .pure (by simp [Item.roots])

theorem keeps_item : Keeps tokens known (item deep) := by
  refine Keeps.kind.skip fun kind => ?_
  split
  · exact keeps_definition h
  · exact keeps_typeDefinition h
  · exact keeps_assertion h
  · exact keeps_proof h
  · exact (h.statement.mono (List.nil_subset _)).map fun id => by simp [Item.roots]

theorem answers_item : Answers tokens [] (item deep) Item.Ordered := by
  refine .behind .kind fun kind => ?_
  split
  · refine .behind .advance fun start => .behind .identifier fun _ => ?_
    exact .behind (keeps_typeParams h) fun _ => .behind (keeps_definitionForm h) fun _ =>
      .given (.since _) (.since start) fun _ hspan => .pure hspan
  · refine .behind .advance fun start => .behind .identifier fun _ => ?_
    refine .behind (keeps_typeParams h) fun _ => .behind (keeps_optionalParams h) fun _ =>
      .behind (.expect _) fun _ => ?_
    have hcase : (ctorCase deep).Advances := (Advances.expect (by simp)).bind _
    refine .behind (.collectWhile (.sees _) (keeps_ctorCase h) hcase) fun _ => ?_
    exact .behind (.require _ _) fun _ => .given (.since _) (.since start) fun _ hspan =>
      .pure hspan
  · exact .behind .advance fun start => .behind h.term fun _ => .behind (.expect _) fun _ =>
      .behind h.type fun _ => .given (.since _) (.since start) fun _ hspan => .pure hspan
  · refine .behind .advance fun start => .behind .identifier fun _ => ?_
    refine .behind (.expect _) fun _ => .behind h.type.within fun _ => .behind (.expect _) fun _ => ?_
    exact .behind h.statement.delimited fun _ => .behind (.expect _) fun _ =>
      .given (.since _) (.since start) fun _ hspan => .pure hspan
  · exact .behind h.statement fun _ => .pure trivial

/-- Also what stands for an item that could not be read is in order. -/
theorem answers_recovered (first : Cursor) :
    Answers tokens [] (reported (recovering id (skipItem first) (item deep)))
      fun found => ∀ item, found = some item → item.Ordered := by
  rintro setting s found t hs hknown ht item rfl
  have ht := ok_of_reported ht
  have honward := (Grammar.item deep).onward setting s
  have hkeeps : Keeps tokens [] (Grammar.item deep) := keeps_item h
  have hends := (hkeeps setting s hs hknown).ends
  change ((Grammar.item deep).run setting s).recovered setting.config.recover id s _ = _ at ht
  cases hrun : (Grammar.item deep).run setting s with
  | ok a u =>
      rw [hrun] at ht
      cases ht
      exact answers_item h setting s _ _ hs hknown hrun
  | error e u =>
      rw [hrun] at ht honward hends
      have hdiscard := hs.discard hends.fits honward
      cases hrecover : setting.config.recover with
      | true =>
          rw [hrecover] at ht
          have hfits : ((u.discard s).report e).Fits tokens :=
            ⟨hdiscard.reaches, hdiscard.ahead, hdiscard.last, hdiscard.tree⟩
          exact answers_skipItem first setting _ item t hfits (List.nil_subset _) ht
      | false =>
          rw [hrecover] at ht
          cases ht

theorem answers_itemRound (items : Array (Item TermId)) (hitems : ∀ item ∈ items, item.Ordered) :
    Answers tokens [] (itemRound deep items)
      fun r => ∀ b, r = .more b ∨ r = .done b → ∀ item ∈ b, item.Ordered := by
  have hdone : Answers tokens [] (pure (.done items) : Reading (Round (Array (Item TermId))))
      fun r => ∀ b, r = .more b ∨ r = .done b → ∀ item ∈ b, item.Ordered :=
    .pure fun b hb => by
      obtain rfl : items = b := by simpa using hb
      exact hitems
  refine .behind .cursor fun c => ?_
  split
  · exact hdone
  refine .given ((keeps_item h).recovering (keeps_skipItem c)).reported (answers_recovered h c)
    fun found hfound => ?_
  cases found with
  | none => exact hdone
  | some item =>
      refine .behind keeps_semicolons fun _ => .pure fun b hb => ?_
      obtain rfl : items.push item = b := by simpa using hb
      intro i hi
      rcases Array.mem_push.mp hi with hi | rfl
      · exact hitems i hi
      · exact hfound i rfl

theorem keeps_itemRound (items : Array (Item TermId)) :
    Keeps tokens (refs items) (itemRound deep items) := by
  refine Keeps.cursor.skip fun c => .ite (fun _ => .pure (by simp)) fun _ => ?_
  have hitem : Keeps tokens [] (reported (recovering id (skipItem c) (Grammar.item deep))) :=
    ((keeps_item h).recovering (keeps_skipItem c)).reported
  refine hitem.bind fun found => ?_
  cases found with
  | none => exact .pure (by simp)
  | some item => exact keeps_semicolons.skip fun _ => .pure (by simp)

end Items

/-! ## Texts -/

section Rounds

variable (tokens) (d : Nat)

/-- A round of items goes on behind the token that it began with. -/
theorem goes_itemRound (items : Array (Item TermId)) : (itemRound (nested d) items).Goes := by
  rintro c setting s result t rfl heof ht
  rw [run_itemRound] at ht
  split at ht
  · cases ht
  · rename_i hkind
    obtain ⟨found, u, hu, ht⟩ := ok_of_bind ht
    cases found with
    | none => cases ht
    | some item =>
        have hrest := mt (Cursor.kind_of_rest_nil heof) hkind
        have hlt := index_lt_recovering setting hrest d (ok_of_reported hu)
        exact Nat.lt_of_lt_of_le hlt (onward_of_ok ht).cursor.index_le

theorem answers_sourceFile :
    Answers tokens [] (sourceFile (nested d)) fun items => ∀ item ∈ items, item.Ordered := by
  have hsteady := steady_nested tokens d
  have hloop : Keeps tokens [] (loop (itemRound (nested d)) #[]) :=
    .loopFrom (keeps_itemRound hsteady) (goes_itemRound d) (List.nil_subset _)
  have hanswers : Answers tokens [] (loop (itemRound (nested d)) #[])
      fun items => ∀ item ∈ items, item.Ordered :=
    Keeps.answers_loop (keeps_itemRound hsteady)
      (fun items hitems => (answers_itemRound hsteady items hitems).mono (List.nil_subset _))
      (by simp) (List.nil_subset _)
  exact .given hloop hanswers fun items hitems => .pure (by simpa using hitems)

theorem keeps_sourceFile : Keeps tokens [] (sourceFile (nested d)) :=
  (Keeps.loopFrom (keeps_itemRound (steady_nested tokens d)) (goes_itemRound d)
    (List.nil_subset _)).seq fun items =>
    .pure (by simp)
theorem keeps_wholeStatement : Keeps tokens [] (wholeStatement (nested d)) :=
  (steady_nested tokens d).statement.bind fun _ => (Keeps.sees _).skip fun _ =>
    .ite (fun _ => .pure (by simp)) fun _ => .unexpected _

end Rounds

theorem Session.fits_initial (source : String) :
    (initial (Lexing.ofText source)).Fits (Lexing.ofText source).tokens where
  reaches := .refl _
  ahead := (Cursor.orderly_start source).toAhead
  last := Nat.le_refl _
  tree := .empty

/-- What is read from the front of a text on. -/
theorem run_onText {α : Type} [Owner α] {r : Reading α} {source : String}
    (h : Keeps (Lexing.ofText source).tokens [] r) (config : Config) (remembers : Bool) :
    Run (Lexing.ofText source).tokens r (setting config remembers)
      (initial (Lexing.ofText source)) :=
  h _ _ (Session.fits_initial source) (List.nil_subset _)

end BendSyntax
