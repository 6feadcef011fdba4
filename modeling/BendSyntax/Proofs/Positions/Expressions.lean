import BendSyntax.Proofs.Positions.Terms

/-! Operands, expressions and statements have spans of the source, and with them the productions of
every goal at every depth. -/

namespace BendSyntax

open Reading Grammar

variable {source : List Char} {deep : Deeper} {c : Cursor} {start : Span} {P : Session → Prop}
  {k : TokenKind}

theorem spans_nameTerm (lexeme : String) : (nameTerm lexeme).spans = [] := by
  unfold nameTerm
  split <;> rfl

theorem spans_constant {term : Term TermId PatternId} (h : constant? k = some term) :
    term.spans = [] := by
  unfold constant? at h
  split at h <;> cases h <;> rfl

section Productions

variable (h : deep.Accurate source)

include h

/-! ## Operands -/

theorem enters_constructor (hc : c.kind = .mark .atSign) :
    (Grammar.constructor deep c.span).EntersAt source c Session.Has := by
  refine .advance (by rw [hc]; nofun) fun hstart => Triple.identifier.bind fun _ =>
    Triple.ask.bind fun _ => Triple.ask.bind fun _ =>
      .ite (fun _ => ?_) fun _ => .close_proper hstart nofun
  exact Triple.advance.bind fun _ => (Triple.separated _ h.inner.accurate).delimited.bind fun _ =>
    (Triple.expect _).bind fun _ => .close_proper hstart nofun

theorem enters_symbolOrSup (hc : c.kind = .mark .ampersand) :
    (symbolOrSup deep c.span).EntersAt source c Session.Has := by
  refine .advance (by rw [hc]; nofun) fun hstart => Triple.ask.bind fun _ => Triple.ask.bind fun _ =>
    .ite (fun _ => Triple.identifier.bind fun _ => .close_proper hstart nofun) fun _ => ?_
  refine (h.expr _).begun.within.bind fun _ => (Triple.expect _).bind fun _ => ?_
  have hsides : (deep.inner >>= fun left => expect (.mark .comma) >>= fun _ =>
      deep.inner >>= fun right => pure (left, right)).Accurate source :=
    h.inner.begun.bind fun _ => (Triple.expect _).bind fun _ => h.inner.begun.bind fun _ =>
      .pure fun _ _ => trivial
  exact hsides.anywhere.delimited.bind fun _ => (Triple.expect _).bind fun _ =>
    .close_proper hstart nofun

theorem enters_hole (hc : c.kind = .mark .question) :
    (hole deep c.span).EntersAt source c Session.Has := by
  refine .advance (by rw [hc]; nofun) fun hstart => Triple.identifier.bind fun _ =>
    (Triple.expect _).bind fun _ => (h.expr _).begun.within.bind fun _ => Triple.ask.bind fun _ =>
      Triple.ask.bind fun _ => .ite (fun _ => ?_) fun _ => .close_proper hstart nofun
  refine Triple.advance.bind fun _ =>
    (Triple.separated _ h.inner.accurate).withUsage.delimited.bind fun _ => ?_
  exact (Triple.expect _).bind fun _ => .close_proper hstart nofun

theorem enters_parentheses (hc : c.kind = .mark .leftParen) :
    (parentheses deep c.span).EntersAt source c Session.Has := by
  refine .advance (by rw [hc]; nofun) fun hstart => (Triple.accept _).bind fun _ =>
    .ite (fun _ => .close_proper hstart nofun) fun _ => ?_
  refine h.inner.begun.delimited.bind fun first => ?_
  refine .across (lasting_has first) (Triple.accept _) fun _ => .ite (fun _ => ?_) fun _ => ?_
  · refine (Triple.separated _ h.inner.accurate).delimited.anywhere.bind fun _ => ?_
    exact (Triple.expect _).bind fun _ => .close_proper hstart nofun
  · refine .acrossGiven (lasting_has first) (Triple.expect_within _).begun fun stop hstop => ?_
    refine .across (lasting_has first)
      (Triple.widen_within first (hstart.within.hull hstop)).begun fun _ => ?_
    exact .pure fun _ hfirst => hfirst

theorem enters_listTerm (hc : c.kind = .mark .leftBracket) :
    (listTerm deep c.span).EntersAt source c Session.Has := by
  refine .advance (by rw [hc]; nofun) fun hstart => (Triple.accept _).bind fun _ =>
    .ite (fun _ => .close_proper hstart nofun) fun _ => ?_
  exact (Triple.separated _ h.inner.accurate).delimited.bind fun _ => (Triple.expect _).bind fun _ =>
    .close_proper hstart nofun

omit h in
theorem enters_enumType (hc : c.kind = .word .enum) :
    (enumType c.span).EntersAt source c Session.Has := by
  have hsymbol : enumSymbol.Accurate source :=
    (Triple.expect _).bind fun _ => Triple.identifier.bind fun _ => .pure fun _ _ => trivial
  exact .advance (by rw [hc]; nofun) fun hstart => (Triple.expect _).bind fun _ =>
    (Triple.separated _ hsymbol).bind fun _ => (Triple.expect _).bind fun _ =>
      .close_proper hstart nofun

omit h in
theorem enters_reference (hc : c.kind = .word .ref) :
    (reference c.span).EntersAt source c Session.Has :=
  .advance (by rw [hc]; nofun) fun hstart => Triple.identifier.bind fun _ =>
    .close_proper hstart nofun

omit h in
theorem enters_view (hc : c.kind = .word .view) : (view c.span).EntersAt source c Session.Has :=
  .advance (by rw [hc]; nofun) fun hstart => (Triple.expect _).bind fun _ =>
    Triple.identifier.bind fun _ => (Triple.expect _).bind fun _ => .close_proper hstart nofun

theorem enters_compound : (compound deep c c.span).EntersAt source c Session.Has := by
  unfold compound
  split
  · exact enters_constructor h ‹_›
  · exact enters_symbolOrSup h ‹_›
  · exact enters_hole h ‹_›
  · exact enters_parentheses h ‹_›
  · exact enters_listTerm h ‹_›
  · exact .ite (fun _ => enters_refl ‹_›) fun _ => .unexpected _
  · exact enters_enumType ‹_›
  · exact enters_reference ‹_›
  · exact enters_view ‹_›
  · exact .unexpected _

theorem enters_operand : (operand deep).Enters source Session.Has := by
  refine .cursor fun c => .ite (fun hc => ?_) fun _ => .ite (fun hc => ?_) fun _ => ?_
  · exact .advance (by rw [hc]; nofun) fun hstart =>
      (Triple.addTerm_proper hstart (by simp [spans_nameTerm])).begun
  · have hkind : c.kind ≠ .eof := fun heof => by simp [heof, isLiteral] at hc
    exact enters_literal _ fun _ => .advance hkind fun hstart =>
      .begun (.addTerm_proper hstart nofun)
  · split
    · rename_i term hterm
      have hkind : c.kind ≠ .eof := fun heof => by simp [heof, constant?] at hterm
      exact .advance hkind fun hstart =>
        (Triple.addTerm_proper hstart (by simp [spans_constant hterm])).begun
    · exact enters_compound h

/-! ## Expressions -/

theorem enters_leading : (leading deep).Enters source Session.Has := by
  refine .cursor fun c => ?_
  dsimp only
  split
  · exact enters_before h _ (by simp_all) fun _ => rfl
  · exact enters_before h _ (by simp_all) fun _ => rfl
  · exact enters_tilde h ‹_›
  · exact enters_lambda h ‹_›
  · exact enters_fixedPoint h ‹_›
  · exact enters_all h ‹_›
  · exact enters_any h ‹_›
  · exact enters_ifElse h ‹_›
  · exact enters_fork h ‹_›
  · exact enters_matchOn h ‹_›
  · exact enters_useIn h ‹_›
  · exact enters_operandAndBody h (by simp_all) fun _ _ => rfl
  · exact enters_operandAndBody h (by simp_all) fun _ _ => rfl
  · exact enters_before h _ (by simp_all) fun _ => rfl
  · exact enters_before h _ (by simp_all) fun _ => rfl
  · exact enters_before h _ (by simp_all) fun _ => rfl
  · exact enters_before h _ (by simp_all) fun _ => rfl
  · exact (enters_operand h c).bind fun _ hstart => has_suffixes h hstart

theorem has_juxtaposed? {func : TermId} (hstart : start.Proper source) :
    Triple (Session.Begun source) P (juxtaposed? deep func start)
      fun found s => ∀ id ∈ found, s.Has id := by
  have hsome {r : Reading TermId} (hr : Triple (Session.Begun source) (fun _ => True) r Session.Has) :
      Triple (Session.Begun source) (fun _ => True) (some <$> r)
        fun found s => ∀ id ∈ found, s.Has id :=
    .map (hr.weaken (fun _ hs => hs) fun _ _ hid => by simpa using hid)
  have hnone : Triple (Session.Begun source) (fun _ => True) (pure none)
      fun (found : Option TermId) s => ∀ id ∈ found, s.Has id := .pure fun _ _ => nofun
  refine .anywhere (Triple.ask.bind fun c => Triple.ask.bind fun s => .ite (fun _ => hnone) fun _ => ?_)
  refine Triple.ask.bind fun _ => .ite (fun _ => hsome (has_call h hstart)) fun _ => ?_
  refine .ite (fun _ => ?_) fun _ => .ite (fun _ => ?_) fun _ => hnone
  · exact .ite (fun _ => hnone) fun _ => hsome (has_braceSuffix h hstart)
  · exact (h.expr _).begun.bind fun _ => .anywhere (hsome (.close_proper hstart nofun))

theorem has_operatorRound (min : Level) (lhs : TermId) (hstart : start.Proper source) :
    Triple (Session.Begun source) (Session.Has lhs) (operatorRound deep min start lhs)
      (Round.Meets Session.Has Session.Has) := by
  refine .across (lasting_has lhs) Triple.ask fun c => .across (lasting_has lhs) Triple.ask fun s => ?_
  split
  · rename_i op _
    have hoperand : (rightOperand deep op).Accurate source := by
      unfold rightOperand
      split
      · exact (h.expr _).withUsage.accurate
      · exact (h.expr _).accurate
    have hspans (rhs : TermId) : (infixTerm op.form lhs rhs).spans = [] := by
      cases op.form <;> rfl
    exact Triple.advance.bind fun _ => hoperand.bind fun rhs =>
      has_more (.close_proper hstart (by simp [hspans]))
  · exact .pure fun _ hlhs => hlhs

theorem has_climbRound (min : Level) (lhs : TermId) (hstart : start.Proper source) :
    Triple (Session.Begun source) (Session.Has lhs) (climbRound deep min start lhs)
      (Round.Meets Session.Has Session.Has) := by
  refine .across (lasting_has lhs) Triple.ask fun c => .across (lasting_has lhs) Triple.ask fun s =>
    .ite (fun _ => .pure fun _ hlhs => hlhs) fun _ =>
      .ite (fun _ => ?_) fun _ => has_operatorRound h min lhs hstart
  refine .acrossWith (lasting_has lhs) (has_juxtaposed? h hstart) fun app => ?_
  cases app with
  | none => exact (has_operatorRound h min lhs hstart).mono fun _ hs => hs.2
  | some app => exact .pure fun _ hs => ⟨hs.1 _ rfl, hs.1 _ rfl⟩

theorem enters_expression (min : Level) : (expression deep min).Enters source Session.Has :=
  fun c => .here ((enters_leading h c).bind fun lhs hstart =>
    Triple.loop (fun lhs => has_climbRound h min lhs hstart) lhs)

/-! ## Statements -/

omit h in
theorem lasting_hasAll (type : Option TermId) : Lasting fun s => ∀ id ∈ type, s.Has id :=
  fun s t honward htype id hid => lasting_has id s t honward (htype id hid)

omit h in
theorem lasting_hasBoth (value : TermId) (type : Option TermId) :
    Lasting fun s => s.Has value ∧ ∀ id ∈ type, s.Has id :=
  fun s t honward hs => ⟨lasting_has value s t honward hs.1, lasting_hasAll type s t honward hs.2⟩

omit h in
theorem has_assignment {name : String} {type : Option TermId} {value : TermId}
    (hstart : start.Proper source) :
    Triple (Session.Begun source) (fun s => s.Has value ∧ ∀ id ∈ type, s.Has id)
      (assignment name start type value) Session.Has := by
  have hvar : (addTerm (.var name) start).Accurate source :=
    Triple.forget (.begun (.addTerm_proper hstart nofun))
  refine .across (lasting_hasBoth value type) hvar fun var => ?_
  have hvalue : Triple (Session.Begun source) (Session.Has value) (spanOf value)
      fun span _ => span.Within source := .begun (.spanOf_within fun _ hs => hs)
  refine (hvalue.frame (lasting_hasAll type)).bind fun stop => .extract (fun _ hs => hs.1) fun hstop => ?_
  split
  · rename_i type
    have htype : Triple (Session.Begun source) (fun s => stop.Within source ∧ ∀ id ∈ some type, s.Has id)
        (spanOf type) fun span _ => span.Within source :=
      .begun (.spanOf_within fun s hs => hs.2 type rfl)
    refine htype.given fun stop' hstop' => ?_
    refine Triple.bind (.begun (.addTerm_proper (hstart.hull hstop') nofun)) fun _ => ?_
    exact .begun (.addTerm_proper (hstart.hull hstop) nofun)
  · exact .begun (.addTerm_proper (hstart.hull hstop) nofun)

theorem has_binding {name : String} {type : Option TermId} (hstart : start.Proper source) :
    Triple (Session.Begun source) (fun s => ∀ id ∈ type, s.Has id)
      (Grammar.binding deep name start type) Session.Has := by
  refine .across (lasting_hasAll type) (Triple.expect _) fun _ =>
    .acrossWith (lasting_hasAll type) h.term.begun fun value => ?_
  have hlasting := lasting_hasBoth value type
  refine .across hlasting (Triple.accept _) fun _ => .across hlasting Triple.ask fun _ =>
    .across hlasting Triple.ask fun _ => .ite (fun _ => ?_) fun _ => has_assignment hstart
  exact h.statement.begun.bind fun _ => .close_proper hstart nofun

omit h in
/-- A name with its type that has been read from a cursor on, or else the cursor is still there. -/
structure TypedFrom (source : List Char) (c : Cursor) (found : Option (String × Span × TermId))
    (s : Session) : Prop where
  none : found = none → s.cursor = c
  some : ∀ x ∈ found, x.2.1 = c.span ∧ s.Has x.2.2 ∧ c.span.Proper source ∧ 0 < s.cursor.index

theorem typedFrom_typedName? : Triple (Session.Accurate source) (fun s => s.cursor = c)
    (typedName? deep) (TypedFrom source c) := by
  have htyped : (typedName deep).EntersAt source c
      fun found s => ∀ x ∈ found, x.2.1 = c.span ∧ s.Has x.2.2 := by
    refine .identifier fun _ name => (Triple.expect _).bind fun _ => h.type.begun.bind fun type => ?_
    refine .across (lasting_has type) (Triple.sees _) fun _ => .ite (fun _ => ?_) fun _ => ?_
    · exact .pure fun s htype => by simpa using htype
    · exact .pure fun _ _ => nofun
  refine .attempt_of .typedLet (Triple.weaken htyped (fun _ hs => hs) fun found s hs x hx => ?_) ?_
  · obtain ⟨hfound, hproper, hbegun⟩ := hs
    obtain ⟨hspan, hhas⟩ := hfound x hx
    refine ⟨nofun, fun y hy => ?_⟩
    cases hy
    exact ⟨hspan, hhas, hproper, hbegun⟩
  · exact fun s t hs _ hplace => ⟨fun _ => hplace.trans hs, nofun⟩

theorem enters_statement : (statement deep).Enters source Session.Has := by
  refine .cursor fun c => ?_
  split
  · exact .identifier fun hstart name => (has_binding h hstart).mono fun _ _ => nofun
  · refine Triple.bind (typedFrom_typedName? h) fun found => ?_
    split
    · rename_i name span type
      refine .extract (fun _ hs => hs.some _ rfl |>.1) fun hspan => ?_
      refine .extract (fun _ hs => hs.some _ rfl |>.2.2.1) fun hproper => ?_
      obtain rfl : span = c.span := hspan
      have hbound : ∀ s : Session, s.Has type → ∀ id ∈ some type, s.Has id := by simp
      exact (Triple.of_begun (has_binding h hproper)).weaken
        (fun s hs => ⟨hbound s (hs.some _ rfl).2.1, (hs.some _ rfl).2.2.2⟩)
        fun _ _ hs => ⟨hs.1, hproper, hs.2⟩
    · exact Triple.mono (h.expr _ c) fun _ hs => hs.none rfl
  · exact h.expr _ c

/-- The productions of every goal keep all spans right if the next level does. -/
theorem accurate_produce : (produce deep).Accurate source where
  statement := (enters_statement h).withUsage
  expr min := enters_expression h min
  pattern := enters_pattern h
  patternAtom := enters_patternAtom h

end Productions

theorem accurate_nested (d : Nat) : (nested d).Accurate source := by
  induction d with
  | zero => exact ⟨.refuse, fun _ => .refuse, .refuse, .refuse⟩
  | succ d ih => exact accurate_produce ih

end BendSyntax
