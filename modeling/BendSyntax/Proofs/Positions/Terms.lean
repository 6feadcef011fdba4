import BendSyntax.Proofs.Positions

/-! Patterns, what follows an operand, case blocks and the constructs that begin with a keyword have
spans of the source. Each of them begins with a token, whose span is where the node begins. -/

namespace BendSyntax

open Reading Grammar

variable {source : List Char} {deep : Deeper} {c : Cursor} {start : Span} {P : Session → Prop}
  {k : TokenKind}

/-- Behind the first token, a reading keeps all spans right. -/
abbrev Reading.Accurate (source : List Char) {α : Type} (r : Reading α) : Prop :=
  Maintains (Session.Begun source) r

theorem Reading.Enters.accurate {α : Type} {r : Reading α} {Q : α → Session → Prop}
    (h : r.Enters source Q) : r.Accurate source :=
  h.begun.forget

/-- The readings of the next level keep all spans right, and begin with a token. -/
structure Deeper.Accurate (source : List Char) (deep : Deeper) : Prop where
  statement : deep.statement.Enters source Session.Has
  expr : ∀ min, (deep.expr min).Enters source Session.Has
  pattern : deep.pattern.Enters source fun _ _ => True
  patternAtom : (deep .patternAtom : Reading PatternId).Enters source fun _ _ => True

namespace Deeper.Accurate

variable (h : deep.Accurate source)

include h

theorem type : deep.type.Enters source Session.Has := (h.expr _).withUsage

theorem term : deep.term.Enters source Session.Has := (h.expr _).withUsage

theorem inner : deep.inner.Enters source Session.Has := h.expr _

theorem binderType : deep.binderType.Enters source Session.Has := (h.expr _).within

end Deeper.Accurate

theorem within_binder {type : Reading TermId} (h : type.Enters source Session.Has) :
    Triple (Session.Begun source) P (binder type) fun b _ => b.span.Within source :=
  Triple.identifier_within.begun.given fun _ hspan => (Triple.expect _).bind fun _ =>
    h.begun.bind fun _ => .pure fun _ _ => hspan

/-- Of a list, the spans of whose items are right, all spans are. -/
theorem within_map {α : Type} {as : List α} {span : α → Span}
    (h : ∀ a ∈ as, (span a).Within source) : ∀ s ∈ as.map span, s.Within source := by
  simpa using h

/-! ## Patterns -/

theorem enters_literal {β : Type} {f : Literal → Reading β} {R : β → Session → Prop}
    (kind : TokenKind) (hf : ∀ value, (f value).EntersAt source c R) :
    (literal kind >>= f).EntersAt source c R := by
  refine .stay (p := fun _ => True) ?_ fun value _ => hf value
  refine Triple.cursor_accurate.bind fun d => ?_
  split
  · exact .pure fun _ hs => ⟨trivial, hs.2.2⟩
  · exact .fail fun _ hs h => hs.report h.1.span_within

theorem enters_literalPattern (hc : c.kind = k) (hk : k ≠ .eof) :
    (literalPattern c.span k).EntersAt source c fun _ _ => True :=
  enters_literal k fun _ => .advance (hc ▸ hk) fun hstart => .closePattern_proper hstart

section Productions

variable (h : deep.Accurate source)

include h

theorem enters_parenthesised (hc : c.kind = .mark .leftParen) :
    (parenthesised deep c.span).EntersAt source c fun _ _ => True := by
  refine .advance (by rw [hc]; nofun) fun hstart => ?_
  refine (Triple.maintains_loop (fun acc => ?_) _).bind fun acc => ?_
  · refine (Triple.sees _).bind fun _ => .ite (fun _ => .pure fun _ _ => trivial) fun _ => ?_
    refine h.pattern.begun.bind fun p => (Triple.accept _).bind fun _ => ?_
    exact .ite (fun _ => .pure fun _ _ => trivial) fun _ => .pure fun _ _ => trivial
  · refine (Triple.require _ _).bind fun _ => (Triple.expect _).bind fun _ => ?_
    split
    · exact .closePattern_proper hstart
    · exact .closePattern_proper hstart

theorem enters_constructorPattern (hc : c.kind = .mark .atSign) :
    (constructorPattern deep c.span).EntersAt source c fun _ _ => True := by
  refine .advance (by rw [hc]; nofun) fun hstart => Triple.identifier.bind fun _ =>
    (Triple.accept _).bind fun _ => .ite (fun _ => ?_) fun _ => .closePattern_proper hstart
  exact (Triple.separated _ h.pattern.accurate).bind fun _ => (Triple.expect _).bind fun _ =>
    .closePattern_proper hstart

theorem enters_listPattern (hc : c.kind = .mark .leftBracket) :
    (listPattern deep c.span).EntersAt source c fun _ _ => True := by
  refine .advance (by rw [hc]; nofun) fun hstart => (Triple.accept _).bind fun _ =>
    .ite (fun _ => .closePattern_proper hstart) fun _ => ?_
  exact (Triple.separated _ h.pattern.accurate).bind fun _ => (Triple.expect _).bind fun _ =>
    .closePattern_proper hstart

theorem enters_successor (hc : c.kind = .nat) :
    (successor deep c.span).EntersAt source c fun _ _ => True := by
  refine .cursor ?_
  split
  · exact .advance (by rw [hc]; nofun) fun hstart => Triple.advance.bind fun _ =>
      h.patternAtom.begun.bind fun _ => .closePattern_proper hstart
  · rintro setting s hs rfl
    exact ⟨hs.report hs.cursor.span_within, fun _ _ ht => by cases ht⟩

theorem enters_patternAtom : (patternAtom deep).Enters source fun _ _ => True := by
  refine .cursor fun c => ?_
  dsimp only
  split
  · exact .advance (by simp_all) fun hstart => .closePattern_proper hstart
  · exact .ite (fun _ => enters_successor h ‹_›) fun _ => enters_literalPattern ‹_› nofun
  any_goals exact enters_literalPattern ‹_› nofun
  · exact enters_constructorPattern h ‹_›
  · exact .advance (by simp_all) fun hstart => Triple.identifier.bind fun _ =>
      .closePattern_proper hstart
  · exact enters_parenthesised h ‹_›
  · exact enters_listPattern h ‹_›
  · exact .unexpected _

theorem enters_pattern : (pattern deep).Enters source fun _ _ => True := by
  refine fun c => .here ?_
  refine (enters_patternAtom h c).bind fun head hstart => (Triple.accept _).bind fun _ =>
    .ite (fun _ => ?_) fun _ => .pure fun _ _ => trivial
  exact h.pattern.begun.bind fun _ => .closePattern_proper hstart

/-! ## What follows an operand -/

theorem accurate_callArgs : (callArgs deep).Accurate source :=
  (Triple.separated _ h.inner.accurate).delimited.bind fun _ => (Triple.expect _).bind fun _ =>
    .pure fun _ _ => trivial

theorem has_call {head : TermId} {tight : Bool} (hstart : start.Proper source) :
    Triple (Session.Begun source) P (call deep head start tight) Session.Has :=
  Triple.advance.bind fun _ => (accurate_callArgs h).bind fun _ => .close_proper hstart nofun

theorem accurate_typeArgs : (typeArgs deep).Accurate source :=
  Triple.advance.bind fun _ => (Triple.commaList (p := fun _ => True)
    (h.expr _).accurate).withUsage.delimited.bind fun _ => Triple.closeAngle.bind fun _ =>
      .pure fun _ _ => trivial

theorem accurate_genericArgs : (genericArgs deep).Accurate source := by
  refine (accurate_typeArgs h).bind fun args => Triple.cursor.bind fun c => .anywhere ?_
  refine .ite (fun _ => ?_) fun _ => ?_
  · exact Triple.advance.bind fun _ => (accurate_callArgs h).bind fun _ => .pure fun _ _ => trivial
  · exact Triple.ask.bind fun _ => .ite (fun _ => .pure fun _ _ => trivial) fun _ =>
      .pure fun _ _ => trivial

theorem has_generic? {head : TermId} (hstart : start.Proper source) :
    Triple (Session.Begun source) P (generic? deep head start)
      fun found s => ∀ id ∈ found, s.Has id := by
  have hargs : (genericArgs? deep).Accurate source :=
    .attempt .generic (accurate_genericArgs h) trivial
  have hsome {term : Term TermId PatternId} (hterm : term.spans = []) :
      Triple (Session.Begun source) (fun _ => True) (some <$> close start term)
        fun found s => ∀ id ∈ found, s.Has id :=
    .map ((Triple.close_proper hstart (by simp [hterm])).weaken (fun _ hs => hs)
      fun _ _ hid => by simpa using hid)
  refine hargs.anywhere.bind fun found => ?_
  split
  · exact hsome rfl
  · exact hsome rfl
  · exact .pure fun _ _ => nofun

theorem accurate_equality : (equality deep).Accurate source := by
  have hsides : (equalitySides deep).Accurate source := by
    refine (h.expr _).begun.bind fun lhs => Triple.kind.bind fun k => ?_
    split
    · exact Triple.advance.bind fun _ => (h.expr _).begun.bind fun _ => .pure fun _ _ => trivial
    · exact .pure fun _ _ => trivial
  refine Triple.advance.bind fun _ => hsides.withUsage.delimited.bind fun sides => ?_
  split
  · exact (Triple.accept _).bind fun _ => .ite (fun _ => .pure fun _ _ => trivial) fun _ =>
      .pure fun _ _ => trivial
  · exact .pure fun _ _ => trivial

omit h in
theorem enters_refl (hc : c.kind = .mark .leftBrace) : refl.EntersAt source c Session.Has :=
  .here <| .advance (by rw [hc]; nofun) fun hstart => Triple.advance.bind fun _ =>
    Triple.advance.bind fun _ => .close_proper hstart nofun

theorem has_braceSuffix {head : TermId} {tight : Bool} (hstart : start.Proper source) :
    Triple (Session.Begun source) P (braceSuffix deep head start tight) Session.Has := by
  refine Triple.cursor.bind fun c => .ite (fun hrefl => ?_) fun _ => ?_
  · have hkind : c.kind = .mark .leftBrace := by simp_all [Cursor.atRefl]
    exact ((Triple.begun (enters_refl hkind)).mono fun _ hs => hs.1).bind fun _ =>
      .close_proper hstart nofun
  · have hequality : (equality? deep).Accurate source :=
      .attempt .equality (accurate_equality h) trivial
    refine hequality.anywhere.bind fun sides => ?_
    split
    · exact .close_proper hstart nofun
    · refine (Triple.expect _).bind fun _ => ?_
      refine (Triple.separated _ h.inner.accurate).withUsage.delimited.bind fun _ => ?_
      exact (Triple.expect _).bind fun _ => .close_proper hstart nofun

omit h in
theorem has_more {r : Reading TermId} (h : Triple (Session.Begun source) P r Session.Has) :
    Triple (Session.Begun source) P (Round.more <$> r) (Round.Meets Session.Has Session.Has) :=
  .map (h.weaken (fun _ hs => hs) fun _ _ hid => ⟨hid, hid⟩)

theorem has_suffixes {head : TermId} (hstart : start.Proper source) :
    Triple (Session.Begun source) (Session.Has head) (suffixes deep start head) Session.Has := by
  refine Triple.loop (fun head => ?_) head
  have hdone : Triple (Session.Begun source) (Session.Has head) (pure (Round.done head))
      (Round.Meets Session.Has Session.Has) := .pure fun _ hid => hid
  refine .across (lasting_has head) Triple.ask fun c => .across (lasting_has head) Triple.ask fun s =>
    .ite (fun _ => hdone) fun _ => ?_
  split
  · exact has_more (has_call h hstart)
  · refine .across (lasting_has head) Triple.ask fun bare => .ite (fun _ => ?_) fun _ => hdone
    refine .acrossWith (lasting_has head) (has_generic? h hstart) fun found => ?_
    split
    · exact .pure fun _ hs => ⟨hs.1 _ rfl, hs.1 _ rfl⟩
    · exact .pure fun _ hs => hs.2
  · refine .ite (fun _ => ?_) fun _ => hdone
    exact Triple.advance.bind fun _ => Triple.advance.bind fun _ =>
      has_more (.close_proper hstart nofun)
  · exact .ite (fun _ => has_more (has_braceSuffix h hstart)) fun _ => hdone
  · exact hdone

/-! ## Case blocks -/

theorem accurate_supTag : (supTag deep).Accurate source :=
  (Triple.expect _).bind fun _ => (h.expr _).begun.within.bind fun _ => (Triple.expect _).bind fun _ =>
    (Triple.expect _).bind fun _ => (Triple.expect _).bind fun _ => .pure fun _ _ => trivial

theorem accurate_caseTag (head : CaseHead) : (caseTag deep head).Accurate source := by
  cases head with
  | sup => exact accurate_supTag h
  | ctor =>
      exact Triple.advance.bind fun _ => Triple.identifier.bind fun _ => .pure fun _ _ => trivial
  | sym =>
      exact Triple.advance.bind fun _ => Triple.identifier.bind fun _ => .pure fun _ _ => trivial
  | _ => exact (Triple.skipTokens _).bind fun _ => .pure fun _ _ => trivial

theorem within_blockCase (head : CaseHead) :
    Triple (Session.Begun source) P (blockCase deep head) fun b _ => b.span.Within source := by
  refine Triple.here_within.begun.given fun start hstart => (accurate_caseTag h head).bind fun _ => ?_
  refine (Triple.expect _).bind fun _ => h.statement.begun.bind fun _ => (Triple.accept _).bind fun _ => ?_
  exact (Triple.since_within hstart).given fun _ hspan => .pure fun _ _ => hspan

theorem within_positionalCase (kind : BlockKind) (head : CaseHead) :
    Triple (Session.Begun source) P (positionalCase deep kind head)
      fun b _ => b.span.Within source :=
  Triple.cursor.bind fun _ => .ite (fun _ => within_blockCase h head) fun _ => .unexpected _

theorem within_positionalBlock (kind : BlockKind) (first second : CaseHead) :
    Triple (Session.Begun source) P (positionalBlock deep kind first second)
      fun block _ => ∀ s ∈ block.spans, s.Within source :=
  (within_positionalCase h kind first).given fun a ha =>
    (within_positionalCase h kind second).given fun b hb =>
      .pure fun _ _ => by simpa [CaseBlock.spans] using ⟨ha, hb⟩

theorem within_singleBlock (kind : BlockKind) (head : CaseHead) :
    Triple (Session.Begun source) P (singleBlock deep kind head)
      fun block _ => ∀ s ∈ block.spans, s.Within source :=
  (within_blockCase h head).given fun a ha => .pure fun _ _ => by simpa [CaseBlock.spans] using ha

theorem within_enumBlock : Triple (Session.Begun source) P (enumBlock deep)
    fun block _ => ∀ s ∈ block.spans, s.Within source := by
  have hround (cases : Array (BlockCase TermId)) : Triple (Session.Begun source)
      (fun _ => ∀ b ∈ cases, b.span.Within source) (enumRound deep cases)
      (Round.Meets (fun cases _ => ∀ b ∈ cases, b.span.Within source)
        fun cases _ => ∀ b ∈ cases, b.span.Within source) := by
    refine .extract (fun _ hcases => hcases) fun hcases => Triple.cursor.bind fun c => ?_
    have hmore (head : CaseHead) : Triple (Session.Begun source) (fun _ => True)
        (do return .more (cases.push (← blockCase deep head)))
        (Round.Meets (fun cases _ => ∀ b ∈ cases, b.span.Within source)
          fun cases _ => ∀ b ∈ cases, b.span.Within source) :=
      (within_blockCase h head).given fun a ha => .pure fun _ _ => by
        have hpush : ∀ b ∈ cases.push a, b.span.Within source := by
          simpa [or_imp, forall_and] using ⟨hcases, ha⟩
        exact ⟨hpush, hpush⟩
    split
    · exact (hmore .ctor).anywhere
    · exact (hmore .sym).anywhere
    · exact .pure fun _ _ => hcases
  have hloop : Triple (Session.Begun source) (fun _ => True) (loop (enumRound deep) #[])
      fun cases _ => ∀ b ∈ cases, b.span.Within source :=
    (Triple.loop hround #[]).mono fun _ _ => by simp
  refine hloop.anywhere.given fun cases hcases => ?_
  have hspans : ∀ s ∈ cases.toList.map (·.span), s.Within source := by simpa using hcases
  refine (Triple.sees _).bind fun _ => .ite (fun _ => .pure fun _ _ => hspans) fun _ => ?_
  exact h.statement.begun.bind fun _ => (Triple.accept _).bind fun _ => .pure fun _ _ => hspans

theorem within_blockFrom (head : CaseHead) : Triple (Session.Begun source) P (blockFrom deep head)
    fun block _ => ∀ s ∈ block.spans, s.Within source := by
  cases head
  case unit | pair | refl | sup => exact within_singleBlock h _ _
  case ctor | sym => exact within_enumBlock h
  all_goals exact within_positionalBlock h _ _ _

theorem within_caseBlock : Triple (Session.Begun source) P (caseBlock deep)
    fun block _ => ∀ s ∈ block.spans, s.Within source := by
  have hlong : (atLongSupHead deep).Accurate source :=
    .succeeds (fun _ _ _ _ _ => trivial) ((accurate_supTag h).bind fun _ => (Triple.expect _))
  have hcases : Triple (Session.Begun source) (fun _ => True) (blockCases deep)
      fun block _ => ∀ s ∈ block.spans, s.Within source := by
    refine Triple.ask.bind fun c => .ite (fun _ => .pure fun _ _ => nofun) fun _ => ?_
    split
    · exact within_blockFrom h _
    · refine .ite (fun _ => hlong.bind fun _ => .ite (fun _ => within_blockFrom h _) fun _ =>
        within_enumBlock h) fun _ => ?_
      exact Triple.ask.bind fun _ => .ite (fun _ => within_enumBlock h) fun _ => .unexpected _
  refine (Triple.expect _).bind fun _ => hcases.within.given fun block hblock => ?_
  exact (Triple.expect _).bind fun _ => .pure fun _ _ => hblock

/-! ## Binders -/

theorem within_param : Triple (Session.Begun source) P (param deep)
    fun p _ => ∀ s ∈ p.spans, s.Within source := by
  refine Triple.cursor.bind fun c => .anywhere ?_
  split
  · refine Triple.advance_within.begun.given fun span hspan => (Triple.accept _).bind fun _ =>
      .ite (fun _ => ?_) fun _ => ?_
    · exact h.binderType.begun.bind fun _ => .pure fun _ _ => by simpa [Param.spans] using hspan
    · exact .pure fun _ _ => by simpa [Param.spans] using hspan
  · refine Triple.advance.bind fun _ => .ite (fun _ => ?_) fun _ => ?_
    · exact (within_binder h.type).delimited.given fun b hb => (Triple.expect _).bind fun _ =>
        .pure fun _ _ => by simpa [Param.spans] using hb
    · exact (Triple.separated _ h.pattern.accurate).delimited.bind fun _ =>
        (Triple.require _ _).bind fun _ => (Triple.expect _).bind fun _ => .pure fun _ _ => nofun
  · exact .unexpected _

theorem enters_lambda (hc : c.kind = .word .lambda) :
    (lambda deep c.span).EntersAt source c Session.Has := by
  refine .advance (by rw [hc]; nofun) fun hstart => (Triple.sees _).bind fun _ =>
    .ite (fun _ => ?_) fun _ => ?_
  · exact (within_caseBlock h).given fun _ hblock => .close_proper hstart hblock
  · refine (Triple.oneUpTo _ (within_param h)).given fun params hparams => ?_
    refine (Triple.expect _).bind fun _ => h.statement.begun.bind fun _ => .close_proper hstart ?_
    simpa [Term.spans] using fun s p hp hs => hparams.2 p hp s hs

theorem enters_fixedPoint (hc : c.kind = .word .mu) :
    (fixedPoint deep c.span).EntersAt source c Session.Has :=
  .advance (by rw [hc]; nofun) fun hstart => Triple.identifier.bind fun _ =>
    (Triple.expect _).bind fun _ => h.statement.begun.bind fun _ => .close_proper hstart nofun

theorem accurate_quantified : (quantified deep).Accurate source :=
  (Triple.expect _).bind fun _ => (h.expr _).begun.withUsage.forget

theorem enters_all (hc : c.kind = .word .all) :
    (Grammar.all deep c.span).EntersAt source c Session.Has :=
  .advance (by rw [hc]; nofun) fun hstart =>
    (Triple.commaList (within_binder h.binderType)).given fun _ hbinders =>
      (accurate_quantified h).bind fun _ => .close_proper hstart (within_map hbinders.2)

theorem enters_any (hc : c.kind = .word .any) :
    (Grammar.any deep c.span).EntersAt source c Session.Has :=
  .advance (by rw [hc]; nofun) fun hstart => (within_binder h.binderType).given fun _ hbound =>
    (accurate_quantified h).bind fun _ => .close_proper hstart (by simpa [Term.spans] using hbound)

/-! ## Constructs that begin with a keyword -/

theorem accurate_branch (keyword : Keyword) : (branch deep keyword).Accurate source :=
  (Triple.expect _).bind fun _ => (Triple.expect _).bind fun _ => h.statement.accurate

theorem enters_condition (hc : c.kind ≠ .eof) :
    (condition deep).EntersAt source c fun _ _ => True :=
  .advance hc fun _ => h.term.begun.bind fun _ => (Triple.expect _).bind fun _ =>
    h.statement.begun.bind fun _ => .pure fun _ _ => trivial

theorem enters_ifElse (hc : c.kind = .word .if_) :
    (ifElse deep c.span).EntersAt source c Session.Has :=
  (enters_condition h (by rw [hc]; nofun)).bind fun _ hstart => (accurate_branch h _).bind fun _ =>
    .close_proper hstart nofun

theorem enters_fork (hc : c.kind = .word .fork) : (fork deep c.span).EntersAt source c Session.Has := by
  refine (enters_condition h (by rw [hc]; nofun)).bind fun _ hstart => ?_
  refine (Triple.collectWhile (.sees _) (accurate_branch h _)).forget.bind fun _ => ?_
  exact (accurate_branch h _).bind fun _ => .close_proper hstart nofun

theorem within_withClauses : Triple (Session.Begun source) P (withClauses deep)
    fun ws _ => ∀ w ∈ ws, w.span.Within source := by
  have hclause : Triple (Session.Begun source) (fun _ => True) (withClause deep)
      fun w _ => w.span.Within source := by
    refine Triple.identifier_within.begun.given fun x hx => (Triple.accept _).bind fun _ =>
      .ite (fun _ => ?_) fun _ => .pure fun _ _ => hx
    exact (h.expr _).begun.within.bind fun _ => .pure fun _ _ => hx
  exact (Triple.expect _).bind fun _ => ((Triple.collectThrough hclause (.sees _)).weaken
    (fun _ _ => trivial) fun _ _ hs => hs.2)

theorem within_matchCase : Triple (Session.Begun source) P (matchCase deep)
    fun b _ => b.span.Within source := by
  refine (Triple.expect_within _).begun.given fun start hstart => ?_
  refine (Triple.oneUpTo (p := fun _ => True) _ h.pattern.accurate).bind fun patterns => ?_
  refine (Triple.expect _).bind fun _ => h.statement.begun.bind fun _ => (Triple.accept _).bind fun _ => ?_
  exact (Triple.since_within hstart).given fun _ hspan => .pure fun _ _ => hspan

theorem enters_matchOn (hc : c.kind = .word .match_) :
    (matchOn deep c.span).EntersAt source c Session.Has := by
  refine .advance (by rw [hc]; nofun) fun hstart => ?_
  refine (Triple.oneUpTo (p := fun _ => True) _ (h.expr _).accurate).within.bind fun _ => ?_
  refine (Triple.expect _).bind fun _ => ?_
  refine (Triple.collectWhile (.sees _) (within_withClauses h)).given fun withs hwiths => ?_
  refine (Triple.collectWhile (.sees _) (within_matchCase h)).given fun cases hcases => ?_
  refine (Triple.require _ _).bind fun _ => .close_proper hstart fun s hs => ?_
  rcases List.mem_append.mp hs with hs | hs
  · obtain ⟨w, hw, rfl⟩ := List.mem_map.mp hs
    obtain ⟨ws, hws, hw⟩ := List.mem_flatten.mp hw
    exact hwiths ws hws w hw
  · exact within_map hcases s hs

theorem enters_useIn (hc : c.kind = .word .use) : (useIn deep c.span).EntersAt source c Session.Has :=
  .advance (by rw [hc]; nofun) fun hstart => Triple.identifier.bind fun _ =>
    (Triple.expect _).bind fun _ => h.term.begun.bind fun _ => (Triple.expect _).bind fun _ =>
      h.statement.begun.bind fun _ => .close_proper hstart nofun

theorem enters_operandAndBody {term : TermId → TermId → Term TermId PatternId} (hc : c.kind ≠ .eof)
    (hterm : ∀ a b, (term a b).spans = []) :
    (operandAndBody deep c.span term).EntersAt source c Session.Has :=
  .advance hc fun hstart => (h.expr _).begun.bind fun _ => (Triple.accept _).bind fun _ =>
    h.statement.begun.bind fun _ => .close_proper hstart (by simp [hterm])

theorem enters_before (min : Level) {term : TermId → Term TermId PatternId} (hc : c.kind ≠ .eof)
    (hterm : ∀ a, (term a).spans = []) :
    (before deep c.span min term).EntersAt source c Session.Has :=
  .advance hc fun hstart => (h.expr min).begun.bind fun _ =>
    .close_proper hstart (by simp [hterm])

theorem enters_tilde (hc : c.kind = .mark .tilde) :
    (tilde deep c.span).EntersAt source c Session.Has := by
  refine .advance (by rw [hc]; nofun) fun hstart => (h.expr _).begun.within.bind fun _ => ?_
  refine Triple.ask.bind fun _ => Triple.ask.bind fun _ => .ite (fun _ => ?_) fun _ => ?_
  · exact (within_caseBlock h).given fun _ hblock => .close_proper hstart hblock
  · exact .close_proper hstart nofun

end Productions

end BendSyntax
