import BendSyntax.Proofs.Adjacency

/-! What follows an operand, patterns, case blocks and the constructs that begin with a keyword keep
the tree joined. Where a bracket is read behind a term, the term ends where the last token ends. -/

namespace BendSyntax

open Reading Grammar

/-- The readings of the next level keep the tree joined, and their terms end with their last token. -/
structure Deeper.Adjacent (source : String) (deep : Deeper) : Prop where
  statement : ∀ {place old}, deep.statement.Joins source place old
  expr : ∀ min {place old}, Triple (Session.Adjacent source place old) (fun _ => True) (deep.expr min)
    (Session.Ends old)
  pattern : ∀ {place old}, deep.pattern.Joins source place old
  patternAtom : ∀ {place old}, (deep .patternAtom : Reading PatternId).Joins source place old

variable {source : String} {place : Nat} {old : Tree} {deep : Deeper} {c : Cursor} {start : Span}
  {P : Session → Prop} {k : TokenKind} {head : TermId} {tight : Bool}

namespace Deeper.Adjacent

variable (h : deep.Adjacent source)

include h

theorem joins (min : Level) : (deep.expr min).Joins source place old := (h.expr min).forget

theorem inner : Triple (Session.Adjacent source place old) (fun _ => True) deep.inner
    (Session.Ends old) := h.expr _

theorem type : deep.type.Joins source place old := (h.joins _).withUsage

theorem term : deep.term.Joins source place old := (h.joins _).withUsage

theorem binderType : deep.binderType.Joins source place old := (h.joins _).within

end Deeper.Adjacent

theorem joins_binder {type : Reading TermId} (h : type.Joins source place old) :
    (binder type).Joins source place old :=
  Triple.identifier.bind fun _ => (Triple.expect _).bind fun _ => h.bind fun _ => .pure fun _ _ => trivial

theorem joins_literal (kind : TokenKind) : (literal kind).Joins source place old := by
  refine Triple.cursor.bind fun d => ?_
  split
  · exact .pure fun _ _ => trivial
  · exact .fail fun _ hs h => Steady.complain hs (congrArg Cursor.span h.1.symm)

section Productions

variable (h : deep.Adjacent source)

include h

/-! ## Patterns -/

theorem joins_parenthesised : (parenthesised deep start).Joins source place old := by
  refine Triple.advance.bind fun _ => (Triple.maintains_loop (fun acc => ?_) _).bind fun acc => ?_
  · refine (Triple.sees _).bind fun _ => .ite (fun _ => .pure fun _ _ => trivial) fun _ => ?_
    refine h.pattern.bind fun p => (Triple.accept _).bind fun _ => ?_
    exact .ite (fun _ => .pure fun _ _ => trivial) fun _ => .pure fun _ _ => trivial
  · refine (Triple.require _ _).bind fun _ => (Triple.expect _).bind fun _ => ?_
    split
    · exact .closePattern_joined
    · exact .closePattern_joined

theorem joins_constructorPattern : (constructorPattern deep start).Joins source place old := by
  refine Triple.advance.bind fun _ => Triple.identifier.bind fun _ => (Triple.accept _).bind fun _ =>
    .ite (fun _ => ?_) fun _ => .closePattern_joined
  exact (Triple.separated _ h.pattern).bind fun _ => (Triple.expect _).bind fun _ => .closePattern_joined

theorem joins_listPattern : (listPattern deep start).Joins source place old := by
  refine Triple.advance.bind fun _ => (Triple.accept _).bind fun _ =>
    .ite (fun _ => .closePattern_joined) fun _ => ?_
  exact (Triple.separated _ h.pattern).bind fun _ => (Triple.expect _).bind fun _ => .closePattern_joined

theorem joins_successor : (successor deep start).Joins source place old := by
  refine Triple.cursor.bind fun c => .anywhere ?_
  split
  · exact Triple.advance.bind fun _ => Triple.advance.bind fun _ => h.patternAtom.bind fun _ =>
      .closePattern_joined
  · exact Triple.fail fun _ hs _ => ⟨hs.cursor, hs.reached, hs.grown, hs.tree⟩

theorem joins_patternAtom : (patternAtom deep).Joins source place old := by
  refine Triple.cursor.bind fun c => .anywhere ?_
  have hliteral (kind : TokenKind) : (literalPattern c.span kind).Joins source place old :=
    (joins_literal kind).bind fun _ => Triple.advance.bind fun _ => .closePattern_joined
  dsimp only
  split
  · exact Triple.advance.bind fun _ => .closePattern_joined
  · exact .ite (fun _ => joins_successor h) fun _ => hliteral _
  any_goals exact hliteral _
  · exact joins_constructorPattern h
  · exact Triple.advance.bind fun _ => Triple.identifier.bind fun _ => .closePattern_joined
  · exact joins_parenthesised h
  · exact joins_listPattern h
  · exact .unexpected _

theorem joins_pattern : (pattern deep).Joins source place old := by
  refine Triple.here.bind fun start => (joins_patternAtom h).anywhere.bind fun head =>
    (Triple.accept _).bind fun _ => .ite (fun _ => ?_) fun _ => .pure fun _ _ => trivial
  exact h.pattern.bind fun _ => .closePattern_joined

/-! ## What follows an operand -/

theorem joins_callArgs : (callArgs deep).Joins source place old :=
  (Triple.separated _ h.inner.forget).delimited.bind fun _ => (Triple.expect _).bind fun _ =>
    .pure fun _ _ => trivial

theorem ends_call (hc : c.kind = .mark .leftParen) (htight : c.isTight = tight)
    (hstart : start.Passed place) :
    Triple (Session.Adjacent source place old)
      (fun s => s.cursor = c ∧ s.Ends old head ∧ (tight = false → s.tree.IsBare head))
      (call deep head start tight) (Session.Ends old) := by
  subst htight
  refine .standing (P := fun s => ∀ args, s.tree.Attaches source (.call head args c.isTight)) ?_ ?_
  · rintro s hs ⟨rfl, hhead, hbare⟩ args
    exact ⟨by simpa [Term.anchors] using hhead.lt, hhead.opens hs.cursor hc nofun nofun, hbare⟩
  · exact .attaching (fun _ _ => .advance) fun _ => .attaching (fun _ _ => joins_callArgs h)
      fun args => .close_joined hstart fun s hs => hs args

omit h in
/-- What closes type arguments behind the last of them. A `>>` is only read to its half. -/
theorem closes_closeAngle {last : TermId} : Triple (Session.Adjacent source place old)
    (Session.Ends old last) closeAngle fun _ s =>
      last.index < s.tree.terms.size ∧ 0 < s.cursor.last.stop ∧
        (s.cursor.split = false → ClosesAngle source (s.tree.span last).stop s.cursor.last.stop) := by
  refine Triple.kind_eq.bind fun k => ?_
  split
  · rintro setting s hs ⟨hkind, hlast⟩
    refine ⟨Invariant.advance hs, ?_⟩
    rintro _ t ⟨⟩
    have hstop : s.cursor.advance.last = s.cursor.span := s.cursor.last_advance
    refine ⟨hlast.lt, ?_, fun _ => ?_⟩
    · rw [hstop]
      exact hs.cursor.span_pos (by rw [hkind]; nofun)
    · rw [hstop, hlast.stop]
      exact hs.cursor.closesAngle hkind hlast.begun
  · rintro setting s hs ⟨hkind, hlast⟩
    refine ⟨Invariant.halve hs hkind, ?_⟩
    rintro _ t ⟨⟩
    exact ⟨hlast.lt, Nat.succ_pos _, nofun⟩
  · exact .unexpected _

theorem closes_typeArgs : Triple (Session.Adjacent source place old) P (typeArgs deep) fun args s =>
    ∃ last ∈ args.getLast?, last.index < s.tree.terms.size ∧ 0 < s.cursor.last.stop ∧
      (s.cursor.split = false → ClosesAngle source (s.tree.span last).stop s.cursor.last.stop) := by
  refine Triple.advance.bind fun _ => (Triple.commaList_last (h.expr _)).withUsage.delimited.bind
    fun args => ?_
  refine .extract (φ := ∃ last, last ∈ args.getLast?) (fun s hs => hs.imp fun _ h => h.1) ?_
  rintro ⟨last, hlast⟩
  refine Triple.bind (Triple.mono (P := Session.Ends old last) closes_closeAngle ?_)
    fun _ => .pure fun s hs => ⟨last, hlast, hs⟩
  rintro s ⟨a, ha, hends⟩
  rwa [Option.mem_unique hlast ha]

theorem joins_genericArgs : (genericArgs deep).Joins source place old := by
  refine (closes_typeArgs h).forget.bind fun args => Triple.cursor.bind fun c => .anywhere ?_
  refine .ite (fun _ => ?_) fun _ => ?_
  · exact Triple.advance.bind fun _ => (joins_callArgs h).bind fun _ => .pure fun _ _ => trivial
  · exact Triple.ask.bind fun _ => .ite (fun _ => .pure fun _ _ => trivial) fun _ =>
      .pure fun _ _ => trivial

/-- What has been read behind a head in angle brackets. If it has come to nothing, the head is still
the last term. -/
def Session.Applies (source : String) (old : Tree) (head : TermId) :
    Option (List TermId × Option (List TermId)) → Session → Prop
  | some (args, some values), s => s.tree.Attaches source (.genericCall head args values)
  | some (args, none), s => s.tree.Attaches source (.tyApp head args)
  | none, s => s.Ends old head

theorem applies_genericArgs (hc : c.kind = .mark .less) (htight : c.isTight = true) :
    Triple (Session.Adjacent source place old)
      (fun s => s.cursor = c ∧ s.Ends old head ∧ s.tree.IsBare head) (genericArgs deep)
      fun found s => ∀ a ∈ found, s.Applies source old head (some a) := by
  refine .standing (P := fun s => ∀ args, s.tree.Attaches source (.tyApp head args)) ?_ ?_
  · rintro s hs ⟨rfl, hhead, hbare⟩ args
    exact ⟨by simpa [Term.anchors] using hhead.lt, htight ▸ hhead.opens hs.cursor hc nofun nofun, hbare⟩
  refine Triple.bind (.keeping (K := fun t => ∀ args, t.Attaches source (.tyApp head args))
    (fun hgrown h args => (h args).grow hgrown) fun _ _ => closes_typeArgs h) fun args => ?_
  refine Triple.cursor.bind fun d => .ite (fun hd => ?_) fun _ => ?_
  · rw [Bool.and_eq_true, decide_eq_true_eq] at hd
    refine .standing (P := fun s => ∀ values, s.tree.Attaches source (.genericCall head args values)) ?_ ?_
    · rintro s hs ⟨rfl, ⟨last, hlast, hlt, hpos, hcloses⟩, happ⟩ values
      have hsplit := (hs.cursor.token_kind (by rw [hd.1]; nofun)).1
      have hopens := hs.cursor.opens hd.1 nofun nofun hpos
      rw [hd.2] at hopens
      refine ⟨?_, (happ args).adjoins, last, hlast, _, hcloses hsplit, hopens⟩
      have hhead := (happ args).known
      have hlast : args.getLast? = some last := hlast
      simpa [Term.anchors, hlast, hlt] using hhead
    · exact .attaching (fun _ _ => .advance) fun _ => .attaching (fun _ _ => joins_callArgs h)
        fun values => .pure fun s hs => by simpa [Session.Applies] using hs values
  · refine Triple.mono (P := fun s => ∀ args, s.tree.Attaches source (.tyApp head args)) ?_
      fun _ hs => hs.2.2
    refine .attaching (fun _ _ => .ask) fun s => .ite (fun _ => .pure fun _ _ => nofun) fun _ =>
      .pure fun s hs => ?_
    simpa [Session.Applies] using hs args

theorem ends_generic? (hc : c.kind = .mark .less) (htight : c.isTight = true)
    (hstart : start.Passed place) :
    Triple (Session.Adjacent source place old)
      (fun s => s.cursor = c ∧ s.Ends old head ∧ s.tree.IsBare head) (generic? deep head start)
      fun found s => (found = none → s.Ends old head) ∧ ∀ id ∈ found, s.Ends old id := by
  have hargs : Triple (Session.Adjacent source place old)
      (fun s => s.cursor = c ∧ s.Ends old head ∧ s.tree.IsBare head) (genericArgs? deep)
      (Session.Applies source old head) :=
    .attempt_ends .generic (fun _ _ => joins_genericArgs h) (applies_genericArgs h hc htight)
      (fun _ hs => hs.2.1) fun _ hs => hs
  have hsome {term : Term TermId PatternId} {Q : Session → Prop}
      (hQ : ∀ s, Q s → s.tree.Attaches source term) :
      Triple (Session.Adjacent source place old) Q (some <$> close start term)
        fun found s => (found = none → s.Ends old head) ∧ ∀ id ∈ found, s.Ends old id :=
    .map ((Triple.close_joined hstart hQ).weaken (fun _ hs => hs)
      fun _ _ hid => by simpa using hid)
  refine hargs.bind fun found => ?_
  split
  · exact hsome fun _ hs => hs
  · exact hsome fun _ hs => hs
  · exact .pure fun _ hs => ⟨fun _ => hs, nofun⟩

theorem joins_equality : (equality deep).Joins source place old := by
  have hsides : (equalitySides deep).Joins source place old := by
    refine (h.joins _).bind fun lhs => Triple.kind.bind fun k => ?_
    split
    · exact Triple.advance.bind fun _ => (h.joins _).bind fun _ => .pure fun _ _ => trivial
    · exact .pure fun _ _ => trivial
  refine Triple.advance.bind fun _ => hsides.withUsage.delimited.bind fun sides => ?_
  split
  · exact (Triple.accept _).bind fun _ => .ite (fun _ => .pure fun _ _ => trivial) fun _ =>
      .pure fun _ _ => trivial
  · exact .pure fun _ _ => trivial

omit h in
theorem joinsAt_refl (hc : c.kind = .mark .leftBrace) :
    refl.JoinsAt source place old c (Session.Ends old) :=
  .here <| .opening (by rw [hc]; nofun) fun _ hstart => Triple.advance.bind fun _ =>
    Triple.advance.bind fun _ => .close_free hstart rfl

theorem ends_braceSuffix (hc : c.kind = .mark .leftBrace) (htight : c.isTight = tight)
    (hstart : start.Passed place) :
    Triple (Session.Adjacent source place old) (fun s => s.cursor = c ∧ s.Ends old head)
      (braceSuffix deep head start tight) (Session.Ends old) := by
  subst htight
  refine Triple.cursor.bind fun d => .extract (fun _ hs => hs.1.symm.trans hs.2.1) fun hd => ?_
  subst hd
  refine .ite (fun _ => ?_) fun _ => ?_
  · exact ((joinsAt_refl hc).mono fun _ hs => hs.1).bind fun _ => .close_free hstart rfl
  refine .standing (P := fun s => ∀ args, s.tree.Attaches source (.implicit head args d.isTight)) ?_ ?_
  · rintro s hs ⟨-, rfl, hhead⟩ args
    exact ⟨by simpa [Term.anchors] using hhead.lt, hhead.opens hs.cursor hc nofun nofun⟩
  refine .attaching (fun _ _ => .attempt .equality (joins_equality h) trivial) fun sides => ?_
  split
  · exact .close_free hstart rfl
  · refine .attaching (fun _ _ => .expect _) fun _ => .attaching
      (fun _ _ => (Triple.separated _ h.inner.forget).withUsage.delimited.forget) fun args => ?_
    exact .attaching (fun _ _ => .expect _) fun _ => .close_joined hstart fun s hs => hs args

omit h in
theorem ends_more {r : Reading TermId}
    (h : Triple (Session.Adjacent source place old) P r (Session.Ends old)) :
    Triple (Session.Adjacent source place old) P (Round.more <$> r)
      (Round.Meets (Session.Ends old) (Session.Ends old)) :=
  .map (h.weaken (fun _ hs => hs) fun _ _ hid => ⟨hid, hid⟩)

omit h in
theorem isBare_bareName : Triple (Session.Adjacent source place old) P (bareName head) fun bare s =>
    (bare = true → s.tree.IsBare head) ∧ P s := by
  intro setting s hs hP
  refine ⟨hs, ?_⟩
  rintro _ t ⟨⟩
  exact ⟨Tree.isBare_of_isBareName, hP⟩

theorem ends_suffixRound (hstart : start.Passed place) :
    Triple (Session.Adjacent source place old) (Session.Ends old head) (suffixRound deep start head)
      (Round.Meets (Session.Ends old) (Session.Ends old)) := by
  refine Triple.cursor.bind fun c => .bind Preserves.asks fun s => ?_
  have hdone : Triple (Session.Adjacent source place old) (fun s => s.cursor = c ∧ s.Ends old head)
      (pure (Round.done head)) (Round.Meets (Session.Ends old) (Session.Ends old)) := .pure fun _ hs => hs.2
  refine .ite (fun _ => hdone) fun hgo => ?_
  have htight : c.isTight = true := by simp_all
  split
  · exact ends_more ((ends_call h ‹_› htight hstart).mono fun _ hs => ⟨hs.1, hs.2, nofun⟩)
  · refine isBare_bareName.bind fun bare => .ite (fun hbare => ?_) fun _ => hdone.mono fun _ hs => hs.2
    refine Triple.bind ((ends_generic? h ‹_› htight hstart).mono
      fun _ hs => ⟨hs.2.1, hs.2.2, hs.1 hbare⟩) fun found => ?_
    split
    · exact .pure fun _ hs => ⟨hs.2 _ rfl, hs.2 _ rfl⟩
    · exact .pure fun _ hs => hs.1 rfl
  · rename_i hkind
    refine .ite (fun _ => ?_) fun _ => hdone
    refine .standing (P := fun s => ∀ _ : Unit, s.tree.Attaches source (.listType head)) ?_ ?_
    · rintro s hs ⟨rfl, hhead⟩ _
      have hopens := hhead.opens hs.cursor hkind nofun nofun
      rw [htight] at hopens
      exact ⟨by simpa [Term.anchors] using hhead.lt, hopens⟩
    · exact .attaching (fun _ _ => .advance) fun _ => .attaching (fun _ _ => .advance) fun _ =>
        ends_more (.close_joined hstart fun s hs => hs ())
  · exact .ite (fun _ => ends_more (ends_braceSuffix h ‹_› htight hstart)) fun _ => hdone
  · exact hdone

theorem ends_suffixes (hstart : start.Passed place) :
    Triple (Session.Adjacent source place old) (Session.Ends old head) (suffixes deep start head)
      (Session.Ends old) :=
  Triple.loop (fun _ => ends_suffixRound h hstart) head

/-! ## Case blocks -/

theorem joins_supTag : (supTag deep).Joins source place old :=
  (Triple.expect _).bind fun _ => (h.joins _).within.bind fun _ => (Triple.expect _).bind fun _ =>
    (Triple.expect _).bind fun _ => (Triple.expect _).bind fun _ => .pure fun _ _ => trivial

theorem joins_caseTag (head : CaseHead) : (caseTag deep head).Joins source place old := by
  cases head with
  | sup => exact joins_supTag h
  | ctor =>
      exact Triple.advance.bind fun _ => Triple.identifier.bind fun _ => .pure fun _ _ => trivial
  | sym =>
      exact Triple.advance.bind fun _ => Triple.identifier.bind fun _ => .pure fun _ _ => trivial
  | _ => exact (Triple.skipTokens _).bind fun _ => .pure fun _ _ => trivial

theorem joins_blockCase (head : CaseHead) : (blockCase deep head).Joins source place old :=
  Triple.here.bind fun _ => (joins_caseTag h head).bind fun _ => (Triple.expect _).bind fun _ =>
    h.statement.bind fun _ => (Triple.accept _).bind fun _ => (Triple.since _).bind fun _ =>
      .pure fun _ _ => trivial

theorem joins_positionalCase (kind : BlockKind) (head : CaseHead) :
    (positionalCase deep kind head).Joins source place old :=
  Triple.ask.bind fun _ => .ite (fun _ => joins_blockCase h head) fun _ => .unexpected _

theorem joins_enumBlock : (enumBlock deep).Joins source place old := by
  refine (Triple.maintains_loop (fun cases => ?_) _).bind fun cases => (Triple.sees _).bind fun _ =>
    .ite (fun _ => .pure fun _ _ => trivial) fun _ => ?_
  · refine Triple.ask.bind fun c => ?_
    have hmore (head : CaseHead) :
        (do return Round.more (cases.push (← blockCase deep head))).Joins source place old :=
      (joins_blockCase h head).bind fun _ => .pure fun _ _ => trivial
    split
    · exact hmore _
    · exact hmore _
    · exact .pure fun _ _ => trivial
  · exact h.statement.bind fun _ => (Triple.accept _).bind fun _ => .pure fun _ _ => trivial

theorem joins_blockFrom (head : CaseHead) : (blockFrom deep head).Joins source place old := by
  have hsingle (kind : BlockKind) (head : CaseHead) :
      (singleBlock deep kind head).Joins source place old :=
    (joins_blockCase h head).bind fun _ => .pure fun _ _ => trivial
  have hpair (kind : BlockKind) (first second : CaseHead) :
      (positionalBlock deep kind first second).Joins source place old :=
    (joins_positionalCase h kind first).bind fun _ => (joins_positionalCase h kind second).bind
      fun _ => .pure fun _ _ => trivial
  cases head
  case unit | pair | refl | sup => exact hsingle _ _
  case ctor | sym => exact joins_enumBlock h
  all_goals exact hpair _ _ _

theorem joins_caseBlock : (caseBlock deep).Joins source place old := by
  have hlong : (atLongSupHead deep).Joins source place old :=
    .succeeds (fun _ _ _ _ _ => trivial) ((joins_supTag h).bind fun _ => (Triple.expect _))
  have hcases : (blockCases deep).Joins source place old := by
    refine Triple.ask.bind fun c => .ite (fun _ => .pure fun _ _ => trivial) fun _ => ?_
    split
    · exact joins_blockFrom h _
    · refine .ite (fun _ => hlong.bind fun _ => .ite (fun _ => joins_blockFrom h _) fun _ =>
        joins_enumBlock h) fun _ => ?_
      exact Triple.ask.bind fun _ => .ite (fun _ => joins_enumBlock h) fun _ => .unexpected _
  exact (Triple.expect _).bind fun _ => hcases.within.bind fun block => (Triple.expect _).bind fun _ =>
    .pure fun _ _ => trivial

/-! ## Binders -/

theorem joins_param : (param deep).Joins source place old := by
  refine Triple.cursor.bind fun c => .anywhere ?_
  split
  · refine Triple.advance.bind fun span => (Triple.accept _).bind fun _ =>
      .ite (fun _ => ?_) fun _ => .pure fun _ _ => trivial
    exact h.binderType.bind fun _ => .pure fun _ _ => trivial
  · refine Triple.advance.bind fun _ => .ite (fun _ => ?_) fun _ => ?_
    · exact (joins_binder h.type).delimited.bind fun b => (Triple.expect _).bind fun _ =>
        .pure fun _ _ => trivial
    · exact (Triple.separated (p := fun _ => True) _ h.pattern).delimited.bind fun _ =>
        (Triple.require _ _).bind fun _ => (Triple.expect _).bind fun _ => .pure fun _ _ => trivial
  · exact .unexpected _

theorem joinsAt_lambda (hc : c.kind = .word .lambda) :
    (lambda deep c.span).JoinsAt source place old c (Session.Ends old) := by
  refine .opening (by rw [hc]; nofun) fun _ hstart => (Triple.sees _).bind fun _ =>
    .ite (fun _ => ?_) fun _ => ?_
  · exact (joins_caseBlock h).bind fun _ => .close_free hstart rfl
  · refine (Triple.oneUpTo (p := fun _ => True) _ (joins_param h)).bind fun params => ?_
    exact (Triple.expect _).bind fun _ => h.statement.bind fun _ => .close_free hstart rfl

theorem joinsAt_fixedPoint (hc : c.kind = .word .mu) :
    (fixedPoint deep c.span).JoinsAt source place old c (Session.Ends old) :=
  .opening (by rw [hc]; nofun) fun _ hstart => Triple.identifier.bind fun _ =>
    (Triple.expect _).bind fun _ => h.statement.bind fun _ => .close_free hstart rfl

theorem joins_quantified : (quantified deep).Joins source place old :=
  (Triple.expect _).bind fun _ => (h.joins _).withUsage

theorem joinsAt_all (hc : c.kind = .word .all) :
    (Grammar.all deep c.span).JoinsAt source place old c (Session.Ends old) :=
  .opening (by rw [hc]; nofun) fun _ hstart =>
    (Triple.commaList (p := fun _ => True) (joins_binder h.binderType)).bind fun _ =>
      (joins_quantified h).anywhere.bind fun _ => .close_free hstart rfl

theorem joinsAt_any (hc : c.kind = .word .any) :
    (Grammar.any deep c.span).JoinsAt source place old c (Session.Ends old) :=
  .opening (by rw [hc]; nofun) fun _ hstart => (joins_binder h.binderType).bind fun _ =>
    (joins_quantified h).bind fun _ => .close_free hstart rfl

/-! ## Constructs that begin with a keyword -/

theorem joins_branch (keyword : Keyword) : (branch deep keyword).Joins source place old :=
  (Triple.expect _).bind fun _ => (Triple.expect _).bind fun _ => h.statement

theorem joinsAt_condition (hc : c.kind ≠ .eof) :
    (condition deep).JoinsAt source place old c fun _ _ => True :=
  .opening hc fun _ _ => h.term.bind fun _ => (Triple.expect _).bind fun _ =>
    h.statement.bind fun _ => .pure fun _ _ => trivial

theorem joinsAt_ifElse (hc : c.kind = .word .if_) :
    (ifElse deep c.span).JoinsAt source place old c (Session.Ends old) :=
  (joinsAt_condition h (by rw [hc]; nofun)).bind fun _ _ hstart => (joins_branch h _).bind fun _ =>
    .close_free hstart rfl

theorem joinsAt_fork (hc : c.kind = .word .fork) :
    (fork deep c.span).JoinsAt source place old c (Session.Ends old) := by
  refine (joinsAt_condition h (by rw [hc]; nofun)).bind fun _ _ hstart => ?_
  refine (Triple.collectWhile (p := fun _ => True) (.sees _) (joins_branch h _)).bind fun _ => ?_
  exact (joins_branch h _).anywhere.bind fun _ => .close_free hstart rfl

theorem joins_withClauses : (withClauses deep).Joins source place old := by
  have hclause : (withClause deep).Joins source place old := by
    refine Triple.identifier.bind fun x => (Triple.accept _).bind fun _ =>
      .ite (fun _ => ?_) fun _ => .pure fun _ _ => trivial
    exact (h.joins _).within.bind fun _ => .pure fun _ _ => trivial
  exact (Triple.expect _).bind fun _ => (Triple.collectThrough (p := fun _ => True) hclause
    (.sees _)).forget

theorem joins_matchCase : (matchCase deep).Joins source place old := by
  refine (Triple.expect _).bind fun start => ?_
  refine (Triple.oneUpTo (p := fun _ => True) _ h.pattern).bind fun patterns => ?_
  exact (Triple.expect _).bind fun _ => h.statement.bind fun _ => (Triple.accept _).bind fun _ =>
    (Triple.since _).bind fun _ => .pure fun _ _ => trivial

theorem joinsAt_matchOn (hc : c.kind = .word .match_) :
    (matchOn deep c.span).JoinsAt source place old c (Session.Ends old) := by
  refine .opening (by rw [hc]; nofun) fun _ hstart => ?_
  refine (Triple.oneUpTo (p := fun _ => True) _ (h.joins _)).within.bind fun _ => ?_
  refine (Triple.expect _).bind fun _ => ?_
  refine (Triple.collectWhile (p := fun _ => True) (.sees _) (joins_withClauses h)).bind fun _ => ?_
  refine (Triple.collectWhile (p := fun _ => True) (.sees _) (joins_matchCase h)).bind fun _ => ?_
  exact (Triple.require _ _).bind fun _ => .close_free hstart rfl

theorem joinsAt_useIn (hc : c.kind = .word .use) :
    (useIn deep c.span).JoinsAt source place old c (Session.Ends old) :=
  .opening (by rw [hc]; nofun) fun _ hstart => Triple.identifier.bind fun _ =>
    (Triple.expect _).bind fun _ => h.term.bind fun _ => (Triple.expect _).bind fun _ =>
      h.statement.bind fun _ => .close_free hstart rfl

theorem joinsAt_operandAndBody {term : TermId → TermId → Term TermId PatternId} (hc : c.kind ≠ .eof)
    (hterm : ∀ a b, (term a b).anchors = []) :
    (operandAndBody deep c.span term).JoinsAt source place old c (Session.Ends old) :=
  .opening hc fun _ hstart => (h.joins _).bind fun _ => (Triple.accept _).bind fun _ =>
    h.statement.bind fun _ => .close_free hstart (hterm _ _)

theorem joinsAt_before (min : Level) {term : TermId → Term TermId PatternId} (hc : c.kind ≠ .eof)
    (hterm : ∀ a, (term a).anchors = []) :
    (before deep c.span min term).JoinsAt source place old c (Session.Ends old) :=
  .opening hc fun _ hstart => (h.joins min).bind fun _ => .close_free hstart (hterm _)

theorem joinsAt_tilde (hc : c.kind = .mark .tilde) :
    (tilde deep c.span).JoinsAt source place old c (Session.Ends old) := by
  refine .opening (by rw [hc]; nofun) fun _ hstart => (h.joins _).within.bind fun _ => ?_
  refine Triple.ask.bind fun _ => Triple.ask.bind fun _ => .ite (fun _ => ?_) fun _ => ?_
  · exact (joins_caseBlock h).bind fun _ => .close_free hstart rfl
  · exact .close_free hstart rfl

end Productions

end BendSyntax
