import BendSyntax.Proofs.Spelling

/-! Patterns, what follows an operand, case blocks and the constructs that begin with a keyword keep trees
spelled. -/

namespace BendSyntax

open Reading Grammar

/-- The readings of the next level keep trees spelled. -/
structure Deeper.Spelling (deep : Deeper) : Prop where
  statement : deep.statement.Spells
  expr : ∀ min, (deep.expr min).Spells
  pattern : deep.pattern.Spells
  patternAtom : (deep .patternAtom : Reading PatternId).Spells

variable {deep : Deeper} {start : Span} {P : Session → Prop}

namespace Deeper.Spelling

variable (h : deep.Spelling)

include h

theorem type : deep.type.Spells := (h.expr _).withUsage

theorem term : deep.term.Spells := (h.expr _).withUsage

theorem inner : deep.inner.Spells := h.expr _

theorem binderType : deep.binderType.Spells := (h.expr _).within

end Deeper.Spelling

/-! ## Patterns -/

theorem named_binder {type : Reading TermId} (h : type.Spells) :
    Triple Session.Spelled P (binder type) fun b _ => IsIdentifier b.name :=
  Triple.name.given fun _ hname => (Triple.expect _).bind fun _ => h.bind fun _ => .pure fun _ _ => hname

theorem normal_literal (kind : TokenKind) : Triple Session.Spelled P (literal kind) fun value _ => value.Normal := by
  refine Triple.cursor.bind fun c => ?_
  split
  · rename_i value hvalue
    exact .pure fun _ _ => Literal.normal_of_ofLexeme? hvalue
  · exact .failsSpelled _

theorem spells_literalPattern (kind : TokenKind) : (literalPattern start kind).Spells :=
  (normal_literal kind).given fun _ hvalue => Triple.advance.bind fun _ => .closePatternSpelled hvalue

section Productions

variable (h : deep.Spelling)

include h

theorem spells_parenthesised : (parenthesised deep start).Spells := by
  refine Triple.advance.bind fun _ => ?_
  refine (Triple.maintains_loop (fun acc => ?_) _).bind fun acc => ?_
  · obtain ⟨items, comma⟩ := acc
    refine (Triple.sees _).bind fun _ => .ite (fun _ => .pure fun _ _ => trivial) fun _ => ?_
    refine h.pattern.bind fun p => (Triple.accept _).bind fun _ => ?_
    exact .ite (fun _ => .pure fun _ _ => trivial) fun _ => .pure fun _ _ => trivial
  · obtain ⟨items, comma⟩ := acc
    refine (Triple.require _ _).bind fun _ => (Triple.expect _).bind fun _ => ?_
    split
    · exact .closePatternSpelled trivial
    · exact .closePatternSpelled trivial

theorem spells_constructorPattern : (constructorPattern deep start).Spells := by
  refine Triple.advance.bind fun _ => Triple.name.given fun _ hname => (Triple.accept _).bind fun _ => ?_
  refine .ite (fun _ => ?_) fun _ => .closePatternSpelled hname
  exact (Triple.separated _ h.pattern).bind fun _ => (Triple.expect _).bind fun _ => .closePatternSpelled hname

theorem spells_listPattern : (listPattern deep start).Spells := by
  refine Triple.advance.bind fun _ => (Triple.accept _).bind fun _ => ?_
  refine .ite (fun _ => .closePatternSpelled trivial) fun _ => ?_
  exact (Triple.separated _ h.pattern).bind fun _ => (Triple.expect _).bind fun _ => .closePatternSpelled trivial

theorem spells_successor : (successor deep start).Spells := by
  refine Triple.cursor.bind fun c => ?_
  split
  · exact Triple.advance.bind fun _ => Triple.advance.bind fun _ => h.patternAtom.bind fun _ =>
      .closePatternSpelled trivial
  · exact .failsSpelled _

theorem spells_patternAtom : Triple Session.Spelled P (patternAtom deep) fun _ _ => True := by
  refine Triple.named.given fun c hc => ?_
  dsimp only
  split
  · rename_i hkind
    exact Triple.advance.bind fun _ => .closePatternSpelled (hc hkind)
  · exact .ite (fun _ => spells_successor h) fun _ => spells_literalPattern _
  any_goals exact spells_literalPattern _
  · exact spells_constructorPattern h
  · exact Triple.advance.bind fun _ => Triple.name.given fun _ hname => .closePatternSpelled hname
  · exact spells_parenthesised h
  · exact spells_listPattern h
  · exact .unexpected _

theorem spells_pattern : (pattern deep).Spells := by
  refine Triple.here.bind fun start => (spells_patternAtom h).bind fun head => (Triple.accept _).bind fun _ => ?_
  refine .ite (fun _ => ?_) fun _ => .pure fun _ _ => trivial
  exact h.pattern.bind fun tail => .closePatternSpelled trivial

/-! ## What follows an operand -/

theorem spells_callArgs : (callArgs deep).Spells :=
  (Triple.separated _ h.inner).delimited.bind fun _ => (Triple.expect _).bind fun _ => .pure fun _ _ => trivial

theorem spells_call {head : TermId} {tight : Bool} :
    Triple Session.Spelled P (call deep head start tight) fun _ _ => True :=
  Triple.advance.bind fun _ => (spells_callArgs h).bind fun _ => .closeSpelled trivial

theorem some_typeArgsSpelled : Triple Session.Spelled P (typeArgs deep) fun args _ => args ≠ [] := by
  refine Triple.advance.bind fun _ => ?_
  refine (Triple.commaList (h.expr _)).withUsage.delimited.given fun args hargs => ?_
  exact Triple.closeAngle.bind fun _ => .pure fun _ _ => hargs.1

theorem some_genericArgsSpelled : Triple Session.Spelled P (genericArgs? deep)
    fun found _ => ∀ args values, found = some (args, values) → args ≠ [] := by
  refine .attempt .generic ?_ nofun
  refine (some_typeArgsSpelled h).given fun args hargs => Triple.cursor.bind fun c => .anywhere ?_
  have hanswer (values : Option (List TermId)) (args' : List TermId) (values' : Option (List TermId))
      (heq : some (args, values) = some (args', values')) : args' ≠ [] := by
    cases heq
    exact hargs
  refine .ite (fun _ => ?_) fun _ => ?_
  · exact Triple.advance.bind fun _ => (spells_callArgs h).bind fun values => .pure fun _ _ => hanswer _
  · exact Triple.ask.bind fun s => .ite (fun _ => .pure fun _ _ => nofun) fun _ => .pure fun _ _ => hanswer _

theorem spells_generic? {head : TermId} : Triple Session.Spelled P (generic? deep head start) fun _ _ => True := by
  refine (some_genericArgsSpelled h).given fun found hfound => ?_
  split
  · exact .map (.closeSpelled (hfound _ _ rfl))
  · exact .map (.closeSpelled trivial)
  · exact .pure fun _ _ => trivial

theorem spells_equalitySides : (equalitySides deep).Spells := by
  refine (h.expr _).bind fun lhs => Triple.kind.bind fun k => ?_
  split
  · exact Triple.advance.bind fun _ => (h.expr _).bind fun rhs => .pure fun _ _ => trivial
  · exact .pure fun _ _ => trivial

theorem spells_equality : (equality deep).Spells := by
  refine Triple.advance.bind fun _ => (spells_equalitySides h).withUsage.delimited.bind fun sides => ?_
  split
  · exact (Triple.accept _).bind fun _ => .ite (fun _ => .pure fun _ _ => trivial) fun _ => .pure fun _ _ => trivial
  · exact .pure fun _ _ => trivial

omit h in
theorem spells_refl : Triple Session.Spelled P Grammar.refl fun _ _ => True :=
  Triple.here.bind fun _ => Triple.advance.bind fun _ => Triple.advance.bind fun _ => Triple.advance.bind fun _ =>
    .closeSpelled trivial

theorem spells_braceSuffix {head : TermId} {tight : Bool} : (braceSuffix deep head start tight).Spells := by
  refine Triple.cursor.bind fun c => .ite (fun _ => ?_) fun _ => ?_
  · exact spells_refl.bind fun arg => .closeSpelled trivial
  · have hequality : (equality? deep).Spells := .attempt .equality (spells_equality h) trivial
    refine hequality.anywhere.bind fun sides => ?_
    split
    · exact .closeSpelled trivial
    · refine (Triple.expect _).bind fun _ => (Triple.separated _ h.inner).withUsage.delimited.bind fun args => ?_
      exact (Triple.expect _).bind fun _ => .closeSpelled trivial

theorem spells_suffixRound (head : TermId) : (suffixRound deep start head).Spells := by
  have hdone : (pure (Round.done head) : Reading _).Spells := .pure fun _ _ => trivial
  refine Triple.ask.bind fun c => Triple.ask.bind fun s => .ite (fun _ => hdone) fun _ => ?_
  split
  · exact .map (spells_call h)
  · refine Triple.ask.bind fun bare => .ite (fun _ => (spells_generic? h).bind fun found => ?_) fun _ => hdone
    split
    · exact .pure fun _ _ => trivial
    · exact hdone
  · refine .ite (fun _ => ?_) fun _ => hdone
    exact Triple.advance.bind fun _ => Triple.advance.bind fun _ => .map (.closeSpelled trivial)
  · exact .ite (fun _ => .map (spells_braceSuffix h)) fun _ => hdone
  · exact hdone

theorem spells_suffixes {head : TermId} : (suffixes deep start head).Spells :=
  .maintains_loop (spells_suffixRound h) head

/-! ## Case blocks -/

theorem spelled_supTag : Triple Session.Spelled P (supTag deep) fun tag _ => tag.Spelled := by
  refine (Triple.expect _).bind fun _ => (h.expr _).within.bind fun label => ?_
  refine (Triple.expect _).bind fun _ => (Triple.expect _).bind fun _ => (Triple.expect _).bind fun _ => ?_
  exact .pure fun _ _ => trivial

theorem spelled_caseTag (head : CaseHead) :
    Triple Session.Spelled P (caseTag deep head) fun tag _ => tag.Spelled := by
  cases head with
  | sup => exact spelled_supTag h
  | ctor => exact Triple.advance.bind fun _ => Triple.name.given fun _ hname => .pure fun _ _ => hname
  | sym => exact Triple.advance.bind fun _ => Triple.name.given fun _ hname => .pure fun _ _ => hname
  | _ => exact (Triple.skipTokens _).bind fun _ => .pure fun _ _ => trivial

theorem spelled_blockCase (head : CaseHead) :
    Triple Session.Spelled P (blockCase deep head) fun c _ => c.tag.Spelled := by
  refine Triple.here.bind fun start => (spelled_caseTag h head).given fun tag htag => ?_
  refine (Triple.expect _).bind fun _ => h.statement.bind fun body => ?_
  exact (Triple.accept _).bind fun _ => (Triple.since _).bind fun _ => .pure fun _ _ => htag

theorem spelled_positionalCase (kind : BlockKind) (head : CaseHead) :
    Triple Session.Spelled P (positionalCase deep kind head) fun c _ => c.tag.Spelled :=
  Triple.cursor.bind fun _ => .ite (fun _ => spelled_blockCase h head) fun _ => .unexpected _

theorem spelled_positionalBlock (kind : BlockKind) (first second : CaseHead) :
    Triple Session.Spelled P (positionalBlock deep kind first second) fun block _ => block.Spelled := by
  refine (spelled_positionalCase h kind first).given fun a ha => ?_
  refine (spelled_positionalCase h kind second).given fun b hb => .pure fun _ _ => ?_
  simpa [CaseBlock.Spelled] using ⟨ha, hb⟩

theorem spelled_singleBlock (kind : BlockKind) (head : CaseHead) :
    Triple Session.Spelled P (singleBlock deep kind head) fun block _ => block.Spelled :=
  (spelled_blockCase h head).given fun a ha => .pure fun _ _ => by simpa [CaseBlock.Spelled] using ha

theorem spelled_enumRound (cases : Array (BlockCase TermId)) :
    Triple Session.Spelled (fun _ => ∀ c ∈ cases, c.tag.Spelled) (enumRound deep cases)
      (Round.Meets (fun cases _ => ∀ c ∈ cases, c.tag.Spelled) fun cases _ => ∀ c ∈ cases, c.tag.Spelled) := by
  have hcase (head : CaseHead) (hcases : ∀ c ∈ cases, c.tag.Spelled) :
      Triple Session.Spelled (fun _ => True) (do return .more (cases.push (← blockCase deep head)))
        (Round.Meets (fun cases _ => ∀ c ∈ cases, c.tag.Spelled) fun cases _ => ∀ c ∈ cases, c.tag.Spelled) := by
    refine (spelled_blockCase h head).given fun a ha => .pure fun s _ => ?_
    have hpush : ∀ c ∈ cases.push a, c.tag.Spelled := by simpa [or_imp, forall_and] using ⟨hcases, ha⟩
    exact ⟨hpush, hpush⟩
  refine .extract (fun _ hcases => hcases) fun hcases => Triple.cursor.bind fun c => ?_
  split
  · exact (hcase .ctor hcases).anywhere
  · exact (hcase .sym hcases).anywhere
  · exact .pure fun _ _ => hcases

theorem spelled_enumBlock : Triple Session.Spelled P (enumBlock deep) fun block _ => block.Spelled := by
  have hloop : Triple Session.Spelled P (loop (enumRound deep) #[]) fun cases _ => ∀ c ∈ cases, c.tag.Spelled :=
    (Triple.loop (spelled_enumRound h) #[]).mono fun _ _ => by simp
  refine hloop.given fun cases hcases => (Triple.sees _).bind fun _ => ?_
  refine .ite (fun _ => .pure fun _ _ => ?_) fun _ => h.statement.bind fun body => (Triple.accept _).bind fun _ =>
    .pure fun _ _ => ?_
  · simpa [CaseBlock.Spelled] using hcases
  · simpa [CaseBlock.Spelled] using hcases

theorem spelled_blockFrom (head : CaseHead) :
    Triple Session.Spelled P (blockFrom deep head) fun block _ => block.Spelled := by
  cases head with
  | unit | pair | refl | sup => all_goals exact spelled_singleBlock h _ _
  | ctor | sym => all_goals exact spelled_enumBlock h
  | _ => exact spelled_positionalBlock h _ _ _

theorem spells_atLongSupHead : Triple Session.Spelled P (atLongSupHead deep) fun _ _ => True :=
  (Triple.succeeds (K := fun _ => True) (fun _ _ _ _ _ => trivial)
    ((spelled_supTag h).forget.bind fun _ => .expect _)).anywhere

theorem spelled_blockCases : Triple Session.Spelled P (blockCases deep) fun block _ => block.Spelled := by
  refine Triple.cursor.bind fun c => .anywhere ?_
  refine .ite (fun _ => .pure fun _ _ => by simp [CaseBlock.Spelled]) fun _ => ?_
  split
  · exact spelled_blockFrom h _
  · refine .ite (fun _ => ?_) fun _ => Triple.ask.bind fun _ => ?_
    · exact (spells_atLongSupHead h).bind fun _ => .ite (fun _ => spelled_blockFrom h _) fun _ => spelled_enumBlock h
    · exact .ite (fun _ => spelled_enumBlock h) fun _ => .unexpected _

theorem spelled_caseBlock : Triple Session.Spelled P (caseBlock deep) fun block _ => block.Spelled := by
  refine (Triple.expect _).bind fun _ => (spelled_blockCases h).within.given fun block hblock => ?_
  exact (Triple.expect _).bind fun _ => .pure fun _ _ => hblock

/-! ## Constructs that bind names -/

theorem spelled_param : Triple Session.Spelled P (param deep) fun p _ => p.Spelled := by
  refine Triple.named.given fun c hc => ?_
  split
  · rename_i hkind
    refine Triple.advance.bind fun span => (Triple.accept _).bind fun _ => .ite (fun _ => ?_) fun _ => ?_
    · exact h.binderType.bind fun _ => .pure fun _ _ => hc hkind
    · exact .pure fun _ _ => hc hkind
  · refine Triple.advance.bind fun _ => .ite (fun _ => ?_) fun _ => ?_
    · exact (named_binder h.type).delimited.given fun _ hname => (Triple.expect _).bind fun _ =>
        .pure fun _ _ => hname
    · refine (Triple.separated _ h.pattern).delimited.bind fun patterns => ?_
      exact (Triple.require _ _).bind fun _ => (Triple.expect _).bind fun _ => .pure fun _ _ => trivial
  · exact .unexpected _

theorem spells_lambda : (lambda deep start).Spells := by
  refine Triple.advance.bind fun _ => (Triple.sees _).bind fun _ => .ite (fun _ => ?_) fun _ => ?_
  · exact (spelled_caseBlock h).given fun block hblock => .closeSpelled hblock
  · refine (Triple.oneUpTo _ (spelled_param h)).given fun params hparams => ?_
    exact (Triple.expect _).bind fun _ => h.statement.bind fun body => .closeSpelled hparams.2

theorem spells_fixedPoint : (fixedPoint deep start).Spells :=
  Triple.advance.bind fun _ => Triple.name.given fun _ hname => (Triple.expect _).bind fun _ =>
    h.statement.bind fun _ => .closeSpelled hname

theorem spells_quantified : (quantified deep).Spells := (Triple.expect _).bind fun _ => (h.expr _).withUsage

theorem spells_all : (Grammar.all deep start).Spells := by
  refine Triple.advance.bind fun _ => (Triple.commaList (named_binder h.binderType)).given fun binders hbinders => ?_
  exact (spells_quantified h).bind fun body => .closeSpelled hbinders.2

theorem spells_any : (Grammar.any deep start).Spells :=
  Triple.advance.bind fun _ => (named_binder h.binderType).given fun _ hname =>
    (spells_quantified h).bind fun _ => .closeSpelled hname

/-! ## Constructs that begin with a keyword -/

theorem spells_branch (keyword : Keyword) : (branch deep keyword).Spells :=
  (Triple.expect _).bind fun _ => (Triple.expect _).bind fun _ => h.statement

theorem spells_condition : (condition deep).Spells :=
  Triple.advance.bind fun _ => h.term.bind fun _ => (Triple.expect _).bind fun _ =>
    h.statement.bind fun _ => .pure fun _ _ => trivial

theorem spells_ifElse : (ifElse deep start).Spells :=
  (spells_condition h).bind fun _ => (spells_branch h _).bind fun _ => .closeSpelled trivial

theorem spells_fork : (fork deep start).Spells := by
  refine (spells_condition h).bind fun _ => ?_
  refine (Triple.collectWhile (.sees _) (spells_branch h _)).forget.bind fun elifs => ?_
  exact (spells_branch h _).bind fun _ => .closeSpelled trivial

theorem named_withClause : Triple Session.Spelled P (withClause deep) fun w _ => IsIdentifier w.name := by
  refine Triple.name.given fun _ hname => (Triple.accept _).bind fun _ =>
    .ite (fun _ => ?_) fun _ => .pure fun _ _ => hname
  exact (h.expr _).within.bind fun _ => .pure fun _ _ => hname

theorem named_withClauses : Triple Session.Spelled P (withClauses deep) fun ws _ => ∀ w ∈ ws, IsIdentifier w.name :=
  (Triple.expect _).bind fun _ =>
    (Triple.collectThrough (named_withClause h) (.sees _)).weaken (fun _ hP => hP) fun _ _ hws => hws.2

theorem spells_matchCase : (matchCase deep).Spells := by
  refine (Triple.expect _).bind fun start => (Triple.oneUpTo _ h.pattern).forget.bind fun patterns => ?_
  refine (Triple.expect _).bind fun _ => h.statement.bind fun body => ?_
  exact (Triple.accept _).bind fun _ => (Triple.since _).bind fun _ => .pure fun _ _ => trivial

theorem spells_matchOn : (matchOn deep start).Spells := by
  refine Triple.advance.bind fun _ => (Triple.oneUpTo _ (h.expr _)).within.forget.bind fun scrutinees => ?_
  refine (Triple.expect _).bind fun _ => ?_
  refine (Triple.collectWhile (.sees _) (named_withClauses h)).given fun withs hwiths => ?_
  refine (Triple.collectWhile (.sees _) (spells_matchCase h)).forget.bind fun cases => ?_
  refine (Triple.require _ _).bind fun _ => .closeSpelled fun w hw => ?_
  obtain ⟨ws, hws, hmem⟩ := List.mem_flatten.mp hw
  exact hwiths ws hws w hmem

theorem spells_useIn : (useIn deep start).Spells :=
  Triple.advance.bind fun _ => Triple.name.given fun _ hname => (Triple.expect _).bind fun _ =>
    h.term.bind fun _ => (Triple.expect _).bind fun _ => h.statement.bind fun _ => .closeSpelled hname

theorem spells_operandAndBody {term : TermId → TermId → Term TermId PatternId} (hterm : ∀ a b, (term a b).Spelled) :
    (operandAndBody deep start term).Spells := by
  refine Triple.advance.bind fun _ => (h.expr _).bind fun first => ?_
  exact (Triple.accept _).bind fun _ => h.statement.bind fun body => .closeSpelled (hterm _ _)

theorem spells_before (min : Level) {term : TermId → Term TermId PatternId} (hterm : ∀ a, (term a).Spelled) :
    (before deep start min term).Spells :=
  Triple.advance.bind fun _ => (h.expr min).bind fun _ => .closeSpelled (hterm _)

theorem spells_tilde : (tilde deep start).Spells := by
  refine Triple.advance.bind fun _ => (h.expr _).within.bind fun scrutinee => ?_
  refine Triple.ask.bind fun s => Triple.ask.bind fun c => .ite (fun _ => ?_) fun _ => ?_
  · exact (spelled_caseBlock h).given fun block hblock => .closeSpelled hblock
  · exact .closeSpelled trivial

end Productions

end BendSyntax
