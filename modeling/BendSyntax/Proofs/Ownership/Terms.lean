import BendSyntax.Proofs.Ownership

/-! What the productions of terms and patterns own. Every production adds the nodes of its
answer and takes over the nodes that are given to it. -/

namespace BendSyntax

open Reading Grammar Owner

def Goal.held : (g : Goal) → g.Result → Multiset Ref
  | .statement => fun id : TermId => Owner.held id
  | .expr _ => fun id : TermId => Owner.held id
  | .pattern => fun id : PatternId => Owner.held id
  | .patternAtom => fun id : PatternId => Owner.held id

/-- The readings of the next level add the nodes of their answers. -/
def Deeper.Yields (config : Config) (deep : Deeper) : Prop :=
  ∀ g, Owns config 0 (deep g) g.held

variable {config : Config} {deep : Deeper} {start : Span}

namespace Deeper.Yields

variable (h : deep.Yields config)

include h

theorem statement : BendSyntax.Yields config deep.statement := h .statement

theorem expr (min : Level) : BendSyntax.Yields config (deep.expr min) := h (.expr min)

theorem pattern : BendSyntax.Yields config deep.pattern := h .pattern

theorem patternAtom : BendSyntax.Yields config (deep .patternAtom) := h .patternAtom

theorem type : BendSyntax.Yields config deep.type := (h.expr _).withUsage

theorem term : BendSyntax.Yields config deep.term := (h.expr _).withUsage

theorem inner : BendSyntax.Yields config deep.inner := h.expr _

theorem binderType : BendSyntax.Yields config deep.binderType := (h.expr _).within

end Deeper.Yields

theorem yields_binder {type : Reading TermId} (h : Yields config type) :
    Yields config (binder type) :=
  idle_identifier.skip fun _ => (idle_expect _).skip fun _ => h.map fun _ => rfl

section Productions

variable (h : deep.Yields config)

include h

/-! ## Patterns -/

omit h in
theorem idle_literal (kind : TokenKind) : Idle config (literal kind) := by
  refine idle_cursor.bind fun c => ?_
  split
  · exact idle_pure _
  · exact .fail _

theorem yields_parenthesised : Yields config (parenthesised deep start) := by
  refine idle_advance.skip fun _ => ?_
  refine (owns_loop (o := fun acc : Array PatternId × Bool => held acc.1) (fun acc => ?_)
    (#[], false)).seq fun acc => ?_
  · refine (idle_sees _).skip fun b => .ite (fun _ => .pure rfl) fun _ => ?_
    refine h.pattern.bind fun p => (idle_accept _).skip fun b => .ite (fun _ => ?_) fun _ => ?_
    · exact .pure (held_push acc.1 p).symm
    · exact .pure (held_push acc.1 p).symm
  · refine (idle_require _ _).skip fun _ => (idle_expect _).skip fun _ => ?_
    split
    · exact owns_closePattern (by simp_all [held, refs, Pattern.children])
    · exact owns_closePattern rfl

theorem yields_constructorPattern : Yields config (constructorPattern deep start) := by
  refine idle_advance.skip fun _ => idle_identifier.skip fun _ => (idle_accept _).skip fun b => ?_
  refine .ite (fun _ => ?_) fun _ => owns_closePattern rfl
  refine (yields_separated _ h.pattern).bind fun args => (idle_expect _).skip fun _ => ?_
  exact owns_closePattern (zero_add _)

theorem yields_listPattern : Yields config (listPattern deep start) := by
  refine idle_advance.skip fun _ => (idle_accept _).skip fun b => ?_
  refine .ite (fun _ => owns_closePattern rfl) fun _ => ?_
  refine (yields_separated _ h.pattern).bind fun args => (idle_expect _).skip fun _ => ?_
  exact owns_closePattern (zero_add _)

theorem yields_successor : Yields config (successor deep start) := by
  refine idle_cursor.skip fun c => ?_
  split
  · refine idle_advance.skip fun _ => idle_advance.skip fun _ => ?_
    exact h.patternAtom.bind fun rest => owns_closePattern (by simp [held, Pattern.children, -Multiset.coe_singleton])
  · exact .fail _

omit h in
theorem yields_literalPattern (kind : TokenKind) : Yields config (literalPattern start kind) :=
  (idle_literal kind).skip fun _ => idle_advance.skip fun _ => owns_closePattern rfl

theorem yields_patternAtom : Yields config (patternAtom deep) := by
  refine idle_cursor.skip fun c => ?_
  dsimp only
  split
  · exact idle_advance.skip fun _ => owns_closePattern rfl
  · exact .ite (fun _ => yields_successor h) fun _ => yields_literalPattern _
  any_goals exact yields_literalPattern _
  · exact yields_constructorPattern h
  · exact idle_advance.skip fun _ => idle_identifier.skip fun _ => owns_closePattern rfl
  · exact yields_parenthesised h
  · exact yields_listPattern h
  · exact owns_unexpected _

theorem yields_pattern : Yields config (pattern deep) := by
  refine idle_here.skip fun _ => (yields_patternAtom h).bind fun head => ?_
  refine (idle_accept _).skip fun b => .ite (fun _ => ?_) fun _ => .pure (zero_add _)
  exact h.pattern.bind fun tail => owns_closePattern (by simp [held, Pattern.children, -Multiset.coe_singleton])

/-! ## What follows an operand -/

theorem yields_callArgs : Yields config (callArgs deep) :=
  (yields_separated _ h.inner).delimited.bind fun _ =>
    (idle_expect _).skip fun _ => .pure (zero_add _)

theorem owns_call {head : TermId} {tight : Bool} :
    Owns config (held head) (call deep head start tight) held := by
  refine idle_advance.skip fun _ => (yields_callArgs h).bind fun args => ?_
  exact owns_close (by simp [held, Term.children, -Multiset.coe_singleton])

theorem yields_typeArgs : Yields config (typeArgs deep) := by
  refine idle_advance.skip fun _ => ?_
  refine (yields_commaList (h.expr .additive)).withUsage.delimited.bind fun args => ?_
  exact idle_closeAngle.skip fun _ => .pure (zero_add _)

theorem offers_genericArgs : Offers config 0 (genericArgs deep) held := by
  refine (yields_typeArgs h).offers fun args => idle_cursor.skipOffers fun c => ?_
  refine .ite (fun _ => ?_) fun _ => ?_
  · refine idle_advance.skipOffers fun _ => (yields_callArgs h).offers fun values => .some ?_
    simp [held]
  · exact idle_slot.skipOffers fun _ => .ite (fun _ => .none) fun _ => .some (by simp [held])

theorem owns_generic? {head : TermId} :
    Owns config (held head) (generic? deep head start)
      fun term => if term.isSome then held term else held head := by
  refine (yields_attempt .generic (offers_genericArgs h)).bind fun found => ?_
  split
  · exact (owns_close (by simp [held, Term.children, -Multiset.coe_singleton])).map fun _ => rfl
  · exact (owns_close (by simp [held, Term.children, -Multiset.coe_singleton])).map fun _ => rfl
  · exact .pure (by simp [held])

theorem offers_equalitySides : Offers config 0 (equalitySides deep) held := by
  refine (h.expr _).offers fun lhs => idle_kind.skipOffers fun k => ?_
  split
  · refine idle_advance.skipOffers fun _ => (h.expr _).offers fun rhs => .some ?_
    simp [held, -Multiset.coe_singleton]
  · exact .none

theorem offers_equality : Offers config 0 (equality deep) held := by
  refine idle_advance.skipOffers fun _ => ?_
  refine (offers_equalitySides h).within.within.seq (fun sides => ?_) rfl
  exact (idle_accept _).skipOffers fun b => .ite (fun _ => .some rfl) fun _ => .none

omit h in
theorem yields_refl : Yields config Grammar.refl :=
  idle_here.skip fun _ => idle_advance.skip fun _ => idle_advance.skip fun _ =>
    idle_advance.skip fun _ => owns_close rfl

theorem owns_braceSuffix {head : TermId} {tight : Bool} :
    Owns config (held head) (braceSuffix deep head start tight) held := by
  refine idle_cursor.skip fun c => .ite (fun _ => ?_) fun _ => ?_
  · exact yields_refl.bind fun arg => owns_close (by simp [held, Term.children, -Multiset.coe_singleton])
  · refine (yields_attempt .equality (offers_equality h)).bind fun sides => ?_
    split
    · exact owns_close (by simp [held, Term.children, -Multiset.coe_singleton])
    · refine (idle_expect _).skip fun _ => ?_
      refine (yields_separated _ h.inner).withUsage.delimited.bind fun args => ?_
      exact (idle_expect _).skip fun _ => owns_close (by simp [held, Term.children, -Multiset.coe_singleton])

theorem owns_suffixes {head : TermId} :
    Owns config (held head) (suffixes deep start head) held := by
  refine owns_loop (fun head => ?_) head
  refine idle_cursor.skip fun c => idle_slot.skip fun s => .ite (fun _ => .pure rfl) fun _ => ?_
  split
  · exact (owns_call h).map fun _ => rfl
  · refine (idle_bareName head).skip fun bare => .ite (fun _ => ?_) fun _ => .pure rfl
    refine (owns_generic? h).seq fun found => ?_
    cases found with
    | none => exact .pure rfl
    | some term => exact .pure (by simp [held, Round.held])
  · refine .ite (fun _ => ?_) fun _ => .pure rfl
    refine idle_advance.skip fun _ => idle_advance.skip fun _ => ?_
    exact (owns_close (by simp [held, Term.children, -Multiset.coe_singleton])).map fun _ => rfl
  · exact .ite (fun _ => (owns_braceSuffix h).map fun _ => rfl) fun _ => .pure rfl
  · exact .pure rfl

/-! ## Case blocks -/

theorem yields_supTag : Yields config (supTag deep) := by
  refine (idle_expect _).skip fun _ => (h.expr _).within.bind fun label => ?_
  refine (idle_expect _).skip fun _ => (idle_expect _).skip fun _ => (idle_expect _).skip fun _ => ?_
  exact .pure (zero_add _)

theorem yields_caseTag (head : CaseHead) : Yields config (caseTag deep head) := by
  cases head with
  | sup => exact yields_supTag h
  | ctor => exact idle_advance.skip fun _ => idle_identifier.skip fun _ => .pure rfl
  | sym => exact idle_advance.skip fun _ => idle_identifier.skip fun _ => .pure rfl
  | _ => exact (idle_skipTokens _).skip fun _ => .pure rfl

omit h in
theorem held_blockCase (tag : CaseTag TermId) (span : Span) (body : TermId) :
    held (⟨tag, span, body⟩ : BlockCase TermId) = held tag + held body := by
  cases tag <;> rfl

theorem yields_blockCase (head : CaseHead) : Yields config (blockCase deep head) := by
  refine idle_here.skip fun start => (yields_caseTag h head).bind fun tag => ?_
  refine (idle_expect _).skip fun _ => h.statement.bind fun body => (idle_accept _).skip fun _ => ?_
  exact (idle_since _).skip fun _ => .pure (by rw [zero_add, held_blockCase])

theorem yields_positionalCase (kind : BlockKind) (head : CaseHead) :
    Yields config (positionalCase deep kind head) :=
  idle_cursor.skip fun _ => .ite (fun _ => yields_blockCase h head) fun _ => owns_unexpected _

omit h in
theorem held_caseBlock (kind : BlockKind) (cases : List (BlockCase TermId))
    (fallback : Option TermId) :
    held (⟨kind, cases, fallback⟩ : CaseBlock TermId) = held cases + held fallback := by
  have hcases : refs cases = refs (cases.flatMap (·.terms)) := by
    simp only [refs_terms, List.map_flatMap]
    exact congrArg (List.flatMap · cases) (funext fun c => refs_terms c.terms)
  rw [held, held, held, hcases, Multiset.coe_add]
  exact congrArg _ (refs_append _ fallback.toList)

theorem yields_positionalBlock (kind : BlockKind) (first second : CaseHead) :
    Yields config (positionalBlock deep kind first second) := by
  refine (yields_positionalCase h kind first).bind fun a => ?_
  refine (yields_positionalCase h kind second).bind fun b => .pure ?_
  simp only [held_caseBlock, held_cons, held_nil]
  rw [zero_add, add_zero]
  exact (add_zero _).symm

theorem yields_singleBlock (kind : BlockKind) (head : CaseHead) :
    Yields config (singleBlock deep kind head) := by
  refine (yields_blockCase h head).bind fun a => .pure ?_
  simp only [held_caseBlock, held_cons, held_nil]
  rw [zero_add, add_zero]
  exact (add_zero _).symm

theorem yields_enumBlock : Yields config (enumBlock deep) := by
  refine (owns_loop (o := fun cases : Array (BlockCase TermId) => held cases)
    (fun cases => ?_) #[]).seq fun cases => ?_
  · refine idle_cursor.skip fun c => ?_
    split
    · exact (yields_blockCase h _).bind fun a => .pure (held_push cases a).symm
    · exact (yields_blockCase h _).bind fun a => .pure (held_push cases a).symm
    · exact .pure rfl
  · refine (idle_sees _).skip fun b => .ite (fun _ => .pure ?_) fun _ => ?_
    · rw [held_caseBlock]
      exact (add_zero _).symm
    · refine h.statement.bind fun body => (idle_accept _).skip fun _ => .pure ?_
      rw [held_caseBlock]
      rfl

theorem yields_blockFrom (head : CaseHead) : Yields config (blockFrom deep head) := by
  cases head with
  | ctor => exact yields_enumBlock h
  | sym => exact yields_enumBlock h
  | unit => exact yields_singleBlock h _ _
  | pair => exact yields_singleBlock h _ _
  | refl => exact yields_singleBlock h _ _
  | sup => exact yields_singleBlock h _ _
  | _ => exact yields_positionalBlock h _ _ _

theorem yields_blockCases : Yields config (blockCases deep) := by
  refine idle_cursor.skip fun c => .ite (fun _ => .pure rfl) fun _ => ?_
  split
  · exact yields_blockFrom h _
  · refine .ite (fun _ => ?_) fun _ => ?_
    · exact idle_succeeds.skip fun b => .ite (fun _ => yields_blockFrom h _) fun _ => yields_enumBlock h
    · exact idle_slot.skip fun s => .ite (fun _ => yields_enumBlock h) fun _ => owns_unexpected _

theorem yields_caseBlock : Yields config (caseBlock deep) := by
  refine (idle_expect _).skip fun _ => (yields_blockCases h).within.bind fun block => ?_
  exact (idle_expect _).skip fun _ => .pure (zero_add _)

/-! ## Constructs that bind names -/

theorem yields_param : Yields config (param deep) := by
  refine idle_cursor.skip fun c => ?_
  split
  · refine idle_advance.skip fun span => (idle_accept _).skip fun b => .ite (fun _ => ?_) fun _ => ?_
    · exact h.binderType.bind fun type => .pure (zero_add _)
    · exact .pure rfl
  · refine idle_advance.skip fun _ => .ite (fun _ => ?_) fun _ => ?_
    · refine (yields_binder h.type).delimited.bind fun binder => (idle_expect _).skip fun _ => ?_
      exact .pure (zero_add _)
    · refine (yields_separated _ h.pattern).delimited.bind fun patterns => ?_
      refine (idle_require _ _).skip fun _ => (idle_expect _).skip fun _ => .pure ?_
      simp [held]
  · exact owns_unexpected _

theorem yields_lambda : Yields config (lambda deep start) := by
  refine idle_advance.skip fun _ => (idle_sees _).skip fun b => .ite (fun _ => ?_) fun _ => ?_
  · exact (yields_caseBlock h).bind fun block => owns_close (by simp [held, Term.children])
  · refine (yields_oneUpTo _ (yields_param h)).bind fun params => (idle_expect _).skip fun _ => ?_
    exact h.statement.bind fun body =>
      owns_close (by simp [held, Term.children, -Multiset.coe_singleton])

theorem yields_fixedPoint : Yields config (fixedPoint deep start) :=
  idle_advance.skip fun _ => idle_identifier.skip fun _ => (idle_expect _).skip fun _ =>
    h.statement.bind fun _ => owns_close (zero_add _)

theorem yields_quantified : Yields config (quantified deep) :=
  (idle_expect _).skip fun _ => (h.expr _).withUsage

theorem yields_all : Yields config (Grammar.all deep start) := by
  refine idle_advance.skip fun _ => (yields_commaList (yields_binder h.binderType)).bind fun bs => ?_
  exact (yields_quantified h).bind fun body =>
    owns_close (by simp [held, Term.children, -Multiset.coe_singleton])

theorem yields_any : Yields config (Grammar.any deep start) := by
  refine idle_advance.skip fun _ => (yields_binder h.binderType).bind fun bound => ?_
  exact (yields_quantified h).bind fun body =>
    owns_close (by simp [held, Term.children, -Multiset.coe_singleton])

/-! ## Constructs that begin with a keyword -/

theorem yields_branch (keyword : Keyword) : Yields config (branch deep keyword) :=
  (idle_expect _).skip fun _ => (idle_expect _).skip fun _ => h.statement

theorem yields_condition : Yields config (condition deep) := by
  refine idle_advance.skip fun _ => h.term.bind fun cond => (idle_expect _).skip fun _ => ?_
  exact h.statement.bind fun body => .pure (by simp [held, -Multiset.coe_singleton])

theorem yields_ifElse : Yields config (ifElse deep start) := by
  refine (yields_condition h).bind fun (cond, yes) => (yields_branch h _).bind fun no => ?_
  exact owns_close (by simp [held, Term.children, -Multiset.coe_singleton])

theorem yields_fork : Yields config (fork deep start) := by
  refine (yields_condition h).bind fun (cond, yes) => ?_
  refine (yields_collectWhile (idle_sees _) (yields_branch h _)).bind fun elifs => ?_
  refine (yields_branch h _).bind fun no => ?_
  exact owns_close (by simp [held, Term.children, -Multiset.coe_singleton])

theorem yields_withClause : Yields config (withClause deep) := by
  refine idle_identifier.skip fun _ => (idle_accept _).skip fun b => .ite (fun _ => ?_) fun _ => ?_
  · exact (h.expr _).within.bind fun value => .pure (zero_add _)
  · exact .pure rfl

theorem yields_withClauses : Yields config (withClauses deep) :=
  (idle_expect _).skip fun _ => yields_collectThrough (yields_withClause h) (idle_sees _)

theorem yields_matchCase : Yields config (matchCase deep) := by
  refine (idle_expect _).skip fun start => (yields_oneUpTo _ h.pattern).bind fun patterns => ?_
  refine (idle_expect _).skip fun _ => h.statement.bind fun body => (idle_accept _).skip fun _ => ?_
  refine (idle_since _).skip fun _ => .pure ?_
  simp [held, -Multiset.coe_singleton]

theorem yields_matchOn : Yields config (matchOn deep start) := by
  refine idle_advance.skip fun _ => (yields_oneUpTo _ (h.expr _)).within.bind fun scrutinees => ?_
  refine (idle_expect _).skip fun _ => ?_
  refine (yields_collectWhile (idle_sees _) (yields_withClauses h)).bind fun withs => ?_
  refine (yields_collectWhile (idle_sees _) (yields_matchCase h)).bind fun cases => ?_
  refine (idle_require _ _).skip fun _ => owns_close ?_
  have hwiths : held withs = held withs.flatten := congrArg _ (refs_flatten withs).symm
  rw [hwiths]
  simp [held, Term.children]

theorem yields_useIn : Yields config (useIn deep start) := by
  refine idle_advance.skip fun _ => idle_identifier.skip fun _ => (idle_expect _).skip fun _ => ?_
  refine h.term.bind fun value => (idle_expect _).skip fun _ => h.statement.bind fun body => ?_
  exact owns_close (by simp [held, Term.children, -Multiset.coe_singleton])

theorem yields_operandAndBody {term : TermId → TermId → Term TermId PatternId}
    (hterm : ∀ a b, (term a b).children = [.term a, .term b]) :
    Yields config (operandAndBody deep start term) := by
  refine idle_advance.skip fun _ => (h.expr _).bind fun first => (idle_accept _).skip fun _ => ?_
  exact h.statement.bind fun body => owns_close (by simp [held, hterm, -Multiset.coe_singleton])

theorem yields_before (min : Level) {term : TermId → Term TermId PatternId}
    (hterm : ∀ a, (term a).children = [.term a]) : Yields config (before deep start min term) :=
  idle_advance.skip fun _ => (h.expr min).bind fun arg => owns_close (by simp [held, hterm])

theorem yields_tilde : Yields config (tilde deep start) := by
  refine idle_advance.skip fun _ => (h.expr _).within.bind fun scrutinee => ?_
  refine idle_slot.skip fun s => idle_cursor.skip fun c => .ite (fun _ => ?_) fun _ => ?_
  · exact (yields_caseBlock h).bind fun block =>
      owns_close (by simp [held, Term.children, -Multiset.coe_singleton])
  · exact owns_close (zero_add _)

end Productions

end BendSyntax
