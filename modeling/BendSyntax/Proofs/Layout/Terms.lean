import BendSyntax.Proofs.Layout

/-! Where the productions of patterns, suffixes, case blocks and of the constructs with a keyword
put their nodes. -/

namespace BendSyntax

open Reading Grammar Owner

/-- The readings of the next level add the nodes of their answers, and operators bind there at the
level that is asked for. -/
structure Deeper.LaysOut (deep : Deeper) : Prop where
  statement : Places deep.statement
  expr : ∀ min, Adds (deep.expr min) (heldAt min)
  pattern : Places deep.pattern
  patternAtom : Places (deep .patternAtom : Reading PatternId)

variable {deep : Deeper} {start : Span}

section Loose

@[simp] theorem loose_term (id : TermId) : loose id = [.loose (.term id)] := rfl

@[simp] theorem loose_pattern (id : PatternId) : loose id = [.loose (.pattern id)] := rfl

@[simp] theorem loose_terms (ids : List TermId) :
    loose ids = ids.map (.loose <| .term ·) := by
  simp [loose, Function.comp_def]

@[simp] theorem loose_patterns (ids : List PatternId) :
    loose ids = ids.map (.loose <| .pattern ·) := by
  simp [loose, Function.comp_def]

@[simp] theorem loose_prod {α β : Type} [Owner α] [Owner β] (a : α) (b : β) :
    loose (a, b) = loose a ++ loose b := by
  simp [loose]

@[simp] theorem loose_append {α : Type} [Owner α] (as bs : List α) :
    loose (as ++ bs) = loose as ++ loose bs := by
  simp [loose]

@[simp] theorem loose_nil {α : Type} [Owner α] : loose ([] : List α) = [] := rfl

@[simp] theorem loose_cons {α : Type} [Owner α] (a : α) (as : List α) :
    loose (a :: as) = loose a ++ loose as := by
  simp [loose, refs]

@[simp] theorem loose_none {α : Type} [Owner α] : loose (none : Option α) = [] := rfl

@[simp] theorem loose_some {α : Type} [Owner α] (a : α) : loose (some a) = loose a := by
  simp [loose]

@[simp] theorem loose_bool (b : Bool) : loose b = [] := rfl

@[simp] theorem loose_string (s : String) : loose s = [] := rfl

@[simp] theorem loose_span (s : Span) : loose s = [] := rfl

@[simp] theorem loose_binder (b : Binder TermId) : loose b = [.loose (.term b.type)] := rfl

@[simp] theorem loose_binders (bs : List (Binder TermId)) :
    loose bs = bs.map fun b => .loose (.term b.type) := by
  simp [loose, Function.comp_def]

theorem loose_blockCase (tag : CaseTag TermId) (span : Span) (body : TermId) :
    loose (⟨tag, span, body⟩ : BlockCase TermId) = loose tag ++ loose body := by
  cases tag <;> rfl

@[simp] theorem loose_caseBlock (b : CaseBlock TermId) : loose b = loose b.terms := rfl

theorem loose_block (kind : BlockKind) (cases : List (BlockCase TermId))
    (fallback : Option TermId) :
    loose (⟨kind, cases, fallback⟩ : CaseBlock TermId) = loose cases ++ loose fallback := by
  have hcases : loose cases = loose (cases.flatMap (·.terms)) := by
    rw [← each_loose]
    simp only [each, loose_terms, List.map_flatMap]
    exact congrArg (List.flatMap · cases) (funext fun c => loose_terms c.terms)
  rw [hcases, loose_caseBlock, CaseBlock.terms, loose_append]
  cases fallback <;> rfl

theorem relaxes_loose (level : Level) (id : TermId) : Relaxes (heldAt level id) (loose id) :=
  relaxes_heldAt (Nat.zero_le level) id

end Loose

namespace Deeper.LaysOut

variable (h : deep.LaysOut)

include h

theorem looseExpr (min : Level) : Places (deep.expr min) := (h.expr min).weaken (relaxes_loose min)

theorem type : Places deep.type := (h.looseExpr _).withUsage

theorem term : Places deep.term := (h.looseExpr _).withUsage

theorem inner : Places deep.inner := h.looseExpr _

theorem binderType : Places deep.binderType := (h.looseExpr _).within

end Deeper.LaysOut

theorem places_binder {type : Reading TermId} (h : Places type) : Places (binder type) :=
  .skip quiet_identifier fun _ => .skip (quiet_expect _) fun _ => h.map fun _ => rfl

section Productions

variable (h : deep.LaysOut)

include h

/-! ## Patterns -/

omit h in
/-- A malformed literal is found at the cursor. -/
theorem quiet_literal (kind : TokenKind) : Quiet (literal kind) := by
  refine fun setting s => .cursor ?_
  split
  · exact .pure rfl
  · exact .fail rfl

omit h in
theorem session_literal {kind : TokenKind} {setting : Setting} {s t : Session} {value : Literal}
    (ht : (literal kind).run setting s = .ok value t) : t = s := by
  simp only [literal, Reading.cursor, asks, run_bind, Outcome.andThen_ok] at ht
  split at ht <;> cases ht
  rfl

omit h in
theorem opens_literalPattern (kind : TokenKind) : Opens (literalPattern · kind) :=
  fun _ _ => .skip (fun _ _ => session_literal) (quiet_literal kind) fun _ =>
    .advance (lays_closePattern rfl)

theorem opens_parenthesised : Opens (parenthesised deep) := by
  refine fun setting s => .advance ?_
  refine .seq (lays_loop (o := fun acc : Array PatternId × Bool => loose acc.1.toList)
    (fun acc => ?_) (#[], false)) fun acc => ?_
  · refine .skip (quiet_sees _) fun b => .ite (fun _ => .pure rfl) fun _ =>
      .bind h.pattern fun p => ?_
    refine .skip (quiet_accept _) fun b => .ite (fun _ => .pure ?_) fun _ => .pure ?_
    · simp [Round.holds]
    · simp [Round.holds]
  · refine .skip (quiet_require _ _) fun _ => .skip (quiet_expect _) fun _ => ?_
    split
    · exact lays_closePattern (by simp_all [Pattern.children])
    · exact lays_closePattern (by simp [Pattern.children])

theorem opens_constructorPattern :
    Opens (constructorPattern deep) := by
  refine fun setting s => .advance ?_
  refine .skip quiet_identifier fun _ => .skip (quiet_accept _) fun b => ?_
  refine .ite (fun _ => ?_) fun _ => lays_closePattern rfl
  refine .bind (adds_separated _ h.pattern).list fun args => .skip (quiet_expect _) fun _ => ?_
  exact lays_closePattern (by simp [Pattern.children])

theorem opens_listPattern : Opens (listPattern deep) := by
  refine fun setting s => .advance (.skip (quiet_accept _) fun b => ?_)
  refine .ite (fun _ => lays_closePattern rfl) fun _ => ?_
  refine .bind (adds_separated _ h.pattern).list fun args => .skip (quiet_expect _) fun _ => ?_
  exact lays_closePattern (by simp [Pattern.children])

theorem opens_successor : Opens (successor deep) := by
  refine fun setting s => .cursor ?_
  split
  · refine .advance (.skip quiet_advance fun _ => .bind h.patternAtom fun rest => ?_)
    exact lays_closePattern rfl
  · exact .fail rfl

theorem opens_patternAtom : Opens fun _ => patternAtom deep := by
  refine fun setting s => .cursor ?_
  dsimp only
  split
  · exact .advance (lays_closePattern rfl)
  · exact .ite (fun _ => opens_successor h setting s) fun _ => opens_literalPattern _ setting s
  any_goals exact opens_literalPattern _ setting s
  · exact opens_constructorPattern h setting s
  · exact .advance (.skip quiet_identifier fun _ => lays_closePattern rfl)
  · exact opens_parenthesised h setting s
  · exact opens_listPattern h setting s
  · exact .unexpected _

theorem places_pattern : Places (pattern deep) := by
  refine fun setting s =>
    BeginsAt.adds (.here (.seq (opens_patternAtom h setting s) fun head => ?_))
  refine .skip (quiet_accept _) fun b => .ite (fun _ => ?_) fun _ => .pure rfl
  exact .bind h.pattern fun tail => lays_closePattern rfl

/-! ## What follows an operand -/

theorem places_callArgs : Places (callArgs deep) :=
  .bind (adds_separated _ h.inner).list.delimited fun _ _ =>
    .skip (quiet_expect _) fun _ => .pure rfl

theorem lays_call {head : TermId} {tight : Bool} :
    Lays (.since start) (heldAt .operand head) (call deep head start tight) (heldAt .operand) := by
  refine .skip quiet_advance fun _ => .bind (places_callArgs h) fun args => ?_
  exact lays_close_tight (.of_eq (by simp [heldAt, Term.demands])) (by simp) rfl

theorem places_typeArgs : Places (typeArgs deep) := by
  refine .skip quiet_advance fun _ => ?_
  refine .bind (adds_commaList (h.looseExpr .additive)).list.withUsage.delimited fun args _ => ?_
  exact .skip quiet_closeAngle fun _ => .pure rfl

theorem places_genericArgs : Places (genericArgs deep) := by
  refine .bind (places_typeArgs h) fun args lo => .skip quiet_cursor fun c => ?_
  refine .ite (fun _ => ?_) fun _ => .skip quiet_slot fun s => .ite (fun _ => ?_) fun _ => ?_
  · refine .skip quiet_advance fun _ => .bind (places_callArgs h) fun values => .pure ?_
    simp
  · exact .drop rfl
  · exact .pure (by simp)

theorem lays_generic? {head : TermId} :
    Lays (.since start) (heldAt .operand head) (generic? deep head start)
      fun term => heldAt .operand (term.getD head) := by
  refine .bind (adds_attempt .generic (places_genericArgs h) rfl) fun found => ?_
  split
  · exact .map (lays_close_tight (.of_eq (by simp [heldAt, Term.demands])) (by simp) rfl)
      fun _ => rfl
  · refine .map (lays_close_tight (.of_eq ?_) (by simp) rfl) fun _ => rfl
    simp [heldAt, Term.demands]
  · exact .pure (by simp)

theorem places_equalitySides : Places (equalitySides deep) := by
  refine .bind (h.looseExpr _) fun lhs lo => .skip quiet_kind fun k => ?_
  split
  · refine .skip quiet_advance fun _ => .bind (h.looseExpr _) fun rhs => .pure ?_
    simp
  · exact .drop rfl

theorem places_equality : Places (equality deep) := by
  refine .skip quiet_advance fun _ =>
    .bind (places_equalitySides h).withUsage.delimited fun sides lo => ?_
  split
  · exact .skip (quiet_accept _) fun b => .ite (fun _ => .pure rfl) fun _ => .drop rfl
  · exact .drop rfl

omit h in
theorem beginsAt_refl (setting : Setting) (s : Session) :
    BeginsAt setting s Grammar.refl (heldAt .operand) := by
  refine .here (.advance ?_)
  refine .skip quiet_advance fun _ => .skip quiet_advance fun _ => ?_
  exact lays_close_tight (.of_eq rfl) (by simp) rfl

theorem lays_braceSuffix {head : TermId} {tight : Bool} :
    Lays (.since start) (heldAt .operand head) (braceSuffix deep head start tight)
      (heldAt .operand) := by
  refine .skip quiet_cursor fun c => .ite (fun _ => ?_) fun _ => ?_
  · refine .bind (fun setting s => (beginsAt_refl setting s).adds) fun arg => ?_
    exact lays_close_tight (.of_eq rfl) (by simp) rfl
  · refine .bind (adds_attempt .equality (places_equality h) rfl) fun sides => ?_
    split
    · exact lays_close_tight (.of_eq (by simp [heldAt, Term.demands])) (by simp) rfl
    · refine .skip (quiet_expect _) fun _ => ?_
      refine .bind (adds_separated _ h.inner).list.withUsage.delimited fun args => ?_
      refine .skip (quiet_expect _) fun _ => lays_close_tight (.of_eq ?_) (by simp) rfl
      simp [heldAt, Term.demands]

theorem lays_suffixes {head : TermId} :
    Lays (.since start) (heldAt .operand head) (suffixes deep start head) (heldAt .operand) := by
  refine lays_loop (fun head => ?_) head
  refine .skip quiet_cursor fun c => .skip quiet_slot fun s => .ite (fun _ => .pure rfl) fun _ => ?_
  split
  · exact (lays_call h).map fun _ => rfl
  · refine .skip (quiet_bareName head) fun bare => .ite (fun _ => ?_) fun _ => .pure rfl
    refine .seq (lays_generic? h) fun found => ?_
    cases found with
    | none => exact .pure rfl
    | some term => exact .pure rfl
  · refine .ite (fun _ => ?_) fun _ => .pure rfl
    refine .skip quiet_advance fun _ => .skip quiet_advance fun _ => ?_
    exact .map (lays_close_tight (.of_eq rfl) (by simp) rfl) fun _ => rfl
  · exact .ite (fun _ => (lays_braceSuffix h).map fun _ => rfl) fun _ => .pure rfl
  · exact .pure rfl

/-! ## Case blocks -/

theorem places_supTag : Places (supTag deep) := by
  refine .skip (quiet_expect _) fun _ => .bind (h.looseExpr _).within fun label lo => ?_
  refine .skip (quiet_expect _) fun _ => .skip (quiet_expect _) fun _ => ?_
  exact .skip (quiet_expect _) fun _ => .pure rfl

theorem places_caseTag (head : CaseHead) : Places (caseTag deep head) := by
  cases head with
  | sup => exact places_supTag h
  | ctor => exact .skip quiet_advance fun _ => .skip quiet_identifier fun _ => .pure rfl
  | sym => exact .skip quiet_advance fun _ => .skip quiet_identifier fun _ => .pure rfl
  | _ => exact .skip (quiet_skipTokens _) fun _ => .pure rfl

theorem places_blockCase (head : CaseHead) : Places (blockCase deep head) := by
  refine .skip quiet_here fun start => .bind (places_caseTag h head) fun tag lo => ?_
  refine .skip (quiet_expect _) fun _ => .bind h.statement fun body => ?_
  refine .skip (quiet_accept _) fun _ => .skip (quiet_since _) fun span => .pure ?_
  exact (loose_blockCase tag span body).symm

theorem places_positionalCase (kind : BlockKind) (head : CaseHead) :
    Places (positionalCase deep kind head) :=
  .skip quiet_cursor fun _ => .ite (fun _ => places_blockCase h head) fun _ => adds_unexpected _

theorem places_positionalBlock (kind : BlockKind) (first second : CaseHead) :
    Places (positionalBlock deep kind first second) := by
  refine .bind (places_positionalCase h kind first) fun a lo => ?_
  refine .bind (places_positionalCase h kind second) fun b => .pure ?_
  rw [loose_block]
  simp

theorem places_singleBlock (kind : BlockKind) (head : CaseHead) :
    Places (singleBlock deep kind head) := by
  refine .bind (places_blockCase h head) fun a lo => .pure ?_
  rw [loose_block]
  simp

theorem places_enumBlock : Places (enumBlock deep) := by
  refine Adds.bind (Adds.of_lays fun lo => lays_loop
    (o := fun cases : Array (BlockCase TermId) => loose cases.toList) (fun cases => ?_) #[])
    fun cases lo => ?_
  · have hpush (a : BlockCase TermId) :
        loose cases.toList ++ loose a = loose (cases.push a).toList := by
      simp [loose, refs]
    refine .skip quiet_cursor fun c => ?_
    split
    · exact .bind (places_blockCase h _) fun a => .pure (hpush a)
    · exact .bind (places_blockCase h _) fun a => .pure (hpush a)
    · exact .pure rfl
  · refine .skip (quiet_sees _) fun b => .ite (fun _ => .pure ?_) fun _ => ?_
    · rw [loose_block]
      simp
    · refine .bind h.statement fun body => .skip (quiet_accept _) fun _ => .pure ?_
      rw [loose_block]
      simp

theorem places_blockFrom (head : CaseHead) : Places (blockFrom deep head) := by
  cases head with
  | ctor => exact places_enumBlock h
  | sym => exact places_enumBlock h
  | unit => exact places_singleBlock h _ _
  | pair => exact places_singleBlock h _ _
  | refl => exact places_singleBlock h _ _
  | sup => exact places_singleBlock h _ _
  | _ => exact places_positionalBlock h _ _ _

theorem places_blockCases : Places (blockCases deep) := by
  refine .skip quiet_cursor fun c => .ite (fun _ => .pure rfl) fun _ => ?_
  split
  · exact places_blockFrom h _
  · refine .ite (fun _ => ?_) fun _ => ?_
    · refine .skip (quiet_succeeds ?_) fun b =>
        .ite (fun _ => places_blockFrom h _) fun _ => places_enumBlock h
      exact .skip (places_supTag h).quiet fun _ => quiet_expect _
    · refine .skip quiet_slot fun s => .ite (fun _ => places_enumBlock h) fun _ => ?_
      exact adds_unexpected _

theorem places_caseBlock : Places (caseBlock deep) := by
  refine .skip (quiet_expect _) fun _ => .bind (places_blockCases h).within fun block lo => ?_
  exact .skip (quiet_expect _) fun _ => .pure rfl

/-! ## Constructs that bind names -/

theorem places_param : Places (param deep) := by
  refine .skip quiet_cursor fun c => ?_
  split
  · refine .skip quiet_advance fun span => .skip (quiet_accept _) fun b =>
      .ite (fun _ => ?_) fun _ => ?_
    · exact .bind h.binderType fun type lo => .pure rfl
    · exact .pure rfl
  · refine .skip quiet_advance fun _ => .ite (fun _ => ?_) fun _ => ?_
    · refine .bind (places_binder h.type).delimited fun binder lo =>
        .skip (quiet_expect _) fun _ => ?_
      exact .pure rfl
    · refine .bind (adds_separated _ h.pattern).list.delimited fun patterns lo => ?_
      refine .skip (quiet_require _ _) fun _ => .skip (quiet_expect _) fun _ => .pure ?_
      simp [loose]
  · exact adds_unexpected _

theorem opens_lambda : OpensTight (lambda deep) := by
  refine fun setting s => .advance (.skip (quiet_sees _) fun b => .ite (fun _ => ?_) fun _ => ?_)
  · refine .bind (places_caseBlock h) fun block => lays_close_tight (.of_eq ?_) (by simp) rfl
    simp [Term.demands, Term.children]
  · refine .bind (adds_oneUpTo _ (places_param h)).list fun params =>
      .skip (quiet_expect _) fun _ => ?_
    refine .bind h.statement fun body => lays_close_tight (.of_eq ?_) (by simp) rfl
    simp [Term.demands, Term.children, loose]

theorem opens_fixedPoint : OpensTight (fixedPoint deep) := by
  refine fun setting s =>
    .advance (.skip quiet_identifier fun _ => .skip (quiet_expect _) fun _ => ?_)
  exact .bind h.statement fun body => lays_close_tight (.of_eq rfl) (by simp) rfl

theorem places_quantified : Places (quantified deep) :=
  .skip (quiet_expect _) fun _ => (h.looseExpr _).withUsage

theorem opens_all : OpensTight (Grammar.all deep) := by
  refine fun setting s =>
    .advance (.bind (adds_commaList (places_binder h.binderType)).list fun bs => ?_)
  refine .bind (places_quantified h) fun body => lays_close_tight (.of_eq ?_) (by simp) rfl
  simp [Term.demands, Term.children]

theorem opens_any : OpensTight (Grammar.any deep) := by
  refine fun setting s => .advance (.bind (places_binder h.binderType) fun bound => ?_)
  exact .bind (places_quantified h) fun body => lays_close_tight (.of_eq rfl) (by simp) rfl

/-! ## Constructs that begin with a keyword -/

theorem places_branch (keyword : Keyword) : Places (branch deep keyword) :=
  .skip (quiet_expect _) fun _ => .skip (quiet_expect _) fun _ => h.statement

/-- A condition with its statement, behind a keyword. -/
theorem begins_condition (setting : Setting) (s : Session) :
    BeginsAt setting s (condition deep) loose := by
  refine .advance (.bind h.term fun cond => .skip (quiet_expect _) fun _ => ?_)
  exact .bind h.statement fun body => .pure rfl

theorem opens_ifElse : OpensTight (ifElse deep) := by
  refine fun setting s => .seq (begins_condition h setting s) fun (cond, yes) => ?_
  exact .bind (places_branch h _) fun no => lays_close_tight (.of_eq rfl) (by simp) rfl

theorem opens_fork : OpensTight (fork deep) := by
  refine fun setting s => .seq (begins_condition h setting s) fun (cond, yes) => ?_
  refine .bind (adds_collectWhile (quiet_sees _) (places_branch h _)).list fun elifs => ?_
  refine .bind (places_branch h _) fun no => lays_close_tight (.of_eq ?_) (by simp) rfl
  simp [Term.demands, Term.children]

theorem places_withClause : Places (withClause deep) := by
  refine .skip quiet_identifier fun _ => .skip (quiet_accept _) fun b =>
    .ite (fun _ => ?_) fun _ => ?_
  · exact .bind (h.looseExpr _).within fun value lo => .pure (by simp [loose, refs])
  · exact .pure rfl

theorem places_withClauses : Places (withClauses deep) :=
  .skip (quiet_expect _) fun _ => (adds_collectThrough (places_withClause h) (quiet_sees _)).list

theorem places_matchCase : Places (matchCase deep) := by
  refine .skip (quiet_expect _) fun start =>
    .bind (adds_oneUpTo _ h.pattern).list fun patterns lo => ?_
  refine .skip (quiet_expect _) fun _ => .bind h.statement fun body =>
    .skip (quiet_accept _) fun _ => ?_
  exact .skip (quiet_since _) fun _ => .pure (by simp [loose])

theorem opens_matchOn : OpensTight (matchOn deep) := by
  refine fun setting s =>
    .advance (.bind (adds_oneUpTo _ (h.looseExpr _)).list.within fun scrutinees => ?_)
  refine .skip (quiet_expect _) fun _ => ?_
  refine .bind (adds_collectWhile (quiet_sees _) (places_withClauses h)).list fun withs => ?_
  refine .bind (adds_collectWhile (quiet_sees _) (places_matchCase h)).list fun cases => ?_
  refine .skip (quiet_require _ _) fun _ => lays_close_tight (.of_eq ?_) (by simp) rfl
  have hwiths : loose withs = loose withs.flatten := congrArg _ (refs_flatten withs).symm
  rw [hwiths]
  simp [loose, Term.demands, Term.children]

theorem opens_useIn : OpensTight (useIn deep) := by
  refine fun setting s =>
    .advance (.skip quiet_identifier fun _ => .skip (quiet_expect _) fun _ => ?_)
  refine .bind h.term fun value => .skip (quiet_expect _) fun _ => ?_
  exact .bind h.statement fun body => lays_close_tight (.of_eq rfl) (by simp) rfl

theorem opens_operandAndBody (term : TermId → TermId → Term TermId PatternId)
    (hterm : ∀ a b, (term a b).demands = [.loose (.term a), .loose (.term b)])
    (herror : ∀ a b, term a b ≠ .error) (hoperands : ∀ a b, (term a b).infix? = none) :
    OpensTight (operandAndBody deep · term) := by
  refine fun setting s =>
    .advance (.bind (h.looseExpr _) fun first => .skip (quiet_accept _) fun _ => ?_)
  refine .bind h.statement fun body => lays_close_tight (.of_eq ?_) (herror _ _) (hoperands _ _)
  rw [hterm]
  rfl

theorem opens_before (min : Level) (term : TermId → Term TermId PatternId)
    (hterm : ∀ a, Relaxes (heldAt min a) (term a).demands) (herror : ∀ a, term a ≠ .error)
    (hoperands : ∀ a, (term a).infix? = none) : OpensTight (before deep · min term) :=
  fun _ _ => .advance (.bind (h.expr min) fun arg =>
    lays_close_tight (hterm arg) (herror arg) (hoperands arg))

theorem opens_tilde : OpensTight (tilde deep) := by
  refine fun setting s => .advance (.bind (h.expr _).within fun scrutinee => ?_)
  refine .skip quiet_slot fun s => .skip quiet_cursor fun c => .ite (fun _ => ?_) fun _ => ?_
  · refine .bind (places_caseBlock h) fun block => lays_close_tight (.of_eq ?_) (by simp) rfl
    simp [heldAt, Term.demands]
  · exact lays_close_tight (.of_eq rfl) (by simp) rfl

end Productions

end BendSyntax
