import BendSyntax.Proofs.Ownership.Terms
import BendSyntax.Proofs.Steps

/-! The steps of patterns, of what follows an operand, of case blocks and of the constructs that
begin with a keyword. Every loop in them goes on only behind a token. -/

namespace BendSyntax

open Reading Grammar Owner

instance (g : Goal) : Owner g.Result :=
  match g with
  | .statement => inferInstanceAs (Owner TermId)
  | .expr _ => inferInstanceAs (Owner TermId)
  | .pattern => inferInstanceAs (Owner PatternId)
  | .patternAtom => inferInstanceAs (Owner PatternId)

/-- The readings of the next level keep the contract and take a token. -/
structure Deeper.Steady (tokens : Tokens) (deep : Deeper) : Prop where
  keeps : ∀ g, Keeps tokens [] (deep g)
  advances : ∀ g, (deep g).Advances

variable {tokens : Tokens} {known : List Ref} {deep : Deeper} {start : Span}

namespace Deeper.Steady

variable (h : deep.Steady tokens)

include h

theorem statement : Keeps tokens [] deep.statement := h.keeps .statement

theorem expr (min : Level) : Keeps tokens [] (deep.expr min) := h.keeps (.expr min)

theorem pattern : Keeps tokens [] deep.pattern := h.keeps .pattern

theorem patternAtom : Keeps tokens [] (deep .patternAtom : Reading PatternId) :=
  h.keeps .patternAtom

theorem type : Keeps tokens [] deep.type := (h.expr _).withUsage

theorem term : Keeps tokens [] deep.term := (h.expr _).withUsage

theorem inner : Keeps tokens [] deep.inner := h.expr _

theorem binderType : Keeps tokens [] deep.binderType := (h.expr _).within

theorem advances_expr (min : Level) : (deep.expr min).Advances := h.advances (.expr min)

theorem advances_pattern : deep.pattern.Advances := h.advances .pattern

end Deeper.Steady

/-! ## Patterns -/

theorem keeps_binder {type : Reading TermId} (h : Keeps tokens [] type) :
    Keeps tokens known (binder type) :=
  Keeps.identifier.skip fun _ => (Keeps.expect _).skip fun _ => h.bind fun _ => .pure (by simp)

theorem advances_binder (type : Reading TermId) : (binder type).Advances :=
  Advances.identifier.bind _

theorem keeps_literal (kind : TokenKind) : Keeps tokens known (literal kind) := by
  refine Keeps.cursor.skip fun c => ?_
  split
  · exact .pure (List.nil_subset _)
  · exact .fail _

theorem keeps_literalPattern (kind : TokenKind) :
    Keeps tokens known (literalPattern start kind) :=
  (keeps_literal kind).skip fun _ => Keeps.advance.skip fun _ => .closePattern (List.nil_subset _)

section Productions

variable (h : deep.Steady tokens)

include h

theorem keeps_parenthesised : Keeps tokens known (parenthesised deep start) := by
  refine Keeps.advance.skip fun _ => ?_
  refine Keeps.bind (.loopFrom (fun acc => ?_) (fun acc => ?_) (List.nil_subset _)) fun acc => ?_
  · obtain ⟨items, comma⟩ := acc
    refine (Keeps.sees _).skip fun b => .ite (fun _ => .pure (by simp)) fun _ => ?_
    refine h.pattern.bind fun p => (Keeps.accept _).skip fun b => ?_
    refine .ite (fun _ => .pure ?_) fun _ => .pure ?_
    · simp
    · simp
  · exact .behind fun b c => .ite (fun _ => .done _) fun _ =>
      .of_advances ((h.advances_pattern c).bind _)
  · obtain ⟨items, comma⟩ := acc
    refine (Keeps.require _ _).skip fun _ => (Keeps.expect _).skip fun _ => ?_
    have hitems : refs items.toList ⊆ refs (items, comma) ++ known := by simp
    split
    · rename_i hsingle
      rw [hsingle] at hitems
      exact .closePattern hitems
    · exact .closePattern hitems

theorem keeps_constructorPattern : Keeps tokens known (constructorPattern deep start) := by
  refine Keeps.advance.skip fun _ => Keeps.identifier.skip fun _ =>
    (Keeps.accept _).skip fun b => ?_
  refine .ite (fun _ => ?_) fun _ => .closePattern (List.nil_subset _)
  refine (Keeps.separated _ h.pattern h.advances_pattern).bind fun args => ?_
  exact (Keeps.expect _).skip fun _ => .closePattern (by simp [Pattern.children])

theorem keeps_listPattern : Keeps tokens known (listPattern deep start) := by
  refine Keeps.advance.skip fun _ => (Keeps.accept _).skip fun b => ?_
  refine .ite (fun _ => .closePattern (List.nil_subset _)) fun _ => ?_
  refine (Keeps.separated _ h.pattern h.advances_pattern).bind fun items => ?_
  exact (Keeps.expect _).skip fun _ => .closePattern (by simp [Pattern.children])

theorem keeps_successor : Keeps tokens known (successor deep start) := by
  refine Keeps.cursor.skip fun c => ?_
  split
  · refine Keeps.advance.skip fun _ => Keeps.advance.skip fun _ => ?_
    exact h.patternAtom.bind fun rest => .closePattern (by simp [Pattern.children])
  · exact .fail _

theorem keeps_patternAtom : Keeps tokens known (patternAtom deep) := by
  refine Keeps.cursor.skip fun c => ?_
  dsimp only
  split
  · exact Keeps.advance.skip fun _ => .closePattern (List.nil_subset _)
  · exact .ite (fun _ => keeps_successor h) fun _ => keeps_literalPattern _
  any_goals exact keeps_literalPattern _
  · exact keeps_constructorPattern h
  · exact Keeps.advance.skip fun _ => Keeps.identifier.skip fun _ =>
      .closePattern (List.nil_subset _)
  · exact keeps_parenthesised h
  · exact keeps_listPattern h
  · exact .unexpected _

theorem keeps_pattern : Keeps tokens known (pattern deep) := by
  refine Keeps.here.skip fun _ => (keeps_patternAtom h).bind fun head => ?_
  refine (Keeps.accept _).skip fun b => .ite (fun _ => ?_) fun _ => .pure (by simp)
  exact h.pattern.bind fun tail => .closePattern (by simp [Pattern.children])

/-! ## What follows an operand -/

theorem keeps_callArgs : Keeps tokens known (callArgs deep) :=
  (Keeps.separated _ h.inner (h.advances_expr _)).delimited.bind fun _ =>
    (Keeps.expect _).skip fun _ => .pure (by simp)

theorem keeps_call {head : TermId} {tight : Bool} (hhead : .term head ∈ known) :
    Keeps tokens known (call deep head start tight) := by
  refine Keeps.advance.skip fun _ => (keeps_callArgs h).bind fun args => .close ?_ trivial
  simp [Term.children, hhead]

theorem keeps_typeArgs : Keeps tokens known (typeArgs deep) := by
  refine Keeps.advance.skip fun _ => ?_
  refine (Keeps.commaList (h.expr _) (h.advances_expr _)).withUsage.delimited.bind fun args => ?_
  exact Keeps.closeAngle.skip fun _ => .pure (by simp)

theorem keeps_genericArgs : Keeps tokens known (genericArgs deep) := by
  refine (keeps_typeArgs h).bind fun args => Keeps.cursor.skip fun c =>
    .ite (fun _ => ?_) fun _ => ?_
  · exact Keeps.advance.skip fun _ => (keeps_callArgs h).bind fun values => .pure (by simp)
  · refine Keeps.slot.skip fun _ => .ite (fun _ => .pure (List.nil_subset _)) fun _ => .pure ?_
    simp

theorem keeps_generic? {head : TermId} (hhead : .term head ∈ known) :
    Keeps tokens known (generic? deep head start) := by
  refine (Keeps.attempt .generic (keeps_genericArgs h)).bind fun found => ?_
  split
  · refine .map (.close ?_ trivial) fun _ => by simp
    simp [Term.children, hhead]
  · refine .map (.close ?_ trivial) fun _ => by simp
    simp [Term.children, hhead]
  · exact .pure (List.nil_subset _)

theorem keeps_equalitySides : Keeps tokens known (equalitySides deep) := by
  refine (h.expr _).bind fun lhs => Keeps.kind.skip fun k => ?_
  split
  · exact Keeps.advance.skip fun _ => (h.expr _).bind fun rhs => .pure (by simp)
  · exact .pure (List.nil_subset _)

theorem keeps_equality : Keeps tokens known (equality deep) := by
  refine Keeps.advance.skip fun _ => ?_
  refine (keeps_equalitySides h).withUsage.delimited.bind fun sides => ?_
  split
  · refine (Keeps.accept _).skip fun b => .ite (fun _ => .pure ?_) fun _ => .pure ?_
    · simp
    · simp
  · exact .pure (List.nil_subset _)

omit h in
theorem keeps_refl : Keeps tokens known Grammar.refl :=
  Keeps.here.skip fun _ => Keeps.advance.skip fun _ => Keeps.advance.skip fun _ =>
    Keeps.advance.skip fun _ => .close (List.nil_subset _) trivial

theorem keeps_braceSuffix {head : TermId} {tight : Bool} (hhead : .term head ∈ known) :
    Keeps tokens known (braceSuffix deep head start tight) := by
  refine Keeps.cursor.skip fun c => .ite (fun _ => ?_) fun _ => ?_
  · exact keeps_refl.bind fun arg => .close (by simp [Term.children, hhead]) trivial
  · refine (Keeps.attempt .equality (keeps_equality h)).bind fun sides => ?_
    split
    · exact .close (by simp [Term.children, hhead]) trivial
    · refine (Keeps.expect _).skip fun _ => ?_
      refine (Keeps.separated _ h.inner (h.advances_expr _)).withUsage.delimited.bind fun args => ?_
      exact (Keeps.expect _).skip fun _ => .close (by simp [Term.children, hhead]) trivial

theorem keeps_suffixRound (head : TermId) :
    Keeps tokens (refs head) (suffixRound deep start head) := by
  have hhead : .term head ∈ refs head := .head _
  have hdone : Keeps tokens (refs head) (pure (Round.done head)) := .pure (by simp)
  refine Keeps.cursor.skip fun c => Keeps.slot.skip fun s => .ite (fun _ => hdone) fun _ => ?_
  split
  · exact (keeps_call h hhead).map fun _ => by simp
  · refine (Keeps.bareName hhead).seq fun bare => .ite (fun _ => ?_) fun _ => hdone.mono (by simp)
    refine (keeps_generic? h hhead).seq fun found => ?_
    split
    · exact .pure (by simp)
    · exact .pure (by simp)
  · refine .ite (fun _ => ?_) fun _ => hdone
    refine Keeps.advance.skip fun _ => Keeps.advance.skip fun _ => ?_
    exact .map (.close (by simp [Term.children]) trivial) fun _ => by simp
  · exact .ite (fun _ => (keeps_braceSuffix h hhead).map fun _ => by simp) fun _ => hdone
  · exact hdone

omit h in
theorem triesFrom_generic? {c : Cursor} {head : TermId} (hkind : c.kind = .mark .less) :
    (generic? deep head start).TriesFrom c := by
  have hargs : (genericArgs deep).AdvancesFrom c :=
    .bind ((AdvancesFrom.advance (by simp [hkind])).bind _) _
  refine (TriesFrom.attempt .generic hargs).bind (fun found setting s t ht => ?_) .declined
  obtain ⟨args, values⟩ := found
  cases values with
  | none => obtain ⟨id, u, -, ⟨⟩⟩ := ok_of_bind ht
  | some values => obtain ⟨id, u, -, ⟨⟩⟩ := ok_of_bind ht

omit h in
theorem goes_suffixRound (head : TermId) : (suffixRound deep start head).Goes := by
  refine fun c => .look (.stay stays_slot fun s => .ite (fun _ => .done _) fun _ => ?_)
  split
  · rename_i hkind
    exact .of_advances (((AdvancesFrom.advance (by simp [hkind])).bind _).bind _)
  · rename_i hkind
    refine .stay (stays_bareName _) fun bare => .ite (fun _ => ?_) fun _ => .done _
    exact (triesFrom_generic? hkind).goes (.done _)
  · rename_i hkind
    exact .ite (fun _ => .of_advances ((AdvancesFrom.advance (by simp [hkind])).bind _))
      fun _ => .done _
  · rename_i hkind
    refine .ite (fun _ => .of_advances ?_) fun _ => .done _
    exact (AdvancesFrom.of_takes (takes_braceSuffix true) (by simp [hkind])).bind _
  · exact .done _

theorem keeps_suffixes {head : TermId} (hhead : .term head ∈ known) :
    Keeps tokens known (suffixes deep start head) :=
  .loopFrom (keeps_suffixRound h) goes_suffixRound (by simpa using hhead)

/-! ## Case blocks -/

theorem keeps_supTag : Keeps tokens known (supTag deep) := by
  refine (Keeps.expect _).skip fun _ => (h.expr _).within.bind fun label => ?_
  refine (Keeps.expect _).skip fun _ => (Keeps.expect _).skip fun _ =>
    (Keeps.expect _).skip fun _ => ?_
  exact .pure (List.subset_append_left _ _)

theorem keeps_caseTag (head : CaseHead) : Keeps tokens known (caseTag deep head) := by
  cases head with
  | sup => exact keeps_supTag h
  | ctor =>
      exact Keeps.advance.skip fun _ => Keeps.identifier.skip fun _ => .pure (List.nil_subset _)
  | sym =>
      exact Keeps.advance.skip fun _ => Keeps.identifier.skip fun _ => .pure (List.nil_subset _)
  | _ => exact (Keeps.skipTokens _).skip fun _ => .pure (List.nil_subset _)

omit h in
theorem refs_blockCase (tag : CaseTag TermId) (span : Span) (body : TermId) :
    refs (⟨tag, span, body⟩ : BlockCase TermId) = refs tag ++ refs body := by
  cases tag <;> rfl

theorem keeps_blockCase (head : CaseHead) : Keeps tokens known (blockCase deep head) := by
  refine Keeps.here.skip fun start => (keeps_caseTag h head).bind fun tag => ?_
  refine (Keeps.expect _).skip fun _ => h.statement.bind fun body =>
    (Keeps.accept _).skip fun _ => ?_
  exact (Keeps.since _).skip fun _ => .pure (by simp [refs_blockCase])

theorem keeps_positionalCase (kind : BlockKind) (head : CaseHead) :
    Keeps tokens known (positionalCase deep kind head) :=
  Keeps.cursor.skip fun _ => .ite (fun _ => keeps_blockCase h head) fun _ => .unexpected _

omit h in
theorem refs_caseBlock_mk (kind : BlockKind) (cases : List (BlockCase TermId))
    (fallback : Option TermId) :
    refs (⟨kind, cases, fallback⟩ : CaseBlock TermId) = refs cases ++ refs fallback := by
  have hcases : refs cases = refs (cases.flatMap (·.terms)) := by
    simp only [refs_terms, List.map_flatMap]
    exact congrArg (List.flatMap · cases) (funext fun c => refs_terms c.terms)
  rw [hcases]
  exact refs_append _ fallback.toList

theorem keeps_positionalBlock (kind : BlockKind) (first second : CaseHead) :
    Keeps tokens known (positionalBlock deep kind first second) := by
  refine (keeps_positionalCase h kind first).bind fun a => ?_
  refine (keeps_positionalCase h kind second).bind fun b => .pure ?_
  rw [refs_caseBlock_mk]
  simp [refs_cons]

theorem keeps_singleBlock (kind : BlockKind) (head : CaseHead) :
    Keeps tokens known (singleBlock deep kind head) := by
  refine (keeps_blockCase h head).bind fun a => .pure ?_
  rw [refs_caseBlock_mk]
  simp [refs_cons]

omit h in
/-- The end of a text is not the head of a case. -/
theorem Cursor.kind_ne_eof {c : Cursor} {head : CaseHead} (h : c.caseHead? = some head) :
    c.kind ≠ .eof := by
  intro hkind
  simp [Cursor.caseHead?, hkind] at h

theorem keeps_enumRound (cases : Array (BlockCase TermId)) :
    Keeps tokens (refs cases) (enumRound deep cases) := by
  refine Keeps.cursor.skip fun c => ?_
  split
  · exact (keeps_blockCase h _).bind fun a => .pure (by simp)
  · exact (keeps_blockCase h _).bind fun a => .pure (by simp)
  · exact .pure (by simp)

omit h in
/-- Every case has a head with a colon behind it. -/
theorem goes_enumRound (cases : Array (BlockCase TermId)) : (enumRound deep cases).Goes := by
  refine fun c => .look ?_
  have hcase {head : CaseHead} (hhead : c.caseHead? = some head)
      (htag : (caseTag deep head).AdvancesFrom c) : (blockCase deep head).AdvancesFrom c :=
    .stay (stays_cursor.bind fun _ => stays_asks _) fun _ => htag.bind _
  split
  · rename_i hhead
    have hkind := Cursor.kind_ne_eof hhead
    exact .of_advances ((hcase hhead ((AdvancesFrom.advance hkind).bind _)).bind _)
  · rename_i hhead
    have hkind := Cursor.kind_ne_eof hhead
    exact .of_advances ((hcase hhead ((AdvancesFrom.advance hkind).bind _)).bind _)
  · exact .done _

theorem keeps_enumBlock : Keeps tokens known (enumBlock deep) := by
  refine Keeps.bind (.loopFrom (keeps_enumRound h) goes_enumRound (List.nil_subset _))
    fun cases => ?_
  refine (Keeps.sees _).skip fun b => .ite (fun _ => .pure ?_) fun _ => ?_
  · rw [refs_caseBlock_mk]
    simp
  · refine h.statement.bind fun body => (Keeps.accept _).skip fun _ => .pure ?_
    rw [refs_caseBlock_mk]
    simp

theorem keeps_blockFrom (head : CaseHead) : Keeps tokens known (blockFrom deep head) := by
  cases head with
  | ctor => exact keeps_enumBlock h
  | sym => exact keeps_enumBlock h
  | unit => exact keeps_singleBlock h _ _
  | pair => exact keeps_singleBlock h _ _
  | refl => exact keeps_singleBlock h _ _
  | sup => exact keeps_singleBlock h _ _
  | _ => exact keeps_positionalBlock h _ _ _

theorem keeps_atLongSupHead : Keeps tokens known (atLongSupHead deep) :=
  Keeps.succeeds ((keeps_supTag h).bind fun _ => .expect _)

theorem keeps_blockCases : Keeps tokens known (blockCases deep) := by
  refine Keeps.cursor.skip fun c => .ite (fun _ => .pure (List.nil_subset _)) fun _ => ?_
  split
  · exact keeps_blockFrom h _
  · refine .ite (fun _ => ?_) fun _ => ?_
    · exact (keeps_atLongSupHead h).skip fun b =>
        .ite (fun _ => keeps_blockFrom h _) fun _ => keeps_enumBlock h
    · exact Keeps.slot.skip fun s => .ite (fun _ => keeps_enumBlock h) fun _ => .unexpected _

theorem keeps_caseBlock : Keeps tokens known (caseBlock deep) := by
  refine (Keeps.expect _).skip fun _ => (keeps_blockCases h).within.bind fun block => ?_
  exact (Keeps.expect _).skip fun _ => .pure (by simp)

/-! ## Constructs that bind names -/

theorem keeps_param : Keeps tokens known (param deep) := by
  refine Keeps.cursor.skip fun c => ?_
  split
  · refine Keeps.advance.skip fun span => (Keeps.accept _).skip fun b =>
      .ite (fun _ => ?_) fun _ => ?_
    · exact h.binderType.bind fun type => .pure (List.subset_append_left _ _)
    · exact .pure (List.nil_subset _)
  · refine Keeps.advance.skip fun _ => .ite (fun _ => ?_) fun _ => ?_
    · refine (keeps_binder h.type).delimited.bind fun binder => (Keeps.expect _).skip fun _ => ?_
      exact .pure (List.subset_append_left _ _)
    · refine (Keeps.separated _ h.pattern h.advances_pattern).delimited.bind fun patterns => ?_
      refine (Keeps.require _ _).skip fun _ => (Keeps.expect _).skip fun _ => .pure ?_
      simp
  · exact .unexpected _

omit h in
theorem advances_param : (param deep).Advances := by
  refine fun c => .look ?_
  split
  · rename_i hkind
    exact (AdvancesFrom.advance (by simp [hkind])).bind _
  · rename_i hkind
    exact (AdvancesFrom.advance (by simp [hkind])).bind _
  · exact .unexpected _

theorem keeps_lambda : Keeps tokens known (lambda deep start) := by
  refine Keeps.advance.skip fun _ => (Keeps.sees _).skip fun b => .ite (fun _ => ?_) fun _ => ?_
  · exact (keeps_caseBlock h).bind fun block => .close (by simp [Term.children]) trivial
  · refine (Keeps.oneUpTo _ (keeps_param h) advances_param).bind fun params => ?_
    refine (Keeps.expect _).skip fun _ => h.statement.bind fun body => ?_
    exact .close (by simp [Term.children]) trivial

theorem keeps_fixedPoint : Keeps tokens known (fixedPoint deep start) :=
  Keeps.advance.skip fun _ => Keeps.identifier.skip fun _ => (Keeps.expect _).skip fun _ =>
    h.statement.bind fun _ => .close (by simp [Term.children]) trivial

theorem keeps_quantified : Keeps tokens known (quantified deep) :=
  (Keeps.expect _).skip fun _ => (h.expr _).withUsage.mono (List.nil_subset _)

theorem keeps_all : Keeps tokens known (Grammar.all deep start) := by
  refine Keeps.advance.skip fun _ => ?_
  refine (Keeps.commaList (keeps_binder h.binderType) (advances_binder _)).bind fun bs => ?_
  exact (keeps_quantified h).bind fun body => .close (by simp [Term.children]) trivial

theorem keeps_any : Keeps tokens known (Grammar.any deep start) := by
  refine Keeps.advance.skip fun _ => (keeps_binder h.binderType).bind fun bound => ?_
  exact (keeps_quantified h).bind fun body => .close (by simp [Term.children]) trivial

/-! ## Constructs that begin with a keyword -/

theorem keeps_branch (keyword : Keyword) : Keeps tokens known (branch deep keyword) :=
  (Keeps.expect _).skip fun _ => (Keeps.expect _).skip fun _ => h.statement.mono (List.nil_subset _)

omit h in
theorem advances_branch (keyword : Keyword) : (branch deep keyword).Advances :=
  (Advances.expect (by simp)).bind _

theorem keeps_condition : Keeps tokens known (condition deep) := by
  refine Keeps.advance.skip fun _ => h.term.bind fun cond => (Keeps.expect _).skip fun _ => ?_
  exact h.statement.bind fun body => .pure (by simp)

theorem keeps_ifElse : Keeps tokens known (ifElse deep start) := by
  refine (keeps_condition h).bind fun (cond, yes) => (keeps_branch h _).bind fun no => ?_
  exact .close (by simp [Term.children]) trivial

theorem keeps_fork : Keeps tokens known (fork deep start) := by
  refine (keeps_condition h).bind fun (cond, yes) => ?_
  refine (Keeps.collectWhile (.sees _) (keeps_branch h _) (advances_branch _)).bind fun elifs => ?_
  refine (keeps_branch h _).bind fun no => ?_
  exact .close (by simp [Term.children]) trivial

theorem keeps_withClause : Keeps tokens known (withClause deep) := by
  refine Keeps.identifier.skip fun _ => (Keeps.accept _).skip fun b =>
    .ite (fun _ => ?_) fun _ => ?_
  · exact (h.expr _).within.bind fun value => .pure (List.subset_append_left _ _)
  · exact .pure (List.nil_subset _)

theorem keeps_withClauses : Keeps tokens known (withClauses deep) :=
  (Keeps.expect _).skip fun _ => (Keeps.collectThrough (keeps_withClause h)
    (Advances.identifier.bind _) (.sees _)).mono (List.nil_subset _)

theorem keeps_matchCase : Keeps tokens known (matchCase deep) := by
  refine (Keeps.expect _).skip fun start => ?_
  refine (Keeps.oneUpTo _ h.pattern h.advances_pattern).bind fun patterns => ?_
  refine (Keeps.expect _).skip fun _ => h.statement.bind fun body =>
    (Keeps.accept _).skip fun _ => ?_
  exact (Keeps.since _).skip fun _ => .pure (by simp)

theorem keeps_matchOn : Keeps tokens known (matchOn deep start) := by
  refine Keeps.advance.skip fun _ => ?_
  refine (Keeps.oneUpTo _ (h.expr _) (h.advances_expr _)).within.bind fun scrutinees => ?_
  refine (Keeps.expect _).skip fun _ => ?_
  have hwith : (withClauses deep).Advances := (Advances.expect (by simp)).bind _
  refine (Keeps.collectWhile (.sees _) (keeps_withClauses h) hwith).bind fun withs => ?_
  have hcase : (matchCase deep).Advances := (Advances.expect (by simp)).bind _
  refine (Keeps.collectWhile (.sees _) (keeps_matchCase h) hcase).bind fun cases => ?_
  refine (Keeps.require _ _).skip fun _ => .close ?_ trivial
  have hwiths : refs withs = refs withs.flatten := (refs_flatten withs).symm
  rw [hwiths]
  have hscrutinees : refs scrutinees ⊆
      refs cases ++ (refs withs.flatten ++ (refs scrutinees ++ known)) :=
    fun c hc => List.mem_append_right _ (List.mem_append_right _ (List.mem_append_left _ hc))
  simpa [Term.children] using hscrutinees

theorem keeps_useIn : Keeps tokens known (useIn deep start) := by
  refine Keeps.advance.skip fun _ => Keeps.identifier.skip fun _ =>
    (Keeps.expect _).skip fun _ => ?_
  refine h.term.bind fun value => (Keeps.expect _).skip fun _ => h.statement.bind fun body => ?_
  exact .close (by simp [Term.children]) trivial

theorem keeps_operandAndBody {term : TermId → TermId → Term TermId PatternId}
    (hterm : ∀ a b, (term a b).children = [.term a, .term b]) (hnamed : ∀ a b, (term a b).Named) :
    Keeps tokens known (operandAndBody deep start term) := by
  refine Keeps.advance.skip fun _ => (h.expr _).bind fun first => (Keeps.accept _).skip fun _ => ?_
  exact h.statement.bind fun body => .close (by simp [hterm]) (hnamed _ _)

theorem keeps_before (min : Level) {term : TermId → Term TermId PatternId}
    (hterm : ∀ a, (term a).children = [.term a]) (hnamed : ∀ a, (term a).Named) :
    Keeps tokens known (before deep start min term) :=
  Keeps.advance.skip fun _ => (h.expr min).bind fun _ => .close (by simp [hterm]) (hnamed _)

theorem keeps_tilde : Keeps tokens known (tilde deep start) := by
  refine Keeps.advance.skip fun _ => (h.expr _).within.bind fun scrutinee => ?_
  refine Keeps.slot.skip fun s => Keeps.cursor.skip fun c => .ite (fun _ => ?_) fun _ => ?_
  · exact (keeps_caseBlock h).bind fun block => .close (by simp [Term.children]) trivial
  · exact .close (by simp [Term.children]) trivial

end Productions

end BendSyntax
