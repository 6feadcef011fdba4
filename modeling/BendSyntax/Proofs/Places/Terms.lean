import BendSyntax.Proofs.Places

/-! Patterns, what follows an operand, case blocks and the constructs that begin with a keyword keep
trees to the table. A head is read before the term that it belongs to is known, but in the same
slot. -/

namespace BendSyntax

open Reading Grammar

/-- The readings of the next level keep trees to the table. A statement is a term, an expression has
the usage of its slot. -/
structure Deeper.Placing (deep : Deeper) : Prop where
  statement {u ps} : deep.statement.Places u ps fun id => [(id, .term)]
  expr {u ps} (min : Level) : (deep.expr min).Places u ps fun id => [(id, u)]
  pattern {u ps} : deep.pattern.Places u ps fun _ => []
  patternAtom {u ps} : (deep .patternAtom : Reading PatternId).Places u ps fun _ => []

variable {deep : Deeper} {start : Span} {u v : Usage} {ps : List (TermId × Usage)}

namespace Deeper.Placing

variable (h : deep.Placing)

include h

theorem type : deep.type.Places u ps fun id => [(id, .type)] := (h.expr _).withUsage

theorem term : deep.term.Places u ps fun id => [(id, .term)] := (h.expr _).withUsage

theorem inner : deep.inner.Places u ps fun id => [(id, u)] := h.expr _

theorem binderType : deep.binderType.Places u ps fun id => [(id, .type)] :=
  (h.expr _).within fun _ _ => rfl

end Deeper.Placing

/-! ## Patterns -/

theorem usages_binder {type : Reading TermId} (h : ∀ ps, type.Places u ps fun id => [(id, .type)]) :
    (binder type).Places u ps fun b => [(b.type, .type)] :=
  .bind .identifier fun _ => .bind (.expect _) fun _ => .bind (h _) fun _ => .pure (by simp)

theorem usages_literal (kind : TokenKind) : (literal kind).Places u ps fun _ => [] := by
  refine .bind .ask fun c => ?_
  split
  · exact .pure (by simp)
  · exact .fail _

theorem usages_literalPattern (kind : TokenKind) :
    (literalPattern start kind).Places u ps fun _ => [] :=
  .bind (usages_literal kind) fun _ => .bind .advance fun _ => .closePattern _

section Productions

variable (h : deep.Placing)

include h

theorem usages_parenthesised : (parenthesised deep start).Places u ps fun _ => [] := by
  refine .bind .advance fun _ => .bind (.loop (fun _ => []) (fun acc => ?_) (by simp)) fun acc => ?_
  · obtain ⟨items, comma⟩ := acc
    refine .bind (.sees _) fun _ => .ite (fun _ => .pure (by simp)) fun _ => ?_
    refine .bind h.pattern fun p => .bind (.accept _) fun _ => ?_
    exact .ite (fun _ => .pure (by simp)) fun _ => .pure (by simp)
  · obtain ⟨items, comma⟩ := acc
    refine .bind (.require _ _) fun _ => .bind (.expect _) fun _ => ?_
    split
    · exact .closePattern _
    · exact .closePattern _

theorem usages_constructorPattern : (constructorPattern deep start).Places u ps fun _ => [] := by
  refine .bind .advance fun _ => .bind .identifier fun _ => .bind (.accept _) fun _ =>
    .ite (fun _ => ?_) fun _ => .closePattern _
  exact .bind (.separated _ h.pattern) fun _ => .bind (.expect _) fun _ => .closePattern _

theorem usages_listPattern : (listPattern deep start).Places u ps fun _ => [] := by
  refine .bind .advance fun _ => .bind (.accept _) fun _ => .ite (fun _ => .closePattern _) fun _ => ?_
  exact .bind (.separated _ h.pattern) fun _ => .bind (.expect _) fun _ => .closePattern _

theorem usages_successor : (successor deep start).Places u ps fun _ => [] := by
  refine .bind .ask fun c => ?_
  split
  · exact .bind .advance fun _ => .bind .advance fun _ => .bind h.patternAtom fun _ => .closePattern _
  · exact .fail _

theorem usages_patternAtom : (patternAtom deep).Places u ps fun _ => [] := by
  refine .bind .ask fun c => ?_
  dsimp only
  split
  · exact .bind .advance fun _ => .closePattern _
  · exact .ite (fun _ => usages_successor h) fun _ => usages_literalPattern _
  any_goals exact usages_literalPattern _
  · exact usages_constructorPattern h
  · exact .bind .advance fun _ => .bind .identifier fun _ => .closePattern _
  · exact usages_parenthesised h
  · exact usages_listPattern h
  · exact .unexpected _

theorem usages_pattern : (pattern deep).Places u ps fun _ => [] := by
  refine .bind .here fun _ => .bind (usages_patternAtom h) fun _ => .bind (.accept _) fun _ => ?_
  refine .ite (fun _ => ?_) fun _ => .pure (by simp)
  exact .bind h.pattern fun _ => .closePattern _

/-! ## What follows an operand -/

theorem usages_callArgs : (callArgs deep).Places u ps u.of := by
  refine .bind (.delimited (.separated _ h.inner)) fun args => .bind (.expect _) fun _ => ?_
  exact .pure (by simp +contextual)

theorem usages_call {head : TermId} {tight : Bool} (hhead : (head, u) ∈ ps) :
    (call deep head start tight).Places u ps fun id => [(id, u)] := by
  refine .bind .advance fun _ => .bind (usages_callArgs h) fun args => .close ?_
  simp +contextual [Term.places, Term.subterms, Term.children, hhead]

theorem usages_typeArgs : (typeArgs deep).Places u ps Usage.type.of := by
  refine .bind .advance fun _ => .bind (.delimited (.withUsage (.commaList (h.expr _)))) fun args => ?_
  exact .bind .closeAngle fun _ => .pure (by simp +contextual)

/-- The terms of generic arguments: types, and arguments in the usage of the slot. -/
def genericPlaces (u : Usage) :
    Option (List TermId × Option (List TermId)) → List (TermId × Usage)
  | some (args, values) => Usage.type.of args ++ u.of (values.getD [])
  | none => []

theorem usages_genericArgs? : (genericArgs? deep).Places u ps (genericPlaces u) := by
  refine .attempt .generic ?_ rfl
  refine .bind (usages_typeArgs h) fun args => .bind .ask fun c => .ite (fun _ => ?_) fun _ => ?_
  · refine .bind .advance fun _ => .bind (usages_callArgs h) fun values => .pure ?_
    simp +contextual [genericPlaces]
  · refine .bind .ask fun s => .ite (fun _ => .pure (by simp [genericPlaces])) fun _ => .pure ?_
    simp +contextual [genericPlaces]

theorem usages_generic? {head : TermId} (hhead : (head, u) ∈ ps) :
    (generic? deep head start).Places u ps fun found => u.of found.toList := by
  refine .bind (usages_genericArgs? h) fun found => ?_
  split
  · refine .map (.close ?_)
    simp +contextual [genericPlaces, Term.places, hhead]
  · refine .map (.close ?_)
    simp +contextual [genericPlaces, Term.places, hhead]
  · exact .pure (by simp)

theorem usages_equalitySides : (equalitySides deep).Places u ps fun sides =>
    sides.elim [] fun (lhs, _, rhs) => u.of [lhs, rhs] := by
  refine .bind (h.expr _) fun lhs => .bind .kind fun k => ?_
  split
  · exact .bind .advance fun _ => .bind (h.expr _) fun rhs => .pure (by simp)
  · exact .pure (by simp)

theorem usages_equality : (equality deep).Places u ps fun sides =>
    sides.elim [] fun (lhs, _, rhs) => Usage.term.of [lhs, rhs] := by
  refine .bind .advance fun _ =>
    .bind (.delimited (.withUsage (usages_equalitySides h))) fun sides => ?_
  cases sides with
  | none => exact .pure (by simp)
  | some sides =>
      exact .bind (.accept _) fun _ => .ite (fun _ => .pure (by simp)) fun _ => .pure (by simp)

omit h in
theorem usages_refl : Grammar.refl.Places u ps fun id => [(id, u)] :=
  .bind .here fun _ => .bind .advance fun _ => .bind .advance fun _ => .bind .advance fun _ =>
    .close (by simp [Term.places, Term.subterms, Term.children])

theorem usages_braceSuffix {head : TermId} {tight : Bool} (hhead : (head, u) ∈ ps) :
    (braceSuffix deep head start tight).Places u ps fun id => [(id, u)] := by
  refine .bind .ask fun c => .ite (fun _ => ?_) fun _ => ?_
  · refine .bind usages_refl fun arg => .close ?_
    simp [Term.places, Term.subterms, Term.children, hhead]
  · refine .bind (.attempt .equality (usages_equality h) rfl) fun sides => ?_
    cases sides with
    | some sides => exact .close (by simp [Term.places, hhead])
    | none =>
        refine .bind (.expect _) fun _ =>
          .bind (.delimited (.withUsage (.separated _ h.inner))) fun args => ?_
        refine .bind (.expect _) fun _ => .close ?_
        simp +contextual [Term.places, hhead]

theorem usages_suffixRound (head : TermId) :
    (suffixRound deep start head).Places u ((head, u) :: ps) fun round => [(round.answer, u)] := by
  have hdone {ps : List (TermId × Usage)} (hhead : (head, u) ∈ ps) :
      (pure (.done head) : Reading (Round TermId)).Places u ps fun round => [(round.answer, u)] :=
    .pure (by simp [Round.answer, hhead])
  refine .bind .ask fun c => .bind .ask fun s => .ite (fun _ => hdone (by simp)) fun _ => ?_
  split
  · exact .map (usages_call h (by simp))
  · refine .bind (.bareName head) fun bare => .ite (fun _ => ?_) fun _ => hdone (by simp)
    refine .bind (usages_generic? h (by simp)) fun found => ?_
    split
    · exact .pure (by simp [Round.answer])
    · exact hdone (by simp)
  · refine .ite (fun _ => ?_) fun _ => hdone (by simp)
    refine .bind .advance fun _ => .bind .advance fun _ => .map (.close ?_)
    simp [Term.places, Term.subterms, Term.children]
  · exact .ite (fun _ => .map (usages_braceSuffix h (by simp))) fun _ => hdone (by simp)
  · exact hdone (by simp)

theorem usages_suffixes {head : TermId} (hhead : (head, u) ∈ ps) :
    (suffixes deep start head).Places u ps fun id => [(id, u)] :=
  .loop (fun id => [(id, u)]) (usages_suffixRound h) (by simp [hhead])

/-! ## Case blocks -/

/-- The label of a case. -/
def CaseTag.labels {τ : Type} : CaseTag τ → List τ
  | sup label => [label]
  | _ => []

omit h in
theorem BlockCase.terms_eq (c : BlockCase TermId) : c.terms = c.tag.labels ++ [c.body] := by
  obtain ⟨tag, span, body⟩ := c
  cases tag <;> rfl

theorem usages_supTag : (supTag deep).Places u ps fun tag => u.of tag.labels := by
  refine .bind (.expect _) fun _ => .bind (.within (h.expr _) fun _ hu => hu) fun label => ?_
  refine .bind (.expect _) fun _ => .bind (.expect _) fun _ => .bind (.expect _) fun _ => ?_
  exact .pure (by simp [CaseTag.labels])

omit h in
theorem usages_fixedTag {tag : CaseTag TermId} (htag : tag.labels = []) (width : Nat) :
    (fixedTag tag width).Places u ps fun tag => u.of tag.labels :=
  .bind (.of_maintains (.skipTokens width)) fun _ => .pure (by simp [htag])

theorem usages_caseTag (head : CaseHead) :
    (caseTag deep head).Places u ps fun tag => u.of tag.labels := by
  cases head with
  | sup => exact usages_supTag h
  | ctor => exact .bind .advance fun _ => .bind .identifier fun _ => .pure (by simp [CaseTag.labels])
  | sym => exact .bind .advance fun _ => .bind .identifier fun _ => .pure (by simp [CaseTag.labels])
  | _ => exact usages_fixedTag rfl _

theorem usages_blockCase (head : CaseHead) :
    (blockCase deep head).Places .term ps fun c => Usage.term.of c.terms := by
  refine .bind .here fun start => .bind (usages_caseTag h head) fun tag => ?_
  refine .bind (.expect _) fun _ => .bind h.statement fun body => .bind (.accept _) fun _ => ?_
  exact .bind (.since _) fun _ => .pure (by simp +contextual [BlockCase.terms_eq, or_imp])

theorem usages_positionalCase (kind : BlockKind) (head : CaseHead) :
    (positionalCase deep kind head).Places .term ps fun c => Usage.term.of c.terms :=
  .bind .ask fun _ => .ite (fun _ => usages_blockCase h head) fun _ => .unexpected _

theorem usages_positionalBlock (kind : BlockKind) (first second : CaseHead) :
    (positionalBlock deep kind first second).Places .term ps fun block =>
      Usage.term.of block.terms :=
  .bind (usages_positionalCase h kind first) fun a =>
    .bind (usages_positionalCase h kind second) fun b =>
      .pure (by simp +contextual [CaseBlock.terms, or_imp])

theorem usages_singleBlock (kind : BlockKind) (head : CaseHead) :
    (singleBlock deep kind head).Places .term ps fun block => Usage.term.of block.terms :=
  .bind (usages_blockCase h head) fun a => .pure (by simp +contextual [CaseBlock.terms])

theorem usages_enumBlock :
    (enumBlock deep).Places .term ps fun block => Usage.term.of block.terms := by
  have hround (cases : Array (BlockCase TermId)) {ps : List (TermId × Usage)} :
      (enumRound deep cases).Places .term
        (Usage.term.of (cases.toList.flatMap (·.terms)) ++ ps)
        fun round => Usage.term.of (round.answer.toList.flatMap (·.terms)) := by
    have hcase (head : CaseHead) : (do
        return .more (cases.push (← blockCase deep head)) :
          Reading (Round (Array (BlockCase TermId)))).Places .term
        (Usage.term.of (cases.toList.flatMap (·.terms)) ++ ps)
        fun round => Usage.term.of (round.answer.toList.flatMap (·.terms)) := by
      refine .bind (usages_blockCase h head) fun c => .pure ?_
      simp +contextual [Round.answer, or_imp]
    refine .bind .ask fun c => ?_
    split
    · exact hcase _
    · exact hcase _
    · exact .pure (by simp +contextual [Round.answer])
  refine .bind (.loop (fun cases => Usage.term.of (cases.toList.flatMap (·.terms)))
    (fun cases => hround cases) (by simp)) fun cases => .bind (.sees _) fun _ => ?_
  refine .ite (fun _ => .pure (by simp +contextual [CaseBlock.terms])) fun _ => ?_
  refine .bind h.statement fun body => .bind (.accept _) fun _ => .pure ?_
  simp +contextual [CaseBlock.terms, or_imp]

theorem usages_blockFrom (head : CaseHead) :
    (blockFrom deep head).Places .term ps fun block => Usage.term.of block.terms := by
  cases head with
  | unit | pair | refl | sup => exact usages_singleBlock h _ _
  | false | true | zero | succ | nil | cons => exact usages_positionalBlock h _ _ _
  | ctor | sym => exact usages_enumBlock h

theorem usages_atLongSupHead : (atLongSupHead deep).Places u ps fun _ => [] :=
  .succeeds (.bind (usages_supTag h) fun _ => .expect _)

theorem usages_blockCases :
    (blockCases deep).Places .term ps fun block => Usage.term.of block.terms := by
  refine .bind .ask fun c => .ite (fun _ => .pure (by simp [CaseBlock.terms])) fun _ => ?_
  split
  · exact usages_blockFrom h _
  · refine .ite (fun _ => ?_) fun _ => .bind .ask fun s =>
      .ite (fun _ => usages_enumBlock h) fun _ => .unexpected _
    exact .bind (usages_atLongSupHead h) fun _ =>
      .ite (fun _ => usages_blockFrom h _) fun _ => usages_enumBlock h

/-- A block has the usage of terms, wherever it stands. -/
theorem usages_caseBlock :
    (caseBlock deep).Places u ps fun block => Usage.term.of block.terms := by
  refine .bind (.expect _) fun _ => .bind (.within (usages_blockCases h) fun _ _ => rfl) fun block => ?_
  exact .bind (.expect _) fun _ => .pure (by simp +contextual)

/-! ## Constructs that bind names -/

theorem usages_param : (param deep).Places u ps (·.places) := by
  refine .bind .ask fun c => ?_
  split
  · refine .bind .advance fun span => .bind (.accept _) fun _ => .ite (fun _ => ?_) fun _ => ?_
    · exact .bind h.binderType fun _ => .pure (by simp [Param.places])
    · exact .pure (by simp [Param.places])
  · refine .bind .advance fun _ => .ite (fun _ => ?_) fun _ => ?_
    · exact .bind (.delimited (usages_binder fun _ => h.type)) fun _ => .bind (.expect _) fun _ =>
        .pure (by simp [Param.places])
    · exact .bind (.delimited (.separated _ h.pattern)) fun _ => .bind (.require _ _) fun _ =>
        .bind (.expect _) fun _ => .pure (by simp [Param.places])
  · exact .unexpected _

theorem usages_lambda : (lambda deep start).Places u ps fun id => [(id, u)] := by
  refine .bind .advance fun _ => .bind (.sees _) fun _ => .ite (fun _ => ?_) fun _ => ?_
  · exact .bind (usages_caseBlock h) fun block => .close (by simp +contextual [Term.places])
  · refine .bind (.oneUpTo _ (usages_param h)) fun params => .bind (.expect _) fun _ => ?_
    exact .bind h.statement fun body => .close (by simp [Term.places])

theorem usages_fixedPoint : (fixedPoint deep start).Places u ps fun id => [(id, u)] :=
  .bind .advance fun _ => .bind .identifier fun _ => .bind (.expect _) fun _ =>
    .bind h.statement fun _ => .close (by simp [Term.places])

theorem usages_quantified : (quantified deep).Places u ps fun id => [(id, .type)] :=
  .bind (.expect _) fun _ => .withUsage (h.expr _)

theorem usages_all : (Grammar.all deep start).Places u ps fun id => [(id, u)] := by
  refine .bind .advance fun _ => .bind (.commaList (usages_binder fun _ => h.binderType)) fun bs => ?_
  exact .bind (usages_quantified h) fun body => .close (by
    simp +contextual [Term.places, or_imp])

theorem usages_any : (Grammar.any deep start).Places u ps fun id => [(id, u)] :=
  .bind .advance fun _ => .bind (usages_binder fun _ => h.binderType) fun _ =>
    .bind (usages_quantified h) fun _ => .close (by simp [Term.places])

/-! ## Constructs that begin with a keyword -/

theorem usages_branch (keyword : Keyword) :
    (branch deep keyword).Places u ps fun id => [(id, .term)] :=
  .bind (.expect _) fun _ => .bind (.expect _) fun _ => h.statement

theorem usages_condition :
    (condition deep).Places u ps fun (cond, yes) => Usage.term.of [cond, yes] :=
  .bind .advance fun _ => .bind h.term fun _ => .bind (.expect _) fun _ =>
    .bind h.statement fun _ => .pure (by simp)

theorem usages_ifElse : (ifElse deep start).Places u ps fun id => [(id, u)] := by
  refine .bind (usages_condition h) fun (cond, yes) => .bind (usages_branch h _) fun no => .close ?_
  simp [Term.places]

theorem usages_fork : (fork deep start).Places u ps fun id => [(id, u)] := by
  refine .bind (usages_condition h) fun (cond, yes) => ?_
  refine .bind (.collectWhile (.sees _) (usages_branch h _)) fun elifs => ?_
  refine .bind (usages_branch h _) fun no => .close ?_
  simp +contextual [Term.places, or_imp]

theorem usages_withClause :
    (withClause deep).Places u ps fun w => Usage.term.of w.value.toList := by
  refine .bind .identifier fun _ => .bind (.accept _) fun _ =>
    .ite (fun _ => ?_) fun _ => .pure (by simp)
  exact .bind (.within (h.expr _) fun _ _ => rfl) fun _ => .pure (by simp)

theorem usages_withClauses : (withClauses deep).Places u ps fun ws =>
    ws.flatMap fun w => Usage.term.of w.value.toList :=
  .bind (.expect _) fun _ => .collectThrough (usages_withClause h) (.sees _)

theorem usages_matchCase : (matchCase deep).Places u ps fun c => [(c.body, .term)] := by
  refine .bind (.expect _) fun start => .bind (.oneUpTo _ h.pattern) fun patterns => ?_
  refine .bind (.expect _) fun _ => .bind h.statement fun body => .bind (.accept _) fun _ => ?_
  exact .bind (.since _) fun _ => .pure (by simp)

theorem usages_matchOn : (matchOn deep start).Places u ps fun id => [(id, u)] := by
  refine .bind .advance fun _ =>
    .bind (.within (.oneUpTo _ (h.expr _)) fun _ _ => rfl) fun scrutinees => ?_
  refine .bind (.expect _) fun _ =>
    .bind (.collectWhile (.sees _) (usages_withClauses h)) fun withs => ?_
  refine .bind (.collectWhile (.sees _) (usages_matchCase h)) fun cases => ?_
  refine .bind (.require _ _) fun _ => .close ?_
  simp +contextual [Term.places, or_imp]

theorem usages_useIn : (useIn deep start).Places u ps fun id => [(id, u)] :=
  .bind .advance fun _ => .bind .identifier fun _ => .bind (.expect _) fun _ =>
    .bind h.term fun _ => .bind (.expect _) fun _ => .bind h.statement fun _ =>
      .close (by simp [Term.places])

/-- What is read in front of the body has the usage of the slot. -/
theorem usages_operandAndBody {term : TermId → TermId → Term TermId PatternId}
    (hterm : ∀ first body, (term first body).places u = [(first, u), (body, .term)]) :
    (operandAndBody deep start term).Places u ps fun id => [(id, u)] := by
  refine .bind .advance fun _ => .bind (h.expr _) fun first => .bind (.accept _) fun _ => ?_
  exact .bind h.statement fun body => .close (by simp [hterm])

theorem usages_before (min : Level) {term : TermId → Term TermId PatternId}
    (hterm : ∀ arg, (term arg).places u = [(arg, u)]) :
    (before deep start min term).Places u ps fun id => [(id, u)] :=
  .bind .advance fun _ => .bind (h.expr min) fun _ => .close (by simp [hterm])

theorem usages_tilde : (tilde deep start).Places u ps fun id => [(id, u)] := by
  refine .bind .advance fun _ => .bind (.within (h.expr _) fun _ hu => hu) fun scrutinee => ?_
  refine .bind .ask fun s => .bind .ask fun c => .ite (fun _ => ?_) fun _ => ?_
  · exact .bind (usages_caseBlock h) fun block => .close (by simp +contextual [Term.places])
  · exact .close (by simp [Term.places, Term.subterms, Term.children])

end Productions

end BendSyntax
