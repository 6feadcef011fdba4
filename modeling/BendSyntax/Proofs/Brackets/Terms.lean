import BendSyntax.Proofs.Brackets

/-! Patterns, what follows an operand, case blocks and the constructs that begin with a keyword
balance their parentheses if the readings of the next level do. -/

namespace BendSyntax

open Reading Grammar

/-- The readings of the next level balance their parentheses and pass no beginning of an item. -/
class Deeper.Balanced (deep : Deeper) : Prop where
  balances : ∀ g, (deep g).Balances

namespace Deeper

variable (deep : Deeper) [deep.Balanced]

theorem balances_statement : deep.statement.Balances := Balanced.balances _

theorem balances_expr (min : Level) : (deep.expr min).Balances := Balanced.balances (.expr min)

theorem balances_pattern : deep.pattern.Balances := Balanced.balances _

theorem balances_type : deep.type.Balances := (deep.balances_expr _).withUsage

theorem balances_term : deep.term.Balances := (deep.balances_expr _).withUsage

theorem balances_inner : deep.inner.Balances := deep.balances_expr _

theorem balances_binderType : deep.binderType.Balances := (deep.balances_expr _).within

end Deeper

variable {deep : Deeper} {c : Cursor} {start : Span} {k : TokenKind}

theorem balances_binder {type : Reading TermId} (h : type.Balances) : (binder type).Balances :=
  balances_identifier.bind fun _ => (balances_expect rfl).bind fun _ => h.bind fun _ =>
    balances_pure _

theorem Cursor.atRefl_kinds (h : c.atRefl = true) :
    c.kind = .mark .leftBrace ∧ c.kindAt 1 = .mark .eqEq ∧ c.kindAt 2 = .mark .rightBrace := by
  simpa [atRefl, and_assoc] using h

/-! ## Patterns -/

theorem staysAt_literal (kind : TokenKind) : (literal kind).StaysAt c := by
  refine fun ts n => Triple.cursor.bind fun d => ?_
  split
  · exact .pure fun _ hs => hs.2
  · exact .fail fun _ hs h => Steady.complain hs (congrArg Cursor.span h.1.symm)

theorem balancesAt_literalPattern (hc : c.kind = k) (hk : k.isPlain = true) :
    (literalPattern start k).BalancesAt c :=
  .stay (staysAt_literal k) fun _ => .advance hc hk fun _ => balances_closePattern _ _

section Productions

variable [deep.Balanced]

theorem balancesAt_parenthesised (hc : c.kind = .mark .leftParen) :
    (parenthesised deep start).BalancesAt c := by
  refine .opens hc fun _ => (balances_loop (fun acc => ?_) _).thenCloses fun acc => ?_
  · refine (balances_sees _).bind fun _ => .ite (fun _ => balances_pure _) fun _ => ?_
    refine deep.balances_pattern.bind fun _ => (balances_accept rfl).bind fun _ => ?_
    exact .ite (fun _ => balances_pure _) fun _ => balances_pure _
  · refine (balances_require _ _).thenCloses fun _ => .expect fun _ => ?_
    split
    · exact balances_closePattern _ _
    · exact balances_closePattern _ _

theorem balancesAt_constructorPattern (hc : c.kind = .mark .atSign) :
    (constructorPattern deep start).BalancesAt c := by
  refine .advance hc rfl fun _ => balances_identifier.bind fun _ => (balances_accept rfl).bind fun _ =>
    .ite (fun _ => ?_) fun _ => balances_closePattern _ _
  exact (balances_separated _ deep.balances_pattern).bind fun _ => (balances_expect rfl).bind fun _ =>
    balances_closePattern _ _

theorem balancesAt_listPattern (hc : c.kind = .mark .leftBracket) :
    (listPattern deep start).BalancesAt c := by
  refine .advance hc rfl fun _ => (balances_accept rfl).bind fun _ =>
    .ite (fun _ => balances_closePattern _ _) fun _ => ?_
  exact (balances_separated _ deep.balances_pattern).bind fun _ => (balances_expect rfl).bind fun _ =>
    balances_closePattern _ _

theorem balancesAt_successor (hc : c.kind = .nat) (hplus : c.kindAt 1 = .mark .plus) :
    (successor deep c.span).BalancesAt c := by
  refine .cursor ?_
  split
  · refine .advanceAt hc rfl fun _ hnext => ?_
    refine .advance ((hnext 0).trans hplus) rfl fun _ => ?_
    exact (Deeper.Balanced.balances .patternAtom).bind fun _ => balances_closePattern _ _
  · exact fun _ _ => .fail fun _ hs h => Steady.complain hs (congrArg Cursor.span h.1.symm)

theorem balances_patternAtom : (patternAtom deep).Balances := by
  refine .cursor fun c => ?_
  dsimp only
  split
  · exact .advance ‹_› rfl fun _ => balances_closePattern _ _
  · exact .ite (fun hplus => balancesAt_successor ‹_› hplus) fun _ =>
      balancesAt_literalPattern ‹_› rfl
  any_goals exact balancesAt_literalPattern ‹_› rfl
  · exact balancesAt_constructorPattern ‹_›
  · exact .advance ‹_› rfl fun _ => balances_identifier.bind fun _ => balances_closePattern _ _
  · exact balancesAt_parenthesised ‹_›
  · exact balancesAt_listPattern ‹_›
  · exact (balances_unexpected _).atCursor c

theorem balances_pattern : (pattern deep).Balances := by
  refine balances_here.bind fun _ => balances_patternAtom.bind fun _ =>
    (balances_accept rfl).bind fun _ => .ite (fun _ => ?_) fun _ => balances_pure _
  exact deep.balances_pattern.bind fun _ => balances_closePattern _ _

/-! ## What follows an operand -/

theorem closes_callArgs : (callArgs deep).Closes :=
  (balances_separated _ deep.balances_inner).delimited.thenCloses fun _ => .expect fun _ =>
    balances_pure _

theorem balancesAt_call {head : TermId} {tight : Bool} (hc : c.kind = .mark .leftParen) :
    (call deep head start tight).BalancesAt c :=
  .opens hc fun _ => closes_callArgs.bind fun _ => balances_close _ _

theorem balancesAt_typeArgs (hc : c.kind = .mark .less) : (typeArgs deep).BalancesAt c := by
  refine .advance hc rfl fun _ => ?_
  refine (balances_commaList (deep.balances_expr _)).withUsage.delimited.bind fun _ => ?_
  exact balances_closeAngle.bind fun _ => balances_pure _

theorem balancesAt_genericArgs? (hc : c.kind = .mark .less) : (genericArgs? deep).BalancesAt c := by
  refine balancesAt_attempt .generic ((balancesAt_typeArgs hc).bind fun _ => .cursor fun d => ?_)
  refine .ite (fun hcall => ?_) fun _ => ?_
  · have hd : d.kind = .mark .leftParen := by simp_all
    exact .opens hd fun _ => closes_callArgs.bind fun _ => balances_pure _
  · exact .ask fun _ => .ite (fun _ => (balances_pure _).atCursor d) fun _ => (balances_pure _).atCursor d

theorem balancesAt_generic? {head : TermId} (hc : c.kind = .mark .less) :
    (generic? deep head start).BalancesAt c := by
  refine (balancesAt_genericArgs? hc).bind fun found => ?_
  split
  · exact (balances_close _ _).map
  · exact (balances_close _ _).map
  · exact balances_pure _

theorem isPlain_of_negated {negated : Bool} (h : negated? k = some negated) : k.isPlain = true := by
  unfold negated? at h
  split at h <;> first | rfl | cases h

theorem balances_equalitySides : (equalitySides deep).Balances := by
  refine (deep.balances_expr _).bind fun lhs => balances_kind fun d => ?_
  split
  · exact .advance rfl (isPlain_of_negated ‹_›) fun _ =>
      (deep.balances_expr _).bind fun _ => balances_pure _
  · exact (balances_pure _).atCursor d

theorem balancesAt_equality? (hc : c.kind = .mark .leftBrace) : (equality? deep).BalancesAt c := by
  refine balancesAt_attempt .equality (.advance hc rfl fun _ => ?_)
  refine balances_equalitySides.withUsage.delimited.bind fun sides => ?_
  split
  · exact (balances_accept rfl).bind fun _ => .ite (fun _ => balances_pure _) fun _ => balances_pure _
  · exact balances_pure _

omit [deep.Balanced] in
theorem balancesAt_refl (h : c.atRefl = true) : Grammar.refl.BalancesAt c := by
  obtain ⟨hc, h1, h2⟩ := Cursor.atRefl_kinds h
  refine .stay staysAt_here fun _ => .advanceAt hc rfl fun _ hnext => ?_
  refine .advanceAt ((hnext 0).trans h1) rfl fun _ hnext' => ?_
  exact .advance ((hnext' 0).trans ((hnext 1).trans h2)) rfl fun _ => balances_close _ _

theorem balancesAt_braceSuffix {head : TermId} {tight : Bool} (hc : c.kind = .mark .leftBrace) :
    (braceSuffix deep head start tight).BalancesAt c := by
  refine .cursor (.ite (fun h => (balancesAt_refl h).bind fun _ => balances_close _ _) fun _ => ?_)
  refine (balancesAt_equality? hc).bind fun sides => ?_
  split
  · exact balances_close _ _
  · refine (balances_expect rfl).bind fun _ => ?_
    refine (balances_separated _ deep.balances_inner).withUsage.delimited.bind fun _ => ?_
    exact (balances_expect rfl).bind fun _ => balances_close _ _

theorem balances_suffixRound (head : TermId) : (suffixRound deep start head).Balances := by
  refine .cursor fun c => .ask fun s => ?_
  have hdone : (pure (Round.done head) : Reading (Round TermId)).BalancesAt c :=
    (balances_pure _).atCursor c
  refine .ite (fun _ => hdone) fun _ => ?_
  split
  · exact (balancesAt_call ‹_›).map
  · refine .ask fun _ => .ite (fun _ => ?_) fun _ => hdone
    refine (balancesAt_generic? ‹_›).bind fun found => ?_
    split
    · exact balances_pure _
    · exact balances_pure _
  · refine .ite (fun h1 => .advanceAt ‹_› rfl fun _ hnext => ?_) fun _ => hdone
    exact .advance ((hnext 0).trans h1) rfl fun _ => (balances_close _ _).map
  · exact .ite (fun _ => (balancesAt_braceSuffix ‹_›).map) fun _ => hdone
  · exact hdone

theorem balances_suffixes {head : TermId} : (suffixes deep start head).Balances :=
  balances_loop balances_suffixRound head

/-! ## Case blocks -/

/-- The tokens that a head is always written with. -/
def CaseHead.kinds : CaseHead → List TokenKind
  | .unit => [.mark .leftParen, .mark .rightParen]
  | .pair => [.mark .leftParen, .mark .comma, .mark .rightParen]
  | .false => [.word .false]
  | .true => [.word .true]
  | .zero => [.nat]
  | .succ => [.nat, .mark .plus]
  | .nil => [.mark .leftBracket, .mark .rightBracket]
  | .cons => [.mark .cons]
  | .refl => [.mark .leftBrace, .mark .eqEq, .mark .rightBrace]
  | .ctor => [.mark .atSign]
  | .sym => [.mark .ampersand]
  | .sup => [.mark .ampersand]

omit [deep.Balanced] in
/-- The tokens of a head that has been recognised. -/
theorem Cursor.kindAt_of_caseHead {head : CaseHead} (h : c.caseHead? = some head) :
    ∀ i, ∀ k ∈ head.kinds[i]?, c.kindAt i = k := by
  have hkind : c.kindAt 0 = c.kind := rfl
  unfold caseHead? at h
  split at h
  all_goals try split at h
  all_goals cases h
  all_goals
    rintro (_ | _ | _ | i) k hk <;> simp_all [CaseHead.kinds]

omit [deep.Balanced] in
theorem skipTokens_opened {n m : Nat} {ts : List Token} {ks : List TokenKind}
    (hks : ∀ i, ∀ k ∈ ks[i]?, c.kindAt i = k) (hclear : ∀ k ∈ ks, k.startsItem = false)
    (hopened : ks.foldlM (fun n k => k.opened n) n = some m) :
    Triple (Session.Clear ts) (fun s => s.cursor = c ∧ s.cursor.Open ts n) (skipTokens ks.length)
      fun _ s => s.cursor.Open ts m := by
  induction ks generalizing c n with
  | nil =>
      cases hopened
      exact .pure fun _ hs => hs.2
  | cons k ks ih =>
      rintro setting s hs ⟨rfl, hopen⟩
      have hkind : s.cursor.kind = k := hks 0 k rfl
      have hitem : s.cursor.kind.startsItem = false := hkind ▸ hclear k (by simp)
      have hnext := Cursor.kindAt_advance (Cursor.rest_ne_nil hs.eof hitem)
      rw [List.foldlM_cons] at hopened
      obtain ⟨j, hj, hrest⟩ := Option.bind_eq_some_iff.mp hopened
      have hskip := ih (c := s.cursor.advance) (fun i l hl => (hnext i).trans (hks (i + 1) l hl))
        (fun l hl => hclear l (by simp [hl])) hrest
      have hadvance : Triple (Session.Clear ts) _ Reading.advance _ :=
        .advance_at hitem (hkind ▸ hj)
      exact (hadvance.bind fun _ => hskip) setting s hs ⟨rfl, hopen⟩

omit [deep.Balanced] in
/-- All parentheses in a head are closed in it. -/
theorem balancesAt_fixedTag {tag : CaseTag TermId} {head : CaseHead} (h : c.caseHead? = some head) :
    (fixedTag tag head.kinds.length).BalancesAt c := by
  intro ts n
  have hclear : ∀ k ∈ head.kinds, k.startsItem = false := by
    cases head <;> simp [CaseHead.kinds, TokenKind.startsItem, Keyword.startsItem]
  have hopened : head.kinds.foldlM (fun n k => k.opened n) n = some n := by cases head <;> rfl
  exact Triple.bind (skipTokens_opened (Cursor.kindAt_of_caseHead h) hclear hopened) fun _ =>
    Preserves.pure

theorem balances_supTag : (supTag deep).Balances :=
  (balances_expect rfl).bind fun _ => (deep.balances_expr _).within.bind fun _ =>
    (balances_expect rfl).bind fun _ => (balances_expect rfl).bind fun _ =>
      (balances_expect rfl).bind fun _ => balances_pure _

theorem balancesAt_caseTag {head : CaseHead} (h : c.caseHead? = some head ∨ head = .sup) :
    (caseTag deep head).BalancesAt c := by
  rcases h with h | rfl
  · have hnamed {make : String → CaseTag TermId} (hplain : c.kind.isPlain = true) :
        (advance >>= fun _ => identifier >>= fun x => pure (make x.1)).BalancesAt c :=
      .advance rfl hplain fun _ => balances_identifier.bind fun _ => balances_pure _
    have hkind : ∀ k ∈ head.kinds[0]?, c.kind = k := Cursor.kindAt_of_caseHead h 0
    cases head with
    | sup => exact balances_supTag.atCursor c
    | ctor => exact hnamed (hkind _ rfl ▸ rfl)
    | sym => exact hnamed (hkind _ rfl ▸ rfl)
    | _ => exact balancesAt_fixedTag h
  · exact balances_supTag.atCursor c

theorem balancesAt_blockCase {head : CaseHead} (h : c.caseHead? = some head ∨ head = .sup) :
    (blockCase deep head).BalancesAt c :=
  .stay staysAt_here fun _ => (balancesAt_caseTag h).bind fun _ => (balances_expect rfl).bind fun _ =>
    deep.balances_statement.bind fun _ => (balances_accept rfl).bind fun _ =>
      (balances_since _).bind fun _ => balances_pure _

theorem balances_positionalCase (kind : BlockKind) (head : CaseHead) :
    (positionalCase deep kind head).Balances :=
  .cursor fun c => .ite (fun h => balancesAt_blockCase (.inl h)) fun _ =>
    (balances_unexpected _).atCursor c

theorem balances_positionalBlock (kind : BlockKind) (first second : CaseHead) :
    (positionalBlock deep kind first second).Balances :=
  (balances_positionalCase kind first).bind fun _ => (balances_positionalCase kind second).bind fun _ =>
    balances_pure _

theorem balancesAt_singleBlock {kind : BlockKind} {head : CaseHead}
    (h : c.caseHead? = some head ∨ head = .sup) : (singleBlock deep kind head).BalancesAt c :=
  (balancesAt_blockCase h).bind fun _ => balances_pure _

theorem balances_enumBlock : (enumBlock deep).Balances := by
  refine (balances_loop (fun cases => .cursor fun c => ?_) _).bind fun _ => ?_
  · split
    · exact (balancesAt_blockCase (.inl ‹_›)).bind fun _ => balances_pure _
    · exact (balancesAt_blockCase (.inl ‹_›)).bind fun _ => balances_pure _
    · exact (balances_pure _).atCursor c
  · refine (balances_sees _).bind fun _ => .ite (fun _ => balances_pure _) fun _ => ?_
    exact deep.balances_statement.bind fun _ => (balances_accept rfl).bind fun _ => balances_pure _

theorem balancesAt_blockFrom {head : CaseHead} (h : c.caseHead? = some head ∨ head = .sup) :
    (blockFrom deep head).BalancesAt c := by
  cases head with
  | unit | pair | refl | sup => exact balancesAt_singleBlock h
  | false | true | zero | succ | nil | cons =>
      exact (balances_positionalBlock _ _ _).atCursor c
  | ctor | sym => exact balances_enumBlock.atCursor c

theorem balances_caseBlock : (caseBlock deep).Balances := by
  refine (balances_expect rfl).bind fun _ => Balances.bind (.within ?_) fun _ =>
    (balances_expect rfl).bind fun _ => balances_pure _
  refine .cursor fun c => .ite (fun _ => (balances_pure _).atCursor c) fun _ => ?_
  have hlong : (atLongSupHead deep).StaysAt c :=
    staysAt_succeeds (balances_supTag.bind fun _ => balances_expect rfl)
  split
  · exact balancesAt_blockFrom (.inl ‹_›)
  · refine .ite (fun _ => .stay hlong fun _ => .ite (fun _ => balancesAt_blockFrom (.inr rfl)) fun _ =>
      balances_enumBlock.atCursor c) fun _ => .ask fun _ => ?_
    exact .ite (fun _ => balances_enumBlock.atCursor c) fun _ => (balances_unexpected _).atCursor c

/-! ## Constructs that bind names -/

theorem balancesAt_parenthesisedParam (hc : c.kind = .mark .leftParen) :
    (parenthesisedParam deep c).BalancesAt c := by
  refine .opens hc fun _ => .ite (fun _ => ?_) fun _ => ?_
  · exact (balances_binder deep.balances_type).delimited.thenCloses fun _ => .expect fun _ =>
      balances_pure _
  · refine (balances_separated _ deep.balances_pattern).delimited.thenCloses fun _ => ?_
    exact (balances_require _ _).thenCloses fun _ => .expect fun _ => balances_pure _

theorem balances_param : (param deep).Balances := by
  refine .cursor fun c => ?_
  split
  · refine .advance ‹_› rfl fun _ => (balances_accept rfl).bind fun _ =>
      .ite (fun _ => ?_) fun _ => balances_pure _
    exact deep.balances_binderType.bind fun _ => balances_pure _
  · exact balancesAt_parenthesisedParam ‹_›
  · exact (balances_unexpected _).atCursor c

theorem balancesAt_lambda (hc : c.kind = .word .lambda) : (lambda deep start).BalancesAt c := by
  refine .advance hc rfl fun _ => (balances_sees _).bind fun _ => .ite (fun _ => ?_) fun _ => ?_
  · exact balances_caseBlock.bind fun _ => balances_close _ _
  · exact (balances_oneUpTo _ balances_param).bind fun _ => (balances_expect rfl).bind fun _ =>
      deep.balances_statement.bind fun _ => balances_close _ _

theorem balancesAt_fixedPoint (hc : c.kind = .word .mu) : (fixedPoint deep start).BalancesAt c :=
  .advance hc rfl fun _ => balances_identifier.bind fun _ => (balances_expect rfl).bind fun _ =>
    deep.balances_statement.bind fun _ => balances_close _ _

theorem balances_quantified : (quantified deep).Balances :=
  (balances_expect rfl).bind fun _ => (deep.balances_expr _).withUsage

theorem balancesAt_all (hc : c.kind = .word .all) : (Grammar.all deep start).BalancesAt c :=
  .advance hc rfl fun _ => (balances_commaList (balances_binder deep.balances_binderType)).bind fun _ =>
    balances_quantified.bind fun _ => balances_close _ _

theorem balancesAt_any (hc : c.kind = .word .any) : (Grammar.any deep start).BalancesAt c :=
  .advance hc rfl fun _ => (balances_binder deep.balances_binderType).bind fun _ =>
    balances_quantified.bind fun _ => balances_close _ _

/-! ## Constructs that begin with a keyword -/

theorem balances_branch {keyword : Keyword} (h : (TokenKind.word keyword).isPlain = true) :
    (branch deep keyword).Balances :=
  (balances_expect h).bind fun _ => (balances_expect rfl).bind fun _ => deep.balances_statement

theorem balancesAt_condition (hc : c.kind = k) (hk : k.isPlain = true) :
    (condition deep).BalancesAt c :=
  .advance hc hk fun _ => deep.balances_term.bind fun _ => (balances_expect rfl).bind fun _ =>
    deep.balances_statement.bind fun _ => balances_pure _

theorem balancesAt_ifElse (hc : c.kind = .word .if_) : (ifElse deep start).BalancesAt c :=
  (balancesAt_condition hc rfl).bind fun _ => (balances_branch rfl).bind fun _ => balances_close _ _

theorem balancesAt_fork (hc : c.kind = .word .fork) : (fork deep start).BalancesAt c :=
  (balancesAt_condition hc rfl).bind fun _ =>
    (balances_collectWhile (balances_sees _) (balances_branch rfl)).bind fun _ =>
      (balances_branch rfl).bind fun _ => balances_close _ _

theorem balances_withClauses : (withClauses deep).Balances := by
  have hclause : (withClause deep).Balances :=
    balances_identifier.bind fun _ => (balances_accept rfl).bind fun _ => .ite
      (fun _ => (deep.balances_expr _).within.bind fun _ => balances_pure _) fun _ => balances_pure _
  exact (balances_expect rfl).bind fun _ => balances_collectThrough hclause (balances_sees _)

theorem balances_matchCase : (matchCase deep).Balances :=
  (balances_expect rfl).bind fun _ => (balances_oneUpTo _ deep.balances_pattern).bind fun _ =>
    (balances_expect rfl).bind fun _ => deep.balances_statement.bind fun _ =>
      (balances_accept rfl).bind fun _ => (balances_since _).bind fun _ => balances_pure _

theorem balancesAt_matchOn (hc : c.kind = .word .match_) : (matchOn deep start).BalancesAt c := by
  refine .advance hc rfl fun _ => Balances.bind (.within (balances_oneUpTo _ (deep.balances_expr _)))
    fun _ => (balances_expect rfl).bind fun _ => ?_
  refine (balances_collectWhile (balances_sees _) balances_withClauses).bind fun _ => ?_
  refine (balances_collectWhile (balances_sees _) balances_matchCase).bind fun _ => ?_
  exact (balances_require _ _).bind fun _ => balances_close _ _

theorem balancesAt_useIn (hc : c.kind = .word .use) : (useIn deep start).BalancesAt c :=
  .advance hc rfl fun _ => balances_identifier.bind fun _ => (balances_expect rfl).bind fun _ =>
    deep.balances_term.bind fun _ => (balances_expect rfl).bind fun _ =>
      deep.balances_statement.bind fun _ => balances_close _ _

theorem balancesAt_operandAndBody {term : TermId → TermId → Term TermId PatternId} (hc : c.kind = k)
    (hk : k.isPlain = true) : (operandAndBody deep start term).BalancesAt c :=
  .advance hc hk fun _ => (deep.balances_expr _).bind fun _ => (balances_accept rfl).bind fun _ =>
    deep.balances_statement.bind fun _ => balances_close _ _

theorem balancesAt_before {min : Level} {term : TermId → Term TermId PatternId} (hc : c.kind = k)
    (hk : k.isPlain = true) : (before deep start min term).BalancesAt c :=
  .advance hc hk fun _ => (deep.balances_expr _).bind fun _ => balances_close _ _

theorem balancesAt_tilde (hc : c.kind = .mark .tilde) : (tilde deep start).BalancesAt c := by
  refine .advance hc rfl fun _ => (deep.balances_expr _).within.bind fun _ =>
    (balances_asks _).bind fun _ => (balances_asks _).bind fun _ => .ite (fun _ => ?_) fun _ => ?_
  · exact balances_caseBlock.bind fun _ => balances_close _ _
  · exact balances_close _ _

end Productions

end BendSyntax
