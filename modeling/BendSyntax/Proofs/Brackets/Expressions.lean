import BendSyntax.Proofs.Brackets.Terms

/-! Operands, expressions and statements balance their parentheses, and with them the productions of
every goal at every depth. -/

namespace BendSyntax

open Reading Grammar

variable {deep : Deeper} [deep.Balanced] {c : Cursor} {start : Span}

/-! ## Operands -/

omit [deep.Balanced] in
theorem Cursor.kind_of_braced {c : Cursor} {s : Slot} (h : c.bracesOperand s = true) :
    c.kind = .mark .leftBrace := by
  simp only [bracesOperand, Bool.and_eq_true, decide_eq_true_eq] at h
  exact h.1.1.1

theorem balancesAt_constructor (hc : c.kind = .mark .atSign) :
    (Grammar.constructor deep start).BalancesAt c := by
  refine .advance hc rfl fun _ => balances_identifier.bind fun _ => .cursor fun d => .ask fun s => ?_
  refine .ite (fun hbrace => ?_) fun _ => (balances_close _ _).atCursor d
  refine .advance (Cursor.kind_of_braced hbrace) rfl fun _ => ?_
  exact (balances_separated _ deep.balances_inner).delimited.bind fun _ =>
    (balances_expect rfl).bind fun _ => balances_close _ _

theorem balancesAt_symbolOrSup (hc : c.kind = .mark .ampersand) :
    (symbolOrSup deep start).BalancesAt c := by
  refine .advance hc rfl fun _ => (balances_asks _).bind fun _ => (balances_asks _).bind fun _ => ?_
  refine .ite (fun _ => balances_identifier.bind fun _ => balances_close _ _) fun _ => ?_
  refine (deep.balances_expr _).within.bind fun _ => (balances_expect rfl).bind fun _ => ?_
  have hsides : (do
      let left ← deep.inner
      let _ ← expect (.mark .comma)
      return (left, ← deep.inner) : Reading (TermId × TermId)).Balances :=
    deep.balances_inner.bind fun _ => (balances_expect rfl).bind fun _ =>
      deep.balances_inner.bind fun _ => balances_pure _
  exact hsides.delimited.bind fun _ => (balances_expect rfl).bind fun _ => balances_close _ _

theorem balancesAt_hole (hc : c.kind = .mark .question) : (hole deep start).BalancesAt c := by
  refine .advance hc rfl fun _ => balances_identifier.bind fun _ => (balances_expect rfl).bind fun _ => ?_
  refine (deep.balances_expr _).within.bind fun _ => (balances_asks _).bind fun _ => .cursor fun d => ?_
  refine .ite (fun hbrace => ?_) fun _ => (balances_close _ _).atCursor d
  have hd : d.kind = .mark .leftBrace := by simp_all
  refine .advance hd rfl fun _ => ?_
  exact (balances_separated _ deep.balances_inner).withUsage.delimited.bind fun _ =>
    (balances_expect rfl).bind fun _ => balances_close _ _

theorem balancesAt_parentheses (hc : c.kind = .mark .leftParen) :
    (parentheses deep start).BalancesAt c := by
  refine .opens hc fun _ => .accept (balances_close _ _) ?_
  refine deep.balances_inner.delimited.thenCloses fun _ => (balances_accept rfl).thenCloses fun _ =>
    .ite (fun _ => ?_) fun _ => ?_
  · exact (balances_separated _ deep.balances_inner).delimited.thenCloses fun _ => .expect fun _ =>
      balances_close _ _
  · exact .expect fun _ => (balances_widen _ _).bind fun _ => balances_pure _

theorem balancesAt_listTerm (hc : c.kind = .mark .leftBracket) : (listTerm deep start).BalancesAt c := by
  refine .advance hc rfl fun _ => (balances_accept rfl).bind fun _ =>
    .ite (fun _ => balances_close _ _) fun _ => ?_
  exact (balances_separated _ deep.balances_inner).delimited.bind fun _ =>
    (balances_expect rfl).bind fun _ => balances_close _ _

omit [deep.Balanced] in
theorem balancesAt_enumType (hc : c.kind = .word .enum) : (enumType start).BalancesAt c := by
  have hsymbol : enumSymbol.Balances :=
    (balances_expect rfl).bind fun _ => balances_identifier.bind fun _ => balances_pure _
  exact .advance hc rfl fun _ => (balances_expect rfl).bind fun _ =>
    (balances_separated _ hsymbol).bind fun _ => (balances_expect rfl).bind fun _ => balances_close _ _

omit [deep.Balanced] in
theorem balancesAt_view (hc : c.kind = .word .view) : (view start).BalancesAt c := by
  refine .advance hc rfl fun _ ts n => (Triple.expect_opened rfl rfl).bind fun _ => ?_
  have hname : (identifier >>= fun x =>
      expect (.mark .rightParen) >>= fun _ => close start (.view x.1)).Closes :=
    balances_identifier.thenCloses fun _ => .expect fun _ => balances_close _ _
  exact hname ts n

theorem balancesAt_compound (c : Cursor) : (compound deep c start).BalancesAt c := by
  unfold compound
  split
  · exact balancesAt_constructor ‹_›
  · exact balancesAt_symbolOrSup ‹_›
  · exact balancesAt_hole ‹_›
  · exact balancesAt_parentheses ‹_›
  · exact balancesAt_listTerm ‹_›
  · exact .ite (fun h => balancesAt_refl h) fun _ => (balances_unexpected _).atCursor c
  · exact balancesAt_enumType ‹_›
  · exact .advance ‹_› rfl fun _ => balances_identifier.bind fun _ => balances_close _ _
  · exact balancesAt_view ‹_›
  · exact (balances_unexpected _).atCursor c

omit [deep.Balanced] in
theorem isPlain_of_literal {k : TokenKind} (h : isLiteral k = true) : k.isPlain = true := by
  unfold isLiteral at h
  split at h <;> first | rfl | cases h

omit [deep.Balanced] in
theorem isPlain_of_constant {k : TokenKind} {term : Term TermId PatternId}
    (h : constant? k = some term) : k.isPlain = true := by
  unfold constant? at h
  split at h <;> first | rfl | cases h

theorem balances_operand : (operand deep).Balances := by
  refine .cursor fun c => .ite (fun hc => ?_) fun _ => .ite (fun hc => ?_) fun _ => ?_
  · exact .advance hc rfl fun _ => balances_addTerm _ _
  · exact .stay (staysAt_literal _) fun _ => .advance rfl (isPlain_of_literal hc) fun _ =>
      balances_addTerm _ _
  · split
    · exact .advance rfl (isPlain_of_constant ‹_›) fun _ => balances_addTerm _ _
    · exact balancesAt_compound c

/-! ## Expressions -/

theorem balances_leading : (leading deep).Balances := by
  refine .cursor fun c => ?_
  dsimp only
  split
  · exact balancesAt_before ‹_› rfl
  · exact balancesAt_before ‹_› rfl
  · exact balancesAt_tilde ‹_›
  · exact balancesAt_lambda ‹_›
  · exact balancesAt_fixedPoint ‹_›
  · exact balancesAt_all ‹_›
  · exact balancesAt_any ‹_›
  · exact balancesAt_ifElse ‹_›
  · exact balancesAt_fork ‹_›
  · exact balancesAt_matchOn ‹_›
  · exact balancesAt_useIn ‹_›
  · exact balancesAt_operandAndBody ‹_› rfl
  · exact balancesAt_operandAndBody ‹_› rfl
  · exact balancesAt_before ‹_› rfl
  · exact balancesAt_before ‹_› rfl
  · exact balancesAt_before ‹_› rfl
  · exact balancesAt_before ‹_› rfl
  · exact (balances_operand.bind fun _ => balances_suffixes).atCursor c

theorem balances_juxtaposed? (func : TermId) : (juxtaposed? deep func start).Balances := by
  refine .cursor fun c => .ask fun s => ?_
  have hnone : (pure none : Reading (Option TermId)).BalancesAt c := (balances_pure _).atCursor c
  refine .ite (fun _ => hnone) fun _ => .stay (fun _ _ => Preserves.asks (g := fun _ s => s.tree.isBareName func)) fun bare => ?_
  refine .ite (fun hcall => ?_) fun _ => .ite (fun hbrace => ?_) fun _ => .ite (fun _ => ?_) fun _ => hnone
  · have hc : c.kind = .mark .leftParen := by simp_all
    exact (balancesAt_call hc).map
  · exact .ite (fun _ => hnone) fun _ => (balancesAt_braceSuffix hbrace).map
  · exact ((deep.balances_expr _).bind fun _ => (balances_close _ _).map).atCursor c

omit [deep.Balanced] in
theorem isPlain_of_operator {k : TokenKind} {op : Infix} (h : Infix.ofKind? k = some op) :
    k.isPlain = true := by
  unfold Infix.ofKind? at h
  split at h
  · rename_i s
    cases s <;> first | rfl | cases h
  all_goals first | rfl | cases h

omit [deep.Balanced] in
theorem infix_of_operator {s : Slot} {min : Level} {op : Infix} (h : operator? c s min = some op) :
    Infix.ofKind? c.kind = some op := by
  unfold operator? at h
  split at h
  · split at h <;> simp_all
  · cases h

theorem balances_operatorRound (min : Level) (lhs : TermId) :
    (operatorRound deep min start lhs).Balances := by
  refine .cursor fun c => .ask fun s => ?_
  split
  · rename_i op hop
    have hoperand : (rightOperand deep op).Balances := by
      unfold rightOperand
      split
      · exact (deep.balances_expr _).withUsage
      · exact deep.balances_expr _
    exact .advance rfl (isPlain_of_operator (infix_of_operator hop)) fun _ => hoperand.bind fun _ =>
      (balances_close _ _).map
  · exact (balances_pure _).atCursor c

theorem balances_climbRound (min : Level) (lhs : TermId) :
    (climbRound deep min start lhs).Balances := by
  refine (balances_asks _).bind fun _ => (balances_asks _).bind fun _ =>
    .ite (fun _ => balances_pure _) fun _ => ?_
  refine .ite (fun _ => ?_) fun _ => balances_operatorRound min lhs
  refine (balances_juxtaposed? lhs).bind fun app => ?_
  cases app with
  | none => exact balances_operatorRound min lhs
  | some app => exact balances_pure _

theorem balances_expression (min : Level) : (expression deep min).Balances :=
  balances_here.bind fun _ => balances_leading.bind fun lhs =>
    balances_loop (balances_climbRound min) lhs

/-! ## Statements -/

theorem balances_typedName? : (typedName? deep).Balances := by
  have htyped : (typedName deep).Balances := by
    refine balances_identifier.bind fun _ => (balances_expect rfl).bind fun _ =>
      deep.balances_type.bind fun _ => (balances_sees _).bind fun _ => ?_
    exact .ite (fun _ => balances_pure _) fun _ => balances_pure _
  intro ts n
  refine .attempt_of .typedLet ((htyped ts n).weaken (fun _ hs => hs) fun _ _ hs _ _ => hs)
    fun s t hs _ hplace => ?_
  rw [hplace]
  exact hs

omit [deep.Balanced] in
theorem balances_assignment {name : String} {type : Option TermId} {value : TermId} :
    (assignment name start type value).Balances := by
  refine (balances_addTerm _ _).bind fun _ => (balances_spanOf _).bind fun _ => ?_
  split
  · exact (balances_spanOf _).bind fun _ => (balances_addTerm _ _).bind fun _ => balances_addTerm _ _
  · exact balances_addTerm _ _

theorem balances_binding {name : String} {type : Option TermId} :
    (binding deep name start type).Balances := by
  refine (balances_expect rfl).bind fun _ => deep.balances_term.bind fun _ =>
    (balances_accept rfl).bind fun _ => (balances_asks _).bind fun _ => (balances_asks _).bind fun _ => ?_
  refine .ite (fun _ => ?_) fun _ => balances_assignment
  exact deep.balances_statement.bind fun _ => balances_close _ _

theorem balances_statement : (statement deep).Balances := by
  refine (balances_asks _).bind fun c => ?_
  split
  · exact balances_identifier.bind fun _ => balances_binding
  · refine balances_typedName?.bind fun found => ?_
    split
    · exact balances_binding
    · exact deep.balances_expr _
  · exact deep.balances_expr _

instance balanced_produce : (produce deep).Balanced where
  balances
    | .statement => balances_statement.withUsage
    | .expr min => balances_expression min
    | .pattern => balances_pattern
    | .patternAtom => balances_patternAtom

instance balanced_nested (d : Nat) : (nested d).Balanced := by
  induction d with
  | zero => exact ⟨fun _ _ _ => .refuse⟩
  | succ d ih => exact balanced_produce

end BendSyntax
