import BendSyntax.Proofs.Agreement.CaseBlocks

/-! The constructs that begin with a keyword or a sign agree. -/

namespace BendSyntax

open Reading Grammar

theorem Correspondence.Slots.noBrace {C : Correspondence} {slot slot' : Slot}
    (h : C.Slots slot slot') :
    C.Slots { slot with noBrace := true } { slot' with noBrace := true } :=
  ⟨congrArg (fun s : Slot => { s with noBrace := true }) h.flags, h.usage⟩

namespace Comparison

variable {C : Comparison} [C.Lawful] {deep deep' : Deeper} {c d : Cursor} {s t : Span}

theorem scrutinee_slots {slot slot' : Slot} (h : C.Slots slot slot') :
    C.Slots (Grammar.Slot.scrutinee slot) (Grammar.Slot.scrutinee slot') :=
  ⟨congrArg (fun s : Slot => { s with noJuxtapose := true }) h.flags, Lawful.usages_refl .term⟩

section Levels

variable (h : C.Levels deep deep')

include h

/-! ## Binders -/

theorem agree_parenthesisedParam [deep.Balanced] (hcd : C.cursors c d)
    (hc : c.kind = .mark .leftParen) :
    C.Agree c d (parenthesisedParam deep c) (parenthesisedParam deep' d)
      (Param.Alike C.spans C.terms C.patterns) := by
  have htyped : (c.kindAt 1 = .ident ∧ c.kindAt 2 = .mark .colon) ↔
      (d.kindAt 1 = .ident ∧ d.kindAt 2 = .mark .colon) := by
    have hne := ne_eof_of_kind rfl hc
    rw [← kindAt_one_iff hcd hne (k := .ident) rfl]
    exact and_congr_right fun h1 => kindAt_two_iff hcd hne (by simp [h1]) rfl
  refine agree_opening_bind hcd hc fun ts hin _ _ _ => ?_
  refine .ite htyped (fun _ => ?_) fun _ => ?_
  · have hbinder : (binder deep.type).Balances := balances_binder deep.balances_type
    refine ((agrees_binder h.type).within ts).delimited.bind hbinder.delimited fun a b hab => ?_
    exact (agreesIn_expect hin).bind_agrees fun _ _ _ => agrees_pure (.typed hab)
  · have hpatterns := balances_separated (.mark .rightParen) deep.balances_pattern
    refine (agreesIn_separated hin deep.balances_pattern h.pattern).delimited.bind hpatterns.delimited
      fun ps qs hpq => ?_
    refine ((agrees_require (by rw [isEmpty_eq hpq]) _).within ts).bind (balances_require _ _)
      fun _ _ _ => ?_
    exact (agreesIn_expect hin).bind_agrees fun _ _ _ => agrees_pure (.patterns hpq)

theorem agrees_param [deep.Balanced] :
    C.Agrees (param deep) (param deep') (Param.Alike C.spans C.terms C.patterns) := by
  refine agrees_cursor_bind fun c d hcd => ?_
  have hkinds := Lawful.kind hcd
  generalize hc : c.kind = k at hkinds
  generalize d.kind = l at hkinds
  cases hkinds with
  | same =>
      cases k with
      | ident =>
          have hne := ne_eof_of_kind rfl hc
          rw [(Lawful.token hcd hne).2.1]
          refine agree_advance_bind hcd hne fun s t hst => ?_
          have hst := Lawful.marks_spans hst
          refine agrees_accept_bind rfl ?_ (agrees_pure (.name _ hst))
          exact agrees_bind h.binderType fun a b hab => agrees_pure (.typed ⟨rfl, hst, hab⟩)
      | mark m =>
          cases m with
          | leftParen => exact agree_parenthesisedParam h hcd hc
          | _ => exact agree_unexpected hcd _
      | _ => exact agree_unexpected hcd _
  | _ => exact agree_unexpected hcd _

theorem agree_lambda [C.Retractable] [deep.Balanced] (hcd : C.cursors c d) (hc : c.kind ≠ .eof)
    (hst : C.spans s t) : C.Agree c d (lambda deep s) (lambda deep' t) C.terms := by
  refine agree_advance_bind hcd hc fun _ _ _ => agrees_sees_bind rfl ?_ ?_
  · exact agrees_bind (agrees_caseBlock h) fun _ _ hab => agrees_close (.lamMatch hab) hst rfl
  · refine agrees_bind (agrees_oneUpTo rfl (agrees_param h)) fun ps qs hpq => ?_
    refine agrees_bind (agrees_expect rfl) fun _ _ _ => ?_
    exact agrees_bind h.statement fun a b hab => agrees_close (.lam hpq hab) hst rfl

theorem agree_fixedPoint (hcd : C.cursors c d) (hc : c.kind ≠ .eof) (hst : C.spans s t) :
    C.Agree c d (fixedPoint deep s) (fixedPoint deep' t) C.terms := by
  refine agree_advance_bind hcd hc fun _ _ _ => agrees_identifier_bind fun name _ _ _ => ?_
  refine agrees_bind (agrees_expect rfl) fun _ _ _ => ?_
  exact agrees_bind h.statement fun a b hab => agrees_close (.fix name hab) hst rfl

theorem agrees_quantified : C.Agrees (quantified deep) (quantified deep') C.terms :=
  agrees_bind (agrees_expect rfl) fun _ _ _ => agrees_withUsage .type (h.expr .arrow)

theorem agree_all (hcd : C.cursors c d) (hc : c.kind ≠ .eof) (hst : C.spans s t) :
    C.Agree c d (Grammar.all deep s) (Grammar.all deep' t) C.terms := by
  refine agree_advance_bind hcd hc fun _ _ _ => ?_
  refine agrees_bind (agrees_commaList (agrees_binder h.binderType)) fun bs cs hbs => ?_
  exact agrees_bind (agrees_quantified h) fun a b hab => agrees_close (.all hbs hab) hst rfl

theorem agree_any (hcd : C.cursors c d) (hc : c.kind ≠ .eof) (hst : C.spans s t) :
    C.Agree c d (Grammar.any deep s) (Grammar.any deep' t) C.terms := by
  refine agree_advance_bind hcd hc fun _ _ _ => ?_
  refine agrees_bind (agrees_binder h.binderType) fun b b' hb => ?_
  exact agrees_bind (agrees_quantified h) fun a b hab => agrees_close (.any hb hab) hst rfl

/-! ## Choices and matches -/

theorem agrees_branch {w : Keyword} (hw : (TokenKind.word w).endsText = false) :
    C.Agrees (branch deep w) (branch deep' w) C.terms :=
  agrees_bind (agrees_expect hw) fun _ _ _ =>
    agrees_bind (agrees_expect rfl) fun _ _ _ => h.statement

theorem agree_condition (hcd : C.cursors c d) (hc : c.kind ≠ .eof) :
    C.Agree c d (condition deep) (condition deep')
      fun x y => C.terms x.1 y.1 ∧ C.terms x.2 y.2 := by
  refine agree_advance_bind hcd hc fun _ _ _ => agrees_bind h.term fun a b hab => ?_
  refine agrees_bind (agrees_expect rfl) fun _ _ _ => ?_
  exact agrees_bind h.statement fun a' b' hab' => agrees_pure ⟨hab, hab'⟩

theorem agree_ifElse (hcd : C.cursors c d) (hc : c.kind ≠ .eof) (hst : C.spans s t) :
    C.Agree c d (ifElse deep s) (ifElse deep' t) C.terms := by
  refine agree_bind (agree_condition h hcd hc) fun x y hxy => ?_
  exact agrees_bind (agrees_branch h rfl) fun a b hab =>
    agrees_close (.ite hxy.1 hxy.2 hab) hst rfl

theorem agree_fork (hcd : C.cursors c d) (hc : c.kind ≠ .eof) (hst : C.spans s t) :
    C.Agree c d (fork deep s) (fork deep' t) C.terms := by
  refine agree_bind (agree_condition h hcd hc) fun x y hxy => ?_
  refine agrees_bind (agrees_collectWhile (agrees_sees rfl) (agrees_branch h rfl)) fun as bs has => ?_
  exact agrees_bind (agrees_branch h rfl) fun a b hab =>
    agrees_close (.fork hxy.1 hxy.2 has hab) hst rfl

theorem agrees_withClause :
    C.Agrees (withClause deep) (withClause deep') (WithClause.Alike C.spans C.terms) := by
  refine agrees_identifier_bind fun name s t hst => ?_
  have hst := Lawful.marks_spans hst
  refine agrees_accept_bind rfl ?_ (agrees_pure ⟨rfl, hst, .none⟩)
  exact agrees_bind (agrees_within (h.expr .check) fun _ _ => scrutinee_slots) fun a b hab =>
    agrees_pure ⟨rfl, hst, .some hab⟩

theorem agrees_withClauses :
    C.Agrees (withClauses deep) (withClauses deep')
      (List.Forall₂ (WithClause.Alike C.spans C.terms)) :=
  agrees_bind (agrees_expect rfl) fun _ _ _ =>
    agrees_collectThrough (agrees_withClause h) (agrees_sees rfl)

theorem agrees_matchCase :
    C.Agrees (matchCase deep) (matchCase deep')
      (MatchCase.Alike C.spans C.terms C.patterns) := by
  refine agrees_bind (agrees_expect rfl) fun s t hst => ?_
  refine agrees_bind (agrees_oneUpTo rfl h.pattern) fun ps qs hpq => ?_
  refine agrees_bind (agrees_expect rfl) fun _ _ _ => agrees_bind h.statement fun a b hab => ?_
  refine agrees_bind (agrees_accept rfl) fun _ _ _ => ?_
  exact agrees_bind (agrees_since (Lawful.marks_spans hst)) fun _ _ hst =>
    agrees_pure ⟨hpq, hab, hst⟩

theorem agree_matchOn (hcd : C.cursors c d) (hc : c.kind ≠ .eof) (hst : C.spans s t) :
    C.Agree c d (matchOn deep s) (matchOn deep' t) C.terms := by
  refine agree_advance_bind hcd hc fun _ _ _ => ?_
  have hscrutinees := agrees_oneUpTo (k := .mark .colon) rfl (h.expr .check)
  refine agrees_bind (agrees_within hscrutinees fun _ _ => scrutinee_slots) fun as bs has => ?_
  refine agrees_bind (agrees_expect rfl) fun _ _ _ => ?_
  refine agrees_bind (agrees_collectWhile (agrees_sees rfl) (agrees_withClauses h))
    fun ws xs hws => ?_
  refine agrees_bind (agrees_collectWhile (agrees_sees rfl) (agrees_matchCase h)) fun cs ds hcs => ?_
  refine agrees_bind (agrees_require (by rw [isEmpty_eq hcs]) _) fun _ _ _ => ?_
  exact agrees_close (.matchOn has (List.rel_flatten hws) hcs) hst rfl

/-! ## Other keywords and signs -/

theorem agree_useIn (hcd : C.cursors c d) (hc : c.kind ≠ .eof) (hst : C.spans s t) :
    C.Agree c d (useIn deep s) (useIn deep' t) C.terms := by
  refine agree_advance_bind hcd hc fun _ _ _ => agrees_identifier_bind fun name _ _ _ => ?_
  refine agrees_bind (agrees_expect rfl) fun _ _ _ => agrees_bind h.term fun a b hab => ?_
  refine agrees_bind (agrees_expect rfl) fun _ _ _ => ?_
  exact agrees_bind h.statement fun a' b' hab' => agrees_close (.useIn name hab hab') hst rfl

theorem agree_operandAndBody (hcd : C.cursors c d) (hc : c.kind ≠ .eof) (hst : C.spans s t)
    {f : TermId → TermId → Term TermId PatternId} (hname : ∀ a b, (f a b).nameLength? = none)
    (hf : ∀ {a b a' b'}, C.terms a b → C.terms a' b' →
      (f a a').Alike C.spans C.terms C.patterns (f b b')) :
    C.Agree c d (operandAndBody deep s f) (operandAndBody deep' t f) C.terms := by
  refine agree_advance_bind hcd hc fun _ _ _ => agrees_bind (h.expr .suffix) fun a b hab => ?_
  refine agrees_bind (agrees_accept rfl) fun _ _ _ => ?_
  exact agrees_bind h.statement fun a' b' hab' => agrees_close (hf hab hab') hst (hname a a')

theorem agree_before (hcd : C.cursors c d) (hc : c.kind ≠ .eof) (hst : C.spans s t) (min : Level)
    {f : TermId → Term TermId PatternId} (hname : ∀ a, (f a).nameLength? = none)
    (hf : ∀ {a b}, C.terms a b → (f a).Alike C.spans C.terms C.patterns (f b)) :
    C.Agree c d (before deep s min f) (before deep' t min f) C.terms := by
  refine agree_advance_bind hcd hc fun _ _ _ => ?_
  exact agrees_bind (h.expr min) fun a b hab => agrees_close (hf hab) hst (hname a)

theorem agree_tilde [C.Retractable] (hcd : C.cursors c d) (hc : c.kind ≠ .eof)
    (hst : C.spans s t) : C.Agree c d (tilde deep s) (tilde deep' t) C.terms := by
  refine agree_advance_bind hcd hc fun _ _ _ => ?_
  refine agrees_bind (agrees_within (h.expr .operand) fun _ _ => .noBrace) fun a b hab => ?_
  refine fun c d hcd => agree_slot_bind fun slot slot' hslot => agree_cursor_bind ?_
  refine agree_ite (by rw [opensBraces_eq hcd hslot]) (fun _ => ?_) fun _ => ?_
  · exact agree_bind (agrees_caseBlock h _ _ hcd) fun _ _ hblock =>
      agrees_close (.tildeMatch hab hblock) hst rfl
  · exact agrees_close (.tilde hab) hst rfl _ _ hcd

end Levels

end Comparison

end BendSyntax
