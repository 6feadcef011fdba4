import BendSyntax.Proofs.Agreement.Operands

/-! Expressions and statements agree, and with them the productions of every goal. -/

namespace BendSyntax

open Reading Grammar

namespace Comparison

variable {C : Comparison} [C.Lawful] {deep deep' : Deeper} {c d : Cursor} {s t : Span}
  {a b : TermId}

/-! ## Operators -/

theorem operator?_eq (hcd : C.cursors c d) {slot slot' : Slot} (hslot : C.Slots slot slot')
    (min : Level) : operator? c slot min = operator? d slot' min := by
  have hdot := hslot.eq Slot.noDot fun _ => rfl
  have hkinds := Lawful.kind hcd
  simp only [operator?, hdot]
  generalize c.kind = k at hkinds
  generalize d.kind = l at hkinds
  cases hkinds <;> rfl

omit [C.Lawful] in
theorem kind_of_operator? {slot : Slot} {min : Level} {op : Infix}
    (h : operator? c slot min = some op) : c.kind ≠ .eof := by
  rintro hc
  rw [operator?, hc] at h
  cases h

omit [C.Lawful] in
theorem infixTerm_alike (form : InfixForm) {a' b' : TermId} (hab : C.terms a b)
    (hab' : C.terms a' b') :
    (infixTerm form a a').Alike C.spans C.terms C.patterns (infixTerm form b b') := by
  cases form with
  | op op => exact .op2 op hab hab'
  | arrow => exact .arrow hab hab'
  | check => exact .check hab hab'
  | sigma => exact .sigma hab hab'

omit [C.Lawful] in
theorem infixTerm_nameLength? (form : InfixForm) (lhs rhs : TermId) :
    (infixTerm form lhs rhs).nameLength? = none := by
  cases form <;> rfl

section Levels

variable (h : C.Levels deep deep')

include h

theorem agrees_rightOperand (op : Infix) :
    C.Agrees (rightOperand deep op) (rightOperand deep' op) C.terms := by
  unfold rightOperand
  split
  · exact agrees_withUsage .type (h.expr op.next)
  · exact h.expr op.next

theorem agrees_operatorRound (min : Level) (hst : C.spans s t) (hab : C.terms a b) :
    C.Agrees (operatorRound deep min s a) (operatorRound deep' min t b) (Round.Rel C.terms) := by
  refine agrees_cursor_bind fun c d hcd => agree_slot_bind fun slot slot' hslot => ?_
  have hop := operator?_eq hcd hslot min
  generalize hc : operator? c slot min = op at hop
  rw [← hop]
  cases op with
  | none => exact agree_pure (.done hab)
  | some op =>
      refine agree_advance_bind hcd (kind_of_operator? hc) fun _ _ _ => ?_
      refine agrees_bind (agrees_rightOperand h op) fun a' b' hab' => ?_
      exact agrees_map (agrees_close (infixTerm_alike op.form hab hab') hst
        (infixTerm_nameLength? _ _ _)) fun _ _ => .more

end Levels

section Supports

variable (h : C.Supports deep deep')

include h

theorem agrees_juxtaposed? [deep.Balanced] (hst : C.spans s t) (hab : C.terms a b) :
    C.Agrees (juxtaposed? deep a s) (juxtaposed? deep' b t) (Option.Rel C.terms) := by
  refine agrees_cursor_bind fun c d hcd => agree_slot_bind fun slot slot' hslot => ?_
  have hjuxtapose := hslot.eq Slot.noJuxtapose fun _ => rfl
  have hloose := hslot.eq Slot.noLooseBrace fun _ => rfl
  refine agree_ite (by rw [hjuxtapose]) (fun _ => agree_pure .none) fun _ => ?_
  refine agree_bareName_bind hab fun bare => ?_
  have hparen := kind_iff hcd (k := .mark .leftParen) rfl
  have hcall : (c.kind = .mark .leftParen && !c.isTight && bare) =
      (d.kind = .mark .leftParen && !d.isTight && bare) := by
    by_cases hc : c.kind = .mark .leftParen
    · simp [hc, hparen.mp hc, (Lawful.token hcd (ne_eof_of_kind rfl hc)).2.2]
    · simp [hc, mt hparen.mpr hc]
  refine agree_ite (by rw [hcall]) (fun hc => ?_) fun _ => ?_
  · have hc : c.kind = .mark .leftParen := by simp_all
    exact agree_map (agree_call h.levels hcd hc hab hst false) fun _ _ => .some
  · refine agree_ite (kind_iff hcd rfl) (fun hc => ?_) fun _ => ?_
    · refine agree_ite (by rw [hloose, bracesOperand_eq hcd hslot]) (fun _ => agree_pure .none)
        fun _ => ?_
      rw [(Lawful.token hcd (ne_eof_of_kind rfl hc)).2.2]
      exact agree_map (agree_braceSuffix h hcd hc hab hst _) fun _ _ => .some
    · rw [startsArgument_eq hcd hslot]
      refine agree_ite .rfl (fun _ => ?_) fun _ => agree_pure .none
      refine agrees_bind (h.levels.expr .suffix) (fun a' b' hab' => ?_) _ _ hcd
      exact agrees_map (agrees_close (.app hab hab') hst rfl) fun _ _ => .some

theorem agrees_climbRound [deep.Balanced] (min : Level) (hst : C.spans s t) (hab : C.terms a b) :
    C.Agrees (climbRound deep min s a) (climbRound deep' min t b) (Round.Rel C.terms) := by
  refine agrees_cursor_bind fun c d hcd => agree_slot_bind fun slot slot' hslot => ?_
  rw [atHead_eq hcd hslot]
  refine agree_ite .rfl (fun _ => agree_pure (.done hab)) fun _ => ?_
  refine agree_ite .rfl (fun _ => ?_) fun _ => agrees_operatorRound h.levels min hst hab _ _ hcd
  refine agrees_bind (agrees_juxtaposed? h hst hab) (fun x y hxy => ?_) _ _ hcd
  cases hxy with
  | none => exact agrees_operatorRound h.levels min hst hab
  | some hxy => exact agrees_pure (.more hxy)

variable [C.Retractable] [deep.Balanced]

theorem agrees_leading : C.Agrees (leading deep) (leading deep') C.terms := by
  refine agrees_cursor_bind fun c d hcd => ?_
  have hspan := Lawful.span hcd
  have hkinds := Lawful.kind hcd
  have hlevels := h.levels
  have hdefault : C.Agree c d (operand deep >>= suffixes deep c.span)
      (operand deep' >>= suffixes deep' d.span) C.terms :=
    agrees_bind (agrees_operand hlevels) (fun _ _ hab => agrees_suffixes h hab hspan) _ _ hcd
  dsimp only
  generalize hc : c.kind = k at hkinds
  generalize d.kind = l at hkinds
  cases hkinds with
  | same =>
      cases k with
      | mark m =>
          have hne := ne_eof_of_kind (k := .mark m) rfl hc
          cases m with
          | minus => exact agree_before hlevels hcd hne hspan _ (fun _ => rfl) (.op1 .neg)
          | tilde => exact agree_tilde hlevels hcd hne hspan
          | _ => exact hdefault
      | word w =>
          have hne : c.kind ≠ .eof := by simp [hc]
          cases w with
          | not => exact agree_before hlevels hcd hne hspan _ (fun _ => rfl) (.op1 .not)
          | lambda => exact agree_lambda hlevels hcd hne hspan
          | mu => exact agree_fixedPoint hlevels hcd hne hspan
          | all => exact agree_all hlevels hcd hne hspan
          | any => exact agree_any hlevels hcd hne hspan
          | if_ => exact agree_ifElse hlevels hcd hne hspan
          | fork => exact agree_fork hlevels hcd hne hspan
          | match_ => exact agree_matchOn hlevels hcd hne hspan
          | use => exact agree_useIn hlevels hcd hne hspan
          | rewrite =>
              exact agree_operandAndBody hlevels hcd hne hspan (fun _ _ => rfl) .rewrite
          | log => exact agree_operandAndBody hlevels hcd hne hspan (fun _ _ => rfl) .log
          | trust => exact agree_before hlevels hcd hne hspan _ (fun _ => rfl) .trust
          | absurd => exact agree_before hlevels hcd hne hspan _ (fun _ => rfl) .absurd
          | return_ => exact agree_before hlevels hcd hne hspan _ (fun _ => rfl) .ret
          | sub => exact agree_before hlevels hcd hne hspan _ (fun _ => rfl) .sub
          | _ => exact hdefault
      | _ => exact hdefault
  | _ => exact hdefault

theorem agrees_expression (min : Level) :
    C.Agrees (expression deep min) (expression deep' min) C.terms := by
  refine agrees_bind agrees_here fun s t hst => agrees_bind (agrees_leading h) fun a b hab => ?_
  exact agrees_loop (fun _ _ hab => agrees_climbRound h min hst hab) hab

end Supports

/-! ## Statements -/

section Levels

variable (h : C.Levels deep deep')

theorem agrees_assignment (name : String) (hst : C.Names (name, s) (name, t)) {type type' : Option TermId}
    (htype : Option.Rel C.terms type type') (hab : C.terms a b) :
    C.Agrees (assignment name s type a) (assignment name t type' b) C.terms := by
  have hspan : C.spans s t := Lawful.marks_spans hst.marks
  have hnamed : ∀ k ∈ (Term.var name : Term TermId PatternId).nameLength?, C.named k s t := by
    rintro k ⟨⟩
    exact hst.named
  refine agrees_bind (agrees_addTerm (.var name) hspan hnamed) fun x y hxy => ?_
  refine agrees_bind (agrees_spanOf hab) fun s₂ t₂ hst₂ => ?_
  have hhull := Lawful.spans_hull hspan hst₂
  cases htype with
  | none => exact agrees_addTerm (.op2 .assign hxy hab) hhull nofun
  | some htype =>
      refine agrees_bind (agrees_spanOf htype) fun s₁ t₁ hst₁ => ?_
      have hcheck := Lawful.spans_hull hspan hst₁
      refine agrees_bind (agrees_addTerm (.check hxy htype) hcheck nofun) fun x' y' hxy' => ?_
      exact agrees_addTerm (.op2 .assign hxy' hab) hhull nofun

include h

theorem agrees_binding (name : String) (hst : C.Names (name, s) (name, t)) {type type' : Option TermId}
    (htype : Option.Rel C.terms type type') :
    C.Agrees (binding deep name s type) (binding deep' name t type') C.terms := by
  refine agrees_bind (agrees_expect rfl) fun _ _ _ => agrees_bind h.term fun a b hab => ?_
  refine agrees_bind (agrees_accept rfl) fun _ _ _ => ?_
  refine agrees_cursor_bind fun c d hcd => agree_slot_bind fun slot slot' hslot => ?_
  rw [startsOperand_eq hcd hslot]
  refine agree_ite .rfl (fun _ => ?_) fun _ => agrees_assignment name hst htype hab _ _ hcd
  refine agrees_bind h.statement (fun a' b' hab' => ?_) _ _ hcd
  exact agrees_close (.letIn name htype hab hab') (Lawful.marks_spans hst.marks) rfl

theorem agrees_typedName :
    C.Agrees (typedName deep) (typedName deep') (Option.Rel C.TypedNames) := by
  refine agrees_name_bind fun name s t hst => agrees_bind (agrees_expect rfl) fun _ _ _ => ?_
  refine agrees_bind h.type fun a b hab => ?_
  exact agrees_sees_bind rfl (agrees_pure (.some ⟨hst, hab⟩)) (agrees_pure .none)

end Levels

section Supports

variable (h : C.Supports deep deep')

include h

theorem agrees_statement : C.Agrees (statement deep) (statement deep') C.terms := by
  refine agrees_cursor_bind fun c d hcd => ?_
  have hdefault := h.levels.expr .assignment _ _ hcd
  have hkinds := Lawful.kind hcd
  have hnext : c.kind ≠ .eof → Kinds (c.kindAt 1) (d.kindAt 1) := fun hne => by
    rw [← (kindAt_advance hcd hne 0).1, ← (kindAt_advance hcd hne 0).2]
    exact Lawful.kind (Lawful.advance hcd hne)
  generalize hc : c.kind = k at hkinds hnext
  generalize d.kind = l at hkinds
  cases hkinds with
  | same =>
      cases k with
      | ident =>
          have hnext := hnext nofun
          generalize c.kindAt 1 = k at hnext
          generalize d.kindAt 1 = l at hnext
          cases hnext with
          | same =>
              cases k with
              | mark m =>
                  cases m with
                  | equals =>
                      refine agrees_name_bind (fun name s t hst => ?_) _ _ hcd
                      exact agrees_binding h.levels name hst .none
                  | colon =>
                      refine agree_bind (h.typedName hcd hc) fun x y hxy => ?_
                      cases hxy with
                      | none => exact h.levels.expr .assignment
                      | @some x y hxy =>
                          obtain ⟨name, s, a⟩ := x
                          obtain ⟨name', t, b⟩ := y
                          obtain ⟨hst, hab⟩ := hxy
                          obtain rfl : name = name' := hst.name
                          exact agrees_binding h.levels name hst (.some hab)
                  | _ => exact hdefault
              | _ => exact hdefault
          | _ => exact hdefault
      | _ => exact hdefault
  | _ => exact hdefault

/-- The production of a goal agrees with itself if the readings of the next level do. -/
theorem agrees_produce [C.Retractable] [deep.Balanced] : C.Levels (produce deep) (produce deep') := by
  intro g
  cases g with
  | statement => exact agrees_withUsage .term (agrees_statement h)
  | expr min => exact agrees_expression h min
  | pattern => exact agrees_pattern h.levels
  | patternAtom => exact agrees_patternAtom h.levels

end Supports

end Comparison

end BendSyntax
