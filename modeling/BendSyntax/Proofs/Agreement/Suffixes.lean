import BendSyntax.Proofs.Agreement.Patterns

/-! What directly follows an operand agrees. -/

namespace BendSyntax

open Reading Grammar

namespace Comparison

variable {C : Comparison} [C.Lawful] {deep deep' : Deeper} {c d : Cursor}

section Levels

variable (h : C.Levels deep deep')

include h

theorem agreesIn_callArgs [deep.Balanced] {ts : List Token} (hin : C.Inside ts) :
    C.AgreesIn ts (callArgs deep) (callArgs deep') (List.Forall₂ C.terms) := by
  have hargs := agreesIn_separated hin deep.balances_inner h.inner
  refine hargs.delimited.bind (balances_separated _ deep.balances_inner).delimited fun as bs has => ?_
  exact (agreesIn_expect hin).bind_agrees fun _ _ _ => agrees_pure has

theorem agree_call [deep.Balanced] (hcd : C.cursors c d) (hc : c.kind = .mark .leftParen) {a b : TermId} (hab : C.terms a b)
    {s t : Span} (hst : C.spans s t) (tight : Bool) :
    C.Agree c d (call deep a s tight) (call deep' b t tight) C.terms := by
  refine agree_opening_bind hcd hc fun ts hin _ _ _ => ?_
  exact (agreesIn_callArgs h hin).bind_agrees fun as bs has =>
    agrees_close (.call tight hab has) hst rfl

theorem agree_typeArgs (hmoves : C.Moves c d) :
    C.Agree c d (typeArgs deep) (typeArgs deep') (List.Forall₂ C.terms) := by
  refine hmoves.agree_bind fun _ _ _ => ?_
  have hargs := agrees_commaList (h.expr .additive)
  refine agrees_bind (agrees_delimited (agrees_withUsage .type hargs)) (fun as bs has => ?_) _ _
    hmoves.cursors
  exact agrees_bind agrees_closeAngle fun _ _ _ => agrees_pure has

theorem agree_genericArgs [deep.Balanced] (hmoves : C.Moves c d) :
    C.Agree c d (genericArgs deep) (genericArgs deep') (Option.Rel C.GenericArgs) := by
  refine agree_bind (agree_typeArgs h hmoves) fun as bs has => ?_
  refine agrees_cursor_bind fun c d hcd => ?_
  have hk := kind_iff hcd (k := .mark .leftParen) rfl
  have hcall : (c.kind = .mark .leftParen && c.isTight) = true ↔
      (d.kind = .mark .leftParen && d.isTight) = true := by
    by_cases hc : c.kind = .mark .leftParen
    · simp [hc, hk.mp hc, (Lawful.token hcd (ne_eof_of_kind rfl hc)).2.2]
    · simp [hc, mt hk.mpr hc]
  refine agree_ite hcall (fun hc => ?_) fun _ => ?_
  · have hc : c.kind = .mark .leftParen := by simp_all
    refine agree_opening_bind hcd hc fun ts hin _ _ _ => ?_
    exact (agreesIn_callArgs h hin).bind_agrees fun _ _ hvalues =>
      agrees_pure (.some ⟨has, .some hvalues⟩)
  · refine agree_slot_bind fun slot slot' hslot => ?_
    rw [startsOperand_eq hcd hslot]
    refine agree_ite .rfl (fun _ => agree_pure .none) fun _ => ?_
    exact agree_pure (.some ⟨has, .none⟩)

theorem agrees_equalitySides :
    C.Agrees (equalitySides deep) (equalitySides deep') (Option.Rel C.Equalities) := by
  refine agrees_bind (h.expr .comparison) fun a b hab => ?_
  intro c d hcd
  refine agree_kind_bind ?_
  have hkinds := Lawful.kind hcd
  generalize hc : c.kind = k at hkinds
  generalize d.kind = l at hkinds
  cases hkinds with
  | same =>
      cases hn : negated? k with
      | none => exact agree_pure .none
      | some negated =>
          have hne : c.kind ≠ .eof := by
            rintro h
            rw [← hc, h] at hn
            cases hn
          refine agree_advance_bind hcd hne fun _ _ _ => ?_
          exact agrees_bind (h.expr .comparison) fun x y hxy =>
            agrees_pure (.some ⟨hab, rfl, hxy⟩)
  | _ => exact agree_pure .none

theorem agree_equality (hmoves : C.Moves c d) :
    C.Agree c d (equality deep) (equality deep') (Option.Rel C.Equalities) := by
  refine hmoves.agree_bind fun _ _ _ => ?_
  have hsides := agrees_equalitySides h
  refine agrees_bind (agrees_delimited (agrees_withUsage .term hsides)) (fun a b hab => ?_) _ _
    hmoves.cursors
  cases hab with
  | none => exact agrees_pure .none
  | some hab => exact agrees_accept_bind rfl (agrees_pure (.some hab)) (agrees_pure .none)

end Levels

omit [C.Lawful] in
theorem atRefl_kinds (h : c.atRefl = true) :
    c.kind = .mark .leftBrace ∧ c.kindAt 1 = .mark .eqEq ∧ c.kindAt 2 = .mark .rightBrace := by
  simpa [Cursor.atRefl, and_assoc] using h

theorem agree_refl (hcd : C.cursors c d) (h : c.atRefl = true) :
    C.Agree c d Grammar.refl Grammar.refl C.terms := by
  obtain ⟨h0, h1, h2⟩ := atRefl_kinds h
  have hne := ne_eof_of_kind rfl h0
  have hadv := Lawful.advance hcd hne
  have hne1 : c.advance.kind ≠ .eof := by
    rw [← Cursor.kindAt, (kindAt_advance hcd hne 0).1, h1]
    decide
  have hadv2 := Lawful.advance hadv hne1
  have hne2 : c.advance.advance.kind ≠ .eof := by
    rw [← Cursor.kindAt, (kindAt_advance hadv hne1 0).1, (kindAt_advance hcd hne 1).1, h2]
    decide
  refine agree_here_bind ?_
  refine agree_advance_at hcd hne fun _ _ _ => agree_advance_at hadv hne1 fun _ _ _ => ?_
  exact agree_advance_bind hadv2 hne2 fun _ _ _ => agrees_close .refl (Lawful.span hcd) rfl

section Supports

variable (h : C.Supports deep deep')

include h

theorem agree_generic? (hcd : C.cursors c d) (hc : c.kind = .mark .less) {a b : TermId}
    (hab : C.terms a b) {s t : Span} (hst : C.spans s t) :
    C.Agree c d (generic? deep a s) (generic? deep' b t) (Option.Rel C.terms) := by
  refine agree_bind (h.generic hcd hc) fun x y hxy => ?_
  cases hxy with
  | none => exact agrees_pure .none
  | @some x y hxy =>
      obtain ⟨as, as'⟩ := x
      obtain ⟨bs, bs'⟩ := y
      obtain ⟨hargs, hvalues⟩ := hxy
      cases hvalues with
      | none => exact agrees_map (agrees_close (.tyApp hab hargs) hst rfl) fun _ _ => .some
      | some hvalues =>
          exact agrees_map (agrees_close (.genericCall hab hargs hvalues) hst rfl) fun _ _ => .some

theorem agree_braceSuffix (hcd : C.cursors c d) (hc : c.kind = .mark .leftBrace) {a b : TermId}
    (hab : C.terms a b) {s t : Span} (hst : C.spans s t) (tight : Bool) :
    C.Agree c d (braceSuffix deep a s tight) (braceSuffix deep' b t tight) C.terms := by
  refine agree_cursor_bind (agree_ite (by rw [atRefl_eq hcd]) (fun hrefl => ?_) fun _ => ?_)
  · exact agree_bind (agree_refl hcd hrefl) fun x y hxy => agrees_close (.app hab hxy) hst rfl
  · refine agree_bind (h.equality hcd hc) fun x y hxy => ?_
    cases hxy with
    | some hxy =>
        obtain ⟨hlhs, hnegated, hrhs⟩ := hxy
        dsimp only
        rw [hnegated]
        exact agrees_close (.eql _ hab hlhs hrhs) hst rfl
    | none =>
        have hargs := agrees_separated (k := .mark .rightBrace) rfl h.levels.inner
        refine agrees_bind (agrees_expect rfl) fun _ _ _ => ?_
        refine agrees_bind (agrees_delimited (agrees_withUsage .term hargs)) fun as bs has => ?_
        exact agrees_bind (agrees_expect rfl) fun _ _ _ =>
          agrees_close (.implicit tight hab has) hst rfl

theorem agrees_suffixRound [deep.Balanced] {a b : TermId} (hab : C.terms a b) {s t : Span} (hst : C.spans s t) :
    C.Agrees (suffixRound deep s a) (suffixRound deep' t b) (Round.Rel C.terms) := by
  refine agrees_cursor_bind fun c d hcd => agree_slot_bind fun slot slot' hslot => ?_
  have hkinds := Lawful.kind hcd
  have htight : c.kind ≠ .eof →
      (!c.isTight || c.atCaseHead slot) = (!d.isTight || d.atCaseHead slot') := fun hne => by
    rw [(Lawful.token hcd hne).2.2, atCaseHead_eq hcd hslot]
  generalize (!c.isTight || c.atCaseHead slot) = p at htight
  generalize (!d.isTight || d.atCaseHead slot') = q at htight
  generalize hc : c.kind = k at hkinds htight
  generalize d.kind = l at hkinds
  -- Whether the end of the text touches the operand does not matter.
  cases hkinds with
  | same =>
      cases k with
      | mark m =>
          have hne := ne_eof_of_kind (k := .mark m) rfl hc
          obtain rfl : p = q := htight (by simp)
          refine agree_ite .rfl (fun _ => agree_pure (.done hab)) fun _ => ?_
          cases m with
          | leftParen =>
              exact agree_map (agree_call h.levels hcd hc hab hst true) fun _ _ => .more
          | less =>
              refine agree_bareName_bind hab fun bare => ?_
              refine agree_ite .rfl (fun _ => ?_) fun _ => agree_pure (.done hab)
              refine agree_bind (agree_generic? h hcd hc hab hst) fun x y hxy => ?_
              cases hxy with
              | none => exact agrees_pure (.done hab)
              | some hxy => exact agrees_pure (.more hxy)
          | leftBracket =>
              refine agree_ite (kindAt_one_iff hcd hne rfl) (fun hc1 => ?_) fun _ => ?_
              · have hne1 : c.advance.kind ≠ .eof := by
                  rw [← Cursor.kindAt, (kindAt_advance hcd hne 0).1, hc1]
                  decide
                refine agree_advance_at hcd hne fun _ _ _ => ?_
                refine agree_advance_bind (Lawful.advance hcd hne) hne1 fun _ _ _ => ?_
                exact agrees_map (agrees_close (.listType hab) hst rfl) fun _ _ => .more
              · exact agree_pure (.done hab)
          | leftBrace =>
              rw [bracesOperand_eq hcd hslot]
              refine agree_ite .rfl (fun _ => ?_) fun _ => agree_pure (.done hab)
              exact agree_map (agree_braceSuffix h hcd hc hab hst true) fun _ _ => .more
          | _ => exact agree_pure (.done hab)
      | _ => cases p <;> cases q <;> exact agree_pure (.done hab)
  | _ => cases p <;> cases q <;> exact agree_pure (.done hab)

theorem agrees_suffixes [deep.Balanced] {a b : TermId} (hab : C.terms a b) {s t : Span} (hst : C.spans s t) :
    C.Agrees (suffixes deep s a) (suffixes deep' t b) C.terms :=
  agrees_loop (fun _ _ hab => agrees_suffixRound h hab hst) hab

end Supports

end Comparison

end BendSyntax
