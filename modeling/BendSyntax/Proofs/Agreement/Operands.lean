import BendSyntax.Proofs.Agreement.Forms

/-! Operands agree. -/

namespace BendSyntax

open Reading Grammar

theorem Cursor.kind_of_bracesOperand {c : Cursor} {s : Slot} (h : c.bracesOperand s = true) :
    c.kind = .mark .leftBrace := by
  simp only [Cursor.bracesOperand, Bool.and_eq_true, decide_eq_true_eq] at h
  exact h.1.1.1

namespace Comparison

variable {C : Comparison} [C.Lawful] {deep deep' : Deeper} {c d : Cursor} {s t : Span}

section Levels

variable (h : C.Levels deep deep')

include h

theorem agree_constructor (hcd : C.cursors c d) (hc : c.kind ≠ .eof) (hst : C.spans s t) :
    C.Agree c d (Grammar.constructor deep s) (Grammar.constructor deep' t) C.terms := by
  refine agree_advance_bind hcd hc fun _ _ _ => agrees_identifier_bind fun name _ _ _ => ?_
  refine agrees_cursor_bind fun c d hcd => agree_slot_bind fun slot slot' hslot => ?_
  refine agree_ite (by rw [bracesOperand_eq hcd hslot]) (fun hbrace => ?_) fun _ => ?_
  · have hne := ne_eof_of_kind rfl (Cursor.kind_of_bracesOperand hbrace)
    refine agree_advance_bind hcd hne fun _ _ _ => ?_
    refine agrees_bind (agrees_delimited (agrees_separated rfl h.inner)) fun as bs has => ?_
    exact agrees_bind (agrees_expect rfl) fun _ _ _ => agrees_close (.ctor name has) hst rfl
  · exact agrees_close (.tag name) hst rfl _ _ hcd

theorem agree_symbolOrSup (hcd : C.cursors c d) (hc : c.kind ≠ .eof) (hst : C.spans s t) :
    C.Agree c d (symbolOrSup deep s) (symbolOrSup deep' t) C.terms := by
  refine agree_advance_bind hcd hc fun _ _ _ => agrees_cursor_bind fun c d hcd => ?_
  refine agree_slot_bind fun slot slot' hslot => ?_
  have hident := kind_iff hcd (k := .ident) rfl
  have hsymbol :
      (c.kind = .ident && c.isTight && !(c.kindAt 1 = .mark .leftBrace && !slot.noBrace)) =
        (d.kind = .ident && d.isTight && !(d.kindAt 1 = .mark .leftBrace && !slot'.noBrace)) := by
    by_cases hc : c.kind = .ident
    · have hne := ne_eof_of_kind rfl hc
      simp [hc, hident.mp hc, (Lawful.token hcd hne).2.2, hslot.eq Slot.noBrace fun _ => rfl,
        kindAt_one_iff hcd hne (k := .mark .leftBrace) rfl]
    · simp [hc, mt hident.mpr hc]
  refine agree_ite (by rw [hsymbol]) (fun _ => ?_) fun _ => ?_
  · exact agrees_identifier_bind (fun name _ _ _ => agrees_close (.sym name) hst rfl) _ _ hcd
  · refine agrees_bind (agrees_within (h.expr .suffix) fun _ _ => .noBrace)
      (fun a b hab => ?_) _ _ hcd
    refine agrees_bind (agrees_expect rfl) fun _ _ _ => ?_
    refine agrees_bind (P := fun (x y : TermId × TermId) => C.terms x.1 y.1 ∧ C.terms x.2 y.2)
      (agrees_delimited ?_) fun x y hxy => ?_
    · refine agrees_bind h.inner fun x y hxy => agrees_bind (agrees_expect rfl) fun _ _ _ => ?_
      exact agrees_bind h.inner fun x' y' hxy' => agrees_pure ⟨hxy, hxy'⟩
    · exact agrees_bind (agrees_expect rfl) fun _ _ _ =>
        agrees_close (.sup hab hxy.1 hxy.2) hst rfl

theorem agree_hole (hcd : C.cursors c d) (hc : c.kind ≠ .eof) (hst : C.spans s t) :
    C.Agree c d (hole deep s) (hole deep' t) C.terms := by
  refine agree_advance_bind hcd hc fun _ _ _ => agrees_identifier_bind fun name _ _ _ => ?_
  refine agrees_bind (agrees_expect rfl) fun _ _ _ => ?_
  refine agrees_bind (agrees_within (h.expr .product) fun slot slot' hslot => ?_) fun a b hab => ?_
  · exact ⟨hslot.noBrace.flags, Lawful.usages_refl .type⟩
  · refine fun c d hcd => agree_slot_bind fun slot slot' hslot => agree_cursor_bind ?_
    refine agree_ite (by rw [opensBraces_eq hcd hslot]) (fun hbrace => ?_) fun _ => ?_
    · have hc : c.kind = .mark .leftBrace := by simp_all
      have hctx := agrees_separated (k := .mark .rightBrace) rfl h.inner
      refine agree_advance_bind hcd (ne_eof_of_kind rfl hc) fun _ _ _ => ?_
      refine agrees_bind (agrees_delimited (agrees_withUsage .term hctx)) fun as bs has => ?_
      exact agrees_bind (agrees_expect rfl) fun _ _ _ => agrees_close (.hole name hab has) hst rfl
    · exact agrees_close (.hole name hab .nil) hst rfl _ _ hcd

theorem agree_parentheses [deep.Balanced] (hcd : C.cursors c d) (hc : c.kind = .mark .leftParen)
    (hst : C.marks s t) :
    C.Agree c d (parentheses deep s) (parentheses deep' t) C.terms := by
  have hspan := Lawful.marks_spans hst
  refine agree_opening_bind hcd hc fun ts hin _ _ _ => ?_
  refine agreesIn_accept_bind hin (agrees_close .unit hspan rfl) ?_
  refine ((h.inner).within ts).delimited.bind deep.balances_inner.delimited fun a b hab => ?_
  refine ((agrees_accept rfl).within ts).bind (balances_accept rfl) fun more _ hmore => ?_
  subst hmore
  refine .ite .rfl (fun _ => ?_) fun _ => ?_
  · have hrest := agreesIn_separated hin deep.balances_inner h.inner
    refine hrest.delimited.bind (balances_separated _ deep.balances_inner).delimited fun as bs has => ?_
    exact (agreesIn_expect hin).bind_agrees fun _ _ _ =>
      agrees_close (.tuple (.cons hab has)) hspan rfl
  · refine (agreesIn_expect hin).bind_agrees fun s' t' hst' => ?_
    exact agrees_bind (agrees_widen hab (Lawful.marks_hull hst hst')) fun _ _ _ => agrees_pure hab

theorem agree_listTerm (hcd : C.cursors c d) (hc : c.kind ≠ .eof) (hst : C.spans s t) :
    C.Agree c d (listTerm deep s) (listTerm deep' t) C.terms := by
  refine agree_advance_bind hcd hc fun _ _ _ => ?_
  refine agrees_accept_bind rfl (agrees_close .emptyList hst rfl) ?_
  refine agrees_bind (agrees_delimited (agrees_separated rfl h.inner)) fun as bs has => ?_
  exact agrees_bind (agrees_expect rfl) fun _ _ _ => agrees_close (.list has) hst rfl

omit h in
theorem agrees_enumSymbol : C.Agrees enumSymbol enumSymbol Eq :=
  agrees_bind (agrees_expect rfl) fun _ _ _ =>
    agrees_identifier_bind fun _ _ _ _ => agrees_pure rfl

omit h in
theorem agree_enumType (hcd : C.cursors c d) (hc : c.kind ≠ .eof) (hst : C.spans s t) :
    C.Agree c d (enumType s) (enumType t) C.terms := by
  refine agree_advance_bind hcd hc fun _ _ _ => agrees_bind (agrees_expect rfl) fun _ _ _ => ?_
  refine agrees_bind (agrees_separated rfl agrees_enumSymbol) fun xs ys hxy => ?_
  obtain rfl : xs = ys := by simpa using hxy
  exact agrees_bind (agrees_expect rfl) fun _ _ _ => agrees_close (.enum xs) hst rfl

omit h in
theorem agree_reference (hcd : C.cursors c d) (hc : c.kind ≠ .eof) (hst : C.spans s t) :
    C.Agree c d (reference s) (reference t) C.terms :=
  agree_advance_bind hcd hc fun _ _ _ =>
    agrees_identifier_bind fun name _ _ _ => agrees_close (.ref name) hst rfl

omit h in
theorem agree_view (hcd : C.cursors c d) (hc : c.kind ≠ .eof) (hst : C.spans s t) :
    C.Agree c d (view s) (view t) C.terms := by
  refine agree_advance_bind hcd hc fun _ _ _ => agrees_expect_opening_bind fun ts hin _ _ _ => ?_
  refine (agrees_identifier.within ts).bind balances_identifier fun x y hxy => ?_
  refine (agreesIn_expect hin).bind_agrees fun _ _ _ => ?_
  exact agrees_close (hxy.name ▸ .view x.1) hst rfl

theorem agree_compound [deep.Balanced] (hcd : C.cursors c d) :
    C.Agree c d (compound deep c c.span) (compound deep' d d.span) C.terms := by
  have hspan := Lawful.span hcd
  have hkinds := Lawful.kind hcd
  simp only [compound]
  generalize hc : c.kind = k at hkinds
  generalize d.kind = l at hkinds
  cases hkinds with
  | same =>
      cases k with
      | mark m =>
          have hne := ne_eof_of_kind (k := .mark m) rfl hc
          cases m with
          | atSign => exact agree_constructor h hcd hne hspan
          | ampersand => exact agree_symbolOrSup h hcd hne hspan
          | question => exact agree_hole h hcd hne hspan
          | leftParen => exact agree_parentheses h hcd hc (Lawful.mark hcd hne)
          | leftBracket => exact agree_listTerm h hcd hne hspan
          | leftBrace =>
              refine agree_ite (by rw [atRefl_eq hcd]) (fun hrefl => ?_) fun _ => ?_
              · exact agree_refl hcd hrefl
              · exact agree_unexpected hcd _
          | _ => exact agree_unexpected hcd _
      | word w =>
          cases w with
          | enum => exact agree_enumType hcd (ne_eof_of_kind rfl hc) hspan
          | ref => exact agree_reference hcd (ne_eof_of_kind rfl hc) hspan
          | view => exact agree_view hcd (ne_eof_of_kind rfl hc) hspan
          | _ => exact agree_unexpected hcd _
      | _ => exact agree_unexpected hcd _
  | _ => exact agree_unexpected hcd _

omit [C.Lawful] h in
theorem nameTerm_alike (lexeme : String) :
    (nameTerm lexeme).Alike C.spans C.terms C.patterns (nameTerm lexeme) := by
  unfold nameTerm
  split
  · exact .qualified _
  · exact .var _

omit [C.Lawful] h in
theorem constant_alike {k : TokenKind} {term : Term TermId PatternId} (hk : constant? k = some term) :
    term.Alike C.spans C.terms C.patterns term ∧ term.nameLength? = none ∧ k ≠ .eof := by
  unfold constant? at hk
  split at hk <;> cases hk <;> exact ⟨by constructor, rfl, nofun⟩

theorem agrees_operand [deep.Balanced] : C.Agrees (operand deep) (operand deep') C.terms := by
  refine agrees_cursor_bind fun c d hcd => ?_
  refine agree_ite (kind_iff hcd rfl) (fun hc => ?_) fun _ => ?_
  · have hne := ne_eof_of_kind rfl hc
    have hnamed : ∀ k ∈ (nameTerm c.lexeme).nameLength?, C.named k c.span d.span := by
      rw [nameLength?_nameTerm]
      rintro k ⟨⟩
      exact Lawful.named_ident hcd hc
    rw [← (Lawful.token hcd hne).2.1]
    exact agree_advance_bind hcd hne fun _ _ _ =>
      agrees_addTerm (nameTerm_alike _) (Lawful.span hcd) hnamed
  · have hspan := Lawful.span hcd
    have hrest := agree_compound h hcd
    have hkinds := Lawful.kind hcd
    generalize hc : c.kind = k at hkinds
    generalize d.kind = l at hkinds
    cases hkinds with
    | same =>
        refine agree_ite .rfl (fun hliteral => ?_) fun _ => ?_
        · have hliteral : isLiteral c.kind = true := hc ▸ hliteral
          refine agree_literal_bind hcd hliteral k fun value => ?_
          exact agree_advance_bind hcd (ne_eof_of_isLiteral hliteral) fun _ _ _ =>
            agrees_addTerm (.lit value) hspan nofun
        · cases hconstant : constant? k with
          | none => exact hrest
          | some term =>
              obtain ⟨halike, hname, hne⟩ := constant_alike hconstant
              refine agree_advance_bind hcd (hc ▸ hne) fun _ _ _ => ?_
              exact agrees_addTerm halike hspan (by simp [hname])
    | _ => exact hrest

end Levels

end Comparison

end BendSyntax
