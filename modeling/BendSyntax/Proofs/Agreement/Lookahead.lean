import BendSyntax.Proofs.Agreement
import BendSyntax.Proofs.Progress

/-! Corresponding cursors answer alike whatever the grammar asks about the tokens ahead. -/

namespace BendSyntax

theorem Correspondence.Slots.eq {C : Correspondence} {slot slot' : Slot} (h : C.Slots slot slot') {α : Type} (f : Slot → α)
    (hf : ∀ s : Slot, f s = f (s.withUsage .term)) : f slot = f slot' := by
  rw [hf slot, hf slot', h.flags]

namespace Comparison

variable {C : Comparison} [C.Lawful] {c d : Cursor} {slot slot' : Slot}

/-! ## Kinds ahead -/

/-- A test that treats what may stand behind a text like its end. -/
theorem test_eq (hcd : C.cursors c d) {f : TokenKind → Bool}
    (hf : ∀ k, Kinds .eof k → f .eof = f k) : f c.kind = f d.kind := by
  have h := Lawful.kind hcd
  generalize c.kind = k at h
  generalize d.kind = l at h
  cases h with
  | same => rfl
  | rightParen => exact hf _ .rightParen
  | def_ => exact hf _ .def_
  | type => exact hf _ .type
  | assert => exact hf _ .assert
  | try_ => exact hf _ .try_

/-- What stands behind the next token is what the advanced cursor sees. -/
theorem kindAt_advance (hcd : C.cursors c d) (hc : c.kind ≠ .eof) (n : Nat) :
    c.advance.kindAt n = c.kindAt (n + 1) ∧ d.advance.kindAt n = d.kindAt (n + 1) := by
  obtain ⟨hcr, hdr⟩ := Lawful.rest hcd hc
  exact ⟨Cursor.kindAt_advance hcr n, Cursor.kindAt_advance hdr n⟩

theorem kindAt_one_iff (hcd : C.cursors c d) (hc : c.kind ≠ .eof) {k : TokenKind}
    (hk : k.endsText = false) : c.kindAt 1 = k ↔ d.kindAt 1 = k := by
  obtain ⟨hc1, hd1⟩ := kindAt_advance hcd hc 0
  rw [← hc1, ← hd1]
  exact kind_iff (Lawful.advance hcd hc) hk

theorem kindAt_two_iff (hcd : C.cursors c d) (hc : c.kind ≠ .eof) (hc1 : c.kindAt 1 ≠ .eof)
    {k : TokenKind} (hk : k.endsText = false) : c.kindAt 2 = k ↔ d.kindAt 2 = k := by
  obtain ⟨hc2, hd2⟩ := kindAt_advance hcd hc 1
  rw [← (kindAt_advance hcd hc 0).1] at hc1
  rw [← hc2, ← hd2]
  exact kindAt_one_iff (Lawful.advance hcd hc) hc1 hk

theorem tightAt_one_eq (hcd : C.cursors c d) (hc : c.kind ≠ .eof) (hc1 : c.kindAt 1 ≠ .eof) :
    c.tightAt 1 = d.tightAt 1 := by
  obtain ⟨hcr, hdr⟩ := Lawful.rest hcd hc
  rw [← (kindAt_advance hcd hc 0).1] at hc1
  rw [Cursor.tightAt_one hcr, Cursor.tightAt_one hdr]
  exact (Lawful.token (Lawful.advance hcd hc) hc1).2.2

/-- Whether two given kinds stand next. -/
theorem pair_iff (hcd : C.cursors c d) {k l : TokenKind} (hk : k.endsText = false)
    (hl : l.endsText = false) :
    (c.kind = k ∧ c.kindAt 1 = l) ↔ (d.kind = k ∧ d.kindAt 1 = l) := by
  rw [← kind_iff hcd hk]
  exact and_congr_right fun h => kindAt_one_iff hcd (ne_eof_of_kind (startsItem_of_endsText hk) h) hl

/-! ## Heads -/

theorem atCaseHead_eq (hcd : C.cursors c d) (h : C.Slots slot slot') :
    c.atCaseHead slot = d.atCaseHead slot' := by
  simp only [Cursor.atCaseHead, Lawful.caseHead hcd, h.eq Slot.caseHeads fun _ => rfl]

theorem atFieldHead_eq (hcd : C.cursors c d) (h : C.Slots slot slot') :
    c.atFieldHead slot = d.atFieldHead slot' := by
  have hpair := pair_iff hcd (k := .ident) (l := .mark .colon) rfl rfl
  simp only [Cursor.atFieldHead, h.eq Slot.fieldHeads fun _ => rfl, Bool.and_assoc,
    ← Bool.decide_and, hpair]

theorem atHead_eq (hcd : C.cursors c d) (h : C.Slots slot slot') : c.atHead slot = d.atHead slot' := by
  simp only [Cursor.atHead, atCaseHead_eq hcd h, atFieldHead_eq hcd h]

/-! ## Operands -/

theorem startsArgument_eq (hcd : C.cursors c d) (h : C.Slots slot slot') :
    c.startsArgument slot = d.startsArgument slot' := by
  have hopens : Cursor.opensArgument c.kind = Cursor.opensArgument d.kind :=
    test_eq hcd fun k hk => by cases hk <;> rfl
  have hsymbol : (c.kind = .mark .ampersand && !c.isTight && c.kindAt 1 = .ident && c.tightAt 1) =
      (d.kind = .mark .ampersand && !d.isTight && d.kindAt 1 = .ident && d.tightAt 1) := by
    have hpair := pair_iff hcd (k := .mark .ampersand) (l := .ident) rfl rfl
    by_cases hc : c.kind = .mark .ampersand ∧ c.kindAt 1 = .ident
    · have hd := hpair.mp hc
      have hne := ne_eof_of_kind (k := .mark .ampersand) rfl hc.1
      have hne1 : c.kindAt 1 ≠ .eof := by simp [hc.2]
      simp [hc.1, hc.2, hd.1, hd.2, (Lawful.token hcd hne).2.2, tightAt_one_eq hcd hne hne1]
    · have hd := mt hpair.mpr hc
      grind
  simp only [Cursor.startsArgument, atHead_eq hcd h, hopens, hsymbol]

theorem atRefl_eq (hcd : C.cursors c d) : c.atRefl = d.atRefl := by
  have hpair := pair_iff hcd (k := .mark .leftBrace) (l := .mark .eqEq) rfl rfl
  by_cases hc : c.kind = .mark .leftBrace ∧ c.kindAt 1 = .mark .eqEq
  · have hd := hpair.mp hc
    have hne := ne_eof_of_kind (k := .mark .leftBrace) rfl hc.1
    have hne1 : c.kindAt 1 ≠ .eof := by simp [hc.2]
    have htwo := kindAt_two_iff hcd hne hne1 (k := .mark .rightBrace) rfl
    simp [Cursor.atRefl, hc.1, hc.2, hd.1, hd.2, htwo]
  · have hd := mt hpair.mpr hc
    simp only [Cursor.atRefl]
    grind

theorem startsOperand_eq (hcd : C.cursors c d) (h : C.Slots slot slot') :
    c.startsOperand slot = d.startsOperand slot' := by
  have hopens : Cursor.opensOperand c.kind = Cursor.opensOperand d.kind :=
    test_eq hcd fun k hk => by cases hk <;> rfl
  simp only [Cursor.startsOperand, startsArgument_eq hcd h, atHead_eq hcd h, hopens, atRefl_eq hcd]

theorem bracesOperand_eq (hcd : C.cursors c d) (h : C.Slots slot slot') :
    c.bracesOperand slot = d.bracesOperand slot' := by
  have hk := kind_iff hcd (k := .mark .leftBrace) rfl
  have hbrace := h.eq Slot.noBrace fun _ => rfl
  have hloose := h.eq Slot.noLooseBrace fun _ => rfl
  by_cases hc : c.kind = .mark .leftBrace
  · have hne := ne_eof_of_kind (k := .mark .leftBrace) rfl hc
    simp [Cursor.bracesOperand, hc, hk.mp hc, hbrace, hloose, (Lawful.token hcd hne).2.2,
      atCaseHead_eq hcd h]
  · simp [Cursor.bracesOperand, hc, mt hk.mpr hc]

/-- Whether a brace that is no operand's own opens a block or a list. -/
theorem opensBraces_eq (hcd : C.cursors c d) (h : C.Slots slot slot') :
    (!slot.noBrace && c.kind = .mark .leftBrace && !c.atCaseHead slot) =
      (!slot'.noBrace && d.kind = .mark .leftBrace && !d.atCaseHead slot') := by
  simp [h.eq Slot.noBrace fun _ => rfl, atCaseHead_eq hcd h,
    kind_iff hcd (k := .mark .leftBrace) rfl]

/-! ## Known tokens -/

/-- Skipping tokens none of which is the end of the text. -/
theorem agree_skipTokens (n : Nat) (hcd : C.cursors c d) (hc : ∀ i < n, c.kindAt i ≠ .eof) :
    C.Agree c d (Grammar.skipTokens n) (Grammar.skipTokens n) fun _ _ => True := by
  induction n generalizing c d with
  | zero => exact agree_pure trivial
  | succ n ih =>
      have hne : c.kind ≠ .eof := hc 0 (by omega)
      refine agree_advance_at hcd hne fun _ _ _ => ih (Lawful.advance hcd hne) fun i hi => ?_
      rw [(kindAt_advance hcd hne i).1]
      exact hc (i + 1) (by omega)

end Comparison

end BendSyntax
