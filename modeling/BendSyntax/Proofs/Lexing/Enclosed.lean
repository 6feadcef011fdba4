import BendSyntax.Proofs.Lexing.Flawless

/-! A text between parentheses, the closing one on a line of its own, has the tokens of the text
between two more, if nothing is wrong with it. Only about the first one the two texts differ: the
first token of a text counts as spaced. -/

namespace BendSyntax

namespace Gap

/-- A comment that is never closed runs to the end of the text. -/
theorem unclosed_scan {i : Inside} {n : Nat} {cs : List Char} (h : (scan i n cs).rest ≠ []) :
    (scan i n cs).unclosed = none := by
  fun_induction scan i n cs <;> simp_all

theorem unclosed_atFront {c : Char} {cs rest : List Char} (h : (atFront cs).rest = c :: rest) :
    (atFront cs).unclosed = none :=
  unclosed_scan (h ▸ List.cons_ne_nil c rest)

end Gap

namespace Lexing

variable {previous : Option TokenKind} {p q : Position} {cs : List Char} {k : Nat}

/-! ## The closing parenthesis -/

theorem onward_rightParen (previous : Option TokenKind) (p : Position) {ys : List Char}
    (hrest : (Gap.atFront ys).rest = [')']) :
    ∃ t, (onward previous p ys).tokens.body = [t] ∧ t.kind = .mark .rightParen ∧
      (onward previous p ys).diagnostics = [] := by
  have hfirst : first previous ys = Scanned.valid (.mark .rightParen) [')'] [] := by
    rw [first, hrest]
    cases previous.any TokenKind.endsOperand <;> rfl
  obtain ⟨hbody, hdiagnostics⟩ := @onward_of_cons previous p _ _ _ hrest
  have hnil : (Gap.atFront []).rest = [] := rfl
  have hclosed := Gap.unclosed_atFront hrest
  rw [hfirst] at hbody hdiagnostics
  refine ⟨_, by rw [hbody, Scanned.valid, (onward_of_nil hnil).1], rfl, ?_⟩
  rw [hdiagnostics, Scanned.valid, (onward_of_nil hnil).2, gapDiagnostics, hclosed]
  rfl

/-- The text is read to its end, and then the parenthesis. -/
theorem onward_append_rightParen (hclean : (onward previous p cs).diagnostics = []) :
    ∃ t, (onward previous p (cs ++ ['\n', ')'])).tokens.body =
        (onward previous p cs).tokens.body ++ [t] ∧ t.kind = .mark .rightParen ∧
      (onward previous p (cs ++ ['\n', ')'])).diagnostics = [] := by
  induction hn : cs.length using Nat.strongRecOn generalizing previous p cs with
  | _ n ih =>
      have hclosed : (onward previous p cs).Closed := fun d hd => by simp [hclean] at hd
      cases hrest : (Gap.atFront cs).rest with
      | nil =>
          have hgap : (Gap.atFront (cs ++ ['\n', ')'])).rest = [')'] :=
            (atFront_append_break hrest hclosed.gap [')']).1
          obtain ⟨t, hbody, hkind, hdiagnostics⟩ := onward_rightParen previous p hgap
          exact ⟨t, by rw [hbody, (onward_of_nil hrest).1]; rfl, hkind, hdiagnostics⟩
      | cons c rest =>
          have hsame := first_append_break hrest hclosed [')']
          have hfront := atFront_append_break_of_rest (hrest ▸ List.cons_ne_nil c rest) [')']
          have hle : (Gap.atFront cs).length ≤ cs.length := by
            have := Gap.scan_length .blanks 0 cs
            unfold Gap.atFront
            omega
          have hjoined : (Gap.atFront (cs ++ ['\n', ')'])).rest = c :: (rest ++ ['\n', ')']) := by
            rw [hfront, hrest]
            rfl
          have hgap : behindGap p (cs ++ ['\n', ')']) = behindGap p cs := by
            rw [behindGap, hfront, List.take_append_of_le_length hle, behindGap]
          obtain ⟨hbody, hdiagnostics⟩ := @onward_of_cons previous p _ _ _ hrest
          obtain ⟨hbody', hdiagnostics'⟩ := @onward_of_cons previous p _ _ _ hjoined
          rw [hdiagnostics, List.append_eq_nil_iff, List.append_eq_nil_iff, List.map_eq_nil_iff] at hclean
          obtain ⟨⟨hgaps, hflaws⟩, hclean⟩ := hclean
          obtain ⟨t, hafter, hkind, hclean'⟩ := ih _ (hn ▸ first_rest_length hrest) hclean rfl
          refine ⟨t, ?_, hkind, ?_⟩
          · rw [hbody', hbody, hsame.toToken, hsame.kind, hsame.text, hsame.rest, hgap, hafter, hfront,
              List.cons_append]
          · have hfrank : (first previous cs).Frank := .next _ _
            have hfrank' : (first previous (cs ++ ['\n', ')'])).Frank := .next _ _
            have hflaws' : (first previous (cs ++ ['\n', ')'])).flaws = [] := by
              by_contra hne
              exact hfrank.mp (hsame.kind ▸ hfrank'.mpr hne) hflaws
            rw [hdiagnostics', gapDiagnostics, Gap.unclosed_atFront hjoined, hflaws', hsame.kind,
              hsame.text, hsame.rest, hgap, hclean']
            rfl

/-! ## The opening parenthesis -/

theorem first_leftParen (previous : Option TokenKind) (cs : List Char) :
    first previous ('(' :: cs) = Scanned.valid (.mark .leftParen) ['('] cs := by
  cases h : previous.any TokenKind.endsOperand <;> simp only [first, h] <;> rfl

/-- Behind an opening parenthesis the tokens are those at the beginning of a text, except that the
first one is spaced only if there is a gap. -/
theorem onward_behind_leftParen (cs : List Char) (h : q.offset = p.offset + k) :
    (onward none p cs).tokens.body = [] ∧ (onward (some (.mark .leftParen)) q cs).tokens.body = [] ∨
      ∃ t ts u us, (onward none p cs).tokens.body = t :: ts ∧
        (onward (some (.mark .leftParen)) q cs).tokens.body = u :: us ∧
        ({ t with spaced := u.spaced } : Token).Shifted k u ∧
        List.Forall₂ (Token.Shifted k) ts us := by
  cases hrest : (Gap.atFront cs).rest with
  | nil => exact .inl ⟨(onward_of_nil hrest).1, (onward_of_nil hrest).1⟩
  | cons c rest =>
      have hgap : (behindGap q cs).offset = (behindGap p cs).offset + k :=
        Position.offset_after h _
      have hfirst : first (some (.mark .leftParen)) cs = first none cs := rfl
      refine .inr ⟨_, _, _, _, (onward_of_cons hrest).1, (onward_of_cons hrest).1, ?_, ?_⟩
      · rw [hfirst]
        exact Scanned.shifted_toToken _ hgap _
      · rw [hfirst]
        exact shifted_onward (Position.offset_after hgap _)

/-- Whether something is wrong with the rest of a text does not depend on where it stands. -/
theorem clean_onward {previous' : Option TokenKind}
    (hprevious : previous.any TokenKind.endsOperand = previous'.any TokenKind.endsOperand)
    (hclean : (onward previous p cs).diagnostics = []) : (onward previous' q cs).diagnostics = [] := by
  induction hn : cs.length using Nat.strongRecOn generalizing previous previous' p q cs with
  | _ n ih =>
      cases hrest : (Gap.atFront cs).rest with
      | nil =>
          rw [(onward_of_nil hrest).2] at hclean ⊢
          unfold gapDiagnostics at hclean ⊢
          split at hclean
          · cases hclean
          · rfl
      | cons c rest =>
          have hfirst : first previous' cs = first previous cs := by rw [first, ← hprevious, first]
          rw [(onward_of_cons hrest).2, List.append_eq_nil_iff, List.append_eq_nil_iff,
            List.map_eq_nil_iff] at hclean ⊢
          obtain ⟨⟨-, hflaws⟩, hclean⟩ := hclean
          rw [hfirst, gapDiagnostics, Gap.unclosed_atFront hrest]
          exact ⟨⟨rfl, hflaws⟩, ih _ (hn ▸ first_rest_length hrest) rfl hclean rfl⟩

/-- A text between parentheses has the tokens of the text between two more. -/
theorem ofText_enclosed {source : String} (hclean : (ofText source).diagnostics = [])
    {t : Token} {ts : List Token} (hbody : (ofText source).tokens.body = t :: ts) :
    ∃ a u us b, (ofText ("(" ++ source ++ "\n)")).tokens.body = a :: u :: (us ++ [b]) ∧
      a.kind = .mark .leftParen ∧ b.kind = .mark .rightParen ∧
      ({ t with spaced := u.spaced } : Token).Shifted 1 u ∧ List.Forall₂ (Token.Shifted 1) ts us ∧
      (ofText ("(" ++ source ++ "\n)")).diagnostics = [] := by
  have htext : ("(" ++ source ++ "\n)").toList = '(' :: (source.toList ++ ['\n', ')']) := by
    simp
  have hgap : (Gap.atFront ('(' :: (source.toList ++ ['\n', ')']))).rest =
      '(' :: (source.toList ++ ['\n', ')']) := rfl
  have hoffset : ((behindGap .start ('(' :: (source.toList ++ ['\n', ')']))).after ['(']).offset =
      Position.start.offset + 1 := rfl
  obtain ⟨hopening, hdiagnostics⟩ := @onward_of_cons none .start _ _ _ hgap
  rw [first_leftParen, Scanned.valid] at hopening hdiagnostics
  unfold ofText at hclean hbody ⊢
  rw [htext]
  have hbehind : (onward (some (.mark .leftParen)) ((behindGap .start
      ('(' :: (source.toList ++ ['\n', ')']))).after ['(']) source.toList).diagnostics = [] :=
    clean_onward (by rfl) hclean
  obtain ⟨b, hclosing, hb, hclean'⟩ := onward_append_rightParen hbehind
  rcases onward_behind_leftParen source.toList hoffset with
    ⟨hnil, -⟩ | ⟨t', ts', u, us, hts, hus, hu, htail⟩
  · simp [hnil] at hbody
  · rw [hts] at hbody
    cases hbody
    refine ⟨_, u, us, b, by rw [hopening, hclosing, hus]; rfl, rfl, hb, hu, htail, ?_⟩
    rw [hdiagnostics, hclean', gapDiagnostics, Gap.unclosed_atFront hgap]
    rfl

end Lexing

end BendSyntax
