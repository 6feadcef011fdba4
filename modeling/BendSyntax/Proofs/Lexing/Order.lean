import BendSyntax.Proofs.Layout.Cursors
import BendSyntax.Proofs.Lexing.Joined

/-! The tokens of a text stand in order, none of them is empty, and symbols are spelled out. A
cursor in front of them has tokens in order before it. -/

namespace BendSyntax

namespace Scanned

/-- A token that takes text; a symbol takes its spelling. -/
structure Spelled (s : Scanned) : Prop where
  text : s.text ≠ []
  mark : ∀ symbol, s.kind = .mark symbol → s.text = symbol.spelling.toList

namespace Spelled

theorem bad (cause : Flaw.Cause) {text : List Char} (rest : List Char) (h : text ≠ []) :
    (bad cause text rest).Spelled := ⟨h, nofun⟩

theorem checked {kind : TokenKind} {text : List Char} (rest : List Char) (h : text ≠ [])
    (hkind : ∀ symbol, kind ≠ .mark symbol) : (checked kind text rest).Spelled := by
  unfold Scanned.checked
  split
  · exact ⟨h, fun symbol hmark => (hkind symbol hmark).elim⟩
  · exact .bad _ _ h

theorem based (radix : Nat) {mark : String} (sign cs : List Char) (h : mark.toList ≠ []) :
    (based radix mark sign cs).Spelled := by
  have htext (digits : List Char) : sign ++ mark.toList ++ digits ≠ [] := by simp_all
  simp only [Scanned.based]
  split
  · exact .bad _ _ (htext _)
  · exact .checked _ (htext _) (by simp)

theorem decimal (sign : List Char) {c : Char} (cs : List Char) (h : c.isDigit = true) :
    (decimal sign (c :: cs)).Spelled := by
  have htext : sign ++ (c :: cs).takeWhile Char.isDigit ≠ [] := by simp [h]
  simp only [Scanned.decimal]
  split
  · split
    · exact .checked _ htext (by simp)
    · split
      · exact .checked _ (by simp) (by simp)
      · exact .bad _ _ (by simp)
  · split
    · exact .checked _ (by simp) (by simp)
    · exact .checked _ htext (by simp)
  · exact .checked _ htext (by simp)

theorem number (sign : List Char) {c : Char} (cs : List Char) (h : c.isDigit = true) :
    (number sign (c :: cs)).Spelled := by
  unfold Scanned.number
  split
  · exact .based _ _ _ (by decide)
  · exact .based _ _ _ (by decide)
  · exact .decimal sign cs h

theorem word {c : Char} (cs : List Char) (h : isWordStart c = true) :
    (word (c :: cs)).Spelled := by
  have hlength := wordLength_pos cs h
  refine ⟨by simp [Scanned.word, valid]; omega, fun symbol hmark => ?_⟩
  simp only [Scanned.word, valid, TokenKind.ofWord?] at hmark
  cases hword : Keyword.ofWord? (String.ofList ((c :: cs).take (wordLength (c :: cs)))) <;>
    simp [hword] at hmark

theorem string (cs : List Char) : (string cs).Spelled := by
  unfold Scanned.string
  split
  · refine ⟨by simp, fun symbol hmark => ?_⟩
    dsimp only at hmark
    split at hmark <;> cases hmark
  · exact ⟨by simp, by simp⟩

theorem closeChar (cs : List Char) (n : Nat) (flaws : List Flaw) :
    (closeChar cs n flaws).Spelled := by
  unfold Scanned.closeChar
  split
  · refine ⟨by simp, fun symbol hmark => ?_⟩
    dsimp only at hmark
    split at hmark <;> cases hmark
  · exact ⟨by simp, by simp⟩

theorem char (cs : List Char) : (char cs).Spelled := by
  unfold Scanned.char
  split
  · exact .bad _ _ (by simp)
  · exact .bad _ _ (by simp)
  · exact .bad _ _ (by simp)
  · exact .closeChar _ _ _
  · exact .closeChar _ _ _

theorem symbol (c : Char) (cs : List Char) : (symbol c cs).Spelled := by
  unfold Scanned.symbol
  split
  · rename_i s hs
    have hsub := List.isPrefixOf_iff_prefix.mp (isPrefixOf_of_atFront? hs)
    have htext : (c :: cs).take s.spelling.length = s.spelling.toList :=
      (List.prefix_iff_eq_take.mp hsub).symm
    constructor
    · change (c :: cs).take s.spelling.length ≠ []
      rw [htext]
      exact List.ne_nil_of_length_pos (spelling_length_pos s)
    · intro symbol hmark
      cases hmark
      exact htext
  · exact .bad _ _ (by simp)

theorem letter (c : Char) (cs : List Char) : (letter c cs).Spelled := by
  unfold Scanned.letter
  split
  · rename_i kind hword
    refine ⟨by simp [valid], fun symbol hmark => ?_⟩
    simp only [TokenKind.ofWord?, Option.map_eq_some_iff] at hword
    obtain ⟨k, -, rfl⟩ := hword
    cases hmark
  · exact .bad _ _ (by simp)

theorem next (signed : Bool) (c : Char) (cs : List Char) : (next signed (c :: cs)).Spelled := by
  simp only [Scanned.next]
  split
  · exact .number [] cs ‹_›
  · split
    · rename_i hsigns
      cases cs with
      | nil => simp [signs] at hsigns
      | cons d ds =>
          have hd : d.isDigit = true := by
            simp only [signs, List.head?_cons, Option.any_some, Bool.and_eq_true] at hsigns
            exact hsigns.2
          exact .number [c] ds hd
    · split
      · exact .word cs ‹_›
      · split_ifs
        · exact .string cs
        · exact .char cs
        · exact .symbol c cs
        · exact .letter c cs

end Spelled

end Scanned

namespace Position

theorem offset_advance (p : Position) (c : Char) :
    (p.advance c).offset = p.offset + c.utf8Size := by
  unfold advance
  split <;> rfl

theorem offset_lt_advance (p : Position) (c : Char) : p.offset < (p.advance c).offset := by
  rw [offset_advance]
  exact Nat.lt_add_of_pos_right c.utf8Size_pos

theorem offset_le_after (p : Position) (text : List Char) : p.offset ≤ (p.after text).offset := by
  induction text generalizing p with
  | nil => exact Nat.le_refl _
  | cons c text ih => exact Nat.le_trans (Nat.le_of_lt (offset_lt_advance p c)) (ih _)

theorem offset_lt_after (p : Position) {text : List Char} (h : text ≠ []) :
    p.offset < (p.after text).offset := by
  obtain ⟨c, cs, rfl⟩ := List.exists_cons_of_ne_nil h
  exact Nat.lt_of_lt_of_le (offset_lt_advance p c) (offset_le_after _ cs)

end Position

namespace Lexing

variable {previous : Option TokenKind} {p : Position} {cs : List Char}

/-- The tokens behind a position stand in order. -/
theorem inOrder_onward (previous : Option TokenKind) (p : Position) (cs : List Char) :
    Token.InOrder p.offset (onward previous p cs).tokens.body
      (onward previous p cs).tokens.eof := by
  fun_induction onward with
  | case1 previous p cs gap reports p' h =>
      exact ⟨Position.offset_le_after p _, rfl, rfl⟩
  | case2 previous p cs gap reports p' c rest h scanned token reports' after ih =>
      have hspelled : scanned.Spelled := .next _ c rest
      refine ⟨Position.offset_le_after p _, Position.offset_lt_after p' hspelled.text, ?_, ?_, ih⟩
      · intro hshift
        change (p'.after scanned.text).offset = p'.offset + 2
        rw [hspelled.mark .shiftRight hshift]
        change ((p'.advance '>').advance '>').offset = p'.offset + 2
        rw [Position.offset_advance, Position.offset_advance]
        rfl
      · exact Scanned.kind_next_ne_eof _ c rest

end Lexing

/-- In front of a text stands a cursor with tokens in order before it. -/
theorem Cursor.orderly_start (source : String) :
    (Cursor.start (Lexing.ofText source).tokens).Orderly where
  inOrder := Lexing.inOrder_onward none .start source.toList
  split := nofun
  last := Nat.le_refl _
  behind := Nat.zero_le _

end BendSyntax
