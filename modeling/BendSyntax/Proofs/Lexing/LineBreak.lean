import BendSyntax.Token.Lexing
import Mathlib.Tactic.SplitIfs

/-! A token in front of a line break does not depend on what stands behind the line break,
unless it is a string that is not closed. -/

namespace BendSyntax

/-! ## Lists -/

section Lists

variable {p : Char → Bool} {ys : List Char}

theorem takeWhile_append_break (hp : p '\n' = false) (cs : List Char) :
    (cs ++ '\n' :: ys).takeWhile p = cs.takeWhile p := by
  induction cs with
  | nil => simp [hp]
  | cons c cs ih => simp only [List.cons_append, List.takeWhile_cons, ih]

theorem dropWhile_append_break (hp : p '\n' = false) (cs : List Char) :
    (cs ++ '\n' :: ys).dropWhile p = cs.dropWhile p ++ '\n' :: ys := by
  rw [List.dropWhile_append]
  split
  · rename_i h
    simp [List.isEmpty_iff.mp h, hp]
  · rfl

theorem head?_any_append_break (hp : p '\n' = false) (cs : List Char) :
    (cs ++ '\n' :: ys).head?.any p = cs.head?.any p := by
  cases cs <;> simp [hp]

/-- A word is found at the front of a text or it is not, whatever stands behind a character that is
not in it. -/
theorem isPrefixOf_append_cons {b : Char} {w : List Char} (hw : b ∉ w) (cs : List Char) :
    w.isPrefixOf (cs ++ b :: ys) = w.isPrefixOf cs := by
  induction w generalizing cs with
  | nil => rfl
  | cons c w ih =>
      simp only [List.mem_cons, not_or] at hw
      cases cs with
      | nil =>
          have hc : (c == b) = false := by simpa using Ne.symm hw.1
          simp [List.isPrefixOf, hc]
      | cons d cs => simp only [List.cons_append, List.isPrefixOf, ih hw.2]

theorem takeWhile_take_append_break (hp : p '\n' = false) (n : Nat) (cs : List Char) :
    ((cs ++ '\n' :: ys).take n).takeWhile p = (cs.take n).takeWhile p := by
  rw [List.take_append]
  cases hn : n - cs.length with
  | zero => simp
  | succ m => rw [List.take_succ_cons, takeWhile_append_break hp]

end Lists

namespace Scanned

/-- Two tokens that are the same, where more text stands behind the second one. -/
structure SameBefore (more : List Char) (s t : Scanned) : Prop where
  kind : t.kind = s.kind
  text : t.text = s.text
  rest : t.rest = s.rest ++ more

variable {ys : List Char}

theorem SameBefore.bad (cause : Flaw.Cause) (text rest more : List Char) :
    SameBefore more (bad cause text rest) (bad cause text (rest ++ more)) :=
  ⟨rfl, rfl, rfl⟩

theorem SameBefore.valid (kind : TokenKind) (text rest more : List Char) :
    SameBefore more (valid kind text rest) (valid kind text (rest ++ more)) :=
  ⟨rfl, rfl, rfl⟩

theorem SameBefore.checked (kind : TokenKind) (text rest more : List Char) :
    SameBefore more (checked kind text rest) (checked kind text (rest ++ more)) := by
  unfold Scanned.checked
  split
  · exact .valid _ _ _ _
  · exact .bad _ _ _ _

/-! ## Numbers and words -/

theorem based_append_break {radix : Nat} (h : Numeral.isDigit radix '\n' = false) (mark : String)
    (sign cs : List Char) :
    SameBefore ('\n' :: ys) (based radix mark sign cs) (based radix mark sign (cs ++ '\n' :: ys)) := by
  simp only [based, takeWhile_append_break h, dropWhile_append_break h]
  split
  · exact .bad _ _ _ _
  · exact .checked _ _ _ _

theorem decimal_append_break (sign cs : List Char) :
    SameBefore ('\n' :: ys) (decimal sign cs) (decimal sign (cs ++ '\n' :: ys)) := by
  have hdigit : Char.isDigit '\n' = false := rfl
  have hpart : isWordPart '\n' = false := rfl
  simp only [decimal, takeWhile_append_break hdigit, dropWhile_append_break hdigit]
  rcases hrest : cs.dropWhile Char.isDigit with _ | ⟨c, rest⟩
  · exact .checked _ _ _ _
  · simp only [List.cons_append]
    split
    · rename_i rest' heq
      cases heq
      simp only [head?_any_append_break hpart]
      split
      · exact .checked _ _ _ _
      · split
        · exact .checked _ _ _ _
        · exact .bad _ _ _ _
    · rename_i rest' heq
      cases heq
      simp only [head?_any_append_break hdigit, takeWhile_append_break hdigit,
        dropWhile_append_break hdigit]
      split
      · exact .checked _ _ _ _
      · exact .checked _ _ _ _
    · rename_i hn hdot
      split
      · rename_i heq
        cases heq
        exact absurd rfl (hn _)
      · rename_i heq
        cases heq
        exact absurd rfl (hdot _)
      · exact .checked _ _ _ _

theorem number_eq_decimal {sign cs : List Char} (hx : ∀ r, cs ≠ '0' :: 'x' :: r)
    (hb : ∀ r, cs ≠ '0' :: 'b' :: r) : number sign cs = decimal sign cs := by
  unfold number
  split
  · exact absurd rfl (hx _)
  · exact absurd rfl (hb _)
  · rfl

theorem number_append_break (sign cs : List Char) :
    SameBefore ('\n' :: ys) (number sign cs) (number sign (cs ++ '\n' :: ys)) := by
  have hmark (c : Char) (hc : c ≠ '\n') (h : ∀ r, cs ≠ '0' :: c :: r) :
      ∀ r, cs ++ '\n' :: ys ≠ '0' :: c :: r := by
    rcases cs with _ | ⟨d, _ | ⟨e, cs⟩⟩ <;> simp_all [Ne.symm hc]
  by_cases hx : ∃ r, cs = '0' :: 'x' :: r
  · obtain ⟨r, rfl⟩ := hx
    exact based_append_break rfl _ _ _
  · by_cases hb : ∃ r, cs = '0' :: 'b' :: r
    · obtain ⟨r, rfl⟩ := hb
      exact based_append_break rfl _ _ _
    · simp only [not_exists] at hx hb
      rw [number_eq_decimal hx hb,
        number_eq_decimal (hmark 'x' (by decide) hx) (hmark 'b' (by decide) hb)]
      exact decimal_append_break sign cs

theorem isWordPart_of_isWordStart {c : Char} (h : isWordStart c = true) : isWordPart c = true := by
  simp only [isWordStart, isWordPart, Char.isAlphanum, Bool.or_eq_true] at h ⊢
  grind

/-- A word ends in front of a character that cannot be part of one. -/
theorem wordLength_append_cons {b : Char} (hpart : isWordPart b = false) (hne : b ≠ '/')
    (cs : List Char) : wordLength (cs ++ b :: ys) = wordLength cs := by
  have hstart : isWordStart b = false := Bool.eq_false_iff.mpr fun hstart =>
    Bool.eq_false_iff.mp hpart (isWordPart_of_isWordStart hstart)
  fun_induction wordLength cs with
  | case1 c cs h ih => simp [wordLength, h, ih]
  | case2 c cs h => simp [wordLength, h]
  | case3 c cs hslash h ih =>
      have hc : c ≠ '/' := by
        rintro rfl
        exact absurd h (by decide)
      simp [wordLength, hc, h, ih]
  | case4 c cs hslash h =>
      by_cases hc : c = '/'
      · subst hc
        cases cs with
        | nil => simp [wordLength, hstart]
        | cons d cs => exact absurd rfl (hslash d cs rfl)
      · simp [wordLength, hc, h]
  | case5 => simp [wordLength, hpart, hne]

theorem wordLength_le (cs : List Char) : wordLength cs ≤ cs.length := by
  fun_induction wordLength cs <;> simp_all

theorem word_append_break (cs : List Char) :
    SameBefore ('\n' :: ys) (word cs) (word (cs ++ '\n' :: ys)) := by
  have hle := wordLength_le cs
  have hlength : wordLength (cs ++ '\n' :: ys) = wordLength cs :=
    wordLength_append_cons rfl (by decide) cs
  simp only [word, hlength, List.take_append_of_le_length hle,
    List.drop_append_of_le_length hle]
  exact .valid _ _ _ _

/-! ## Symbols -/

theorem spelling_without_blank {b : Char} (hb : Gap.isBlank b = true) (s : Symbol) :
    b ∉ s.spelling.toList := by
  have hall : s.spelling.toList.all (!Gap.isBlank ·) = true := by cases s <;> decide
  intro hmem
  have hnot := List.all_eq_true.mp hall b hmem
  simp [hb] at hnot

/-- A symbol ends in front of a blank. -/
theorem atFront?_append_blank {b : Char} (hb : Gap.isBlank b = true) (cs ys : List Char) :
    Symbol.atFront? (cs ++ b :: ys) = Symbol.atFront? cs := by
  unfold Symbol.atFront?
  congr 1
  funext s
  exact isPrefixOf_append_cons (spelling_without_blank hb s) cs

theorem isPrefixOf_of_atFront? {cs : List Char} {s : Symbol} (h : Symbol.atFront? cs = some s) :
    s.spelling.toList.isPrefixOf cs = true := by
  have hfound := List.find?_some h
  exact hfound

theorem symbol_append_break (c : Char) (cs : List Char) :
    SameBefore ('\n' :: ys) (symbol c cs) (symbol c (cs ++ '\n' :: ys)) := by
  have hfront := atFront?_append_blank (b := '\n') rfl (c :: cs) ys
  simp only [List.cons_append] at hfront
  simp only [symbol, hfront]
  cases hs : Symbol.atFront? (c :: cs) with
  | none => exact .bad _ _ _ _
  | some s =>
      have hsub : s.spelling.toList <+: c :: cs :=
        List.isPrefixOf_iff_prefix.mp (isPrefixOf_of_atFront? hs)
      have hle : s.spelling.length ≤ (c :: cs).length := hsub.length_le
      dsimp only
      rw [← List.cons_append, List.take_append_of_le_length hle,
        List.drop_append_of_le_length hle]
      exact .valid _ _ _ _

theorem letter_append_break (c : Char) (cs more : List Char) :
    SameBefore more (letter c cs) (letter c (cs ++ more)) := by
  unfold letter
  split
  · exact .valid _ _ _ _
  · exact .bad _ _ _ _

/-! ## Strings and characters -/

theorem stringLength?_append {cs : List Char} {n : Nat} (h : stringLength? cs = some n)
    (more : List Char) : stringLength? (cs ++ more) = some n ∧ n + 1 ≤ cs.length := by
  fun_induction stringLength? cs generalizing n with
  | case1 c cs ih =>
      obtain ⟨m, hm, rfl⟩ := Option.map_eq_some_iff.mp h
      obtain ⟨hmore, hle⟩ := ih hm
      simp [stringLength?, hmore]
      omega
  | case2 cs hescape =>
      cases h
      simp [stringLength?]
  | case3 c cs hescape hc ih =>
      obtain ⟨m, hm, rfl⟩ := Option.map_eq_some_iff.mp h
      obtain ⟨hmore, hle⟩ := ih hm
      have hback : c ≠ '\\' := by
        rintro rfl
        cases cs with
        | nil => cases hm
        | cons d cs => exact hescape d cs rfl rfl
      simp [stringLength?, hback, hc, hmore]
      omega
  | case4 => cases h

theorem string_append {cs : List Char}
    (h : ∀ flaw ∈ (string cs).flaws, flaw.cause ≠ .unclosedString) (more : List Char) :
    SameBefore more (string cs) (string (cs ++ more)) := by
  cases hn : stringLength? cs with
  | none =>
      have hflaw : (⟨0, ('"' :: cs).length, .unclosedString⟩ : Flaw) ∈ (string cs).flaws := by
        simp [string, hn]
      exact absurd rfl (h _ hflaw)
  | some n =>
      obtain ⟨hmore, hle⟩ := stringLength?_append hn more
      simp only [string, hn, hmore, List.take_append_of_le_length (Nat.le_of_succ_le hle),
        List.take_append_of_le_length hle, List.drop_append_of_le_length hle]
      exact ⟨rfl, rfl, rfl⟩

theorem escape_append_break {cs : List Char} (hcs : cs ≠ []) (ys : List Char) :
    escape (cs ++ '\n' :: ys) = escape cs := by
  cases cs with
  | nil => exact absurd rfl hcs
  | cons c cs =>
      by_cases hc : c = 'u'
      · subst hc
        simp [escape, takeWhile_take_append_break (p := Numeral.isDigit 16) rfl]
      · simp [escape]

theorem escape_le (cs : List Char) : (escape cs).1 ≤ cs.length := by
  unfold escape
  split
  · exact Nat.le_refl _
  · rename_i cs
    exact Nat.succ_le_succ ((List.takeWhile_prefix _).trans (List.take_prefix 4 cs)).length_le
  · split
    · exact Nat.le_add_left 1 _
    · dsimp only
      split <;> simp

theorem closeChar_append_break {cs : List Char} {n : Nat} (hn : n ≤ cs.length)
    {flaws flaws' : List Flaw} (hflaws : flaws = flaws' ∨ cs.drop n = []) :
    SameBefore ('\n' :: ys) (closeChar cs n flaws) (closeChar (cs ++ '\n' :: ys) n flaws') := by
  simp only [closeChar, List.drop_append_of_le_length hn, List.take_append_of_le_length hn]
  rcases hrest : cs.drop n with _ | ⟨c, rest⟩
  · exact ⟨rfl, rfl, rfl⟩
  · obtain rfl := hflaws.resolve_right (by simp [hrest])
    by_cases hc : c = '\''
    · subst hc
      exact ⟨rfl, rfl, rfl⟩
    · simp only [List.cons_append]
      split
      · rename_i heq
        cases heq
        exact absurd rfl hc
      · split
        · rename_i heq
          cases heq
          exact absurd rfl hc
        · exact ⟨rfl, rfl, rfl⟩

theorem char_cons {c : Char} {cs : List Char} (hbreak : c ≠ '\n') (hquote : c ≠ '\'')
    (hback : c ≠ '\\') : char (c :: cs) = closeChar (c :: cs) 1 [] := by
  unfold char
  split <;> simp_all

theorem char_append_break (cs : List Char) :
    SameBefore ('\n' :: ys) (char cs) (char (cs ++ '\n' :: ys)) := by
  rcases cs with _ | ⟨c, cs⟩
  · exact ⟨rfl, rfl, rfl⟩
  · by_cases hbreak : c = '\n'
    · subst hbreak
      exact ⟨rfl, rfl, rfl⟩
    · by_cases hquote : c = '\''
      · subst hquote
        exact ⟨rfl, rfl, rfl⟩
      · by_cases hback : c = '\\'
        · subst hback
          rcases cs with _ | ⟨c, cs⟩
          · exact ⟨rfl, rfl, rfl⟩
          · have hescape := escape_append_break (List.cons_ne_nil c cs) ys
            have hle := Nat.succ_le_succ (escape_le (c :: cs))
            simp only [char, escapeFlaw, List.cons_append] at hescape ⊢
            simp only [hescape]
            exact closeChar_append_break hle (.inl rfl)
        · have hle : 1 ≤ (c :: cs).length := Nat.succ_le_succ (Nat.zero_le _)
          rw [List.cons_append, char_cons hbreak hquote hback, char_cons hbreak hquote hback]
          exact closeChar_append_break hle (.inl rfl)

/-! ## The next token -/

theorem next_append_break (signed : Bool) (c : Char) (cs : List Char)
    (h : ∀ flaw ∈ (next signed (c :: cs)).flaws, flaw.cause ≠ .unclosedString) :
    SameBefore ('\n' :: ys) (next signed (c :: cs)) (next signed (c :: cs ++ '\n' :: ys)) := by
  have hsigns : signs signed c (cs ++ '\n' :: ys) = signs signed c cs := by
    simp only [signs, head?_any_append_break (p := Char.isDigit) rfl]
  simp only [next, List.cons_append, hsigns] at h ⊢
  split_ifs at h ⊢ with hdigit hsign hword hquote hmark hascii
  · exact number_append_break [] (c :: cs)
  · exact number_append_break [c] cs
  · exact word_append_break (c :: cs)
  · exact string_append h _
  · exact char_append_break cs
  · exact symbol_append_break c cs
  · exact letter_append_break c cs _

end Scanned

/-! ## Gaps -/

namespace Gap

theorem scan_blanks_break (n : Nat) (ys : List Char) :
    scan .blanks n ('\n' :: ys) = scan .blanks (n + 1) ys := by
  simp [scan, isBlank]

/-- A gap in front of a token ends there, whatever stands behind a line break. -/
theorem scan_append_break_of_rest (i : Inside) (n : Nat) (cs ys : List Char)
    (h : (scan i n cs).rest ≠ []) :
    scan i n (cs ++ '\n' :: ys) =
      { scan i n cs with rest := (scan i n cs).rest ++ '\n' :: ys } := by
  fun_induction scan i n cs with
  | case1 n cs ih => exact ih h
  | case2 n c cs hopen hblank ih =>
      rw [← ih h]
      rcases cs with _ | ⟨d, cs⟩ <;> simp_all [scan]
  | case3 n cs hopen hblank ih =>
      rw [← ih h]
      rcases cs with _ | ⟨d, cs⟩ <;> simp_all [scan]
  | case4 n c cs hopen hblank hhash =>
      rcases cs with _ | ⟨d, cs⟩ <;> simp_all [scan]
  | case5 n c cs ih => exact ih h
  | case6 start n cs ih => exact ih h
  | case7 start n c cs hclose ih =>
      rw [← ih h]
      rcases cs with _ | ⟨d, cs⟩ <;> simp_all [scan]
  | case8 start n => exact absurd rfl h
  | case9 i n hblock => exact absurd rfl h

/-- A gap at the end of a text goes on behind a line break. -/
theorem scan_append_break (i : Inside) (n : Nat) (cs ys : List Char)
    (h : (scan i n cs).rest = []) (hclosed : (scan i n cs).unclosed = none) :
    scan i n (cs ++ '\n' :: ys) = scan .blanks (n + (cs.length + 1)) ys := by
  fun_induction scan i n cs with
  | case1 n cs ih =>
      have hcount : n + 2 + (cs.length + 1) = n + (cs.length + 2 + 1) := by omega
      exact hcount ▸ ih h hclosed
  | case2 n c cs hopen hblank ih =>
      rw [List.length_cons, show n + (cs.length + 1 + 1) = n + 1 + (cs.length + 1) by omega,
        ← ih h hclosed]
      rcases cs with _ | ⟨d, cs⟩ <;> simp_all [scan]
  | case3 n cs hopen hblank ih =>
      rw [List.length_cons, show n + (cs.length + 1 + 1) = n + 1 + (cs.length + 1) by omega,
        ← ih h hclosed]
      rcases cs with _ | ⟨d, cs⟩ <;> simp_all [scan]
  | case4 n c cs hopen hblank hhash => cases h
  | case5 n c cs ih =>
      have hcount : n + 1 + (cs.length + 1) = n + (cs.length + 1 + 1) := by omega
      exact hcount ▸ ih h hclosed
  | case6 start n cs ih =>
      have hcount : n + 2 + (cs.length + 1) = n + (cs.length + 2 + 1) := by omega
      exact hcount ▸ ih h hclosed
  | case7 start n c cs hclose ih =>
      rw [List.length_cons, show n + (cs.length + 1 + 1) = n + 1 + (cs.length + 1) by omega,
        ← ih h hclosed]
      rcases cs with _ | ⟨d, cs⟩ <;> simp_all [scan]
  | case8 start n => cases hclosed
  | case9 i n hblock =>
      cases i with
      | blanks => exact scan_blanks_break n ys
      | line => simp [scan]
      | block start => exact absurd rfl (hblock start)

/-- The same kind of text, wherever it began. -/
inductive Inside.Same : Inside → Inside → Prop
  | blanks : Same .blanks .blanks
  | line : Same .line .line
  | block (a b) : Same (.block a) (.block b)

/-- Where a gap ends, and whether it ends in an open comment, does not depend on what was skipped
before. -/
theorem scan_congr {i i' : Inside} (hi : i.Same i') (n n' : Nat) (cs : List Char) :
    (scan i' n' cs).rest = (scan i n cs).rest ∧
      (scan i' n' cs).unclosed.isSome = (scan i n cs).unclosed.isSome := by
  fun_induction scan i n cs generalizing i' n' with
  | case1 n cs ih =>
      cases hi
      exact ih (.block _ _) _
  | case2 n c cs hopen hblank ih =>
      cases hi
      have hscan : scan .blanks n' (c :: cs) = scan .blanks (n' + 1) cs := by
        rw [scan, if_pos hblank]
        exact hopen
      exact hscan ▸ ih .blanks (n' + 1)
  | case3 n cs hopen hblank ih =>
      cases hi
      have hscan : scan .blanks n' ('#' :: cs) = scan .line (n' + 1) cs := by
        rw [scan, if_neg hblank, if_pos rfl]
        exact hopen
      exact hscan ▸ ih .line (n' + 1)
  | case4 n c cs hopen hblank hhash =>
      cases hi
      simp_all [scan]
  | case5 n c cs ih =>
      cases hi
      refine ih ?_ (n' + 1)
      split
      · exact .blanks
      · exact .line
  | case6 start n cs ih =>
      cases hi
      exact ih .blanks _
  | case7 start n c cs hclose ih =>
      cases hi with
      | block _ b =>
          have hscan : scan (.block b) n' (c :: cs) = scan (.block b) (n' + 1) cs := by
            rw [scan]
            exact hclose
          exact hscan ▸ ih (.block start b) (n' + 1)
  | case8 start n =>
      cases hi
      exact ⟨rfl, rfl⟩
  | case9 i n hblock =>
      cases hi with
      | blanks => exact ⟨rfl, rfl⟩
      | line => exact ⟨rfl, rfl⟩
      | block a => exact absurd rfl (hblock a)

theorem rest_scan_congr {i i' : Inside} (hi : i.Same i') (n n' : Nat) (cs : List Char) :
    (scan i' n' cs).rest = (scan i n cs).rest :=
  (scan_congr hi n n' cs).1

end Gap

end BendSyntax
