import BendSyntax.Token.Scan

/-!
# Every token takes a character

The rest of a text behind a token is shorter than the text, unless the text is empty.
Cutting a text into tokens therefore ends.
-/

namespace BendSyntax.Scanned

theorem bad_rest (cause : Flaw.Cause) (text rest : List Char) : (bad cause text rest).rest = rest :=
  rfl

theorem checked_rest (kind : TokenKind) (text rest : List Char) :
    (checked kind text rest).rest = rest := by
  unfold checked
  split <;> rfl

theorem dropWhile_length_le (p : Char → Bool) (cs : List Char) :
    (cs.dropWhile p).length ≤ cs.length :=
  (List.dropWhile_suffix p).length_le

theorem decimal_rest_length (sign : List Char) (c : Char) (cs : List Char) (h : c.isDigit = true) :
    (decimal sign (c :: cs)).rest.length ≤ cs.length := by
  have key := dropWhile_length_le Char.isDigit cs
  unfold decimal
  simp only [List.dropWhile_cons, h, if_true]
  split
  · rename_i rest hrest
    rw [hrest, List.length_cons] at key
    split
    · simp only [checked_rest, List.length_cons]
      omega
    · split
      · simp only [checked_rest]
        omega
      · simp only [bad_rest]
        omega
  · rename_i rest hrest
    rw [hrest, List.length_cons] at key
    split
    · have := dropWhile_length_le Char.isDigit rest
      simp only [checked_rest]
      omega
    · simp only [checked_rest, List.length_cons]
      omega
  · simp only [checked_rest]
    exact key

theorem based_rest_length (radix : Nat) (mark : String) (sign cs : List Char) :
    (based radix mark sign cs).rest.length ≤ cs.length := by
  have := dropWhile_length_le (Numeral.isDigit radix) cs
  simp only [based]
  split <;> simpa [bad_rest, checked_rest]

theorem number_rest_length (sign : List Char) (c : Char) (cs : List Char) (h : c.isDigit = true) :
    (number sign (c :: cs)).rest.length ≤ cs.length := by
  unfold number
  split
  · rename_i cs' heq
    have := based_rest_length 16 "0x" sign cs'
    grind
  · rename_i cs' heq
    have := based_rest_length 2 "0b" sign cs'
    grind
  · exact decimal_rest_length sign c cs h

theorem wordLength_pos {c : Char} (cs : List Char) (h : isWordStart c = true) :
    0 < wordLength (c :: cs) := by
  have hpart : isWordPart c = true := by
    simp only [isWordStart, isWordPart, Char.isAlphanum, Bool.or_eq_true] at h ⊢
    grind
  have hslash : c ≠ '/' := by
    rintro rfl
    exact absurd h (by decide)
  unfold wordLength
  split <;> simp_all

theorem closeChar_rest_length (cs : List Char) (n : Nat) (flaws : List Flaw) :
    (closeChar cs n flaws).rest.length ≤ cs.length := by
  have key : (cs.drop n).length ≤ cs.length := by simp
  unfold closeChar
  split
  · rename_i rest hrest
    rw [hrest, List.length_cons] at key
    exact Nat.le_of_succ_le key
  · exact key

theorem char_rest_length (cs : List Char) : (char cs).rest.length ≤ cs.length := by
  unfold char
  split
  · simp [bad_rest]
  · simp [bad_rest]
  · simp only [bad_rest, List.length_cons]
    omega
  · exact closeChar_rest_length _ _ _
  · exact closeChar_rest_length _ _ _

theorem string_rest_length (cs : List Char) : (string cs).rest.length ≤ cs.length := by
  unfold string
  split <;> simp

theorem spelling_length_pos (s : Symbol) : 0 < s.spelling.length := by
  cases s <;> decide

theorem symbol_rest_length (c : Char) (cs : List Char) :
    (symbol c cs).rest.length ≤ cs.length := by
  unfold symbol
  split
  · rename_i s _
    have := spelling_length_pos s
    simp only [valid, List.length_drop, List.length_cons]
    omega
  · simp [bad_rest]

theorem letter_rest (c : Char) (cs : List Char) : (letter c cs).rest = cs := by
  unfold letter
  split <;> rfl

/-- Every token takes a character. -/
theorem next_rest_length (signed : Bool) (c : Char) (cs : List Char) :
    (next signed (c :: cs)).rest.length ≤ cs.length := by
  simp only [next]
  split
  · rename_i h
    exact number_rest_length [] c cs h
  · split
    · rename_i _ h
      cases cs with
      | nil => simp [signs] at h
      | cons d ds =>
          have hd : d.isDigit = true := by
            simp only [signs, List.head?_cons, Option.any_some, Bool.and_eq_true] at h
            exact h.2
          have := number_rest_length [c] d ds hd
          simp only [List.length_cons]
          omega
    · split
      · rename_i _ _ h
        have := wordLength_pos cs h
        simp only [word, valid, List.length_drop, List.length_cons]
        omega
      · split
        · exact string_rest_length cs
        · split
          · exact char_rest_length cs
          · split
            · exact symbol_rest_length c cs
            · exact Nat.le_of_eq (congrArg List.length (letter_rest c cs))

end BendSyntax.Scanned
