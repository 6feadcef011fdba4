import BendSyntax.Proofs.Lexing.Spellings
import Mathlib.Data.List.Induction

/-! The lexer checks escapes where the end of a string is found, the decoder where the string is read.
The lexer takes a text between quotation marks for a string only if it is decoded; the decoder accepts
a little more, since the first digit of a code point may be a plus sign. -/

namespace BendSyntax

namespace Numeral

variable {radix : Nat} {cs : List Char}

theorem isDigit_of_continue? {acc : Nat} (h : (continue? radix acc cs).isSome = true) :
    ∀ c ∈ cs, isDigit radix c = true := by
  fun_induction continue? radix acc cs with
  | case1 => nofun
  | case2 acc c cs d hd ih =>
      rintro e (_ | ⟨_, he⟩)
      · simp [isDigit, hd]
      · exact ih h e he
  | case3 => cases h

/-- What is read as a number without a minus is digits, or a plus sign and digits. -/
theorem isDigit_of_unsigned? {c : Char} (h : (unsigned? radix (c :: cs)).isSome = true) :
    (∀ d ∈ cs, isDigit radix d = true) ∧ (c = '+' ∨ isDigit radix c = true) := by
  by_cases hplus : c = '+'
  · subst hplus
    refine ⟨?_, .inl rfl⟩
    cases cs with
    | nil => nofun
    | cons d ds => exact isDigit_of_continue? h
  · have hvalue : unsigned? radix (c :: cs) = value? radix (c :: cs) := by
      unfold unsigned?
      split
      · exact absurd (List.cons.inj ‹_›).1 hplus
      · rfl
    rw [hvalue] at h
    have hdigits : ∀ d ∈ c :: cs, isDigit radix d = true := isDigit_of_continue? h
    exact ⟨fun d hd => hdigits d (.tail c hd), .inr (hdigits c List.mem_cons_self)⟩

end Numeral

namespace Escape

/-- Whether the backslashes at the end of a text are odd in number, in which case the last one
begins an escape. -/
def parity (cs : List Char) : Nat := (cs.reverse.takeWhile (· = '\\')).length % 2

/-- Wherever `mark` stands in a text, the parity of what is in front of it is `n`. -/
def Preceded (mark : List Char) (n : Nat) (cs : List Char) : Prop :=
  ∀ front back, cs = front ++ (mark ++ back) → parity front = n

theorem preceded_iff {mark cs : List Char} {n : Nat} : Preceded mark n cs ↔
    ∀ i < cs.length + 1, mark <+: cs.drop i → parity (cs.take i) = n := by
  constructor
  · rintro h i - ⟨back, hback⟩
    exact h (cs.take i) back (by rw [hback, List.take_append_drop])
  · rintro h front back rfl
    have hlt : front.length < (front ++ (mark ++ back)).length + 1 := by
      rw [List.length_append]
      omega
    have hfront := h front.length hlt (by rw [List.drop_left]; exact List.prefix_append mark back)
    rwa [List.take_left] at hfront

instance (mark : List Char) (n : Nat) (cs : List Char) : Decidable (Preceded mark n cs) :=
  decidable_of_iff _ preceded_iff.symm

theorem parity_concat (cs : List Char) (c : Char) :
    parity (cs ++ [c]) = if c = '\\' then 1 - parity cs else 0 := by
  unfold parity
  rw [List.reverse_append, List.reverse_singleton, List.singleton_append, List.takeWhile_cons]
  by_cases hc : c = '\\'
  · simp only [hc, decide_true, if_true, List.length_cons]
    omega
  · simp [hc]

/-- What begins behind complete escapes has a parity of its own. -/
theorem parity_append {front : List Char} (h : parity front = 0) (back : List Char) :
    parity (front ++ back) = parity back := by
  induction back using List.reverseRecOn with
  | nil => rw [List.append_nil, h]; rfl
  | append_singleton back c ih => rw [← List.append_assoc, parity_concat, parity_concat, ih]

theorem Preceded.behind {mark cs : List Char} {n : Nat} (front : List Char)
    (h : Preceded mark n (front ++ cs)) (hfront : parity front = 0) : Preceded mark n cs := by
  rintro before back rfl
  rw [← parity_append hfront before]
  exact h (front ++ before) back (by simp)

/-- Nothing in front of what begins a text makes its parity odd. -/
theorem parity_singleton {c : Char} (h : c ≠ '\\') : parity [c] = 0 := by
  rw [← List.nil_append [c], parity_concat, if_neg h]

theorem parity_pair (c : Char) : parity ['\\', c] = 0 := by
  have hpair := parity_concat ['\\'] c
  rw [List.singleton_append] at hpair
  rw [hpair]
  split <;> rfl

/-- The four characters of a code point are digits, except that the first may be a plus sign. -/
theorem codePoint_cases {a b c d x : Char}
    (h : Numeral.unsigned? 16 [a, b, c, d] >>= scalar? = some x) :
    (∀ e ∈ [b, c, d], Numeral.isDigit 16 e = true) ∧ (a = '+' ∨ Numeral.isDigit 16 a = true) := by
  obtain ⟨n, hn, -⟩ := Option.bind_eq_some_iff.mp h
  exact Numeral.isDigit_of_unsigned? (by rw [hn]; rfl)

theorem parity_codePoint {d : Char} (h : Numeral.isDigit 16 d = true) (a b c : Char) :
    parity ['\\', 'u', a, b, c, d] = 0 := by
  have hback := (plainInString_of_isDigit h).2
  exact (parity_concat ['\\', 'u', a, b, c] d).trans (if_neg hback)

/-- A body that ends in the middle of an escape is not decoded. -/
theorem parity_of_decode? {cs : List Char} (h : (decode? cs).isSome = true) : parity cs = 0 := by
  fun_induction decode? cs with
  | case1 => rfl
  | case2 a b c d cs x hvalue ih =>
      rw [Option.isSome_map] at h
      have hd := (codePoint_cases hvalue).1 d (by simp)
      exact (parity_append (parity_codePoint hd a b c) cs).trans (ih h)
  | case3 => cases h
  | case4 c cs _ x hletter ih =>
      rw [Option.isSome_map] at h
      exact (parity_append (parity_pair c) cs).trans (ih h)
  | case5 => cases h
  | case6 => cases h
  | case7 c cs _ _ hback ih =>
      rw [Option.isSome_map] at h
      exact (parity_append (parity_singleton hback) cs).trans (ih h)

end Escape

namespace Scanned

open Escape (parity Preceded)

/-- A body in which only escaped quotation marks stand ends where it ends, unless the mark behind it
is escaped as well. -/
theorem stringLength?_body {cs : List Char} (h : Preceded ['"'] 1 cs) :
    stringLength? (cs ++ ['"']) = if parity cs = 0 then some cs.length else none := by
  fun_induction stringLength? cs with
  | case1 c cs ih =>
      have hparity : parity ('\\' :: c :: cs) = parity cs :=
        Escape.parity_append (Escape.parity_pair c) cs
      have hbehind : Preceded ['"'] 1 cs := h.behind ['\\', c] (Escape.parity_pair c)
      rw [List.cons_append, List.cons_append, stringLength?, ih hbehind, hparity]
      split <;> rfl
  | case2 cs _ => cases h [] cs rfl
  | case3 c cs hescape hquote ih =>
      by_cases hback : c = '\\'
      · -- A backslash without a character behind it is the last character of the body.
        subst hback
        cases cs with
        | nil => rfl
        | cons d ds => exact absurd rfl (hescape d ds rfl)
      · have hparity : parity (c :: cs) = parity cs :=
          Escape.parity_append (Escape.parity_singleton hback) cs
        have hbehind : Preceded ['"'] 1 cs :=
          h.behind [c] (Escape.parity_singleton hback)
        rw [List.cons_append, stringLength?, if_neg hquote, ih hbehind, hparity]
        · split <;> rfl
        · rintro d ds rfl
          exact absurd rfl hback
  | case4 => rfl

/-- What the decoder accepts has no flaw, unless a plus sign stands in the place of a digit. -/
theorem escapeFlaws_of_decode? {cs : List Char} (h : (Escape.decode? cs).isSome = true)
    (hplus : Preceded ['u', '+'] 0 cs) (n : Nat) : escapeFlaws n cs = [] := by
  fun_induction Escape.decode? cs generalizing n with
  | case1 => rfl
  | case2 a b c d cs x hvalue ih =>
      obtain ⟨hdigits, ha⟩ := Escape.codePoint_cases hvalue
      obtain rfl | ha := ha
      · exact absurd (hplus ['\\'] (b :: c :: d :: cs) rfl) (by decide)
      have hall : ∀ e ∈ [a, b, c, d], Numeral.isDigit 16 e = true := by
        rintro e (_ | ⟨_, he⟩)
        · exact ha
        · exact hdigits e he
      have hback : ∀ e ∈ [a, b, c, d], e ≠ '\\' := fun e he =>
        (Escape.plainInString_of_isDigit (hall e he)).2
      have hbehind : Preceded ['u', '+'] 0 cs :=
        hplus.behind ['\\', 'u', a, b, c, d] (Escape.parity_codePoint (hdigits d (by simp)) a b c)
      rw [Numeral.unsigned?_eq_value? ha] at hvalue
      have hescape : escape ('u' :: a :: b :: c :: d :: cs) = (5, none) :=
        @escape_codePoint [a, b, c, d] rfl hall x hvalue cs
      have hrest := escapeFlaws_plain hback (n + 2) cs
      rw [Option.isSome_map] at h
      rw [escapeFlaws, escapeFlaw, hescape, List.nil_append]
      exact hrest.trans (ih h hbehind _)
  | case3 => cases h
  | case4 c cs _ x hletter ih =>
      have hbehind : Preceded ['u', '+'] 0 cs :=
        hplus.behind ['\\', c] (Escape.parity_pair c)
      have hflaw := (escapeFlaw_letter hletter (Escape.ne_u_of_letter? hletter) n cs).1
      rw [Option.isSome_map] at h
      rw [escapeFlaws, hflaw, List.nil_append]
      exact ih h hbehind _
  | case5 => cases h
  | case6 => cases h
  | case7 c cs _ _ hback ih =>
      have hbehind : Preceded ['u', '+'] 0 cs :=
        hplus.behind [c] (Escape.parity_singleton hback)
      have hplain := @escapeFlaws_plain [c] (by simpa using hback) n cs
      rw [Option.isSome_map] at h
      exact hplain.trans (ih h hbehind _)

/-- The lexer takes no plus sign in the place of a digit. -/
theorem preceded_of_flawless {cs : List Char} {n : Nat} (h : escapeFlaws n cs = []) :
    Preceded ['u', '+'] 0 cs := by
  fun_induction escapeFlaws n cs with
  | case1 n c cs ih =>
      obtain ⟨hflaw, hcs⟩ := List.append_eq_nil_iff.mp h
      rintro (_ | ⟨e, _ | ⟨f, front⟩⟩) back heq
      · cases heq
      · -- The escape itself is the one with the plus sign.
        obtain ⟨-, htail⟩ := List.cons.inj heq
        obtain ⟨rfl, rfl⟩ := List.cons.inj htail
        have hescape := escape_of_flawless hflaw
        simp [escape, Numeral.not_isDigit_plus] at hescape
      · obtain ⟨rfl, htail⟩ := List.cons.inj heq
        obtain ⟨rfl, rfl⟩ := List.cons.inj htail
        exact (Escape.parity_append (Escape.parity_pair c) front).trans (ih hcs front back rfl)
  | case2 n c cs hescape ih =>
      rintro (_ | ⟨e, front⟩) back heq
      · rfl
      · obtain ⟨rfl, rfl⟩ := List.cons.inj heq
        have hback : c ≠ '\\' := by
          rintro rfl
          cases front with
          | nil => exact hescape _ _ rfl rfl
          | cons f front => exact hescape _ _ rfl rfl
        exact (Escape.parity_append (Escape.parity_singleton hback) front).trans
          (ih h front back rfl)
  | case3 => exact fun front back heq => by simp at heq

/-- The body of a string that is scanned to its end has no flaw if and only if it is decoded and no
plus sign stands in the place of a digit. -/
theorem flawless_iff {cs : List Char} (h : Preceded ['"'] 1 cs) :
    (parity cs = 0 ∧ escapeFlaws 1 cs = []) ↔
      (Escape.decode? cs).isSome = true ∧ Preceded ['u', '+'] 0 cs := by
  constructor
  · rintro ⟨hparity, hflaws⟩
    have hlength := (stringLength?_body h).trans (if_pos hparity)
    have hdecode := isSome_decode?_string hlength 1 (by rwa [List.take_left])
    rw [List.take_left] at hdecode
    exact ⟨hdecode, preceded_of_flawless hflaws⟩
  · rintro ⟨hdecode, hplus⟩
    exact ⟨Escape.parity_of_decode? hdecode, escapeFlaws_of_decode? hdecode hplus 1⟩

end Scanned

namespace Lexing

open Escape (parity Preceded)

theorem lone_inj {source : String} {kind kind' : TokenKind} {ds ds' : List Diagnostic} :
    lone source kind ds = lone source kind' ds' ↔ kind = kind' ∧ ds = ds' := by
  simp [lone]

/-- A body in which only escaped quotation marks stand is one token. -/
theorem ofText_quoted_body {cs : List Char} (h : Preceded ['"'] 1 cs) :
    ofText (quoted '"' cs) = lone (quoted '"' cs) .str [] ↔
      parity cs = 0 ∧ Scanned.escapeFlaws 1 cs = [] := by
  have hstring : Scanned.next true ('"' :: (cs ++ ['"'])) = Scanned.string (cs ++ ['"']) := by
    simp [Scanned.next, Scanned.signs, Scanned.isWordStart]
  have hlength := Scanned.stringLength?_body h
  by_cases hparity : parity cs = 0
  · rw [if_pos hparity] at hlength
    have htext : (cs ++ ['"']).take (cs.length + 1) = cs ++ ['"'] := List.take_of_length_le (by simp)
    have hrest : (cs ++ ['"']).drop (cs.length + 1) = [] := List.drop_of_length_le (by simp)
    have hnext : Scanned.next true ('"' :: (cs ++ ['"'])) =
        ⟨if (Scanned.escapeFlaws 1 cs).isEmpty then .str else .invalid, '"' :: (cs ++ ['"']), [],
          Scanned.escapeFlaws 1 cs⟩ := by
      rw [hstring, Scanned.string, hlength]
      simp only [List.take_left, htext, hrest]
    rw [quoted, ofText_of_next (by decide) hnext, lone_inj]
    simp [hparity]
  · rw [if_neg hparity] at hlength
    have hnext : Scanned.next true ('"' :: (cs ++ ['"'])) =
        ⟨.invalid, '"' :: (cs ++ ['"']), [], Scanned.escapeFlaws 1 (cs ++ ['"']) ++
          [⟨0, ('"' :: (cs ++ ['"'])).length, .unclosedString⟩]⟩ := by
      rw [hstring, Scanned.string, hlength]
    rw [quoted, ofText_of_next (by decide) hnext, lone_inj]
    simp [hparity]

/-- The lexer takes a body in which only escaped quotation marks stand for a string if and only if it
is decoded and no plus sign stands in the place of a digit. -/
theorem string_iff_decoded (b : String) (h : Preceded ['"'] 1 b.toList) :
    ofText (quoted '"' b.toList) = lone (quoted '"' b.toList) .str [] ↔
      (Escape.decode? b.toList).isSome = true ∧ Preceded ['u', '+'] 0 b.toList :=
  (ofText_quoted_body h).trans (Scanned.flawless_iff h)

theorem string_iff_decoded_quote :
    Preceded ['"'] 1 "\\u0041\\\"".toList ∧
      ofText (quoted '"' "\\u0041\\\"".toList) = lone (quoted '"' "\\u0041\\\"".toList) .str [] :=
  ⟨by decide, (string_iff_decoded "\\u0041\\\"" (by decide)).mpr ⟨by decide, by decide⟩⟩

/-- The decoder takes a plus sign for the first of the four digits, the lexer does not. -/
theorem decoded_plus_not_string :
    Preceded ['"'] 1 "\\u+041".toList ∧
      ¬ (ofText (quoted '"' "\\u+041".toList) = lone (quoted '"' "\\u+041".toList) .str [] ↔
        (Escape.decode? "\\u+041".toList).isSome = true) := by
  refine ⟨by decide, fun h => ?_⟩
  have hstring := h.mpr (by decide)
  rw [ofText_quoted_body (by decide)] at hstring
  exact absurd hstring (by decide)

end Lexing

end BendSyntax
