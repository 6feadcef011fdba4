import BendSyntax.Proofs.Lexing.Numerals

/-! Everything that characters and strings can hold can be written in a literal, in every mixture of
the characters themselves and their escapes, and is read back. -/

namespace BendSyntax

/-- The last hexadecimal digit of a number. -/
def Numeral.Digit.ofNat (n : Nat) : Digit 16 where
  value := ⟨n % 16, Nat.mod_lt n (by decide)⟩
  char := "0123456789abcdef".toList.get ⟨n % 16, Nat.mod_lt n (by decide)⟩
  writes := .inl (List.getElem?_eq_getElem _)

namespace Escape

/-! ## Spellings -/

/-- The escapes of one letter, with what they stand for. -/
def letters : List (Char × Char) :=
  [('n', '\n'), ('t', '\t'), ('r', '\r'), ('0', '\x00'), ('\\', '\\'), ('\'', '\''), ('"', '"')]

/-- How a character can be spelled in a literal in which the characters in `plain` stand for
themselves. -/
inductive Spelling (plain : Char → Prop) (c : Char) : List Char → Prop
  | itself (h : plain c) : Spelling plain c [c]
  | letter {l : Char} (h : (l, c) ∈ letters) : Spelling plain c ['\\', l]
  | codePoint (row : Numeral.Row 16) (hlength : row.digits.length = 4) (hvalue : row.value = c.toNat) :
      Spelling plain c ('\\' :: 'u' :: row.text)

/-- What stands for itself in a string. -/
def PlainInString (c : Char) : Prop := c ≠ '"' ∧ c ≠ '\\'

/-- What stands for itself in a character literal. -/
def PlainInChar (c : Char) : Prop := c ≠ '\'' ∧ c ≠ '\\' ∧ c ≠ '\n'

theorem mem_letters_iff {l c : Char} : (l, c) ∈ letters ↔ letter? l = some c := by
  constructor
  · intro h
    simp only [letters, List.mem_cons, Prod.mk.injEq, List.not_mem_nil, or_false] at h
    rcases h with ⟨rfl, rfl⟩ | ⟨rfl, rfl⟩ | ⟨rfl, rfl⟩ | ⟨rfl, rfl⟩ | ⟨rfl, rfl⟩ | ⟨rfl, rfl⟩ |
      ⟨rfl, rfl⟩ <;> rfl
  · intro h
    unfold letter? at h
    split at h <;> cases h <;> decide

theorem ne_u_of_letter? {l c : Char} (h : letter? l = some c) : l ≠ 'u' := by
  rintro rfl
  cases h

theorem scalar?_toNat (c : Char) : scalar? c.toNat = some c := by
  have hvalid : c.toNat.isValidChar := c.valid
  rw [scalar?, if_pos hvalid, Char.ofNat_toNat]

theorem scalar?_row {row : Numeral.Row 16} {c : Char} (h : row.value = c.toNat) :
    Numeral.value? 16 row.text >>= scalar? = some c := by
  rw [row.value?_text, h]
  exact scalar?_toNat c

/-- A digit ends no string and begins no escape. -/
theorem plainInString_of_isDigit {c : Char} (h : Numeral.isDigit 16 c = true) : PlainInString c := by
  constructor <;> (rintro rfl; revert h; decide)

/-- Four digits reach up to `0xFFFF`. -/
theorem exists_row_iff (c : Char) :
    (∃ row : Numeral.Row 16, row.digits.length = 4 ∧ row.value = c.toNat) ↔ c.toNat ≤ 0xFFFF := by
  constructor
  · rintro ⟨row, hlength, hvalue⟩
    have hlt : row.value < 16 ^ 4 := by
      have hdigits : ∀ d ∈ (row.digits.map (·.value.val)).reverse, d < 16 := by
        intro d hd
        obtain ⟨e, -, rfl⟩ := List.mem_map.mp (List.mem_reverse.mp hd)
        exact e.value.isLt
      simpa [Numeral.Row.value, hlength] using Nat.ofDigits_lt_base_pow_length (by decide) hdigits
    omega
  · intro hc
    let digit (n : Nat) : Numeral.Digit 16 := .ofNat n
    let n := c.toNat
    refine ⟨⟨[digit (n / 4096), digit (n / 256), digit (n / 16), digit n], nofun⟩, rfl, ?_⟩
    simp only [Numeral.Row.value, digit, Numeral.Digit.ofNat, List.map_cons, List.map_nil,
      List.reverse_cons, List.reverse_nil, List.nil_append, List.cons_append, Nat.ofDigits_cons,
      Nat.ofDigits_nil]
    omega

variable {plain : Char → Prop} {c : Char} {part : List Char}

/-- A spelling is decoded to what it stands for, whatever follows. -/
theorem Spelling.decode? (h : Spelling plain c part) (hplain : plain c → c ≠ '\\') (more : List Char) :
    decode? (part ++ more) = (decode? more).map (c :: ·) := by
  cases h with
  | itself hc => exact decode?_plain (hplain hc) more
  | letter hl =>
      have hletter := mem_letters_iff.mp hl
      exact decode?_letter hletter (ne_u_of_letter? hletter) more
  | codePoint row hlength hvalue =>
      exact decode?_codePoint (row.length_text.trans hlength) (fun _ => row.isDigit_of_mem)
        (scalar?_row hvalue) more

/-- A text spelled character by character is decoded. -/
theorem decode?_flatten {cs : List Char} {parts : List (List Char)}
    (h : List.Forall₂ (Spelling plain) cs parts) (hplain : ∀ c, plain c → c ≠ '\\') :
    Escape.decode? parts.flatten = some cs := by
  induction h with
  | nil => rfl
  | cons hpart _ ih => rw [List.flatten_cons, hpart.decode? (hplain _), ih]; rfl

end Escape

namespace Scanned

open Escape (Spelling PlainInString PlainInChar)

/-- Where nothing ends a string or begins an escape, the string goes on. -/
theorem stringLength?_plain {ds : List Char} (h : ∀ d ∈ ds, PlainInString d) (cs : List Char) :
    stringLength? (ds ++ cs) = (stringLength? cs).map (· + ds.length) := by
  induction ds with
  | nil => simp
  | cons d ds ih =>
      obtain ⟨hquote, hback⟩ := h d List.mem_cons_self
      rw [List.cons_append, stringLength?, if_neg hquote, ih fun e he => h e (.tail d he),
        Option.map_map]
      · simp [Function.comp_def, Nat.add_assoc]
      · rintro e es rfl
        exact absurd rfl hback

theorem escapeFlaws_plain {ds : List Char} (h : ∀ d ∈ ds, d ≠ '\\') (n : Nat) (cs : List Char) :
    escapeFlaws n (ds ++ cs) = escapeFlaws (n + ds.length) cs := by
  induction ds generalizing n with
  | nil => rfl
  | cons d ds ih =>
      rw [List.cons_append, escapeFlaws, ih fun e he => h e (.tail d he), List.length_cons,
        Nat.add_assoc, Nat.add_comm 1]
      rintro e es rfl
      exact absurd rfl (h _ List.mem_cons_self)

/-- Four digits of a code point are an escape. -/
theorem escape_codePoint {digits : List Char} (hlength : digits.length = 4)
    (hdigits : ∀ d ∈ digits, Numeral.isDigit 16 d = true) {c : Char}
    (hvalue : Numeral.value? 16 digits >>= Escape.scalar? = some c) (more : List Char) :
    escape ('u' :: (digits ++ more)) = (5, none) := by
  have hfour : (digits ++ more).take 4 = digits := List.take_left' hlength
  have hall : digits.takeWhile (Numeral.isDigit 16) = digits :=
    List.takeWhile_eq_self_iff.mpr hdigits
  simp [escape, hfour, hall, hlength, hvalue]

/-- A spelling in a string is passed over as a whole. -/
theorem string_part {c : Char} {part : List Char} (h : Spelling PlainInString c part) (cs : List Char) :
    stringLength? (part ++ cs) = (stringLength? cs).map (· + part.length) ∧
      ∀ n, escapeFlaws n (part ++ cs) = escapeFlaws (n + part.length) cs := by
  cases h with
  | itself hc =>
      have hplain : ∀ d ∈ [c], PlainInString d := fun d hd => List.mem_singleton.mp hd ▸ hc
      exact ⟨stringLength?_plain hplain cs, fun n =>
        escapeFlaws_plain (fun d hd => (hplain d hd).2) n cs⟩
  | letter hl =>
      have hletter := Escape.mem_letters_iff.mp hl
      refine ⟨rfl, fun n => ?_⟩
      simp [escapeFlaws, (escapeFlaw_letter hletter (Escape.ne_u_of_letter? hletter) n cs).1]
  | codePoint row hlength hvalue =>
      have hplain : ∀ d ∈ row.text, PlainInString d := fun d hd =>
        Escape.plainInString_of_isDigit (row.isDigit_of_mem hd)
      have hescape := escape_codePoint (row.length_text.trans hlength) (fun _ => row.isDigit_of_mem)
        (Escape.scalar?_row hvalue) cs
      constructor
      · simp [stringLength?, stringLength?_plain hplain, Function.comp_def, Nat.add_assoc]
      · intro n
        simp only [List.cons_append, escapeFlaws, escapeFlaw, hescape, List.nil_append,
          escapeFlaws_plain (fun d hd => (hplain d hd).2), List.length_cons]
        congr 1
        omega

theorem string_parts {cs : List Char} {parts : List (List Char)}
    (h : List.Forall₂ (Spelling PlainInString) cs parts) (rest : List Char) :
    stringLength? (parts.flatten ++ '"' :: rest) = some parts.flatten.length ∧
      ∀ n, escapeFlaws n parts.flatten = [] := by
  induction h with
  | nil => exact ⟨rfl, fun _ => rfl⟩
  | cons hpart _ ih =>
      constructor
      · rw [List.flatten_cons, List.append_assoc, (string_part hpart _).1, ih.1, Option.map_some,
          List.length_append, Nat.add_comm]
      · intro n
        rw [List.flatten_cons, (string_part hpart _).2, ih.2]

/-- An escape between single quotation marks is scanned as a whole. -/
theorem char_of_escape {cs rest : List Char} (h : escape (cs ++ '\'' :: rest) = (cs.length, none)) :
    char ('\\' :: cs ++ '\'' :: rest) = valid .char ('\'' :: ('\\' :: cs ++ ['\''])) rest := by
  have hchar : char ('\\' :: (cs ++ '\'' :: rest)) = closeChar ('\\' :: (cs ++ '\'' :: rest))
      ((escape (cs ++ '\'' :: rest)).1 + 1) (escapeFlaw 1 (cs ++ '\'' :: rest)) := rfl
  rw [List.cons_append, hchar, escapeFlaw, h]
  exact @closeChar_of_closed ('\\' :: cs) (cs.length + 1) rfl rest

/-- A spelled character is scanned as a whole. -/
theorem char_part {c : Char} {part : List Char} (h : Spelling PlainInChar c part)
    (rest : List Char) :
    char (part ++ '\'' :: rest) = valid .char ('\'' :: (part ++ ['\''])) rest := by
  cases h with
  | itself hc =>
      rw [List.singleton_append, char_cons hc.2.2 hc.1 hc.2.1]
      exact @closeChar_of_closed [c] 1 rfl rest
  | @letter l hl =>
      have hletter := Escape.mem_letters_iff.mp hl
      obtain ⟨hflaws, hwidth⟩ :=
        escapeFlaw_letter hletter (Escape.ne_u_of_letter? hletter) 1 ('\'' :: rest)
      exact @char_of_escape [l] rest (Prod.ext hwidth (escape_of_flawless hflaws))
  | codePoint row hlength hvalue =>
      have hfour := row.length_text.trans hlength
      refine @char_of_escape ('u' :: row.text) rest ?_
      rw [List.cons_append, escape_codePoint hfour (fun _ => row.isDigit_of_mem)
        (Escape.scalar?_row hvalue), List.length_cons, hfour]

end Scanned

/-! ## Reading back -/

/-- A text between two quotation marks. -/
def quoted (mark : Char) (body : List Char) : String := String.ofList (mark :: (body ++ [mark]))

namespace Escape

theorem Spelling.exists_inString (c : Char) : ∃ part, Spelling PlainInString c part := by
  obtain ⟨-, hback, hquote, -⟩ | ⟨l, -, hletter, -⟩ := written_cases c
  · exact ⟨_, .itself ⟨hquote, hback⟩⟩
  · exact ⟨_, .letter (mem_letters_iff.mpr hletter)⟩

theorem Spelling.exists_inChar (c : Char) : ∃ part, Spelling PlainInChar c part := by
  obtain ⟨-, hback, -, hquote, hbreak⟩ | ⟨l, -, hletter, -⟩ := written_cases c
  · exact ⟨_, .itself ⟨hquote, hback, hbreak⟩⟩
  · exact ⟨_, .letter (mem_letters_iff.mpr hletter)⟩

end Escape

namespace Lexing

open Escape (Spelling PlainInString PlainInChar)

/-- A spelled string is one token with the value that was spelled. -/
theorem ofText_quoted_string {s : String} {parts : List (List Char)}
    (h : List.Forall₂ (Spelling PlainInString) s.toList parts) :
    ofText (quoted '"' parts.flatten) = lone (quoted '"' parts.flatten) .str [] ∧
      Literal.ofLexeme? .str (quoted '"' parts.flatten).toList = some (.str s) := by
  constructor
  · have hnext : Scanned.next true ('"' :: (parts.flatten ++ ['"'])) =
        ⟨.str, '"' :: (parts.flatten ++ ['"']), [], []⟩ := by
      obtain ⟨hlength, hflaws⟩ := Scanned.string_parts h []
      have hstring := Scanned.string_of_closed hlength (hflaws 1)
      simpa [Scanned.next, Scanned.signs, Scanned.isWordStart, Scanned.valid] using hstring
    exact ofText_of_next (by decide) hnext
  · have hdecode := Escape.decode?_flatten h fun c hc => hc.2
    simp [quoted, Literal.ofLexeme?, Literal.str?, Literal.unquote?_quoted, hdecode]

/-- A spelled character is one token with the value that was spelled. -/
theorem ofText_quoted_char {c : Char} {part : List Char} (h : Spelling PlainInChar c part) :
    ofText (quoted '\'' part) = lone (quoted '\'' part) .char [] ∧
      Literal.ofLexeme? .char (quoted '\'' part).toList = some (.char c) := by
  constructor
  · have hnext : Scanned.next true ('\'' :: (part ++ ['\''])) =
        ⟨.char, '\'' :: (part ++ ['\'']), [], []⟩ := by
      have hchar := Scanned.char_part h []
      simpa [Scanned.next, Scanned.signs, Scanned.isWordStart, Scanned.valid] using hchar
    exact ofText_of_next (by decide) hnext
  · have hdecode := h.decode? (fun hc => hc.2.1) []
    rw [List.append_nil] at hdecode
    simp [quoted, Literal.ofLexeme?, Literal.char?, Literal.unquote?_quoted, hdecode]

/-- Every string can be written, and every way to write it is one token with the string as its value;
so it is with every character. -/
theorem spellings_read_back :
    (∀ s : String, ∃ parts, List.Forall₂ (Spelling PlainInString) s.toList parts) ∧
      (∀ (s : String) (parts : List (List Char)),
        List.Forall₂ (Spelling PlainInString) s.toList parts →
          ofText (quoted '"' parts.flatten) = lone (quoted '"' parts.flatten) .str [] ∧
            (ofText (quoted '"' parts.flatten)).tokens.body.map Token.literal? = [some (.str s)]) ∧
      (∀ c, ∃ part, Spelling PlainInChar c part) ∧
      ∀ (c : Char) (part : List Char), Spelling PlainInChar c part →
        ofText (quoted '\'' part) = lone (quoted '\'' part) .char [] ∧
          (ofText (quoted '\'' part)).tokens.body.map Token.literal? = [some (.char c)] := by
  refine ⟨fun s => ?_, fun s parts h => ?_, Spelling.exists_inChar, fun c part h => ?_⟩
  · generalize s.toList = cs
    induction cs with
    | nil => exact ⟨[], .nil⟩
    | cons c cs ih =>
        obtain ⟨part, hpart⟩ := Spelling.exists_inString c
        obtain ⟨parts, hparts⟩ := ih
        exact ⟨part :: parts, .cons hpart hparts⟩
  · obtain ⟨htext, hvalue⟩ := ofText_quoted_string h
    exact ⟨htext, by rw [htext]; exact congrArg (fun l => [l]) hvalue⟩
  · obtain ⟨htext, hvalue⟩ := ofText_quoted_char h
    exact ⟨htext, by rw [htext]; exact congrArg (fun l => [l]) hvalue⟩

theorem spellings_read_back_mixed :
    (List.Forall₂ (Spelling PlainInString) "a\"\n".toList
        [['a'], ['\\', '"'], ['\\', 'u', '0', '0', '0', 'a']] ∧
      ofText "\"a\\\"\\u000a\"" = lone "\"a\\\"\\u000a\"" .str []) ∧
    Spelling PlainInChar '\'' ['\\', '\''] ∧
      ofText "'\\''" = lone "'\\''" .char [] := by
  have hbreak : Spelling PlainInString '\n' ['\\', 'u', '0', '0', '0', 'a'] :=
    let zero : Numeral.Digit 16 := ⟨0, '0', .inl rfl⟩
    .codePoint ⟨[zero, zero, zero, ⟨10, 'a', .inl rfl⟩], nofun⟩ rfl rfl
  have hparts : List.Forall₂ (Spelling PlainInString) "a\"\n".toList
      [['a'], ['\\', '"'], ['\\', 'u', '0', '0', '0', 'a']] := by
    change List.Forall₂ _ ['a', '"', '\n'] _
    exact .cons (.itself ⟨by decide, by decide⟩) (.cons (.letter (by decide)) (.cons hbreak .nil))
  have hpart : Spelling PlainInChar '\'' ['\\', '\''] := .letter (by decide)
  obtain ⟨-, hstrings, -, hchars⟩ := spellings_read_back
  exact ⟨⟨hparts, (hstrings _ _ hparts).1⟩, hpart, (hchars _ _ hpart).1⟩

end Lexing

end BendSyntax
