import BendSyntax.Grammar.Operands
import BendSyntax.Proofs.Lexing.Literals
import BendSyntax.Proofs.Lexing.Names

/-! What the lexer takes for a literal has a value. -/

namespace BendSyntax

/-- The kind of the tokens that stand for a literal. -/
def Literal.kind : Literal → TokenKind
  | bool true => .word .true
  | bool false => .word .false
  | nat _ => .nat
  | int _ => .int
  | float _ => .float
  | char _ => .char
  | str _ => .str

/-- The value of a token belongs to its kind. -/
theorem Literal.kind_of_ofLexeme? {kind : TokenKind} {lexeme : List Char} {l : Literal}
    (h : ofLexeme? kind lexeme = some l) : l.kind = kind := by
  unfold ofLexeme? at h
  split at h
  all_goals first
    | (obtain ⟨x, -, rfl⟩ := Option.map_eq_some_iff.mp h; rfl)
    | (cases h; rfl)
    | nomatch h

/-! ## Escapes -/

namespace Numeral

theorem not_isDigit_plus (radix : Nat) : isDigit radix '+' = false := by
  simp [isDigit, digit?]

/-- In front of digits there is no sign. -/
theorem unsigned?_eq_value? {radix : Nat} {c : Char} (h : isDigit radix c = true)
    (cs : List Char) : unsigned? radix (c :: cs) = value? radix (c :: cs) := by
  unfold unsigned?
  split
  · rename_i hplus
    obtain ⟨rfl, -⟩ := List.cons.inj hplus
    simp [not_isDigit_plus] at h
  · rfl

end Numeral

namespace Escape

theorem decode?_append {cs : List Char} (h : '\\' ∉ cs) (more : List Char) :
    decode? (cs ++ more) = (decode? more).map (cs ++ ·) := by
  induction cs with
  | nil => simp
  | cons c cs ih =>
      rw [List.mem_cons, not_or] at h
      rw [List.cons_append, decode?_plain (Ne.symm h.1), ih h.2, Option.map_map]
      rfl

theorem isSome_decode?_drop {cs : List Char} (n : Nat) (hplain : '\\' ∉ cs.take n)
    (h : (decode? cs).isSome = true) : (decode? (cs.drop n)).isSome = true := by
  rw [← List.take_append_drop n cs, decode?_append hplain] at h
  simpa using h

/-- A code point is written with four digits. -/
theorem decode?_codePoint {digits : List Char} (hlength : digits.length = 4)
    (hdigits : ∀ c ∈ digits, Numeral.isDigit 16 c = true) {x : Char}
    (hx : Numeral.value? 16 digits >>= scalar? = some x) (more : List Char) :
    decode? ('\\' :: 'u' :: (digits ++ more)) = (decode? more).map (x :: ·) := by
  match digits, hlength with
  | [a, b, c, d], _ =>
      have hvalue := Numeral.unsigned?_eq_value? (hdigits a List.mem_cons_self) [b, c, d]
      simp only [List.cons_append, List.nil_append, decode?, hvalue, hx]

end Escape

namespace Scanned

/-- An escape without a flaw is decoded. -/
theorem decode?_escape {cs : List Char} (hcs : cs ≠ []) (h : (escape cs).2 = none)
    (more : List Char) : ∃ c, Escape.decode? ('\\' :: (cs.take (escape cs).1 ++ more)) =
      (Escape.decode? more).map (c :: ·) := by
  obtain ⟨l, c, htake, -, hletter, hl⟩ | ⟨digits, c, htake, hlength, -, hdigits, hvalue⟩ :=
    escape_cases hcs h
  · exact ⟨c, by rw [htake]; exact Escape.decode?_letter hletter hl more⟩
  · exact ⟨c, by rw [htake]; exact Escape.decode?_codePoint hlength hdigits hvalue more⟩

/-- What follows the character behind a backslash and is decoded is also decoded behind the whole
escape. -/
theorem isSome_decode?_behind_escape {c : Char} {cs : List Char}
    (h : (escape (c :: cs)).2 = none) (hcs : (Escape.decode? cs).isSome = true) :
    (Escape.decode? ((c :: cs).drop (escape (c :: cs)).1)).isSome = true := by
  obtain ⟨l, x, -, hwidth, -⟩ | ⟨digits, x, htake, -, hwidth, hdigits, -⟩ :=
    escape_cases (List.cons_ne_nil c cs) h
  · rw [hwidth]
    exact hcs
  · rw [hwidth] at htake ⊢
    obtain rfl : cs.take 4 = digits := (List.cons.inj htake).2
    refine Escape.isSome_decode?_drop 4 (fun hmem => ?_) hcs
    have hback := hdigits _ hmem
    simp [Numeral.isDigit, Numeral.digit?] at hback

theorem escape_of_flawless {n : Nat} {cs : List Char} (h : escapeFlaw n cs = []) :
    (escape cs).2 = none := by
  unfold escapeFlaw at h
  split at h
  · cases h
  · rename_i hescape
    rw [hescape]

/-- The closing mark stands behind the body of a string. -/
theorem take_succ_of_string {cs : List Char} {n : Nat} (h : stringLength? cs = some n) :
    cs.take (n + 1) = cs.take n ++ ['"'] := by
  fun_induction stringLength? cs generalizing n with
  | case1 c cs ih =>
      obtain ⟨m, hm, rfl⟩ := Option.map_eq_some_iff.mp h
      simp only [List.take_succ_cons, ih hm, List.cons_append]
  | case2 cs _ =>
      cases h
      rfl
  | case3 c cs _ hc ih =>
      obtain ⟨m, hm, rfl⟩ := Option.map_eq_some_iff.mp h
      simp only [List.take_succ_cons, ih hm, List.cons_append]
  | case4 => cases h

/-- A string without flaws is decoded. -/
theorem isSome_decode?_string {cs : List Char} {n : Nat} (h : stringLength? cs = some n)
    (k : Nat) (hflaws : escapeFlaws k (cs.take n) = []) :
    (Escape.decode? (cs.take n)).isSome = true := by
  fun_induction stringLength? cs generalizing n k with
  | case1 c cs ih =>
      obtain ⟨m, hm, rfl⟩ := Option.map_eq_some_iff.mp h
      rw [List.take_succ_cons, List.take_succ_cons, escapeFlaws, List.append_eq_nil_iff] at hflaws
      have hescape := escape_of_flawless hflaws.1
      obtain ⟨x, hx⟩ := decode?_escape (List.cons_ne_nil c _) hescape
        ((c :: cs.take m).drop (escape (c :: cs.take m)).1)
      have hbehind := isSome_decode?_behind_escape hescape (ih hm (k + 2) hflaws.2)
      rw [List.take_append_drop] at hx
      rw [List.take_succ_cons, List.take_succ_cons, hx, Option.isSome_map]
      exact hbehind
  | case2 cs _ =>
      cases h
      rfl
  | case3 c cs hescape hc ih =>
      obtain ⟨m, hm, rfl⟩ := Option.map_eq_some_iff.mp h
      have hback : c ≠ '\\' := by
        rintro rfl
        cases cs with
        | nil => cases hm
        | cons d cs => exact hescape d cs rfl rfl
      rw [List.take_succ_cons, escapeFlaws] at hflaws
      · rw [List.take_succ_cons, Escape.decode?_plain hback, Option.isSome_map]
        exact ih hm (k + 1) hflaws
      · rintro d ds rfl -
        exact hback rfl
  | case4 => cases h

/-! ## Tokens -/

/-- A scanned literal has a value. -/
def Decoded (s : Scanned) : Prop :=
  Grammar.isLiteral s.kind = true → (Literal.ofLexeme? s.kind s.text).isSome = true

namespace Decoded

variable {kind : TokenKind} {text rest cs : List Char}

theorem of_not_literal {s : Scanned} (h : Grammar.isLiteral s.kind = false) : s.Decoded :=
  fun hliteral => by simp [h] at hliteral

theorem bad (cause : Flaw.Cause) : (bad cause text rest).Decoded := of_not_literal rfl

theorem checked : (checked kind text rest).Decoded := by
  unfold Scanned.checked
  split
  · exact fun _ => ‹_›
  · exact .bad _

theorem based (radix : Nat) (mark : String) (sign : List Char) :
    (based radix mark sign cs).Decoded := by
  simp only [Scanned.based]
  split
  · exact .bad _
  · exact .checked

theorem decimal (sign : List Char) : (decimal sign cs).Decoded := by
  simp only [Scanned.decimal]
  split
  · split_ifs
    · exact .checked
    · exact .checked
    · exact .bad _
  · split_ifs <;> exact .checked
  · exact .checked

theorem number (sign : List Char) : (number sign cs).Decoded := by
  unfold Scanned.number
  split
  · exact .based _ _ _
  · exact .based _ _ _
  · exact .decimal _

/-- Of the keywords only the truth values are literals. -/
theorem ofWord {w : String} (h : TokenKind.ofWord? w = some kind) :
    (valid kind text rest).Decoded := by
  obtain ⟨k, -, rfl⟩ := Option.map_eq_some_iff.mp h
  intro hliteral
  cases k with
  | true => rfl
  | false => rfl
  | _ => cases hliteral

theorem word : (word cs).Decoded := by
  simp only [Scanned.word]
  cases hword : TokenKind.ofWord? (String.ofList (cs.take (wordLength cs))) with
  | none => exact of_not_literal rfl
  | some kind => exact .ofWord hword

theorem letter (c : Char) : (letter c cs).Decoded := by
  unfold Scanned.letter
  split
  · exact .ofWord ‹_›
  · exact .bad _

theorem symbol (c : Char) : (symbol c cs).Decoded := by
  unfold Scanned.symbol
  split
  · exact of_not_literal rfl
  · exact .bad _

theorem string : (string cs).Decoded := by
  unfold Scanned.string
  split
  · rename_i n hn
    intro hliteral
    dsimp only at hliteral ⊢
    split_ifs at hliteral ⊢ with hflaws
    · have hdecode := isSome_decode?_string hn 1 (List.isEmpty_iff.mp hflaws)
      obtain ⟨x, hx⟩ := Option.isSome_iff_exists.mp hdecode
      rw [take_succ_of_string hn]
      simp [Literal.ofLexeme?, Literal.str?, Literal.unquote?_quoted, hx]
    · cases hliteral
  · exact of_not_literal rfl

theorem closeChar {n : Nat} {flaws : List Flaw}
    (h : flaws = [] → ∃ c, Escape.decode? (cs.take n) = some [c]) :
    (closeChar cs n flaws).Decoded := by
  unfold Scanned.closeChar
  split
  · intro hliteral
    dsimp only at hliteral ⊢
    split_ifs at hliteral ⊢ with hflaws
    · obtain ⟨c, hc⟩ := h (List.isEmpty_iff.mp hflaws)
      simp [Literal.ofLexeme?, Literal.char?, Literal.unquote?_quoted, hc]
    · cases hliteral
  · exact of_not_literal rfl

theorem char : (char cs).Decoded := by
  unfold Scanned.char
  split
  · exact .bad _
  · exact .bad _
  · exact .bad _
  · rename_i rest
    cases rest with
    | nil => exact of_not_literal rfl
    | cons c rest =>
        refine .closeChar fun hflaws => ?_
        obtain ⟨x, hx⟩ := decode?_escape (List.cons_ne_nil c rest) (escape_of_flawless hflaws) []
        rw [List.append_nil] at hx
        exact ⟨x, hx⟩
  · rename_i c rest _ _ hback
    refine .closeChar fun _ => ⟨c, ?_⟩
    simp [Escape.decode?_plain hback]

theorem next (signed : Bool) (cs : List Char) : (next signed cs).Decoded := by
  cases cs with
  | nil => exact of_not_literal rfl
  | cons c cs =>
      simp only [Scanned.next]
      split_ifs
      · exact .number _
      · exact .number _
      · exact .word
      · exact .string
      · exact .char
      · exact .symbol c
      · exact .letter c

end Decoded

end Scanned

/-- A token that has a value if it is a literal. -/
def Token.Decoded (t : Token) : Prop :=
  Grammar.isLiteral t.kind = true → ∃ value, t.literal? = some value ∧ value.kind = t.kind

namespace Token.Decoded

variable {t : Token}

theorem nat (h : t.Decoded) (hkind : t.kind = .nat) :
    ∃ n, Literal.nat? t.lexeme.toList = some n ∧ t.literal? = some (.nat n) := by
  obtain ⟨value, hvalue, -⟩ := h (hkind ▸ rfl)
  rw [literal?, hkind, Literal.ofLexeme?] at hvalue ⊢
  obtain ⟨n, hn, -⟩ := Option.map_eq_some_iff.mp hvalue
  exact ⟨n, hn, by rw [hn]; rfl⟩

end Token.Decoded

/-- Every literal among the tokens of a text has a value. -/
theorem Lexing.decoded_of_mem {t : Token} {source : String}
    (ht : t ∈ (ofText source).tokens.toList) : t.Decoded := by
  obtain ⟨signed, cs, hkind, htext⟩ := exists_scanned_of_mem none .start source.toList ht
  intro hliteral
  have hvalue := Scanned.Decoded.next signed cs (hkind ▸ hliteral)
  rw [← hkind, ← htext] at hvalue
  obtain ⟨value, hvalue⟩ := Option.isSome_iff_exists.mp hvalue
  exact ⟨value, hvalue, Literal.kind_of_ofLexeme? hvalue⟩

end BendSyntax
