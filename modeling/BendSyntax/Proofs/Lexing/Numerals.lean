import BendSyntax.Proofs.Lexing.Bounds
import BendSyntax.Proofs.Lexing.Decoded
import Mathlib.Data.Nat.Digits.Defs
import Mathlib.Tactic.IntervalCases

/-! Integer literals denote the numbers they spell, at every length. A literal whose number is in
range is one token with that value; any other is one malformed token with one diagnostic. An
evaluation in 128 bits comes to the same. -/

namespace BendSyntax

/-! ## A text of one token -/

namespace Lexing

/-- A text that is one token, and the diagnostics about it. -/
def lone (source : String) (kind : TokenKind) (diagnostics : List Diagnostic) : Lexing :=
  let stop := Position.start.after source.toList
  { tokens :=
      { body := [⟨kind, .between .start stop, source, true⟩]
        eof := ⟨.eof, .between stop stop, "", false⟩ }
    diagnostics := diagnostics }

/-- A text that is scanned to its end at once is one token. -/
theorem ofText_of_next {c : Char} {cs : List Char} {kind : TokenKind} {flaws : List Flaw}
    (hapart : Gap.isBlank c = false ∧ c ≠ '#' ∧ c ≠ '\x7b')
    (hnext : Scanned.next true (c :: cs) = ⟨kind, c :: cs, [], flaws⟩) :
    ofText (String.ofList (c :: cs)) =
      lone (String.ofList (c :: cs)) kind (flaws.map (·.toDiagnostic .start (c :: cs))) := by
  obtain ⟨hblank, hline, hblock⟩ := hapart
  have hgap : Gap.atFront (c :: cs) = ⟨0, c :: cs, none⟩ :=
    Gap.scan_of_not_blank hblank hline hblock 0 cs
  have hend (p : Position) : onward (some kind) p [] =
      ⟨⟨[], ⟨.eof, .between p p, "", false⟩⟩, []⟩ := by
    rw [onward]
    rfl
  rw [ofText, String.toList_ofList, onward]
  split
  · rename_i hrest
    rw [hgap] at hrest
    cases hrest
  · rename_i d ds hrest
    rw [hgap] at hrest
    obtain ⟨rfl, rfl⟩ := List.cons.inj hrest
    simp [hgap, hnext, hend, lone, gapDiagnostics, Scanned.toToken]

/-- The diagnostic about a text that is a numeral whose value is out of range. -/
def outOfRange (source : String) (kind : TokenKind) : Diagnostic :=
  { kind := .lexical
    message := s!"{kind.name} out of range"
    span := .between .start (Position.start.after source.toList)
    expected := none
    found := some source }

/-- A text that is a numeral is one token, the kind of which depends on whether it has a value. -/
theorem ofText_of_checked {text cs : List Char} {c : Char} {kind : TokenKind} (htext : text = c :: cs)
    (hapart : Gap.isBlank c = false ∧ c ≠ '#' ∧ c ≠ '\x7b')
    (hnext : Scanned.next true text = .checked kind text []) :
    ofText (String.ofList text) =
      if (Literal.ofLexeme? kind text).isSome then lone (String.ofList text) kind []
      else lone (String.ofList text) .invalid [outOfRange (String.ofList text) kind] := by
  subst htext
  by_cases hvalue : (Literal.ofLexeme? kind (c :: cs)).isSome = true
  · have hvalid : Scanned.next true (c :: cs) = ⟨kind, c :: cs, [], []⟩ :=
      hnext.trans (if_pos hvalue)
    rw [if_pos hvalue, ofText_of_next hapart hvalid, List.map_nil]
  · have hbad : Scanned.next true (c :: cs) =
        ⟨.invalid, c :: cs, [], [⟨0, (c :: cs).length, .outOfRange kind⟩]⟩ :=
      hnext.trans (if_neg hvalue)
    have hdiagnostic : (⟨0, (c :: cs).length, .outOfRange kind⟩ : Flaw).toDiagnostic .start (c :: cs) =
        outOfRange (String.ofList (c :: cs)) kind := by
      rw [Flaw.toDiagnostic, outOfRange, List.drop_zero, List.take_length, String.toList_ofList]
      rfl
    rw [if_neg hvalue, ofText_of_next hapart hbad, List.map_singleton, hdiagnostic]

end Lexing

/-! ## Digits -/

namespace Numeral

/-- A digit of a radix, as it is written. Letters may be of either case. -/
structure Digit (radix : Nat) where
  value : Fin radix
  char : Char
  writes : "0123456789abcdef".toList[value.val]? = some char ∨
    "0123456789ABCDEF".toList[value.val]? = some char

/-- A row of digits, the most significant one first. -/
structure Row (radix : Nat) where
  digits : List (Digit radix)
  nonempty : digits ≠ []

namespace Row

variable {radix : Nat}

def text (row : Row radix) : List Char := row.digits.map (·.char)

/-- The number that the row denotes in its radix. -/
def value (row : Row radix) : Nat :=
  Nat.ofDigits radix (row.digits.map (·.value.val)).reverse

end Row

/-- A written digit is read as the number it stands for. -/
theorem digit?_of_writes {n : Nat} {c : Char}
    (h : "0123456789abcdef".toList[n]? = some c ∨ "0123456789ABCDEF".toList[n]? = some c)
    (radix : Nat) : digit? radix c = (if n < radix then some n else none) ∧
      (n < 10 → c.isDigit = true) := by
  have hlt : n < 16 := by
    rcases h with h | h <;> exact (List.getElem?_eq_some_iff.mp h).1
  interval_cases n <;> rcases h with h | h <;> cases h <;> exact ⟨rfl, by decide⟩

namespace Digit

variable {radix : Nat} (d : Digit radix)

theorem digit?_char : digit? radix d.char = some d.value.val :=
  (digit?_of_writes d.writes radix).1.trans (if_pos d.value.isLt)

theorem isDigit_char : isDigit radix d.char = true := by
  rw [isDigit, d.digit?_char]
  rfl

theorem isDigit_char_decimal (d : Digit 10) : d.char.isDigit = true :=
  (digit?_of_writes d.writes 10).2 d.value.isLt

end Digit

/-- What begins with a digit has no sign in front. -/
theorem signed?_eq_value? {radix : Nat} {c : Char} (h : isDigit radix c = true) (cs : List Char) :
    signed? radix (c :: cs) = (value? radix (c :: cs)).map Int.ofNat := by
  unfold signed?
  split
  · rename_i heq
    obtain ⟨rfl, rfl⟩ := List.cons.inj heq
    simp [not_isDigit_plus] at h
  · rename_i heq
    obtain ⟨rfl, rfl⟩ := List.cons.inj heq
    simp [Scanned.minus_not_isDigit] at h
  · rfl

/-- Reading on from a value puts the value in front of the digits. -/
theorem continue?_chars {radix : Nat} (digits : List (Digit radix)) (acc : Nat) :
    continue? radix acc (digits.map (·.char)) =
      some (Nat.ofDigits radix ((digits.map (·.value.val)).reverse ++ [acc])) := by
  induction digits generalizing acc with
  | nil => simp [continue?]
  | cons d ds ih =>
      have hpair : Nat.ofDigits radix [d.value.val, acc] = acc * radix + d.value.val := by
        rw [Nat.ofDigits_cons, Nat.ofDigits_singleton, Nat.mul_comm, Nat.add_comm]
      simp only [List.map_cons, continue?, d.digit?_char, ih, List.reverse_cons, List.append_assoc,
        List.singleton_append]
      rw [Nat.ofDigits_append, Nat.ofDigits_append, Nat.ofDigits_singleton, hpair]

namespace Row

variable {radix : Nat} (row : Row radix)

theorem length_text : row.text.length = row.digits.length := List.length_map _

theorem exists_text_eq : ∃ d : Digit radix, ∃ cs, row.text = d.char :: cs := by
  obtain ⟨d, ds, hds⟩ := List.exists_cons_of_ne_nil row.nonempty
  exact ⟨d, ds.map (·.char), by simp [text, hds]⟩

theorem value?_text : value? radix row.text = some row.value := by
  have hcontinue := continue?_chars row.digits 0
  rw [Nat.ofDigits_append, Nat.ofDigits_singleton, Nat.mul_zero, Nat.add_zero] at hcontinue
  obtain ⟨d, cs, hcs⟩ := row.exists_text_eq
  rw [hcs, value?, ← hcs]
  · exact hcontinue
  · nofun

theorem signed?_text : signed? radix row.text = some (row.value : Int) := by
  have hvalue := row.value?_text
  obtain ⟨d, cs, hcs⟩ := row.exists_text_eq
  rw [hcs] at hvalue ⊢
  rw [signed?_eq_value? d.isDigit_char, hvalue]
  rfl

theorem isDigit_of_mem {c : Char} (h : c ∈ row.text) : isDigit radix c = true := by
  obtain ⟨d, -, rfl⟩ := List.mem_map.mp h
  exact d.isDigit_char

theorem isDigit_of_mem_decimal (row : Row 10) {c : Char} (h : c ∈ row.text) : c.isDigit = true := by
  obtain ⟨d, -, rfl⟩ := List.mem_map.mp h
  exact d.isDigit_char_decimal

/-- A decimal row does not begin with the mark of another radix, nor does it gain one from what
stands behind it. -/
theorem append_ne_marked {row : Row 10} {rest : List Char} {c : Char} (hc : c.isDigit = false)
    (hrest : ∀ cs, rest ≠ c :: cs) (cs : List Char) : row.text ++ rest ≠ '0' :: c :: cs := by
  intro heq
  obtain ⟨d, ds, hds⟩ := row.exists_text_eq
  cases ds with
  | nil =>
      rw [hds] at heq
      exact hrest cs (List.cons.inj heq).2
  | cons e es =>
      have he : e = c := by
        rw [hds] at heq
        exact (List.cons.inj (List.cons.inj heq).2).1
      have hmem : c ∈ row.text := by simp [hds, he]
      exact Bool.false_ne_true (hc.symm.trans (isDigit_of_mem_decimal _ hmem))

theorem text_ne_marked {row : Row 10} {c : Char} (hc : c.isDigit = false) (cs : List Char) :
    row.text ≠ '0' :: c :: cs := by
  simpa using @append_ne_marked row [] c hc nofun cs

end Row

end Numeral

/-! ## Values -/

/-- Whether an integer has a two's complement representation of some width. -/
def Fits (bits : Nat) (i : Int) : Prop := -2 ^ (bits - 1) ≤ i ∧ i < 2 ^ (bits - 1)

instance (bits : Nat) (i : Int) : Decidable (Fits bits i) :=
  inferInstanceAs (Decidable (_ ∧ _))

theorem fits_64 {i : Int} : Fits 64 i ↔ -0x8000000000000000 ≤ i ∧ i < 0x8000000000000000 := .rfl

theorem fits_128 {i : Int} : Fits 128 i ↔
    -0x80000000000000000000000000000000 ≤ i ∧ i < 0x80000000000000000000000000000000 := .rfl

namespace Literal

/-- A result that has no representation. -/
inductive Overflow where
  | overflow
  deriving DecidableEq

/-- What of a number goes into 64 bits. -/
def narrow? (i : Int) : Option Int := if Fits 64 i then some i else none

/-- A numeral read in 128 bits. -/
def wideMagnitude? (cs : List Char) : Option Int :=
  match magnitude? cs with
  | some i => if Fits 128 i then some i else none
  | none => none

/-- Negation in 128 bits. -/
def negate (i : Int) : Except Overflow Int :=
  if Fits 128 (-i) then .ok (-i) else .error .overflow

/-- The value of an integer literal by way of 128 bits: the numeral is read, negated if a minus
stands in front, and narrowed. -/
def wideInt? (lexeme : List Char) : Except Overflow (Option Int) :=
  match lexeme with
  | '-' :: cs =>
      match wideMagnitude? cs with
      | some i => (negate i).map narrow?
      | none => .ok none
  | '+' :: cs => .ok (wideMagnitude? cs >>= narrow?)
  | cs => .ok (wideMagnitude? cs >>= narrow?)

theorem isSome_narrow? {i : Int} : (narrow? i).isSome = true ↔ Fits 64 i := by
  unfold narrow?
  split <;> simp [*]

theorem int?_minus (cs : List Char) :
    int? ('-' :: cs) = magnitude? cs >>= fun i => narrow? (-i) := by
  simp only [int?]
  cases magnitude? cs <;> rfl

theorem int?_plus (cs : List Char) : int? ('+' :: cs) = magnitude? cs >>= narrow? := by
  simp only [int?]
  cases magnitude? cs <;> rfl

theorem int?_of_unsigned {cs : List Char} (hminus : ∀ ds, cs ≠ '-' :: ds)
    (hplus : ∀ ds, cs ≠ '+' :: ds) : int? cs = magnitude? cs >>= narrow? := by
  unfold int?
  split
  · exact absurd rfl (hminus _)
  · exact absurd rfl (hplus _)
  · cases magnitude? cs <;> rfl

/-- What has no place in 128 bits has none in 64. -/
theorem narrow?_of_wide (cs : List Char) :
    (wideMagnitude? cs >>= narrow?) = (magnitude? cs >>= narrow?) := by
  unfold wideMagnitude?
  cases magnitude? cs with
  | none => rfl
  | some i =>
      by_cases hwide : Fits 128 i
      · simp [hwide]
      · have hnarrow : ¬ Fits 64 i := by
          rw [fits_128] at hwide
          rw [fits_64]
          omega
        simp [hwide, narrow?, hnarrow]

/-- Only the least number of 128 bits has no negative; apart from it the width makes no
difference. -/
theorem wideInt?_eq_ok {lexeme : List Char}
    (h : ∀ cs, lexeme = '-' :: cs → magnitude? cs ≠ some (-2 ^ 127)) :
    wideInt? lexeme = .ok (int? lexeme) := by
  unfold wideInt?
  split
  · rename_i cs
    have hleast := h cs rfl
    rw [int?_minus]
    unfold wideMagnitude? negate
    cases hmagnitude : magnitude? cs with
    | none => rfl
    | some i =>
        have hi : i ≠ -2 ^ 127 := fun heq => hleast (hmagnitude.trans (congrArg some heq))
        by_cases hwide : Fits 128 i
        · have hnegative : Fits 128 (-i) := by
            rw [fits_128] at hwide ⊢
            omega
          simp [hwide, hnegative, Except.map]
        · have hnarrow : ¬ Fits 64 (-i) := by
            rw [fits_128] at hwide
            rw [fits_64]
            omega
          simp [hwide, narrow?, hnarrow]
  · rw [int?_plus, narrow?_of_wide]
  · rename_i hminus hplus
    rw [int?_of_unsigned hminus hplus, narrow?_of_wide]

example : wideInt? "--170141183460469231731687303715884105728".toList = .error .overflow := rfl

end Literal

/-! ## Integer literals -/

/-- The notations for integers. -/
inductive Radix where
  | decimal
  | hexadecimal
  | binary
  deriving DecidableEq

namespace Radix

def base : Radix → Nat
  | decimal => 10
  | hexadecimal => 16
  | binary => 2

def mark : Radix → List Char
  | decimal => []
  | hexadecimal => ['0', 'x']
  | binary => ['0', 'b']

end Radix

inductive Sign where
  | none
  | plus
  | minus
  deriving DecidableEq

namespace Sign

def text : Sign → List Char
  | none => []
  | plus => ['+']
  | minus => ['-']

def apply : Sign → Nat → Int
  | minus, n => -n
  | _, n => n

end Sign

/-- An integer as it is written. -/
structure WrittenInt where
  sign : Sign
  radix : Radix
  row : Numeral.Row radix.base

namespace WrittenInt

variable (w : WrittenInt)

/-- The numeral behind the sign. -/
def unsigned : List Char := w.radix.mark ++ w.row.text

def text : List Char := w.sign.text ++ w.unsigned

/-- The number that is meant. -/
def value : Int := w.sign.apply w.row.value

theorem magnitude?_unsigned : Literal.magnitude? w.unsigned = some (w.row.value : Int) := by
  obtain ⟨sign, radix, row⟩ := w
  cases radix with
  | decimal =>
      unfold unsigned Literal.magnitude?
      split
      · exact absurd ‹_› (Numeral.Row.text_ne_marked (by decide) _)
      · exact absurd ‹_› (Numeral.Row.text_ne_marked (by decide) _)
      · exact row.signed?_text
  | hexadecimal => exact row.signed?_text
  | binary => exact row.signed?_text

theorem exists_unsigned_eq : ∃ c cs, w.unsigned = c :: cs ∧ c.isDigit = true := by
  obtain ⟨sign, radix, row⟩ := w
  cases radix with
  | decimal =>
      obtain ⟨d, cs, hcs⟩ := row.exists_text_eq
      exact ⟨d.char, cs, hcs, d.isDigit_char_decimal⟩
  | hexadecimal => exact ⟨'0', _, rfl, rfl⟩
  | binary => exact ⟨'0', _, rfl, rfl⟩

theorem unsigned_ne {c : Char} (hc : c.isDigit = false) (cs : List Char) : w.unsigned ≠ c :: cs := by
  obtain ⟨d, ds, hds, hd⟩ := w.exists_unsigned_eq
  rw [hds]
  rintro ⟨⟩
  exact Bool.false_ne_true (hc.symm.trans hd)

theorem exists_text_eq :
    ∃ c cs, w.text = c :: cs ∧ Gap.isBlank c = false ∧ c ≠ '#' ∧ c ≠ '\x7b' := by
  unfold text
  cases w.sign with
  | none =>
      obtain ⟨c, cs, hcs, hc⟩ := w.exists_unsigned_eq
      exact ⟨c, cs, hcs, Scanned.apart_of_isDigit hc⟩
  | plus => exact ⟨'+', _, rfl, by decide⟩
  | minus => exact ⟨'-', _, rfl, by decide⟩

/-- In 64 bits the numeral denotes the number that is meant. -/
theorem int?_text : Literal.int? w.text = Literal.narrow? w.value := by
  have hmagnitude := w.magnitude?_unsigned
  unfold text value
  cases w.sign with
  | none =>
      rw [Sign.text, List.nil_append, Literal.int?_of_unsigned (w.unsigned_ne rfl)
        (w.unsigned_ne rfl), hmagnitude, Option.bind_eq_bind, Option.bind_some, Sign.apply]
      nofun
  | plus =>
      rw [Sign.text, List.singleton_append, Literal.int?_plus, hmagnitude, Option.bind_eq_bind,
        Option.bind_some, Sign.apply]
      nofun
  | minus =>
      rw [Sign.text, List.singleton_append, Literal.int?_minus, hmagnitude, Option.bind_eq_bind,
        Option.bind_some, Sign.apply]

/-- Behind a minus stands no negative number, so its negative has a place as well. -/
theorem wideInt?_text : Literal.wideInt? w.text = .ok (Literal.int? w.text) := by
  refine Literal.wideInt?_eq_ok fun cs htext => ?_
  have hunsigned : w.unsigned = cs := by
    unfold text at htext
    cases hsign : w.sign with
    | none => exact absurd (by simpa [hsign, Sign.text] using htext) (w.unsigned_ne rfl cs)
    | plus => simp [hsign, Sign.text] at htext
    | minus => simpa [hsign, Sign.text] using htext
  rw [← hunsigned, w.magnitude?_unsigned]
  intro hleast
  have := Option.some.inj hleast
  omega

end WrittenInt

namespace Scanned

open Numeral (Row)

theorem based_row {radix : Nat} (row : Row radix) (mark : String) (sign : List Char) :
    based radix mark sign row.text = checked .int (sign ++ mark.toList ++ row.text) [] := by
  obtain ⟨htake, hdrop⟩ := takeWhile_append (fun _ => row.isDigit_of_mem) [] rfl
  rw [List.append_nil] at htake hdrop
  simp only [based, htake, hdrop]
  obtain ⟨d, cs, hcs⟩ := row.exists_text_eq
  rw [hcs]
  rfl

theorem decimal_row (row : Row 10) (sign : List Char) :
    decimal sign row.text = checked .int (sign ++ row.text) [] := by
  have hdecimal := decimal_of_ends sign (fun _ => row.isDigit_of_mem_decimal) ends_nil
  rwa [List.append_nil] at hdecimal

theorem decimal_row_natural (row : Row 10) :
    decimal [] (row.text ++ ['n']) = checked .nat (row.text ++ ['n']) [] := by
  obtain ⟨htake, hdrop⟩ := takeWhile_append (fun _ => row.isDigit_of_mem_decimal) ['n'] rfl
  simp [decimal, htake, hdrop]

theorem number_written (w : WrittenInt) : number w.sign.text w.unsigned = checked .int w.text [] := by
  obtain ⟨sign, radix, row⟩ := w
  have htext (mark : List Char) : sign.text ++ mark ++ row.text = sign.text ++ (mark ++ row.text) :=
    List.append_assoc _ _ _
  cases radix with
  | decimal =>
      have hdecimal : number sign.text row.text = decimal sign.text row.text :=
        number_eq_decimal (Row.text_ne_marked (by decide)) (Row.text_ne_marked (by decide))
      exact hdecimal.trans (decimal_row row sign.text)
  | hexadecimal => exact (based_row row "0x" sign.text).trans (by rw [htext]; rfl)
  | binary => exact (based_row row "0b" sign.text).trans (by rw [htext]; rfl)

/-- A written integer is scanned as a whole. -/
theorem next_written (w : WrittenInt) : next true w.text = checked .int w.text [] := by
  rw [← number_written]
  obtain ⟨c, cs, hcs, hc⟩ := w.exists_unsigned_eq
  unfold WrittenInt.text
  cases w.sign with
  | none => simp [Sign.text, hcs, next, hc]
  | plus => simp [Sign.text, hcs, next, signs, hc]
  | minus => simp [Sign.text, hcs, next, signs, hc]

/-- So are decimal digits in front of `n`. -/
theorem next_natural (row : Row 10) :
    next true (row.text ++ ['n']) = checked .nat (row.text ++ ['n']) [] := by
  rw [← decimal_row_natural]
  have hdecimal : number [] (row.text ++ ['n']) = decimal [] (row.text ++ ['n']) :=
    number_eq_decimal (Row.append_ne_marked (by decide) (by simp))
      (Row.append_ne_marked (by decide) (by simp))
  rw [← hdecimal]
  obtain ⟨d, cs, hcs⟩ := row.exists_text_eq
  simp [hcs, next, d.isDigit_char_decimal]

end Scanned

theorem Literal.nat?_text (row : Numeral.Row 10) :
    nat? (row.text ++ ['n']) = if row.value < 2 ^ 64 then some row.value else none := by
  have hvalue : Numeral.unsigned? 10 row.text = some row.value := by
    have hrow := row.value?_text
    obtain ⟨d, cs, hcs⟩ := row.exists_text_eq
    rw [hcs] at hrow ⊢
    rw [Numeral.unsigned?_eq_value? d.isDigit_char, hrow]
  simp only [nat?, List.getLast?_concat, List.dropLast_concat, hvalue]
  rfl

/-- Integer literals are exact. However long it is, a written integer is one token: an integer with
the value that is meant if 64 bits can represent it, and otherwise a malformed token with one
diagnostic; the way to the value through 128 bits does not overflow. Decimal digits in front of `n`
are a natural number under the same terms. -/
theorem numerals_exact :
    (∀ w : WrittenInt,
      Lexing.ofText (String.ofList w.text) =
        (if Fits 64 w.value then .lone (String.ofList w.text) .int []
          else .lone (String.ofList w.text) .invalid [Lexing.outOfRange (String.ofList w.text) .int]) ∧
      Literal.int? w.text = (if Fits 64 w.value then some w.value else none) ∧
      Literal.wideInt? w.text = .ok (Literal.int? w.text)) ∧
    ∀ row : Numeral.Row 10, let text := row.text ++ ['n']
      Lexing.ofText (String.ofList text) =
        (if row.value < 2 ^ 64 then .lone (String.ofList text) .nat []
          else .lone (String.ofList text) .invalid [Lexing.outOfRange (String.ofList text) .nat]) ∧
      Literal.nat? text = if row.value < 2 ^ 64 then some row.value else none := by
  refine ⟨fun w => ⟨?_, w.int?_text, w.wideInt?_text⟩, fun row => ⟨?_, Literal.nat?_text row⟩⟩
  · obtain ⟨c, cs, hcs, hapart⟩ := w.exists_text_eq
    rw [Lexing.ofText_of_checked hcs hapart (Scanned.next_written w)]
    simp [Literal.ofLexeme?, w.int?_text, Literal.isSome_narrow?]
  · obtain ⟨d, cs, hcs⟩ := row.exists_text_eq
    have hapart := Scanned.apart_of_isDigit d.isDigit_char_decimal
    rw [Lexing.ofText_of_checked (by rw [hcs]; rfl) hapart (Scanned.next_natural row)]
    simp only [Literal.ofLexeme?, Literal.nat?_text]
    split <;> rfl

end BendSyntax
