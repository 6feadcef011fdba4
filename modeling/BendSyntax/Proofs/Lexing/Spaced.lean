import BendSyntax.Proofs.Lexing.Joined

/-! Words as tokens. A word with a blank, a comma or a parenthesis behind it is scanned as a whole,
and a text of words with single blanks between them is cut into these words. -/

namespace BendSyntax

/-- A piece of text that is meant to be a token of some kind. -/
structure Word where
  kind : TokenKind
  text : String
  deriving Repr, DecidableEq

/-- A symbol as a word. -/
def Word.mark (s : Symbol) : Word := ⟨.mark s, s.spelling⟩

/-- A single blank or nothing. -/
def spacing (blank : Bool) : List Char := if blank then [' '] else []

/-- What stands behind a word: nothing, or a blank and the next word. -/
def spacedOut (words : List Word) : List Char := words.flatMap fun w => ' ' :: w.text.toList

namespace Scanned

/-- Characters that cannot go on with a word, whatever the word is. -/
def endsWord (c : Char) : Bool := c ∈ [' ', ',', '(', ')', ']']

/-- Text that ends a word in front of it. -/
def Ends (rest : List Char) : Prop := ∀ c ∈ rest.head?, endsWord c = true

theorem ends_nil : Ends [] := nofun

theorem ends_cons {c : Char} (h : endsWord c = true) (rest : List Char) : Ends (c :: rest) := by
  rintro _ ⟨⟩
  exact h

theorem ends_spacedOut (words : List Word) {rest : List Char} (hrest : Ends rest) :
    Ends (spacedOut words ++ rest) := by
  cases words with
  | nil => exact hrest
  | cons w words => exact ends_cons rfl _

end Scanned

namespace Word

/-- The token that a word becomes where blanks separate it from other words. -/
structure Becomes (w : Word) (t : Token) : Prop where
  kind : t.kind = w.kind
  lexeme : t.lexeme = w.text
  spaced : t.spaced = true

/-- A word that is scanned as a whole in front of some text. -/
def EndsBefore (w : Word) (rest : List Char) : Prop :=
  ∀ signed, Scanned.next signed (w.text.toList ++ rest) = .valid w.kind w.text.toList rest

/-- A word that is scanned as a whole in front of everything that ends a word. -/
structure Solid (w : Word) : Prop where
  apart : ∃ c cs, w.text.toList = c :: cs ∧ Gap.isBlank c = false ∧ c ≠ '#' ∧ c ≠ '\x7b'
  whole : ∀ rest, Scanned.Ends rest → w.EndsBefore rest

/-- A word that is scanned as a whole behind a token of some kind, in front of everything that ends
a word. -/
structure Stands (previous : Option TokenKind) (w : Word) : Prop where
  text : w.text.toList ≠ []
  apart : ∀ n rest, Scanned.Ends rest →
    Gap.scan .blanks n (w.text.toList ++ rest) = ⟨n, w.text.toList ++ rest, none⟩
  whole : ∀ rest, Scanned.Ends rest →
    Scanned.next (!previous.any TokenKind.endsOperand) (w.text.toList ++ rest) =
      .valid w.kind w.text.toList rest

/-- Words that are scanned as wholes behind each other. -/
inductive Line : Option TokenKind → List Word → Prop
  | nil {previous} : Line previous []
  | cons {previous w words} : w.Stands previous → Line (some w.kind) words → Line previous (w :: words)

theorem toList_intercalate (w : Word) (words : List Word) :
    (" ".intercalate ((w :: words).map (·.text))).toList = w.text.toList ++ spacedOut words := by
  rw [String.toList_intercalate]
  induction words generalizing w with
  | nil => simp [spacedOut]
  | cons w' words ih =>
      have hrest := ih w'
      simp only [List.map_cons] at hrest ⊢
      rw [List.intercalate_cons_cons, hrest]
      simp [spacedOut]

end Word

namespace Scanned

variable {rest : List Char}

theorem Ends.any_head? (h : Ends rest) {p : Char → Bool} (hp : ∀ c, endsWord c = true → p c = false) :
    rest.head?.any p = false := by
  cases rest with
  | nil => rfl
  | cons c rest => exact hp c (h c rfl)

/-- What ends a word can be no part of it. -/
theorem not_part_of_endsWord {c : Char} (h : endsWord c = true) :
    isWordPart c = false ∧ c ≠ '/' ∧ c.isDigit = false ∧ c ≠ 'n' ∧
      ∀ s : Symbol, c ∉ s.spelling.toList.tail := by
  simp only [endsWord, List.mem_cons, List.not_mem_nil, or_false, decide_eq_true_eq] at h
  rcases h with rfl | rfl | rfl | rfl | rfl <;>
    exact ⟨by decide, by decide, by decide, by decide, fun s => by cases s <;> decide⟩

/-- Nothing that ends a word belongs to it. -/
theorem Ends.wordLength (h : Ends rest) (cs : List Char) :
    wordLength (cs ++ rest) = wordLength cs := by
  cases rest with
  | nil => simp
  | cons c rest =>
      obtain ⟨hpart, hslash, -⟩ := not_part_of_endsWord (h c rfl)
      exact wordLength_append_cons hpart hslash cs

/-- No symbol goes on with a character that stands in none but at the front. -/
theorem atFront?_append_cons {b : Char} (h : ∀ s : Symbol, b ∉ s.spelling.toList.tail) (c : Char)
    (cs rest : List Char) :
    Symbol.atFront? (c :: cs ++ b :: rest) = Symbol.atFront? (c :: cs) := by
  unfold Symbol.atFront?
  congr 1
  funext s
  have htail := h s
  cases hs : s.spelling.toList with
  | nil => rfl
  | cons d ds =>
      rw [hs, List.tail_cons] at htail
      simp only [List.cons_append, List.isPrefixOf, isPrefixOf_append_cons htail]

theorem Ends.atFront? (h : Ends rest) (c : Char) (cs : List Char) :
    Symbol.atFront? (c :: cs ++ rest) = Symbol.atFront? (c :: cs) := by
  cases rest with
  | nil => simp
  | cons b rest => exact atFront?_append_cons (not_part_of_endsWord (h b rfl)).2.2.2.2 c cs rest

end Scanned

theorem Gap.scan_of_not_blank {c : Char} (hblank : isBlank c = false) (hline : c ≠ '#')
    (hblock : c ≠ '\x7b') (n : Nat) (cs : List Char) :
    scan .blanks n (c :: cs) = ⟨n, c :: cs, none⟩ := by
  unfold scan
  split <;> simp_all

/-- A character that can begin a word begins neither a number nor a gap. -/
theorem Scanned.apart_of_isWordStart {c : Char} (h : isWordStart c = true) :
    c.isDigit = false ∧ (c == '+' || c == '-') = false ∧ Gap.isBlank c = false ∧ c ≠ '#' ∧
      c ≠ '\x7b' := by
  have hdigit : c.isDigit = false := by
    delta isWordStart Char.isAlpha Char.isUpper Char.isLower at h
    simp only [Bool.or_eq_true, Bool.and_eq_true, decide_eq_true_eq, beq_iff_eq] at h
    rcases h with h | rfl
    · simp only [Char.isDigit, Bool.and_eq_false_iff, decide_eq_false_iff_not]
      grind
    · rfl
  have hne (d : Char) (hd : isWordStart d = false) : c ≠ d := by
    rintro rfl
    exact Bool.eq_false_iff.mp hd h
  have hbeq (d : Char) (hd : isWordStart d = false) : (c == d) = false :=
    beq_eq_false_iff_ne.mpr (hne d hd)
  refine ⟨hdigit, ?_, ?_, hne '#' rfl, hne '\x7b' rfl⟩
  · rw [hbeq '+' rfl, hbeq '-' rfl, Bool.or_false]
  · simp only [Gap.isBlank, hbeq ' ' rfl, hbeq '\t' rfl, hbeq '\r' rfl, hbeq '\n' rfl,
      Bool.or_false]

namespace Word

theorem Solid.stands {w : Word} (hw : w.Solid) (previous : Option TokenKind) : w.Stands previous := by
  obtain ⟨c, text, htext, hblank, hline, hblock⟩ := hw.apart
  refine ⟨by simp [htext], fun n rest _ => ?_, fun rest hrest => hw.whole rest hrest _⟩
  rw [htext]
  exact Gap.scan_of_not_blank hblank hline hblock n _

theorem line_of_solid {words : List Word} (h : ∀ w ∈ words, w.Solid) (previous : Option TokenKind) :
    Line previous words := by
  induction words generalizing previous with
  | nil => exact .nil
  | cons w words ih =>
      obtain ⟨hw, hwords⟩ := List.forall_mem_cons.mp h
      exact .cons (hw.stands previous) (ih hwords _)

/-- A word is scanned as a whole, with the kind that is reserved for it if there is one, where
nothing that stands behind it goes on with it. -/
theorem word_endsBefore {text : String} {rest : List Char}
    (hstart : text.toList.head?.any Scanned.isWordStart = true)
    (hlength : Scanned.wordLength (text.toList ++ rest) = text.toList.length) :
    (⟨(TokenKind.ofWord? text).getD .ident, text⟩ : Word).EndsBefore rest := by
  obtain ⟨c, cs, htext⟩ : ∃ c cs, text.toList = c :: cs := by
    cases h : text.toList with
    | nil => simp [h] at hstart
    | cons c cs => exact ⟨c, cs, rfl⟩
  simp only [htext, List.head?_cons, Option.any_some] at hstart
  obtain ⟨hdigit, hsign, -⟩ := Scanned.apart_of_isWordStart hstart
  intro signed
  have hword : Scanned.word (text.toList ++ rest) =
      .valid ((TokenKind.ofWord? text).getD .ident) text.toList rest := by
    simp [Scanned.word, hlength]
  simp only [htext, List.cons_append] at hword ⊢
  simp [Scanned.next, Scanned.signs, hdigit, hsign, hstart, hword]

/-- A text that is a word as a whole, with the kind that is reserved for it if there is one. -/
theorem solid_word {text : String} (hstart : text.toList.head?.any Scanned.isWordStart = true)
    (hwhole : Scanned.wordLength text.toList = text.length) :
    (⟨(TokenKind.ofWord? text).getD .ident, text⟩ : Word).Solid where
  apart := by
    cases htext : text.toList with
    | nil => simp [htext] at hstart
    | cons c cs =>
        simp only [htext, List.head?_cons, Option.any_some] at hstart
        obtain ⟨-, -, hapart⟩ := Scanned.apart_of_isWordStart hstart
        exact ⟨c, cs, rfl, hapart⟩
  whole rest hrest := word_endsBefore hstart <| by
    rw [hrest.wordLength, hwhole, String.length_toList]

/-- A symbol is scanned as a whole where no longer one is found. -/
theorem symbol_endsBefore {s : Symbol} {c : Char} {cs rest : List Char}
    (htext : s.spelling.toList = c :: cs) (hfront : Symbol.atFront? (c :: cs ++ rest) = some s)
    (hdigits : (cs ++ rest).head?.any Char.isDigit = false ∨ c ≠ '+' ∧ c ≠ '-') :
    (⟨.mark s, s.spelling⟩ : Word).EndsBefore rest := by
  intro signed
  obtain ⟨hdigit, hstart, hquote, hmark, hascii⟩ : c.isDigit = false ∧
      Scanned.isWordStart c = false ∧ c ≠ '"' ∧ c ≠ '\'' ∧ Scanned.isAscii c = true := by
    cases s <;> cases htext <;> decide
  have hsign : Scanned.signs signed c (cs ++ rest) = false := by
    rcases hdigits with hdigits | ⟨hplus, hminus⟩
    · rw [Scanned.signs, hdigits, Bool.and_false]
    · simp [Scanned.signs, hplus, hminus]
  have hlength : s.spelling.length = (c :: cs).length := by rw [← htext, String.length_toList]
  simp only [List.cons_append] at hfront
  have hsymbol : Scanned.symbol c (cs ++ rest) = .valid (.mark s) (c :: cs) rest := by
    simp [Scanned.symbol, hfront, hlength]
  simp only [htext, List.cons_append]
  simp [Scanned.next, hsign, hdigit, hstart, hquote, hmark, hascii, hsymbol]

/-- Every symbol is scanned as a whole in front of what ends a word. -/
theorem symbol_whole (s : Symbol) {rest : List Char} (hrest : Scanned.Ends rest) :
    (⟨.mark s, s.spelling⟩ : Word).EndsBefore rest := by
  obtain ⟨c, cs, htext, hdigit⟩ : ∃ c cs, s.spelling.toList = c :: cs ∧
      cs.head?.any Char.isDigit = false := by
    cases s <;> exact ⟨_, _, rfl, by decide⟩
  refine symbol_endsBefore htext ?_ (.inl ?_)
  · rw [hrest.atFront?, ← htext]
    cases s <;> decide
  · cases cs with
    | nil => exact hrest.any_head? fun d hd => (Scanned.not_part_of_endsWord hd).2.2.1
    | cons d cs => simpa using hdigit

theorem solid_symbol {s : Symbol} (hs : s ≠ .leftBrace) :
    (⟨.mark s, s.spelling⟩ : Word).Solid := by
  obtain ⟨c, cs, htext, hblank, hline, hblock⟩ : ∃ c cs, s.spelling.toList = c :: cs ∧
      Gap.isBlank c = false ∧ c ≠ '#' ∧ c ≠ '\x7b' := by
    cases s <;> first | exact absurd rfl hs | exact ⟨_, _, rfl, by decide⟩
  exact ⟨⟨c, cs, htext, hblank, hline, hblock⟩, fun _ hrest => symbol_whole s hrest⟩

/-- An opening parenthesis or bracket is scanned as a whole in front of anything. -/
theorem opening_endsBefore {s : Symbol} (hs : s = .leftParen ∨ s = .leftBracket)
    (rest : List Char) : (⟨.mark s, s.spelling⟩ : Word).EndsBefore rest := by
  rcases hs with rfl | rfl
  · have htext : Symbol.spelling .leftParen = String.ofList ['('] := rfl
    exact symbol_endsBefore (congrArg String.toList htext) rfl (.inr (by decide))
  · have htext : Symbol.spelling .leftBracket = String.ofList ['['] := rfl
    exact symbol_endsBefore (congrArg String.toList htext) rfl (.inr (by decide))

end Word

/-! ## Natural literals -/

namespace Numeral

theorem digit?_of_isDigit {c : Char} (h : c.isDigit = true) :
    digit? 10 c = some (c.toNat - '0'.toNat) := by
  simp only [Char.isDigit, Bool.and_eq_true, decide_eq_true_eq, ge_iff_le] at h
  have hle : c.toNat ≤ 57 := h.2
  have hrange : '0' ≤ c ∧ c ≤ '9' := h
  have hzero : '0'.toNat = 48 := rfl
  simp only [digit?, hrange, and_self, if_true, hzero]
  exact if_pos (by omega)

theorem continue?_of_isDigit {cs : List Char} (h : ∀ c ∈ cs, c.isDigit = true) (acc : Nat) :
    continue? 10 acc cs = some (Nat.ofDigitChars 10 cs acc) := by
  induction cs generalizing acc with
  | nil => rfl
  | cons c cs ih =>
      obtain ⟨hc, hcs⟩ := List.forall_mem_cons.mp h
      simp only [continue?, digit?_of_isDigit hc, ih hcs]
      rw [Nat.ofDigitChars_cons, Nat.mul_comm]

/-- The digits of a number denote it. -/
theorem value?_toDigits (n : Nat) : value? 10 (Nat.toDigits 10 n) = some n := by
  have hvalue := continue?_of_isDigit
    (fun _ hc => Nat.isDigit_of_mem_toDigits (n := n) (by decide) (Nat.le_refl 10) hc) 0
  rw [Nat.ofDigitChars_toDigits (by decide) (Nat.le_refl 10)] at hvalue
  cases hdigits : Nat.toDigits 10 n with
  | nil => exact absurd hdigits Nat.toDigits_ne_nil
  | cons c cs => rwa [hdigits] at hvalue

end Numeral

theorem Literal.nat?_toDigits {n : Nat} (hn : n < 0x10000000000000000) :
    nat? (Nat.toDigits 10 n ++ ['n']) = some n := by
  have hunsigned : Numeral.unsigned? 10 (Nat.toDigits 10 n) = some n := by
    unfold Numeral.unsigned?
    split
    · rename_i hplus
      have hdigit := Nat.isDigit_of_mem_toDigits (b := 10) (n := n) (c := '+') (by decide)
        (Nat.le_refl 10) (by rw [hplus]; exact List.mem_cons_self)
      cases hdigit
    · exact Numeral.value?_toDigits n
  simp [nat?, hunsigned, hn]

namespace Scanned

theorem apart_of_isDigit {c : Char} (h : c.isDigit = true) :
    Gap.isBlank c = false ∧ c ≠ '#' ∧ c ≠ '\x7b' := by
  have hne (d : Char) (hd : d.isDigit = false) : c ≠ d := by
    rintro rfl
    exact Bool.false_ne_true (hd.symm.trans h)
  have hbeq (d : Char) (hd : d.isDigit = false) : (c == d) = false :=
    beq_eq_false_iff_ne.mpr (hne d hd)
  refine ⟨?_, hne '#' rfl, hne '\x7b' rfl⟩
  simp only [Gap.isBlank, hbeq ' ' rfl, hbeq '\t' rfl, hbeq '\r' rfl, hbeq '\n' rfl, Bool.or_false]

/-- Digits with the mark of natural literals behind them, and nothing that goes on with a word. -/
theorem decimal_natural {ds rest : List Char} (hdigits : ∀ c ∈ ds, c.isDigit = true)
    (hvalue : (Literal.nat? (ds ++ ['n'])).isSome = true) (hrest : Ends rest) :
    decimal [] (ds ++ 'n' :: rest) = .valid .nat (ds ++ ['n']) rest := by
  have htake : (ds ++ 'n' :: rest).takeWhile Char.isDigit = ds := by
    rw [List.takeWhile_append_of_pos hdigits]
    simp
  have hdrop : (ds ++ 'n' :: rest).dropWhile Char.isDigit = 'n' :: rest := by
    rw [List.dropWhile_append_of_pos hdigits]
    rfl
  have hpart : rest.head?.any isWordPart = false :=
    hrest.any_head? fun c hc => (not_part_of_endsWord hc).1
  simp [decimal, htake, hdrop, hpart, checked, Literal.ofLexeme?, hvalue]

/-- A natural literal has no mark of a radix. -/
theorem number_natural {ds : List Char} (hdigits : ∀ c ∈ ds, c.isDigit = true) (hne : ds ≠ [])
    (rest : List Char) : number [] (ds ++ 'n' :: rest) = decimal [] (ds ++ 'n' :: rest) := by
  have hmark (d : Char) (hd : d.isDigit = false) (hn : 'n' ≠ d) (r : List Char) :
      ds ++ 'n' :: rest ≠ '0' :: d :: r := by
    match ds, hne with
    | [c], _ => simp [hn]
    | c :: e :: es, _ =>
        have he : e.isDigit = true := hdigits e (by simp)
        rintro ⟨⟩
        exact Bool.false_ne_true (hd.symm.trans he)
  exact number_eq_decimal (hmark 'x' rfl (by decide)) (hmark 'b' rfl (by decide))

end Scanned

namespace Word

/-- A natural literal in range is scanned as a whole. -/
theorem solid_nat {n : Nat} (hn : n < 0x10000000000000000) : (⟨.nat, s!"{n}n"⟩ : Word).Solid := by
  have htext : s!"{n}n".toList = Nat.toDigits 10 n ++ ['n'] := by
    simp [toString, Nat.toList_repr]
  have hdigits : ∀ c ∈ Nat.toDigits 10 n, c.isDigit = true := fun c hc =>
    Nat.isDigit_of_mem_toDigits (by decide) (Nat.le_refl 10) hc
  have hvalue : (Literal.nat? (Nat.toDigits 10 n ++ ['n'])).isSome = true := by
    rw [Literal.nat?_toDigits hn]
    rfl
  have hne : Nat.toDigits 10 n ≠ [] := Nat.toDigits_ne_nil
  obtain ⟨c, cs, hcs⟩ := List.exists_cons_of_ne_nil hne
  have hc : c.isDigit = true := hdigits c (hcs ▸ List.mem_cons_self)
  refine ⟨⟨c, cs ++ ['n'], by rw [htext, hcs]; rfl, Scanned.apart_of_isDigit hc⟩,
    fun rest hrest signed => ?_⟩
  change Scanned.next signed (s!"{n}n".toList ++ rest) = .valid .nat s!"{n}n".toList rest
  rw [htext, ← Scanned.decimal_natural hdigits hvalue hrest,
    ← Scanned.number_natural hdigits hne rest, List.append_assoc, hcs]
  simp [Scanned.next, hc]

end Word

/-- The token that a word is at a place. -/
def Word.token (w : Word) (p : Position) (spaced : Bool) : Token :=
  ⟨w.kind, .between p (p.after w.text.toList), w.text, spaced⟩

namespace Lexing

variable {previous last last' : Option TokenKind} {p : Position} {cs ds rest : List Char}
  {ts us : List Token} {w : Word} {words : List Word}

/-- In front of some text another one is cut into these tokens, the last of which is of the kind
`last`, and nothing is wrong with it. -/
structure Cuts (previous : Option TokenKind) (p : Position) (cs rest : List Char) (ts : List Token)
    (last : Option TokenKind) : Prop where
  body : (onward previous p (cs ++ rest)).tokens.body =
    ts ++ (onward last (p.after cs) rest).tokens.body
  diagnostics : (onward previous p (cs ++ rest)).diagnostics =
    (onward last (p.after cs) rest).diagnostics

namespace Cuts

theorem append (h : Cuts previous p cs (ds ++ rest) ts last)
    (k : Cuts last (p.after cs) ds rest us last') :
    Cuts previous p (cs ++ ds) rest (ts ++ us) last' where
  body := by rw [List.append_assoc, h.body, k.body, List.append_assoc, Position.after_append]
  diagnostics := by rw [List.append_assoc, h.diagnostics, k.diagnostics, Position.after_append]

/-- Behind a gap a word is the first token. -/
theorem of_gap (gap : List Char) (htext : w.text.toList ≠ [])
    (hnext : Scanned.next (!previous.any TokenKind.endsOperand) (w.text.toList ++ rest) =
      .valid w.kind w.text.toList rest)
    (hgap : Gap.atFront (gap ++ w.text.toList ++ rest) =
      ⟨gap.length, w.text.toList ++ rest, none⟩) :
    Cuts previous p (gap ++ w.text.toList) rest
      [w.token (p.after gap) (previous.isNone || gap.length != 0)] (some w.kind) := by
  obtain ⟨c, text, htext⟩ := List.exists_cons_of_ne_nil htext
  have hrest : (Gap.atFront (gap ++ w.text.toList ++ rest)).rest = c :: (text ++ rest) := by
    rw [hgap, htext]
    rfl
  have hfirst : first previous (gap ++ w.text.toList ++ rest) =
      .valid w.kind w.text.toList rest := by
    rw [first, hgap]
    exact hnext
  have hbehind : behindGap p (gap ++ w.text.toList ++ rest) = p.after gap := by
    rw [behindGap, hgap, List.append_assoc, List.take_left]
  constructor
  · rw [(onward_of_cons hrest).1, hfirst, hbehind, hgap, Position.after_append]
    simp [Scanned.toToken, Scanned.valid, Word.token, String.ofList_toList]
  · rw [(onward_of_cons hrest).2, hfirst, hbehind, hgap, Position.after_append]
    simp [gapDiagnostics, Scanned.valid]

/-- A word is cut off, with a blank in front of it and without one. -/
theorem of_apart (blank : Bool) (htext : w.text.toList ≠ [])
    (hnext : Scanned.next (!previous.any TokenKind.endsOperand) (w.text.toList ++ rest) =
      .valid w.kind w.text.toList rest)
    (hapart : ∀ n, Gap.scan .blanks n (w.text.toList ++ rest) = ⟨n, w.text.toList ++ rest, none⟩) :
    Cuts previous p (spacing blank ++ w.text.toList) rest
      [w.token (p.after (spacing blank)) (previous.isNone || blank)] (some w.kind) := by
  cases blank with
  | false => exact of_gap [] htext hnext (hapart 0)
  | true => exact of_gap [' '] htext hnext (by
      have hscan := hapart 1
      simpa [Gap.atFront, Gap.scan, Gap.isBlank] using hscan)

theorem word (blank : Bool) (hw : w.Solid) (hends : w.EndsBefore rest) :
    Cuts previous p (spacing blank ++ w.text.toList) rest
      [w.token (p.after (spacing blank)) (previous.isNone || blank)] (some w.kind) := by
  obtain ⟨c, text, htext, hblank, hline, hblock⟩ := hw.apart
  refine of_apart blank (by simp [htext]) (hends _) fun n => ?_
  rw [htext]
  exact Gap.scan_of_not_blank hblank hline hblock n _

theorem of_stands (blank : Bool) (hw : w.Stands previous) (hrest : Scanned.Ends rest) :
    Cuts previous p (spacing blank ++ w.text.toList) rest
      [w.token (p.after (spacing blank)) (previous.isNone || blank)] (some w.kind) :=
  of_apart blank hw.text (hw.whole rest hrest) fun n => hw.apart n rest hrest

end Cuts

/-- Words behind single blanks are the tokens of their text. -/
theorem cuts_spacedOut (hline : Word.Line previous words) (hrest : Scanned.Ends rest) (p : Position) :
    ∃ ts last, List.Forall₂ Word.Becomes words ts ∧ Cuts previous p (spacedOut words) rest ts last := by
  induction hline generalizing p with
  | @nil previous => exact ⟨[], previous, .nil, by simp [spacedOut], by simp [spacedOut]⟩
  | @cons previous w words hw _ ih =>
      have hfirst : Cuts previous p (' ' :: w.text.toList) (spacedOut words ++ rest) _ _ :=
        .of_stands true hw (Scanned.ends_spacedOut words hrest)
      obtain ⟨ts, last, hts, hcuts⟩ := ih (p.after (' ' :: w.text.toList))
      exact ⟨_, last, .cons ⟨rfl, rfl, rfl⟩ hts,
        by simpa [spacedOut] using hfirst.append hcuts⟩

/-- At the end of a text nothing is left. -/
theorem onward_nil (previous : Option TokenKind) (p : Position) :
    (onward previous p []).tokens.body = [] ∧ (onward previous p []).diagnostics = [] :=
  have hgap : (Gap.atFront []).rest = [] := rfl
  ⟨(onward_of_nil hgap).1, (onward_of_nil hgap).2⟩

theorem Cuts.ofText {source : String} (h : Cuts none .start source.toList [] ts last) :
    (ofText source).tokens.body = ts ∧ (ofText source).diagnostics = [] := by
  obtain ⟨hbody, hdiagnostics⟩ := onward_nil last (Position.start.after source.toList)
  have hts := h.body
  have hclean := h.diagnostics
  rw [List.append_nil, hbody, List.append_nil] at hts
  rw [List.append_nil, hdiagnostics] at hclean
  exact ⟨hts, hclean⟩

/-- Words with single blanks between them are the tokens of their text. -/
theorem ofText_line (hline : Word.Line none (w :: words)) :
    List.Forall₂ Word.Becomes (w :: words)
        (ofText (" ".intercalate ((w :: words).map (·.text)))).tokens.body ∧
      (ofText (" ".intercalate ((w :: words).map (·.text)))).diagnostics = [] := by
  obtain - | ⟨hw, hline⟩ := hline
  have hfirst : Cuts none .start w.text.toList (spacedOut words ++ []) _ _ :=
    .of_stands false hw (Scanned.ends_spacedOut words Scanned.ends_nil)
  obtain ⟨ts, last, hts, hcuts⟩ :=
    cuts_spacedOut hline Scanned.ends_nil (Position.start.after w.text.toList)
  have hwhole := hfirst.append hcuts
  rw [← Word.toList_intercalate] at hwhole
  obtain ⟨hbody, hdiagnostics⟩ := hwhole.ofText
  exact ⟨hbody ▸ .cons ⟨rfl, rfl, rfl⟩ hts, hdiagnostics⟩

theorem ofText_spaced (hsolid : ∀ w' ∈ w :: words, w'.Solid) :
    List.Forall₂ Word.Becomes (w :: words)
        (ofText (" ".intercalate ((w :: words).map (·.text)))).tokens.body ∧
      (ofText (" ".intercalate ((w :: words).map (·.text)))).diagnostics = [] :=
  ofText_line (Word.line_of_solid hsolid none)

end Lexing

end BendSyntax
