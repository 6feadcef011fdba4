import BendSyntax.Proofs.Lexing.Rejoined

/-! Literals as they are written: natural numbers and integers in decimal notation, truth values,
and characters and strings with escapes for what cannot stand between quotation marks. The lexer
takes each of them for one token with the value that was written. -/

namespace BendSyntax

/-- A literal that is not a floating-point number. -/
inductive Constant where
  | nat (n : UInt64)
  | int (i : Int64)
  | bool (b : Bool)
  | char (c : Char)
  | str (s : String)
  deriving DecidableEq

namespace Escape

/-- A character as it is written between quotation marks. -/
def written : Char → List Char
  | '\n' => ['\\', 'n']
  | '\t' => ['\\', 't']
  | '\r' => ['\\', 'r']
  | '\x00' => ['\\', '0']
  | '\\' => ['\\', '\\']
  | '\'' => ['\\', '\'']
  | '"' => ['\\', '"']
  | c => [c]

end Escape

namespace Constant

def value : Constant → Literal
  | nat n => .nat n.toNat
  | int i => .int i.toInt
  | bool b => .bool b
  | char c => .char c
  | str s => .str s

/-- The token that a literal is written as. -/
def word : Constant → Word
  | nat n => ⟨.nat, s!"{n.toNat}n"⟩
  | int i => ⟨.int, toString i.toInt⟩
  | bool true => ⟨.word .true, "True"⟩
  | bool false => ⟨.word .false, "False"⟩
  | char c => ⟨.char, String.ofList ('\'' :: (Escape.written c ++ ['\'']))⟩
  | str s => ⟨.str, String.ofList ('"' :: (s.toList.flatMap Escape.written ++ ['"']))⟩

end Constant

/-! ## Escapes -/

namespace Escape

/-- A character stands for itself, or it is written with a letter that stands for it. -/
theorem written_cases (c : Char) :
    (written c = [c] ∧ c ≠ '\\' ∧ c ≠ '"' ∧ c ≠ '\'' ∧ c ≠ '\n') ∨
      ∃ l, written c = ['\\', l] ∧ letter? l = some c ∧ l ≠ 'u' := by
  unfold written
  split
  case h_8 => exact .inl ⟨rfl, by assumption, by assumption, by assumption, by assumption⟩
  all_goals exact .inr ⟨_, rfl, rfl, by decide⟩

theorem decode?_plain {c : Char} (h : c ≠ '\\') (cs : List Char) :
    decode? (c :: cs) = (decode? cs).map (c :: ·) := by
  rw [decode?]
  · exact if_neg h
  · rintro a b d e ds rfl
    exact absurd rfl h
  · rintro a ds rfl
    exact absurd rfl h

theorem decode?_letter {l c : Char} (h : letter? l = some c) (hl : l ≠ 'u') (cs : List Char) :
    decode? ('\\' :: l :: cs) = (decode? cs).map (c :: ·) := by
  rw [decode?]
  · rw [h]
  · rintro a b d e ds rfl
    exact absurd rfl hl

/-- What is written is decoded again. -/
theorem decode?_written (c : Char) (cs : List Char) :
    decode? (written c ++ cs) = (decode? cs).map (c :: ·) := by
  rcases written_cases c with ⟨hwritten, hback, -⟩ | ⟨l, hwritten, hletter, hl⟩
  · rw [hwritten]
    exact decode?_plain hback cs
  · rw [hwritten]
    exact decode?_letter hletter hl cs

theorem decode?_flatMap_written (cs : List Char) : decode? (cs.flatMap written) = some cs := by
  induction cs with
  | nil => rfl
  | cons c cs ih => rw [List.flatMap_cons, decode?_written, ih]; rfl

end Escape

namespace Scanned

open Escape (written)

/-! ## Characters and strings -/

theorem stringLength?_written (c : Char) (cs : List Char) :
    stringLength? (written c ++ cs) = (stringLength? cs).map (· + (written c).length) := by
  rcases Escape.written_cases c with ⟨hwritten, hback, hquote, -⟩ | ⟨l, hwritten, -, -⟩
  · rw [hwritten, List.singleton_append, stringLength?]
    · exact if_neg hquote
    · rintro d ds rfl
      exact absurd rfl hback
  · rw [hwritten]
    rfl

theorem stringLength?_flatMap_written (cs rest : List Char) :
    stringLength? (cs.flatMap written ++ '"' :: rest) = some (cs.flatMap written).length := by
  induction cs with
  | nil => rfl
  | cons c cs ih =>
      rw [List.flatMap_cons, List.append_assoc, stringLength?_written, ih, List.length_append,
        Option.map_some, Nat.add_comm]

theorem escapeFlaw_letter {l c : Char} (h : Escape.letter? l = some c) (hl : l ≠ 'u') (n : Nat)
    (cs : List Char) : escapeFlaw n (l :: cs) = [] ∧ (escape (l :: cs)).1 = 1 := by
  have hescape : escape (l :: cs) = (1, none) := by
    rw [escape]
    · simp [h]
    · exact hl
  simp [escapeFlaw, hescape]

theorem escapeFlaws_written (c : Char) (n : Nat) (cs : List Char) :
    escapeFlaws n (written c ++ cs) = escapeFlaws (n + (written c).length) cs := by
  rcases Escape.written_cases c with ⟨hwritten, hback, -⟩ | ⟨l, hwritten, hletter, hl⟩
  · rw [hwritten, List.singleton_append, escapeFlaws]
    · rfl
    · rintro d ds rfl
      exact absurd rfl hback
  · rw [hwritten]
    simp [escapeFlaws, (escapeFlaw_letter hletter hl n cs).1]

theorem escapeFlaws_flatMap_written (cs : List Char) (n : Nat) :
    escapeFlaws n (cs.flatMap written) = [] := by
  induction cs generalizing n with
  | nil => rfl
  | cons c cs ih => rw [List.flatMap_cons, escapeFlaws_written, ih]

theorem string_of_closed {body rest : List Char}
    (hlength : stringLength? (body ++ '"' :: rest) = some body.length)
    (hflaws : escapeFlaws 1 body = []) :
    string (body ++ '"' :: rest) = valid .str ('"' :: (body ++ ['"'])) rest := by
  have htake : (body ++ '"' :: rest).take body.length = body := List.take_left
  have hmore : body ++ '"' :: rest = body ++ ['"'] ++ rest := by simp
  have htake' : (body ++ '"' :: rest).take (body.length + 1) = body ++ ['"'] := by
    rw [hmore]
    exact List.take_left' (by simp)
  have hdrop : (body ++ '"' :: rest).drop (body.length + 1) = rest := by
    rw [hmore]
    exact List.drop_left' (by simp)
  simp only [string, hlength, htake, htake', hdrop, hflaws, List.isEmpty_nil, if_true, valid]

/-- A written string is scanned as a whole. -/
theorem string_written (cs rest : List Char) : string (cs.flatMap written ++ '"' :: rest) =
    valid .str ('"' :: (cs.flatMap written ++ ['"'])) rest :=
  string_of_closed (stringLength?_flatMap_written cs rest) (escapeFlaws_flatMap_written cs 1)

/-- A written character is scanned as a whole. -/
theorem char_written (c : Char) (rest : List Char) : char (written c ++ '\'' :: rest) =
    valid .char ('\'' :: (written c ++ ['\''])) rest := by
  rcases Escape.written_cases c with ⟨hwritten, hback, -, hquote, hbreak⟩ | ⟨l, hwritten, hletter, hl⟩
  · rw [hwritten, List.singleton_append, char_cons hbreak hquote hback]
    exact @closeChar_of_closed [c] 1 rfl rest
  · obtain ⟨hflaws, hwidth⟩ := escapeFlaw_letter hletter hl 1 ('\'' :: rest)
    have hescape : char ('\\' :: l :: '\'' :: rest) = closeChar ('\\' :: l :: '\'' :: rest)
        ((escape (l :: '\'' :: rest)).1 + 1) (escapeFlaw 1 (l :: '\'' :: rest)) := rfl
    rw [hwritten]
    change char ('\\' :: l :: '\'' :: rest) = _
    rw [hescape, hflaws, hwidth]
    exact @closeChar_of_closed ['\\', l] 2 rfl rest

end Scanned

/-! ## Numbers -/

theorem isDigit_of_mem_toDigits {n : Nat} {c : Char} (h : c ∈ Nat.toDigits 10 n) : c.isDigit = true :=
  Nat.isDigit_of_mem_toDigits (by decide) (Nat.le_refl 10) h

/-- A decimal number has no character that is not a digit. -/
theorem toDigits_ne {n : Nat} {d : Char} (hd : d.isDigit = false) {front back : List Char} :
    Nat.toDigits 10 n ≠ front ++ d :: back := by
  intro heq
  have hmem : d ∈ Nat.toDigits 10 n := by
    rw [heq]
    exact List.mem_append_right _ List.mem_cons_self
  exact Bool.false_ne_true (hd.symm.trans (isDigit_of_mem_toDigits hmem))

theorem exists_toDigits_eq (n : Nat) :
    ∃ c cs, Nat.toDigits 10 n = c :: cs ∧ c.isDigit = true := by
  obtain ⟨c, cs, hcs⟩ := List.exists_cons_of_ne_nil (@Nat.toDigits_ne_nil n 10)
  exact ⟨c, cs, hcs, isDigit_of_mem_toDigits (hcs ▸ List.mem_cons_self)⟩

theorem toList_toString_ofNat (n : Nat) : (toString (n : Int)).toList = Nat.toDigits 10 n := by
  change (Nat.repr n).toList = _
  exact Nat.toList_repr

theorem toList_toString_negSucc (n : Nat) :
    (toString (Int.negSucc n)).toList = '-' :: Nat.toDigits 10 (n + 1) := by
  change ("-" ++ Nat.repr (n + 1)).toList = _
  rw [String.toList_append, Nat.toList_repr]
  rfl

/-- An integer is written as the digits of a natural number, perhaps with a sign in front. -/
theorem toList_toString_cases (i : Int) :
    (∃ n : Nat, i = n ∧ (toString i).toList = Nat.toDigits 10 n) ∨
      ∃ n : Nat, i = -n ∧ (toString i).toList = '-' :: Nat.toDigits 10 n := by
  cases i with
  | ofNat n => exact .inl ⟨n, rfl, toList_toString_ofNat n⟩
  | negSucc n => exact .inr ⟨n + 1, Int.negSucc_eq n, toList_toString_negSucc n⟩

namespace Literal

theorem magnitude?_toDigits (n : Nat) : magnitude? (Nat.toDigits 10 n) = some (n : Int) := by
  have hvalue : Numeral.signed? 10 (Nat.toDigits 10 n) = some (n : Int) := by
    unfold Numeral.signed?
    split
    · exact absurd ‹_› (@toDigits_ne n '+' rfl [] _)
    · exact absurd ‹_› (@toDigits_ne n '-' rfl [] _)
    · rw [Numeral.value?_toDigits]
      rfl
  unfold magnitude?
  split
  · exact absurd ‹_› (@toDigits_ne n 'x' rfl ['0'] _)
  · exact absurd ‹_› (@toDigits_ne n 'b' rfl ['0'] _)
  · exact hvalue

/-- The decimal notation of an integer denotes it. -/
theorem int?_toString {i : Int} (hmin : -0x8000000000000000 ≤ i) (hmax : i < 0x8000000000000000) :
    int? (toString i).toList = some i := by
  unfold int?
  obtain ⟨n, rfl, htext⟩ | ⟨n, rfl, htext⟩ := toList_toString_cases i
  · rw [htext]
    split
    · exact absurd ‹_› (@toDigits_ne n '-' rfl [] _)
    · exact absurd ‹_› (@toDigits_ne n '+' rfl [] _)
    · rw [magnitude?_toDigits]
      exact if_pos ⟨hmin, hmax⟩
  · simp only [htext, magnitude?_toDigits, Option.map_some]
    exact if_pos ⟨hmin, hmax⟩

theorem unquote?_quoted (mark : Char) (cs : List Char) :
    unquote? mark (mark :: (cs ++ [mark])) = some cs := by
  simp [unquote?]

end Literal

namespace Constant

theorem toInt_range (i : Int64) : -0x8000000000000000 ≤ i.toInt ∧ i.toInt < 0x8000000000000000 :=
  ⟨i.le_toInt, i.toInt_lt⟩

/-- What is written denotes what was meant. -/
theorem ofLexeme?_word (l : Constant) :
    Literal.ofLexeme? l.word.kind l.word.text.toList = some l.value := by
  cases l with
  | nat n =>
      have htext : s!"{n.toNat}n".toList = Nat.toDigits 10 n.toNat ++ ['n'] := by
        simp [toString, Nat.toList_repr]
      have hvalue := Literal.nat?_toDigits n.toNat_lt
      simp only [word, value, htext, Literal.ofLexeme?, hvalue, Option.map_some]
  | int i =>
      have hvalue := Literal.int?_toString (toInt_range i).1 (toInt_range i).2
      simp only [word, value, Literal.ofLexeme?, hvalue, Option.map_some]
  | bool b => cases b <;> rfl
  | char c =>
      have hdecode : Escape.decode? (Escape.written c) = some [c] := by
        simpa using Escape.decode?_flatMap_written [c]
      simp [word, value, Literal.ofLexeme?, Literal.char?, Literal.unquote?_quoted, hdecode]
  | str s =>
      simp [word, value, Literal.ofLexeme?, Literal.str?, Literal.unquote?_quoted,
        Escape.decode?_flatMap_written]

end Constant

namespace Scanned

/-- An integer is scanned as a whole where it may have a sign. -/
theorem next_int (i : Int64) {rest : List Char} (hrest : Ends rest) :
    next true ((toString i.toInt).toList ++ rest) = valid .int (toString i.toInt).toList rest := by
  have hvalue := (Constant.int i).ofLexeme?_word
  simp only [Constant.word, Constant.value] at hvalue
  have hscan (sign : List Char) (n : Nat) (htext : (toString i.toInt).toList = sign ++ Nat.toDigits 10 n) :
      number sign (Nat.toDigits 10 n ++ rest) = valid .int (toString i.toInt).toList rest := by
    have hdecimal : number sign (Nat.toDigits 10 n ++ rest) = decimal sign (Nat.toDigits 10 n ++ rest) :=
      @number_eq_decimal_of_ends (Nat.toDigits 10 n) [] rest sign
        (fun r => by rw [List.append_nil]; exact @toDigits_ne n 'x' rfl ['0'] r)
        (fun r => by rw [List.append_nil]; exact @toDigits_ne n 'b' rfl ['0'] r) hrest
    rw [hdecimal, decimal_of_ends sign (fun _ => isDigit_of_mem_toDigits) hrest, ← htext]
    exact if_pos (by rw [hvalue]; rfl)
  obtain ⟨n, -, htext⟩ | ⟨n, -, htext⟩ := toList_toString_cases i.toInt
  · obtain ⟨c, cs, hcs, hc⟩ := exists_toDigits_eq n
    have hnext := hscan [] n htext
    rw [htext] at hnext ⊢
    rw [hcs] at hnext ⊢
    simpa [next, hc] using hnext
  · obtain ⟨c, cs, hcs, hc⟩ := exists_toDigits_eq n
    have hnext := hscan ['-'] n htext
    rw [htext] at hnext ⊢
    rw [hcs] at hnext ⊢
    simpa [next, signs, hc] using hnext

end Scanned

theorem Word.Stands.of_apart {w : Word} {previous : Option TokenKind} {c : Char} {cs : List Char}
    (htext : w.text.toList = c :: cs) (hapart : Gap.isBlank c = false ∧ c ≠ '#' ∧ c ≠ '\x7b')
    (hwhole : ∀ rest, Scanned.Ends rest →
      Scanned.next (!previous.any TokenKind.endsOperand) (w.text.toList ++ rest) =
        .valid w.kind w.text.toList rest) : w.Stands previous where
  text := htext ▸ List.cons_ne_nil c cs
  apart n rest _ := by
    obtain ⟨hblank, hline, hblock⟩ := hapart
    rw [htext]
    exact Gap.scan_of_not_blank hblank hline hblock n _
  whole := hwhole

namespace Constant

/-- Where a sign belongs to a number, a literal is a token. -/
theorem stands (l : Constant) {previous : Option TokenKind}
    (h : previous.any TokenKind.endsOperand = false) : l.word.Stands previous := by
  cases l with
  | nat n => exact (Word.solid_nat n.toNat_lt).stands previous
  | int i =>
      obtain ⟨c, cs, hcs, hapart⟩ : ∃ c cs, (toString i.toInt).toList = c :: cs ∧
          Gap.isBlank c = false ∧ c ≠ '#' ∧ c ≠ '\x7b' := by
        obtain ⟨n, -, htext⟩ | ⟨n, -, htext⟩ := toList_toString_cases i.toInt
        · obtain ⟨c, cs, hcs, hc⟩ := exists_toDigits_eq n
          exact ⟨c, cs, htext.trans hcs, Scanned.apart_of_isDigit hc⟩
        · exact ⟨'-', _, htext, by decide⟩
      refine .of_apart hcs hapart fun rest hrest => ?_
      rw [h]
      exact Scanned.next_int i hrest
  | bool b =>
      cases b
      · exact (@Word.solid_word "False" (by decide) (by decide)).stands previous
      · exact (@Word.solid_word "True" (by decide) (by decide)).stands previous
  | char c =>
      have htext : (word (char c)).text.toList = '\'' :: (Escape.written c ++ ['\'']) :=
        String.toList_ofList
      refine .of_apart htext (by decide) fun rest _ => ?_
      have hscan := Scanned.char_written c rest
      rw [htext]
      simpa [Scanned.next, Scanned.signs, Scanned.isWordStart, word] using hscan
  | str s =>
      have htext : (word (str s)).text.toList = '"' :: (s.toList.flatMap Escape.written ++ ['"']) :=
        String.toList_ofList
      refine .of_apart htext (by decide) fun rest _ => ?_
      have hscan := Scanned.string_written s.toList rest
      rw [htext]
      simpa [Scanned.next, Scanned.signs, Scanned.isWordStart, word] using hscan

end Constant

end BendSyntax
