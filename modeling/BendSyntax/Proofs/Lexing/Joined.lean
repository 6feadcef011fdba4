import BendSyntax.Proofs.Lexing.LineBreak
import Mathlib.Data.List.Forall2

/-! Two texts with a line break between them are cut into the tokens of the first and the tokens
of the second, which only stand further on. -/

namespace BendSyntax

/-! ## The tokens of a text -/

/-- A token that stands `k` bytes further on. -/
structure Token.Shifted (k : Nat) (t u : Token) : Prop where
  kind : u.kind = t.kind
  lexeme : u.lexeme = t.lexeme
  spaced : u.spaced = t.spaced
  start : u.span.start = t.span.start + k
  stop : u.span.stop = t.span.stop + k

theorem Position.offset_after {p q : Position} {k : Nat} (h : q.offset = p.offset + k)
    (cs : List Char) : (q.after cs).offset = (p.after cs).offset + k := by
  induction cs generalizing p q with
  | nil => exact h
  | cons c cs ih =>
      refine ih ?_
      unfold advance
      split <;> (dsimp only; omega)

theorem Scanned.shifted_toToken (s : Scanned) {p q : Position} {k : Nat}
    (h : q.offset = p.offset + k) (spaced : Bool) :
    (s.toToken p spaced).Shifted k (s.toToken q spaced) :=
  ⟨rfl, rfl, rfl, h, Position.offset_after h _⟩

theorem Scanned.SameBefore.toToken {more : List Char} {s t : Scanned} (h : SameBefore more s t)
    (p : Position) (spaced : Bool) : t.toToken p spaced = s.toToken p spaced := by
  simp only [Scanned.toToken, h.kind, h.text]

namespace Lexing

variable {previous : Option TokenKind} {p q : Position} {cs ys : List Char}

/-- The position behind the gap at the front of a text. -/
def behindGap (p : Position) (cs : List Char) : Position :=
  p.after (cs.take (Gap.atFront cs).length)

/-- The first token of a text, as it is scanned. -/
def first (previous : Option TokenKind) (cs : List Char) : Scanned :=
  Scanned.next (!previous.any TokenKind.endsOperand) (Gap.atFront cs).rest

theorem onward_of_nil (h : (Gap.atFront cs).rest = []) :
    (onward previous p cs).tokens.body = [] ∧
      (onward previous p cs).diagnostics = gapDiagnostics (Gap.atFront cs) p cs := by
  rw [onward]
  split
  · exact ⟨rfl, rfl⟩
  · simp_all

theorem onward_of_cons {c : Char} {rest : List Char} (h : (Gap.atFront cs).rest = c :: rest) :
    (onward previous p cs).tokens.body =
        (first previous cs).toToken (behindGap p cs)
            (previous.isNone || (Gap.atFront cs).length != 0) ::
          (onward (some (first previous cs).kind) ((behindGap p cs).after (first previous cs).text)
            (first previous cs).rest).tokens.body ∧
      (onward previous p cs).diagnostics =
        gapDiagnostics (Gap.atFront cs) p cs ++
          (first previous cs).flaws.map
            (·.toDiagnostic (behindGap p cs) (first previous cs).text) ++
          (onward (some (first previous cs).kind) ((behindGap p cs).after (first previous cs).text)
            (first previous cs).rest).diagnostics := by
  rw [onward]
  split
  · simp_all
  · rename_i c' rest' h'
    cases h.symm.trans h'
    simp [first, behindGap, h]

theorem first_rest_length {c : Char} {rest : List Char} (h : (Gap.atFront cs).rest = c :: rest) :
    (first previous cs).rest.length < cs.length := by
  have hgap := Gap.rest_length_le cs
  have hnext := Scanned.next_rest_length (!previous.any TokenKind.endsOperand) c rest
  rw [h, List.length_cons] at hgap
  rw [first, h]
  omega

/-- The tokens of a text stand further on if the text does. -/
theorem shifted_onward {k : Nat} (h : q.offset = p.offset + k) :
    List.Forall₂ (Token.Shifted k) (onward previous p cs).tokens.body
      (onward previous q cs).tokens.body := by
  induction hn : cs.length using Nat.strongRecOn generalizing previous p q cs with
  | _ n ih =>
      cases hrest : (Gap.atFront cs).rest with
      | nil =>
          rw [(onward_of_nil hrest).1, (onward_of_nil hrest).1]
          exact .nil
      | cons c rest =>
          have hgap : (behindGap q cs).offset = (behindGap p cs).offset + k :=
            Position.offset_after h _
          rw [(onward_of_cons hrest).1, (onward_of_cons hrest).1]
          refine .cons (Scanned.shifted_toToken _ hgap _) ?_
          exact ih _ (hn ▸ first_rest_length hrest) (Position.offset_after hgap _) rfl

/-! ## Diagnostics -/

/-- A text in which no string and no block comment is left open. -/
def Closed (l : Lexing) : Prop :=
  ∀ d ∈ l.diagnostics, d.message ≠ Flaw.Cause.unclosedString.message ∧
    d.message ≠ Flaw.Cause.unclosedComment.message

instance (l : Lexing) : Decidable l.Closed :=
  inferInstanceAs (Decidable (∀ d ∈ l.diagnostics, _ ∧ _))

theorem kind_of_mem_onward {d : Diagnostic} (h : d ∈ (onward previous p cs).diagnostics) :
    d.kind = .lexical := by
  induction hn : cs.length using Nat.strongRecOn generalizing previous p cs with
  | _ n ih =>
      have hgap : d ∈ gapDiagnostics (Gap.atFront cs) p cs → d.kind = .lexical := by
        unfold gapDiagnostics
        split
        · rintro (_ | ⟨_, ⟨⟩⟩)
          rfl
        · nofun
      cases hrest : (Gap.atFront cs).rest with
      | nil => exact hgap ((onward_of_nil hrest).2 ▸ h)
      | cons c rest =>
          rw [(onward_of_cons hrest).2, List.append_assoc, List.mem_append, List.mem_append,
            List.mem_map] at h
          rcases h with h | ⟨flaw, -, rfl⟩ | h
          · exact hgap h
          · rfl
          · exact ih _ (hn ▸ first_rest_length hrest) h rfl

namespace Closed

theorem gap (h : (onward previous p cs).Closed) : (Gap.atFront cs).unclosed = none := by
  by_contra hopen
  obtain ⟨n, hn⟩ := Option.ne_none_iff_exists'.mp hopen
  have hmem : ((⟨n, (Gap.atFront cs).length - n, .unclosedComment⟩ : Flaw).toDiagnostic p
      (cs.take (Gap.atFront cs).length)) ∈ (onward previous p cs).diagnostics := by
    cases hrest : (Gap.atFront cs).rest with
    | nil => simp [(onward_of_nil hrest).2, gapDiagnostics, hn]
    | cons c rest => simp [(onward_of_cons hrest).2, gapDiagnostics, hn]
  exact (h _ hmem).2 rfl

variable {c : Char} {rest : List Char} (hrest : (Gap.atFront cs).rest = c :: rest)
  (h : (onward previous p cs).Closed)

include hrest h

theorem first : ∀ flaw ∈ (first previous cs).flaws, flaw.cause ≠ .unclosedString := by
  intro flaw hflaw hcause
  have hmem : flaw.toDiagnostic (behindGap p cs) (Lexing.first previous cs).text ∈
      (onward previous p cs).diagnostics := by
    rw [(onward_of_cons hrest).2]
    simp only [List.mem_append, List.mem_map]
    exact .inl (.inr ⟨flaw, hflaw, rfl⟩)
  exact (h _ hmem).1 (congrArg Flaw.Cause.message hcause)

theorem onward : (onward (some (Lexing.first previous cs).kind)
    ((behindGap p cs).after (Lexing.first previous cs).text)
    (Lexing.first previous cs).rest).Closed := by
  intro d hd
  refine h d ?_
  rw [(onward_of_cons hrest).2]
  exact List.mem_append_right _ hd

end Closed

/-! ## Joined texts -/

theorem atFront_append_break_of_rest (h : (Gap.atFront cs).rest ≠ []) (ys : List Char) :
    Gap.atFront (cs ++ '\n' :: ys) =
      { Gap.atFront cs with rest := (Gap.atFront cs).rest ++ '\n' :: ys } :=
  Gap.scan_append_break_of_rest .blanks 0 cs ys h

theorem atFront_append_break (h : (Gap.atFront cs).rest = [])
    (hclosed : (Gap.atFront cs).unclosed = none) (ys : List Char) :
    (Gap.atFront (cs ++ '\n' :: ys)).rest = (Gap.atFront ys).rest ∧
      (Gap.atFront (cs ++ '\n' :: ys)).length = cs.length + 1 + (Gap.atFront ys).length := by
  have hscan : Gap.atFront (cs ++ '\n' :: ys) = Gap.scan .blanks (0 + (cs.length + 1)) ys :=
    Gap.scan_append_break .blanks 0 cs ys h hclosed
  have hrest := Gap.rest_scan_congr .blanks 0 (0 + (cs.length + 1)) ys
  have hlength := Gap.scan_length .blanks (0 + (cs.length + 1)) ys
  have hlength' := Gap.scan_length .blanks 0 ys
  rw [hscan, hrest]
  rw [hrest] at hlength
  refine ⟨rfl, ?_⟩
  unfold Gap.atFront
  omega

theorem first_append_break {c : Char} {rest : List Char} (hrest : (Gap.atFront cs).rest = c :: rest)
    (h : (onward previous p cs).Closed) (ys : List Char) :
    Scanned.SameBefore ('\n' :: ys) (first previous cs) (first previous (cs ++ '\n' :: ys)) := by
  have hfirst := h.first hrest
  have hne : (Gap.atFront cs).rest ≠ [] := by simp [hrest]
  simp only [first, atFront_append_break_of_rest hne ys, hrest] at hfirst ⊢
  exact Scanned.next_append_break _ c rest hfirst

end Lexing

/-! ## Keywords of items -/

namespace Scanned

theorem startsItem_checked {k : TokenKind} (hk : k.startsItem = false) (text rest : List Char) :
    (checked k text rest).kind.startsItem = false := by
  unfold checked
  split
  · exact hk
  · rfl

theorem startsItem_based (radix : Nat) (mark : String) (sign cs : List Char) :
    (based radix mark sign cs).kind.startsItem = false := by
  unfold based
  dsimp only
  split
  · rfl
  · exact startsItem_checked rfl _ _

theorem startsItem_decimal (sign cs : List Char) :
    (decimal sign cs).kind.startsItem = false := by
  unfold decimal
  dsimp only
  split
  · split_ifs
    · exact startsItem_checked rfl _ _
    · exact startsItem_checked rfl _ _
    · rfl
  · split_ifs
    · exact startsItem_checked rfl _ _
    · exact startsItem_checked rfl _ _
  · exact startsItem_checked rfl _ _

theorem startsItem_number (sign cs : List Char) : (number sign cs).kind.startsItem = false := by
  unfold number
  split
  · exact startsItem_based _ _ _ _
  · exact startsItem_based _ _ _ _
  · exact startsItem_decimal _ _

theorem ofWord?_ne_eof {w : String} {k : TokenKind} (h : TokenKind.ofWord? w = some k) :
    k ≠ .eof := by
  rintro rfl
  simp [TokenKind.ofWord?] at h

theorem ne_eof_of_startsItem {k : TokenKind} (h : k.startsItem = false) : k ≠ .eof := by
  rintro rfl
  cases h

theorem kind_word_ne_eof (cs : List Char) : (word cs).kind ≠ .eof := by
  simp only [word, valid]
  cases hword : TokenKind.ofWord? (String.ofList (cs.take (wordLength cs))) with
  | none => simp
  | some k => exact ofWord?_ne_eof hword

theorem kind_string_ne_eof (cs : List Char) : (string cs).kind ≠ .eof := by
  unfold string
  split
  · dsimp only
    split <;> simp
  · simp

theorem kind_closeChar_ne_eof (cs : List Char) (n : Nat) (flaws : List Flaw) :
    (closeChar cs n flaws).kind ≠ .eof := by
  unfold closeChar
  split
  · dsimp only
    split <;> simp
  · simp

theorem kind_char_ne_eof (cs : List Char) : (char cs).kind ≠ .eof := by
  unfold char
  split
  · simp [bad]
  · simp [bad]
  · simp [bad]
  · exact kind_closeChar_ne_eof _ _ _
  · exact kind_closeChar_ne_eof _ _ _

theorem kind_symbol_ne_eof (c : Char) (cs : List Char) : (symbol c cs).kind ≠ .eof := by
  unfold symbol
  split <;> simp [valid, bad]

theorem kind_letter_ne_eof (c : Char) (cs : List Char) : (letter c cs).kind ≠ .eof := by
  unfold letter
  split
  · rename_i h
    exact ofWord?_ne_eof h
  · simp [bad]

/-- Only at the end of a text the end is scanned. -/
theorem kind_next_ne_eof (signed : Bool) (c : Char) (cs : List Char) :
    (next signed (c :: cs)).kind ≠ .eof := by
  simp only [next]
  split_ifs
  · exact ne_eof_of_startsItem (startsItem_number _ _)
  · exact ne_eof_of_startsItem (startsItem_number _ _)
  · exact kind_word_ne_eof _
  · exact kind_string_ne_eof _
  · exact kind_char_ne_eof _
  · exact kind_symbol_ne_eof _ _
  · exact kind_letter_ne_eof _ _

/-- A keyword that begins an item is the same whether or not a number could have a sign. -/
theorem next_of_startsItem (signed : Bool) {cs : List Char}
    (h : (next true cs).kind.startsItem = true) : next signed cs = next true cs := by
  cases cs with
  | nil => rfl
  | cons c cs =>
      have hsigns : c.isDigit = true ∨ signs true c cs = false := by
        by_contra hnot
        simp only [not_or, Bool.not_eq_true, Bool.not_eq_false] at hnot
        simp [next, hnot.1, hnot.2, startsItem_number] at h
      rcases hsigns with hdigit | hsigns
      · simp [next, hdigit]
      · have hsigns' : signs signed c cs = false := by
          cases signed with
          | true => exact hsigns
          | false => rfl
        simp only [next, hsigns, hsigns']

end Scanned

/-! ## Joined texts -/

namespace Lexing

variable {previous : Option TokenKind} {p q : Position} {cs ys : List Char}

theorem kind_of_mem_body {t : Token} (h : t ∈ (onward previous p cs).tokens.body) :
    t.kind ≠ .eof := by
  induction hn : cs.length using Nat.strongRecOn generalizing previous p cs with
  | _ n ih =>
      cases hrest : (Gap.atFront cs).rest with
      | nil => simp [(onward_of_nil hrest).1] at h
      | cons c rest =>
          rw [(onward_of_cons hrest).1, List.mem_cons] at h
          rcases h with rfl | h
          · simp only [Scanned.toToken, first, hrest]
            exact Scanned.kind_next_ne_eof _ _ _
          · exact ih _ (hn ▸ first_rest_length hrest) h rfl

/-- Whether the first token of a text begins an item. -/
def opensItem (l : Lexing) : Bool := l.tokens.body.head?.any (·.kind.startsItem)

/-- A text with a first token that begins an item. -/
theorem rest_of_opensItem (h : (onward none p ys).opensItem = true) :
    ∃ c rest, (Gap.atFront ys).rest = c :: rest ∧
      (Scanned.next true (c :: rest)).kind.startsItem = true := by
  cases hrest : (Gap.atFront ys).rest with
  | nil => simp [opensItem, (onward_of_nil hrest).1] at h
  | cons c rest =>
      refine ⟨c, rest, rfl, ?_⟩
      simpa [opensItem, (onward_of_cons hrest).1, Scanned.toToken, first, hrest] using h

/-- Behind the end of one text and a line break the tokens of another text follow. -/
theorem shifted_onward_of_nil (hrest : (Gap.atFront cs).rest = [])
    (hclosed : (Gap.atFront cs).unclosed = none)
    (hitem : (onward none .start ys).opensItem = true) :
    ∃ k, List.Forall₂ (Token.Shifted k) (onward none .start ys).tokens.body
      (onward previous p (cs ++ '\n' :: ys)).tokens.body := by
  obtain ⟨c, rest, hys, hkind⟩ := rest_of_opensItem hitem
  obtain ⟨hjoined, hlength⟩ := atFront_append_break hrest hclosed ys
  rw [hys] at hjoined
  have hfirst : first previous (cs ++ '\n' :: ys) = first none ys := by
    simp only [first, hjoined, hys]
    exact Scanned.next_of_startsItem _ hkind
  have hgap : (behindGap p (cs ++ '\n' :: ys)).offset =
      (behindGap .start ys).offset + (p.after (cs ++ ['\n'])).offset := by
    have htake : (cs ++ '\n' :: ys).take (cs.length + 1 + (Gap.atFront ys).length) =
        (cs ++ ['\n']) ++ ys.take (Gap.atFront ys).length := by
      have hlen : cs.length + 1 = (cs ++ ['\n']).length := by simp
      rw [List.append_cons, hlen, List.take_length_add_append]
    rw [behindGap, hlength, htake, Position.after_append]
    exact Position.offset_after (Nat.zero_add _).symm _
  refine ⟨(p.after (cs ++ ['\n'])).offset, ?_⟩
  rw [(onward_of_cons hys).1, (onward_of_cons hjoined).1, hfirst]
  refine .cons ?_ (shifted_onward (Position.offset_after hgap _))
  have hspaced : (previous.isNone || (Gap.atFront (cs ++ '\n' :: ys)).length != 0) = true := by
    simp [hlength]
  rw [hspaced]
  exact Scanned.shifted_toToken _ hgap true

/-- Joined texts have the tokens of the first and, further on, the tokens of the second. -/
theorem body_onward_append_break (hclosed : (onward previous p cs).Closed)
    (hitem : (onward none .start ys).opensItem = true) :
    ∃ k body, (onward previous p (cs ++ '\n' :: ys)).tokens.body =
        (onward previous p cs).tokens.body ++ body ∧
      List.Forall₂ (Token.Shifted k) (onward none .start ys).tokens.body body := by
  induction hn : cs.length using Nat.strongRecOn generalizing previous p cs with
  | _ n ih =>
      cases hrest : (Gap.atFront cs).rest with
      | nil =>
          obtain ⟨k, hk⟩ := shifted_onward_of_nil hrest hclosed.gap hitem
          exact ⟨k, _, by rw [(onward_of_nil hrest).1, List.nil_append], hk⟩
      | cons c rest =>
          have hsame := first_append_break hrest hclosed ys
          have hfront := atFront_append_break_of_rest (hrest ▸ List.cons_ne_nil c rest) ys
          have hle : (Gap.atFront cs).length ≤ cs.length := by
            have := Gap.scan_length .blanks 0 cs
            unfold Gap.atFront
            omega
          obtain ⟨k, body, hbody, hk⟩ :=
            ih _ (hn ▸ first_rest_length hrest) (hclosed.onward hrest) rfl
          refine ⟨k, body, ?_, hk⟩
          have hjoined : (Gap.atFront (cs ++ '\n' :: ys)).rest = c :: (rest ++ '\n' :: ys) := by
            rw [hfront, hrest]
            rfl
          have hgap : behindGap p (cs ++ '\n' :: ys) = behindGap p cs := by
            rw [behindGap, hfront, List.take_append_of_le_length hle, behindGap]
          rw [(onward_of_cons hjoined).1, (onward_of_cons hrest).1, hsame.toToken, hsame.kind,
            hsame.text, hsame.rest, hgap, hbody, hfront, List.cons_append]

/-- Two texts with a line break between them. -/
theorem body_ofText_append {source more : String} (hclosed : (ofText source).Closed)
    (hitem : (ofText more).opensItem = true) :
    ∃ k body, (ofText (source ++ "\n" ++ more)).tokens.body =
        (ofText source).tokens.body ++ body ∧
      List.Forall₂ (Token.Shifted k) (ofText more).tokens.body body := by
  have htext : (source ++ "\n" ++ more).toList = source.toList ++ '\n' :: more.toList := by
    simp
  unfold ofText at *
  rw [htext]
  exact body_onward_append_break hclosed hitem

end Lexing

end BendSyntax
