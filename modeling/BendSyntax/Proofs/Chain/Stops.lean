import BendSyntax.Proofs.Chain.Links

/-! Where a chain ends: at the end of the text, in front of a comma, a semicolon or a closing
bracket, and, as the slot says, in front of a brace or of the head of the next case. -/

namespace BendSyntax

open Reading Grammar

/-- Marks that end an expression in any slot. -/
def TokenKind.closes (k : TokenKind) : Prop :=
  k = .mark .semicolon ∨ k = .mark .comma ∨ k = .mark .rightBrace ∨ k = .mark .rightParen ∨
    k = .mark .rightBracket

/-- Tokens in front of which every expression in a slot ends. -/
inductive Stop (s : Slot) : List Token → Prop
  | eof : Stop s []
  | mark {t : Token} {ts : List Token} (h : t.kind.closes) : Stop s (t :: ts)
  | brace {t : Token} {ts : List Token} (hslot : s.noBrace = true) (ht : t.kind = .mark .leftBrace)
      (hts : ∀ u ∈ ts.head?, u.kind ≠ .mark .comma) : Stop s (t :: ts)
  | head {ts : List Token} (hslot : s.caseHeads = true)
      (hhead : ∀ c : Cursor, c.Faces [] ts → c.caseHead?.isSome = true) : Stop s ts

theorem Stop.withUsage {s : Slot} {ts : List Token} (h : Stop s ts) (usage : Usage) :
    Stop (s.withUsage usage) ts := by
  cases h with
  | eof => exact .eof
  | mark h => exact .mark h
  | brace hslot ht hts => exact .brace hslot ht hts
  | head hslot hhead => exact .head hslot hhead

namespace Cursor

/-- With what a head can begin. -/
theorem kind_of_caseHead? {c : Cursor} (h : c.caseHead?.isSome = true) :
    c.kind ≠ .mark .colon ∧ c.kind ≠ .mark .equals ∧
      (c.kind = .mark .leftBrace → c.kindAt 1 ≠ .mark .comma) := by
  unfold caseHead? at h
  split at h <;> simp_all

namespace Faces

variable {c : Cursor} {s : Slot} {more : List Token} {l : Link} {links : List Link}

/-- In front of a stop neither an operator nor an argument is taken. -/
theorem settled (h : c.Faces [] more) (hstop : Stop s more) (min : Level) : c.Settled s min := by
  cases hstop with
  | eof =>
      have hkind := h.kind_nil
      exact .inr ⟨by simp [operator?, hkind, Infix.ofKind?],
        fun _ => by simp [juxtaposes, startsArgument, hkind, opensArgument]⟩
  | mark ht =>
      have hkind := h.kind_more ▸ ht
      refine .inr ⟨?_, fun _ => ?_⟩ <;>
        rcases hkind with hkind | hkind | hkind | hkind | hkind <;>
        simp [operator?, hkind, Infix.ofKind?, Infix.ofSymbol?, juxtaposes, startsArgument,
          opensArgument]
  | brace hslot ht =>
      have hkind := h.kind_more.trans ht
      exact .inr ⟨by simp [operator?, hkind, Infix.ofKind?, Infix.ofSymbol?],
        fun _ => by simp [juxtaposes, hkind, bracesOperand, hslot]⟩
  | head hslot hhead => exact .inl (by simp [atHead, atCaseHead, hslot, hhead c h])

/-- In front of a stop nothing goes on with a name and its type, or with a label. -/
theorem kind_stop (h : c.Faces [] more) (hstop : Stop s more) :
    c.kind ≠ .mark .colon ∧ c.kind ≠ .mark .equals ∧
      (c.kind = .mark .leftBrace → c.kindAt 1 ≠ .mark .comma) := by
  cases hstop with
  | eof => simp [h.kind_nil]
  | mark ht => rcases ht with ht | ht | ht | ht | ht <;> simp [h.kind_more, ht]
  | @brace t ts hslot ht hts =>
      refine ⟨by simp [h.kind_more, ht], by simp [h.kind_more, ht], fun _ => ?_⟩
      have hrest := h.rest_nil
      cases ts with
      | nil => simp [kindAt, tokenAt, hrest, h.eof]
      | cons u us => simpa [kindAt, tokenAt, hrest] using hts u rfl
  | head hslot hhead => exact kind_of_caseHead? (hhead c h)

/-! ### In front of links -/

/-- What follows a link or an operand of a chain. -/
theorem kind_links (h : c.Faces (Link.words links) more) (hstop : Stop s more) :
    c.kind ≠ .mark .colon ∧ c.kind ≠ .mark .equals ∧
      (c.kind = .mark .leftBrace → c.kindAt 1 ≠ .mark .comma) := by
  cases links with
  | nil => exact h.kind_stop hstop
  | cons l links =>
      have hentry := l.entry
      have hkind : c.kind = l.kind := h.kind
      refine ⟨fun hc => ?_, fun hc => l.notAssignment (hkind ▸ hc), fun hc => ?_⟩
      · rw [← hkind, hc] at hentry
        cases hentry
      · rw [← hkind, hc] at hentry
        cases hentry

/-- An operator is not the head of a case. -/
theorem not_atHead (h : c.Faces (Link.words (l :: links)) more) (hstop : Stop s more) :
    c.atHead s = false := by
  have hkind : c.kind = l.kind := h.kind
  have hname : c.kindAt 1 = .ident := by
    rw [h.kindAt_succ 0]
    exact h.advance.kind
  have hbehind := h.advance.advance.kind_links hstop
  have htwo : c.kindAt 2 = c.advance.advance.kind := by
    rw [h.kindAt_succ 1, h.advance.kindAt_succ 0]
    rfl
  have hthree : c.kindAt 3 = c.advance.advance.kindAt 1 := by
    rw [h.kindAt_succ 2, h.advance.kindAt_succ 1]
  rw [← htwo, ← hthree] at hbehind
  obtain ⟨hcolon, -, hcomma⟩ := hbehind
  have hhead : c.caseHead? = none := by
    have hentry := l.entry
    rw [← hkind] at hentry
    unfold caseHead?
    split <;> simp_all [Infix.ofKind?, Infix.ofSymbol?]
  have hident : c.kind ≠ .ident := fun hc => by
    have hentry := l.entry
    rw [← hkind, hc] at hentry
    cases hentry
  simp [atHead, atCaseHead, atFieldHead, hhead, hident]

/-- Behind a name nothing but an operator can follow. -/
theorem not_juxtaposes (h : c.Faces (Link.words (l :: links)) more) (s : Slot) :
    c.juxtaposes s = false := by
  obtain ⟨hopens, hbrace⟩ := Infix.not_opensArgument l.entry
  have htight : c.tightAt 1 = false := by
    rw [tightAt, Token.isTight, h.tokenAt_one.spaced]
    rfl
  simp [juxtaposes, startsArgument, h.kind, hopens, hbrace, htight]

theorem operator?_cons (h : c.Faces (Link.words (l :: links)) more) (hslot : s.noDot = false)
    (min : Level) : operator? c s min = if l.operator.level < min then none else some l.operator := by
  simp [operator?, h.kind, l.entry, hslot]

end Faces

end Cursor

end BendSyntax
