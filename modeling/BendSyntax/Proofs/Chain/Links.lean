import BendSyntax.Proofs.Chain.Grouping
import BendSyntax.Proofs.Layout.Climbing
import BendSyntax.Proofs.Layout.Cursors
import BendSyntax.Proofs.Lexing.Spaced

/-! Chains of names with operators between them as texts, as words and as tokens in front of a
cursor. -/

namespace BendSyntax

open Grammar

/-- A name: a word that is not reserved. -/
structure Identifier where
  text : String
  begins : text.toList.head?.any Scanned.isWordStart = true
  whole : Scanned.wordLength text.toList = text.length
  free : TokenKind.ofWord? text = none

/-- An operator of the table, other than `=`, with the name behind it. -/
structure Link where
  kind : TokenKind
  operator : Infix
  name : Identifier
  entry : Infix.ofKind? kind = some operator
  notAssignment : kind ≠ .mark .equals

/-- The text of a chain: names and operators with single blanks between them. -/
def chainText (first : Identifier) (links : List Link) : String :=
  " ".intercalate (first.text :: links.flatMap fun l => [l.kind.name, l.name.text])

def Identifier.word (x : Identifier) : Word := ⟨.ident, x.text⟩

namespace Link

def words (links : List Link) : List Word :=
  links.flatMap fun l => [⟨l.kind, l.kind.name⟩, l.name.word]

/-- What a link adds to a grouping. -/
def step (l : Link) : InfixForm × String := (l.operator.form, l.name.text)

theorem binding (l : Link) : l.operator.form.binding = l.operator :=
  Infix.binding_of_ofKind? l.entry

@[simp] theorem words_nil : words [] = [] := rfl

@[simp] theorem words_cons (l : Link) (links : List Link) :
    words (l :: links) = ⟨l.kind, l.kind.name⟩ :: l.name.word :: words links := rfl

theorem length_words (links : List Link) : (words links).length = 2 * links.length := by
  induction links with
  | nil => rfl
  | cons l links ih =>
      simp only [words_cons, List.length_cons, ih]
      omega

end Link

/-! ## Words -/

theorem Identifier.solid (x : Identifier) : x.word.Solid := by
  have hsolid := Word.solid_word x.begins x.whole
  rwa [x.free] at hsolid

namespace Link

theorem solid (l : Link) : (⟨l.kind, l.kind.name⟩ : Word).Solid := by
  obtain ⟨kind, operator, name, entry, -⟩ := l
  unfold Infix.ofKind? at entry
  split at entry
  · refine Word.solid_symbol ?_
    rintro rfl
    cases entry
  · exact @Word.solid_word "or" (by decide) (by decide)
  · exact @Word.solid_word "xor" (by decide) (by decide)
  · exact @Word.solid_word "and" (by decide) (by decide)
  · cases entry

theorem solid_of_mem_words {links : List Link} {w : Word} (h : w ∈ words links) : w.Solid := by
  simp only [words, List.mem_flatMap, List.mem_cons, List.not_mem_nil, or_false] at h
  obtain ⟨l, -, rfl | rfl⟩ := h
  · exact l.solid
  · exact l.name.solid

end Link

theorem chainText_eq (first : Identifier) (links : List Link) :
    chainText first links = " ".intercalate ((first.word :: Link.words links).map (·.text)) := by
  simp [chainText, Link.words, Identifier.word, List.map_flatMap]

/-! ## Cursors -/

/-- No operator but `&` can begin an argument. -/
theorem Infix.not_opensArgument {k : TokenKind} {i : Infix} (h : ofKind? k = some i) :
    Cursor.opensArgument k = false ∧ k ≠ .mark .leftBrace := by
  unfold ofKind? at h
  split at h
  · unfold ofSymbol? at h
    split at h <;> cases h <;> decide
  all_goals cases h <;> decide

namespace Cursor

/-- A cursor in front of words, with more tokens behind them. -/
structure Faces (c : Cursor) (words : List Word) (more : List Token) : Prop where
  rest : ∃ ts, List.Forall₂ Word.Becomes words ts ∧ c.rest = ts ++ more
  eof : c.eof.kind = .eof
  split : c.split = false

namespace Faces

variable {c : Cursor} {w w' : Word} {words : List Word} {more : List Token} {l : Link}
  {links : List Link}

theorem remaining (h : c.Faces words more) :
    c.remaining = 2 * (words.length + more.length) + 1 := by
  obtain ⟨ts, hts, hrest⟩ := h.rest
  rw [Cursor.remaining, h.split, hrest, List.length_append, hts.length_eq]
  rfl

theorem rest_nil (h : c.Faces [] more) : c.rest = more := by
  obtain ⟨ts, hts, hrest⟩ := h.rest
  rwa [List.forall₂_nil_left_iff.mp hts] at hrest

theorem kind_nil (h : c.Faces [] []) : c.kind = .eof := by
  rw [kind_of_not_split h.split, token_of_nil h.rest_nil, h.eof]

theorem kind_more {t : Token} {ts : List Token} (h : c.Faces [] (t :: ts)) : c.kind = t.kind := by
  rw [kind_of_not_split h.split, token_of_cons h.rest_nil]

theorem rest_cons (h : c.Faces (w :: words) more) :
    ∃ t ts, w.Becomes t ∧ List.Forall₂ Word.Becomes words ts ∧ c.rest = t :: (ts ++ more) := by
  obtain ⟨ts, hts, hrest⟩ := h.rest
  obtain ⟨t, us, ht, hus, rfl⟩ := List.forall₂_cons_left_iff.mp hts
  exact ⟨t, us, ht, hus, hrest⟩

/-- The first word is the next token. -/
theorem token (h : c.Faces (w :: words) more) : w.Becomes c.token := by
  obtain ⟨t, ts, ht, -, hrest⟩ := h.rest_cons
  rwa [token_of_cons hrest]

theorem kind (h : c.Faces (w :: words) more) : c.kind = w.kind :=
  (kind_of_not_split h.split).trans h.token.kind

theorem not_tight (h : c.Faces (w :: words) more) : c.isTight = false := by
  rw [isTight, h.split, Token.isTight, h.token.spaced]
  rfl

theorem advance (h : c.Faces (w :: words) more) : c.advance.Faces words more := by
  obtain ⟨t, ts, -, hts, hrest⟩ := h.rest_cons
  simp only [Cursor.advance, hrest]
  exact ⟨⟨ts, hts, rfl⟩, h.eof, rfl⟩

/-- What stands behind the first word is seen from in front of it. -/
theorem kindAt_succ (h : c.Faces (w :: words) more) (n : Nat) :
    c.kindAt (n + 1) = c.advance.kindAt n := by
  obtain ⟨t, ts, -, -, hrest⟩ := h.rest_cons
  have hadvance : c.advance = ⟨ts ++ more, c.eof, c.index + 1, false, c.span⟩ := by
    simp only [Cursor.advance, hrest]
  cases n with
  | zero => simp [kindAt, Cursor.kind, hadvance, tokenAt, Cursor.token, hrest]; cases ts ++ more <;> rfl
  | succ n => simp [kindAt, hadvance, tokenAt, hrest]

theorem tokenAt_one (h : c.Faces (w :: w' :: words) more) : w'.Becomes (c.tokenAt 1) := by
  obtain ⟨t, ts, -, hts, hrest⟩ := h.rest_cons
  obtain ⟨t', ts', ht', -, rfl⟩ := List.forall₂_cons_left_iff.mp hts
  simpa [tokenAt, hrest] using ht'

end Faces

end Cursor

/-- The text of a chain is cut into its names and operators. -/
theorem faces_chainText (first : Identifier) (links : List Link) :
    (Cursor.start (Lexing.ofText (chainText first links)).tokens).Faces
        (first.word :: Link.words links) [] ∧
      (Lexing.ofText (chainText first links)).diagnostics = [] := by
  have hsolid : ∀ w ∈ first.word :: Link.words links, w.Solid :=
    List.forall_mem_cons.mpr ⟨first.solid, fun w => Link.solid_of_mem_words⟩
  obtain ⟨hbody, hdiagnostics⟩ := Lexing.ofText_spaced hsolid
  rw [chainText_eq]
  exact ⟨⟨⟨_, hbody, (List.append_nil _).symm⟩, Lexing.eof_kind_onward _ _ _, rfl⟩, hdiagnostics⟩

end BendSyntax
