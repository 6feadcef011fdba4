import BendSyntax.Proofs.Dumps
import BendSyntax.Proofs.Layout
import BendSyntax.Proofs.Plain.Cursors
import BendSyntax.Proofs.Progress

/-! How the readings of plain expressions follow parsers. A reading that succeeds has read the
pieces that its parser takes; if it fails, and not because of the depth limit, then the parser fails
as well. What is remembered to have failed would fail again. -/

namespace BendSyntax

open Reading Pieces

/-- Kinds of tokens that plain expressions are made of. -/
def TokenKind.isElementary (k : TokenKind) : Bool :=
  k = .ident || Grammar.isLiteral k ||
    ((Infix.ofKind? k).isSome && k ∉ [.mark .equals, .mark .colonEq, .mark .ampersand]) ||
    k ∈ [.word .not, .mark .minus, .mark .atSign, .mark .comma, .mark .leftParen, .mark .rightParen,
      .mark .leftBracket, .mark .rightBracket, .mark .leftBrace, .mark .rightBrace]

namespace Plain

/-- The tokens of a text that may hold plain expressions. -/
structure Source where
  tokens : List Token
  eof : Token
  inOrder : Token.InOrder 0 tokens eof
  plain : ∀ t ∈ tokens, t.kind.isElementary = true
  /-- A name takes the room of its text. -/
  named : ∀ t ∈ tokens, t.kind = .ident → t.span.length = t.lexeme.utf8ByteSize

namespace Source

/-- The pieces of a text from a token on. -/
def piecesFrom (x : Source) (index : Nat) : List Piece := ofTokens (x.tokens.drop index)

/-- The token in front of a place. -/
def before? (x : Source) (index : Nat) : Option Token :=
  if index = 0 then none else x.tokens[index - 1]?

/-- A cursor in a text. -/
structure Faces (x : Source) (c : Cursor) : Prop extends c.Orderly where
  eof : c.eof = x.eof
  rest : c.rest = x.tokens.drop c.index
  whole : c.split = false → ∀ t ∈ x.before? c.index, c.last.stop = t.span.stop
  half : c.split = true → c.last.stop = c.span.start

/-- A sign at a cursor stands behind nothing that ends an operand. -/
def Fresh (x : Source) (c : Cursor) : Prop :=
  c.kind = .mark .minus → ∀ t ∈ x.before? c.index, t.kind.endsOperand = false

/-- An attempt that fails where it was made. -/
def Vain (x : Source) (f : Failure) : Prop :=
  match f.what with
  | .generic => (genericArgs expr).run (x.piecesFrom f.index) = none
  | .equality => (equality expr).run (x.piecesFrom f.index) = none
  | .typedLet => True

/-- A session in which a text is being read, and nothing is wrong so far. -/
structure Sound (x : Source) (s : Session) : Prop where
  faces : x.Faces s.cursor
  failures : ∀ f ∈ s.failures, x.Vain f
  patterns : s.tree.patterns = #[]
  diagnostics : s.diagnostics = #[]

/-- A term is what stands between two places in a text. -/
structure Spells (x : Source) (tree : Tree) (id : TermId) (c d : Cursor) (b : Part) : Prop where
  front : x.Faces c
  outside : c.split = false
  fresh : x.Fresh c
  back : x.Faces d
  reaches : c.Reaches d
  grown : Grown c.pieces b d.pieces
  dump : tree.dump id = b.dump
  start : (tree.span id).start = c.span.start
  stop : (tree.span id).stop = d.last.stop

/-- A term is what stands somewhere in a text. -/
def Reads (x : Source) (tree : Tree) (id : TermId) : Prop := ∃ c d b, x.Spells tree id c d b

/-- A session in which all terms are what stands somewhere. -/
structure Follows (x : Source) (s : Session) : Prop extends x.Sound s where
  reads : ∀ id : TermId, id.index < s.tree.terms.size → x.Reads s.tree id

/-- The latest answer is a term that has been read from a cursor on. All other terms are what
stands somewhere. -/
structure Answers (x : Source) (c : Cursor) (s : Session) (id : TermId) (b : Part) : Prop
    extends x.Sound s where
  others : ∀ i : TermId, i.index < s.tree.terms.size → i ≠ id → x.Reads s.tree i
  before : c.advance.Before s.cursor
  lt : id.index < s.tree.terms.size
  dump : s.tree.dump id = b.dump
  bare : s.tree.isBareName id = b.bare
  named : ∀ term n, s.tree.term? id = some term → term.nameLength? = some n →
    n ≤ (s.tree.span id).length
  start : (s.tree.span id).start = c.span.start
  stop : (s.tree.span id).stop = s.cursor.last.stop

end Source

end Plain

/-- A session that another one leads to: nodes were added, and the cursor has moved on. -/
structure Session.Leads (s t : Session) : Prop where
  tree : s.tree.Prefix t.tree
  cursor : s.cursor.Before t.cursor
  reaches : s.cursor.Reaches t.cursor

namespace Session.Leads

variable {s t u : Session}

theorem refl (s : Session) : s.Leads s := ⟨.refl _, .refl _, .refl _⟩

theorem trans (h : s.Leads t) (k : t.Leads u) : s.Leads u :=
  ⟨h.tree.trans k.tree, h.cursor.trans k.cursor, h.reaches.trans k.reaches⟩

end Session.Leads

namespace Tree

variable {t u : Tree}

/-- Dumps stay what they are when nodes are added that are no patterns. -/
theorem Prefix.dump (h : t.Prefix u) (hpatterns : u.patterns = t.patterns) {id : TermId}
    (hid : id.index < t.terms.size) : u.dump id = t.dump id := by
  obtain ⟨more, hmore⟩ := h.terms
  have hsame : u.patternDumps = t.patternDumps := by
    rw [patternDumps, patternDumps, foldPatterns, foldPatterns, hpatterns]
  obtain ⟨values, hvalues⟩ := foldl_pushing_append
    (fun done (node : TermNode) => (node.term.map (fun id => done.getD id.index "")
      fun id => t.patternDumps.getD id.index "").dump) more t.termDumps
  have hdumps : u.termDumps = t.termDumps ++ values := by
    rw [termDumps_eq u, hsame, ← hmore, List.foldl_append, ← termDumps_eq t, hvalues]
  rw [Tree.dump, hdumps]
  exact getD_append_of_lt (by rwa [size_termDumps]) _ _

theorem dump_widen (t : Tree) (id a : TermId) (span : Span) : (t.widen id span).dump a = t.dump a := by
  rw [dump, dump, termDumps_widen]

/-- A new term is dumped as its children are. -/
theorem dump_addTerm (t : Tree) (node : TermNode) :
    (t.addTerm node).2.dump (t.addTerm node).1 =
      (node.term.map t.dump fun q => t.patternDumps.getD q.index "").dump := by
  have hsame : (t.addTerm node).2.patternDumps = t.patternDumps := rfl
  have hdumps : (t.addTerm node).2.termDumps = t.termDumps.push
      (node.term.map t.dump fun q => t.patternDumps.getD q.index "").dump := by
    rw [termDumps_eq, hsame]
    simp only [addTerm, Array.toList_push, List.foldl_append, List.foldl_cons, List.foldl_nil]
    rw [← termDumps_eq]
    rfl
  rw [dump, hdumps]
  change (t.termDumps.push _).getD t.terms.size "" = _
  rw [← size_termDumps, Array.getD_eq_getD_getElem?, Array.getElem?_push_size, Option.getD_some]

end Tree

end BendSyntax
