import BendSyntax.Proofs.Chain.Sessions
import BendSyntax.Proofs.Lexing.Literals
import BendSyntax.Proofs.Safety

/-! Patterns as trees, and how they are written with blanks between all tokens. Two kinds of trees
refer to each other, as the two readings of patterns do: the head of a `<>` and what stands behind
`Nn +` are no `<>` themselves. -/

namespace BendSyntax

open Lexing

mutual

inductive PatternTree where
  | atom (a : PatternAtom)
  | cons (head : PatternAtom) (tail : PatternTree)

/-- A pattern that is not a `<>`. -/
inductive PatternAtom where
  | var (x : Identifier)
  | lit (l : Constant)
  | tag (name : Identifier)
  | ctor (name : Identifier) (args : List PatternTree)
  | sym (name : Identifier)
  | succ (n : UInt64) (rest : PatternAtom)
  | tuple (first : PatternTree) (rest : List PatternTree)
  | list (first : PatternTree) (rest : List PatternTree)
  | emptyList
  | paren (inner : PatternTree)

end

mutual

/-- The tokens that a pattern is written as. -/
def PatternTree.words : PatternTree → List Word
  | .atom a => a.words
  | .cons head tail => head.words ++ .mark .cons :: tail.words

def PatternAtom.words : PatternAtom → List Word
  | .var x => [x.word]
  | .lit l => [l.word]
  | .tag name => [.mark .atSign, name.word]
  | .ctor name args =>
      .mark .atSign :: name.word :: .mark .leftBrace :: (PatternTree.wordsOf args ++ [.mark .rightBrace])
  | .sym name => [.mark .ampersand, name.word]
  | .succ n rest => (Constant.nat n).word :: .mark .plus :: rest.words
  | .tuple first [] => .mark .leftParen :: (first.words ++ [.mark .comma, .mark .rightParen])
  | .tuple first (second :: rest) =>
      .mark .leftParen ::
        (first.words ++ (PatternTree.wordsBehind (second :: rest) ++ [.mark .rightParen]))
  | .list first rest =>
      .mark .leftBracket :: (first.words ++ (PatternTree.wordsBehind rest ++ [.mark .rightBracket]))
  | .emptyList => [.mark .leftBracket, .mark .rightBracket]
  | .paren inner => .mark .leftParen :: (inner.words ++ [.mark .rightParen])

/-- The tokens of patterns with commas between them. -/
def PatternTree.wordsOf : List PatternTree → List Word
  | [] => []
  | p :: ps => p.words ++ PatternTree.wordsBehind ps

/-- The tokens of patterns with a comma in front of each. -/
def PatternTree.wordsBehind : List PatternTree → List Word
  | [] => []
  | p :: ps => .mark .comma :: (p.words ++ PatternTree.wordsBehind ps)

end

mutual

/-- How deep the readings of a pattern are nested. -/
def PatternTree.depth : PatternTree → Nat
  | .atom a => a.depth + 1
  | .cons head tail => max head.depth tail.depth + 1

/-- How deep the readings of the parts are nested. -/
def PatternAtom.depth : PatternAtom → Nat
  | .var _ | .lit _ | .tag _ | .sym _ | .emptyList => 0
  | .ctor _ args => PatternTree.depths args
  | .succ _ rest => rest.depth + 1
  | .tuple first rest => max first.depth (PatternTree.depths rest)
  | .list first rest => max first.depth (PatternTree.depths rest)
  | .paren inner => inner.depth

def PatternTree.depths : List PatternTree → Nat
  | [] => 0
  | p :: ps => max p.depth (PatternTree.depths ps)

end

namespace PatternTree

/-- The text of a pattern. -/
def text (p : PatternTree) : String := " ".intercalate (p.words.map (·.text))

/-- The text of a `match` with a pattern in its single case. -/
def matching (p : PatternTree) : String := s!"match x : case {p.text} : ()"

end PatternTree

/-! ## Nodes -/

def Tree.pattern? (t : Tree) (id : PatternId) : Option (Pattern PatternId) :=
  t.patterns[id.index]?.map (·.pattern)

mutual

/-- Whether a pattern of a tree is this pattern. -/
def Tree.StoresPattern (t : Tree) : PatternTree → PatternId → Prop
  | .atom a, id => t.StoresAtom a id
  | .cons head tail, id =>
      ∃ h r, t.pattern? id = some (.cons h r) ∧ t.StoresAtom head h ∧ t.StoresPattern tail r

def Tree.StoresAtom (t : Tree) : PatternAtom → PatternId → Prop
  | .var x, id => t.pattern? id = some (.var x.text)
  | .lit l, id => t.pattern? id = some (.lit l.value)
  | .tag name, id => t.pattern? id = some (.tag name.text)
  | .ctor name args, id =>
      ∃ ids, t.pattern? id = some (.ctor name.text ids) ∧ t.StoresPatterns args ids
  | .sym name, id => t.pattern? id = some (.sym name.text)
  | .succ n rest, id => ∃ r, t.pattern? id = some (.succ n.toNat r) ∧ t.StoresAtom rest r
  | .tuple first rest, id =>
      ∃ a as, t.pattern? id = some (.tuple (a :: as)) ∧ t.StoresPattern first a ∧ t.StoresPatterns rest as
  | .list first rest, id =>
      ∃ a as, t.pattern? id = some (.list (a :: as)) ∧ t.StoresPattern first a ∧ t.StoresPatterns rest as
  | .emptyList, id => t.pattern? id = some .emptyList
  | .paren inner, id => ∃ a, t.pattern? id = some (.paren a) ∧ t.StoresPattern inner a

def Tree.StoresPatterns (t : Tree) : List PatternTree → List PatternId → Prop
  | [], ids => ids = []
  | p :: ps, ids => ∃ a as, ids = a :: as ∧ t.StoresPattern p a ∧ t.StoresPatterns ps as

end

namespace Tree

theorem Extends.pattern? {t u : Tree} {id : PatternId} {pattern : Pattern PatternId} (h : t.Extends u)
    (hid : t.pattern? id = some pattern) : u.pattern? id = some pattern := by
  obtain ⟨node, hnode, rfl⟩ := Option.map_eq_some_iff.mp hid
  obtain ⟨more, hmore⟩ := h.patterns
  rw [← Array.getElem?_toList] at hnode
  obtain ⟨hlt, -⟩ := List.getElem?_eq_some_iff.mp hnode
  rw [Tree.pattern?, ← Array.getElem?_toList, ← hmore, List.getElem?_append_left hlt, hnode]
  rfl

theorem pattern?_addPattern (t : Tree) (node : PatternNode) :
    (t.addPattern node).2.pattern? (t.addPattern node).1 = some node.pattern := by
  simp [addPattern, Tree.pattern?]

mutual

theorem StoresPattern.mono {t u : Tree} (h : t.Extends u) :
    (p : PatternTree) → (id : PatternId) → t.StoresPattern p id → u.StoresPattern p id
  | .atom a, id, ha => StoresAtom.mono h a id ha
  | .cons head tail, _, ⟨i, r, hid, hhead, htail⟩ =>
      ⟨i, r, h.pattern? hid, StoresAtom.mono h head i hhead, StoresPattern.mono h tail r htail⟩

theorem StoresAtom.mono {t u : Tree} (h : t.Extends u) :
    (a : PatternAtom) → (id : PatternId) → t.StoresAtom a id → u.StoresAtom a id
  | .var _, _, hid | .lit _, _, hid | .tag _, _, hid | .sym _, _, hid | .emptyList, _, hid => h.pattern? hid
  | .ctor _ args, _, ⟨ids, hid, hargs⟩ => ⟨ids, h.pattern? hid, StoresPatterns.mono h args ids hargs⟩
  | .succ _ rest, _, ⟨r, hid, hrest⟩ => ⟨r, h.pattern? hid, StoresAtom.mono h rest r hrest⟩
  | .tuple first rest, _, ⟨a, as, hid, hfirst, hrest⟩ =>
      ⟨a, as, h.pattern? hid, StoresPattern.mono h first a hfirst, StoresPatterns.mono h rest as hrest⟩
  | .list first rest, _, ⟨a, as, hid, hfirst, hrest⟩ =>
      ⟨a, as, h.pattern? hid, StoresPattern.mono h first a hfirst, StoresPatterns.mono h rest as hrest⟩
  | .paren inner, _, ⟨a, hid, hinner⟩ => ⟨a, h.pattern? hid, StoresPattern.mono h inner a hinner⟩

theorem StoresPatterns.mono {t u : Tree} (h : t.Extends u) :
    (ps : List PatternTree) → (ids : List PatternId) → t.StoresPatterns ps ids → u.StoresPatterns ps ids
  | [], _, hids => hids
  | p :: ps, _, ⟨a, as, hids, hp, hps⟩ =>
      ⟨a, as, hids, StoresPattern.mono h p a hp, StoresPatterns.mono h ps as hps⟩

end

end Tree

/-! ## Tokens -/

namespace Word

theorem stands_mark (s : Symbol) (previous : Option TokenKind) : (mark s).Stands previous := by
  by_cases hs : s = .leftBrace
  · subst hs
    refine ⟨List.cons_ne_nil _ _, fun n rest hrest => ?_, fun rest hrest => symbol_whole _ hrest _⟩
    cases rest with
    | nil => rfl
    | cons d rest =>
        -- Only a dash behind a brace would begin a comment.
        have hd : d ≠ '-' := by
          rintro rfl
          cases hrest '-' rfl
        simp [mark, Symbol.spelling, Gap.scan, hd, Gap.isBlank]
  · exact (solid_symbol hs).stands previous

variable {previous : Option TokenKind} {more : List Word}

theorem Line.mark (s : Symbol) (h : Line (some (.mark s)) more) : Line previous (.mark s :: more) :=
  .cons (stands_mark s previous) h

theorem Line.name (x : Identifier) (h : Line (some .ident) more) : Line previous (x.word :: more) :=
  .cons (x.solid.stands previous) h

end Word

open Word (Line)

mutual

/-- Where no operand ends, a pattern is cut into its tokens, and so is what stands behind it. -/
theorem PatternTree.line {previous : Option TokenKind} {more : List Word}
    (hprevious : previous.any TokenKind.endsOperand = false) (hmore : ∀ k, Line (some k) more) :
    (p : PatternTree) → Line previous (p.words ++ more)
  | .atom a => PatternAtom.line hprevious hmore a
  | .cons head tail => by
      rw [PatternTree.words, List.append_assoc]
      exact PatternAtom.line hprevious (fun _ => .mark .cons (PatternTree.line rfl hmore tail)) head

theorem PatternAtom.line {previous : Option TokenKind} {more : List Word}
    (hprevious : previous.any TokenKind.endsOperand = false) (hmore : ∀ k, Line (some k) more) :
    (a : PatternAtom) → Line previous (a.words ++ more)
  | .var x => .name x (hmore _)
  | .lit l => .cons (l.stands hprevious) (hmore _)
  | .tag name => .mark .atSign (.name name (hmore _))
  | .ctor name args => by
      rw [PatternAtom.words, List.cons_append, List.cons_append, List.cons_append, List.append_assoc]
      exact .mark .atSign (.name name (.mark .leftBrace
        (PatternTree.lineOf (fun _ => .mark .rightBrace (hmore _)) args)))
  | .sym name => .mark .ampersand (.name name (hmore _))
  | .succ n rest => .cons ((Constant.nat n).stands hprevious) (.mark .plus (PatternAtom.line rfl hmore rest))
  | .tuple first [] => by
      rw [PatternAtom.words, List.cons_append, List.append_assoc]
      exact .mark .leftParen (PatternTree.line rfl
        (fun _ => .mark .comma (.mark .rightParen (hmore _))) first)
  | .tuple first (second :: rest) => by
      rw [PatternAtom.words, List.cons_append, List.append_assoc, List.append_assoc]
      exact .mark .leftParen (PatternTree.line rfl
        (fun _ => PatternTree.lineBehind (fun _ => .mark .rightParen (hmore _)) (second :: rest)) first)
  | .list first rest => by
      rw [PatternAtom.words, List.cons_append, List.append_assoc, List.append_assoc]
      exact .mark .leftBracket (PatternTree.line rfl
        (fun _ => PatternTree.lineBehind (fun _ => .mark .rightBracket (hmore _)) rest) first)
  | .emptyList => .mark .leftBracket (.mark .rightBracket (hmore _))
  | .paren inner => by
      rw [PatternAtom.words, List.cons_append, List.append_assoc]
      exact .mark .leftParen (PatternTree.line rfl (fun _ => .mark .rightParen (hmore _)) inner)

theorem PatternTree.lineOf {more : List Word} (hmore : ∀ k, Line (some k) more) :
    (ps : List PatternTree) → Line (some (.mark .leftBrace)) (PatternTree.wordsOf ps ++ more)
  | [] => hmore _
  | p :: ps => by
      rw [PatternTree.wordsOf, List.append_assoc]
      exact PatternTree.line rfl (fun _ => PatternTree.lineBehind hmore ps) p

theorem PatternTree.lineBehind {k : TokenKind} {more : List Word} (hmore : ∀ k, Line (some k) more) :
    (ps : List PatternTree) → Line (some k) (PatternTree.wordsBehind ps ++ more)
  | [] => hmore k
  | p :: ps => by
      rw [PatternTree.wordsBehind, List.cons_append, List.append_assoc]
      exact .mark .comma (PatternTree.line rfl (fun _ => PatternTree.lineBehind hmore ps) p)

end

/-- A session in front of words, with more tokens behind them, about which nothing was reported. -/
structure Session.InFront (s : Session) (words : List Word) (more : List Token) : Prop where
  faces : s.cursor.Faces words more
  clean : s.diagnostics = #[]

/-- With what nothing goes on that could be a pattern. -/
def Word.EndsPattern (w : Word) : Prop :=
  w.kind ∈ [.mark .comma, .mark .colon, .mark .rightParen, .mark .rightBracket, .mark .rightBrace]

instance (w : Word) : Decidable w.EndsPattern := inferInstanceAs (Decidable (_ ∈ _))

theorem PatternAtom.words_front : (a : PatternAtom) → ∃ w ws, a.words = w :: ws ∧ ¬w.EndsPattern
  | .tuple _ [] | .tuple _ (_ :: _) | .list _ _ | .emptyList | .paren _ | .tag _ | .ctor _ _ | .sym _ =>
      ⟨_, _, rfl, by decide⟩
  | .var x => ⟨_, _, rfl, fun h => by simp [Word.EndsPattern, Identifier.word] at h⟩
  | .lit l => ⟨_, _, rfl, by
      cases l with
      | bool b => cases b <;> simp [Word.EndsPattern, Constant.word]
      | _ => simp [Word.EndsPattern, Constant.word]⟩
  | .succ n _ => ⟨_, _, rfl, by simp [Word.EndsPattern, Constant.word]⟩

namespace PatternTree

theorem words_front : (p : PatternTree) → ∃ w ws, p.words = w :: ws ∧ ¬w.EndsPattern
  | .atom a => a.words_front
  | .cons head tail => by
      obtain ⟨w, ws, hwords, hw⟩ := head.words_front
      exact ⟨w, ws ++ .mark .cons :: tail.words, by rw [words, hwords, List.cons_append], hw⟩

/-- The words of a `match` in front of its body. -/
def matchingWords (p : PatternTree) : List Word :=
  ⟨.ident, "x"⟩ :: .mark .colon :: ⟨.word .case, "case"⟩ :: (p.words ++ [.mark .colon])

theorem toList_matching (p : PatternTree) :
    p.matching.toList = "match".toList ++ (spacedOut p.matchingWords ++ [' ', '(', ')']) := by
  obtain ⟨w, ws, hwords, -⟩ := p.words_front
  have htext : p.text.toList = w.text.toList ++ spacedOut ws := by
    rw [text, hwords, Word.toList_intercalate]
  have hmatching : p.matching.toList = "match x : case ".toList ++ (p.text.toList ++ " : ()".toList) := by
    simp [matching, toString]
  rw [hmatching, htext, matchingWords, hwords]
  simp [spacedOut, Word.mark, Symbol.spelling]

/-- Behind a blank `()` is two tokens. -/
theorem cuts_unit (previous : Option TokenKind) (p : Position) : ∃ t u last,
    (Word.mark .leftParen).Becomes t ∧ u.kind = .mark .rightParen ∧
      Cuts previous p [' ', '(', ')'] [] [t, u] last := by
  have hopen : Cuts previous p [' ', '('] ([')'] ++ []) _ _ :=
    .word true (@Word.solid_symbol .leftParen (by decide)) (Word.opening_endsBefore (.inl rfl) _)
  have hclose : Cuts (some (.mark .leftParen)) (p.after [' ', '(']) [')'] [] _ _ :=
    .of_stands false (Word.stands_mark .rightParen _) Scanned.ends_nil
  exact ⟨_, _, _, ⟨rfl, rfl, Bool.or_true _⟩, rfl, hopen.append hclose⟩

/-- The text of a `match` is cut into its tokens. -/
theorem inFront_matching (p : PatternTree) : ∃ t : Token, t.kind = .mark .rightParen ∧
    (Reading.initial (Lexing.ofText p.matching)).InFront
      (⟨.word .match_, "match"⟩ :: (p.matchingWords ++ [.mark .leftParen])) [t] := by
  have hkeyword : (⟨.word .match_, "match"⟩ : Word).Solid := @Word.solid_word "match" (by decide) (by decide)
  have hcase : (⟨.word .case, "case"⟩ : Word).Solid := @Word.solid_word "case" (by decide) (by decide)
  have hname : (⟨.ident, "x"⟩ : Word).Solid := @Word.solid_word "x" (by decide) (by decide)
  have hline : Line (some (.word .match_)) p.matchingWords :=
    .cons (hname.stands _) (.mark .colon (.cons (hcase.stands _)
      (PatternTree.line rfl (fun _ => .mark .colon .nil) p)))
  have hends : Scanned.Ends [' ', '(', ')'] := Scanned.ends_cons rfl _
  let first : Token := Word.token ⟨.word .match_, "match"⟩ .start true
  have hfirst : Cuts none .start "match".toList (spacedOut p.matchingWords ++ [' ', '(', ')'] ++ [])
      [first] (some (.word .match_)) :=
    .of_stands false (hkeyword.stands none) (by
      rw [List.append_nil]
      exact Scanned.ends_spacedOut _ hends)
  obtain ⟨ts, last, hts, hcuts⟩ :=
    @cuts_spacedOut _ ([' ', '(', ')'] ++ []) _ hline hends (Position.start.after "match".toList)
  obtain ⟨t, u, last', ht, hu, hunit⟩ := cuts_unit last ((Position.start.after "match".toList).after
    (spacedOut p.matchingWords))
  have hwhole := hfirst.append (hcuts.append hunit)
  rw [← p.toList_matching] at hwhole
  obtain ⟨hbody, hdiagnostics⟩ := hwhole.ofText
  have hwords : List.Forall₂ Word.Becomes
      (⟨.word .match_, "match"⟩ :: (p.matchingWords ++ [.mark .leftParen])) (first :: (ts ++ [t])) :=
    .cons ⟨rfl, rfl, rfl⟩ (List.rel_append hts (.cons ht .nil))
  exact ⟨u, hu, ⟨⟨_, hwords, hbody.trans (by simp)⟩, Lexing.eof_kind_onward _ _ _, rfl⟩,
    congrArg List.toArray hdiagnostics⟩

end PatternTree

end BendSyntax
