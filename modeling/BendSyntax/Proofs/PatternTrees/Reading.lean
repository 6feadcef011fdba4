import BendSyntax.Proofs.Formula.Reading
import BendSyntax.Proofs.PatternTrees
import BendSyntax.Proofs.Results

/-! A pattern that is written with blanks between its tokens is read as it stands. What follows a
pattern goes on with none, and only a `<>` goes on with the head of one. -/

namespace BendSyntax

open Reading Grammar

variable {deep : Deeper} {d : Nat} {setting : Setting} {s t : Session} {start : Span} {w : Word}
  {words ws : List Word} {more : List Token} {a : PatternAtom} {p first second : PatternTree}
  {args rest : List PatternTree} {id : PatternId}

/-! ## Sessions -/

namespace Session.InFront

theorem kind (h : s.InFront (w :: words) more) : s.cursor.kind = w.kind := h.faces.kind

theorem lexeme (h : s.InFront (w :: words) more) : s.cursor.lexeme = w.text := h.faces.token.lexeme

theorem next (h : s.InFront (w :: words) more) : s.next.InFront words more :=
  ⟨h.faces.advance, h.clean⟩

theorem setTree (h : s.InFront words more) (tree : Tree) : InFront { s with tree } words more :=
  ⟨h.faces, h.clean⟩

theorem remaining_lt (h : s.InFront words more) (k : t.InFront ws more)
    (hlt : ws.length < words.length) : t.cursor.remaining < s.cursor.remaining := by
  rw [h.faces.remaining, k.faces.remaining]
  omega

theorem run_accept {m : Symbol} (h : s.InFront (.mark m :: words) more) :
    (accept (.mark m)).run setting s = .ok true s.next :=
  Session.run_accept h.kind

theorem run_accept_of_ne (h : s.InFront (w :: words) more) {k : TokenKind} (hk : w.kind ≠ k) :
    (accept k).run setting s = .ok false s :=
  Before.run_accept_of_ne (h.kind ▸ hk)

theorem run_expect {m : Symbol} (h : s.InFront (.mark m :: words) more) :
    (expect (.mark m)).run setting s = .ok s.cursor.span s.next :=
  Session.run_expect h.kind

theorem run_identifier {x : Identifier} (h : s.InFront (x.word :: words) more) :
    identifier.run setting s = .ok (x.text, s.cursor.span) s.next := by
  have hkind : s.cursor.kind = .ident := h.kind
  have hlexeme : s.cursor.lexeme = x.text := h.lexeme
  simp only [identifier, Reading.cursor, asks, run_bind, Outcome.andThen_ok, hkind, if_true, ← hlexeme]
  rfl

/-- What ends with the node of a pattern is the pattern, if its parts are there. -/
theorem reads_of_close {r : Reading PatternId} {pattern : Pattern PatternId} (h : t.InFront words more)
    (hrun : r.run setting s = (closePattern start pattern).run setting t)
    (hstores : ∀ tree id, t.tree.Extends tree → tree.pattern? id = some pattern →
      tree.StoresPattern p id) :
    ∃ id u, r.run setting s = .ok id u ∧ u.InFront words more ∧ u.tree.StoresPattern p id :=
  ⟨_, _, hrun, h.setTree _, hstores _ _ (.addPattern _ _) (Tree.pattern?_addPattern _ _)⟩

end Session.InFront

/-! ## Readings -/

/-- With what nothing goes on that is no `<>`. -/
def Word.EndsAtom (w : Word) : Prop := w.kind = .mark .cons ∨ w.EndsPattern

theorem Word.EndsAtom.kind_ne (h : w.EndsAtom) :
    w.kind ≠ .mark .plus ∧ w.kind ≠ .mark .leftBrace := by
  simp only [EndsAtom, EndsPattern, List.mem_cons, List.not_mem_nil, or_false] at h
  rcases h with h | h | h | h | h | h <;> simp [h]

/-- Whether a pattern is read whole in front of what cannot go on with it. -/
def Deeper.ReadsPattern (deep : Deeper) (p : PatternTree) : Prop :=
  ∀ (setting : Setting) (s : Session) (w : Word) (ws : List Word) (more : List Token),
    w.EndsPattern → s.InFront (p.words ++ w :: ws) more →
    ∃ id t, deep.pattern.run setting s = .ok id t ∧ t.InFront (w :: ws) more ∧
      t.tree.StoresPattern p id

/-- Whether a pattern that is no `<>` is read whole in front of what cannot go on with it. -/
def Deeper.ReadsAtom (deep : Deeper) (a : PatternAtom) : Prop :=
  ∀ (setting : Setting) (s : Session) (w : Word) (ws : List Word) (more : List Token),
    w.EndsAtom → s.InFront (a.words ++ w :: ws) more →
    ∃ id t, (patternAtom deep).run setting s = .ok id t ∧ t.InFront (w :: ws) more ∧
      t.tree.StoresPattern (.atom a) id

/-! ## Names and literals -/

theorem reads_varPattern (deep : Deeper) (x : Identifier) : deep.ReadsAtom (.var x) := by
  intro setting s w ws more hw hs
  have hkind : s.cursor.kind = .ident := hs.kind
  have hlexeme : s.cursor.lexeme = x.text := hs.lexeme
  have hrun : (patternAtom deep).run setting s =
      (closePattern s.cursor.span (.var x.text)).run setting s.next := by
    simp only [patternAtom, Reading.cursor, asks, run_bind, Outcome.andThen_ok, hkind, hlexeme]
    rfl
  exact hs.next.reads_of_close hrun fun _ _ _ hpattern => hpattern

/-- A literal pattern is its token, where that is no beginning of a successor. -/
theorem run_patternAtom_lit (l : Constant) (hs : s.InFront (l.word :: w :: ws) more)
    (hw : w.kind ≠ .mark .plus) :
    (patternAtom deep).run setting s = (literalPattern s.cursor.span l.word.kind).run setting s := by
  have hkind : s.cursor.kind = l.word.kind := hs.kind
  have hplus : s.cursor.kindAt 1 ≠ .mark .plus := by
    rw [hs.faces.kindAt_succ 0]
    change s.next.cursor.kind ≠ _
    rwa [hs.next.kind]
  simp only [patternAtom, Reading.cursor, asks, run_bind, Outcome.andThen_ok, hkind]
  cases l with
  | nat n => exact congrArg (fun r => Reading.run r setting s) (if_neg hplus)
  | int | char | str => rfl
  | bool b => cases b <;> rfl

theorem reads_litPattern (deep : Deeper) (l : Constant) : deep.ReadsAtom (.lit l) := by
  intro setting s w ws more hw hs
  have hliteral : s.cursor.token.literal? = some l.value := by
    rw [Token.literal?, hs.faces.token.kind, hs.faces.token.lexeme]
    exact l.ofLexeme?_word
  have hrun : (patternAtom deep).run setting s =
      (closePattern s.cursor.span (.lit l.value)).run setting s.next := by
    rw [run_patternAtom_lit l hs hw.kind_ne.1]
    simp only [literalPattern, literal, Reading.cursor, asks, run_bind, Outcome.andThen_ok, hliteral]
    rfl
  exact hs.next.reads_of_close hrun fun _ _ _ hpattern => hpattern

theorem reads_symPattern (deep : Deeper) (name : Identifier) : deep.ReadsAtom (.sym name) := by
  intro setting s w ws more hw hs
  have hkind : s.cursor.kind = .mark .ampersand := hs.kind
  have hname : s.next.InFront (name.word :: w :: ws) more := hs.next
  have hrun : (patternAtom deep).run setting s =
      (closePattern s.cursor.span (.sym name.text)).run setting s.next.next := by
    simp only [patternAtom, Reading.cursor, asks, run_bind, Outcome.andThen_ok, hkind]
    change (identifier.run setting s.next).andThen _ = _
    rw [hname.run_identifier]
    rfl
  exact hname.next.reads_of_close hrun fun _ _ _ hpattern => hpattern

theorem reads_emptyListPattern (deep : Deeper) : deep.ReadsAtom .emptyList := by
  intro setting s w ws more hw hs
  have hkind : s.cursor.kind = .mark .leftBracket := hs.kind
  have hclosing : s.next.InFront (.mark .rightBracket :: w :: ws) more := hs.next
  have hrun : (patternAtom deep).run setting s =
      (closePattern s.cursor.span .emptyList).run setting s.next.next := by
    simp only [patternAtom, Reading.cursor, asks, run_bind, Outcome.andThen_ok, hkind]
    change ((accept (.mark .rightBracket)).run setting s.next).andThen _ = _
    rw [hclosing.run_accept]
    rfl
  exact hclosing.next.reads_of_close hrun fun _ _ _ hpattern => hpattern

/-! ## Items -/

/-- The rounds that take patterns in brackets, whatever they keep of the commas. -/
structure TakesPatterns {β : Type} (deep : Deeper) (closing : Symbol) (setting : Setting)
    (state : Array PatternId → Bool → β) (step : β → Reading (Round β)) : Prop where
  ends : (Word.mark closing).EndsPattern
  notComma : closing ≠ .comma
  closed : ∀ acc comma s, s.cursor.kind = .mark closing →
    (step (state acc comma)).run setting s = .ok (.done (state acc comma)) s
  item : ∀ acc comma s id t, s.cursor.kind ≠ .mark closing →
    deep.pattern.run setting s = .ok id t →
    (step (state acc comma)).run setting s =
      ((accept (.mark .comma)).run setting t).andThen fun more u =>
        .ok (if more then .more (state (acc.push id) true) else .done (state (acc.push id) false)) u

section Items

variable {β : Type} {closing : Symbol} {state : Array PatternId → Bool → β} {step : β → Reading (Round β)}

/-- The next pattern is taken. -/
theorem TakesPatterns.reads_next (hstep : TakesPatterns deep closing setting state step)
    (hdeep : deep.ReadsPattern first) (hw : w.EndsPattern)
    (hs : s.InFront (first.words ++ w :: ws) more) (acc : Array PatternId) (comma : Bool) :
    ∃ id t, (step (state acc comma)).run setting s =
        ((accept (.mark .comma)).run setting t).andThen (fun more u =>
          .ok (if more then .more (state (acc.push id) true) else .done (state (acc.push id) false)) u) ∧
      t.InFront (w :: ws) more ∧ t.tree.StoresPattern first id ∧
      t.cursor.remaining < s.cursor.remaining := by
  obtain ⟨id, t, hread, ht, hstores⟩ := hdeep setting s w ws more hw hs
  obtain ⟨v, vs, hwords, hv⟩ := first.words_front
  have hkind : s.cursor.kind ≠ .mark closing := by
    rw [hwords, List.cons_append] at hs
    rw [hs.kind]
    intro heq
    refine hv ?_
    rw [Word.EndsPattern, heq]
    exact hstep.ends
  refine ⟨id, t, hstep.item acc comma s id t hkind hread, ht, hstores, hs.remaining_lt ht ?_⟩
  rw [hwords]
  simp only [List.length_append, List.length_cons]
  omega

/-- The rounds take all patterns. The induction is on the patterns behind the first one. -/
theorem TakesPatterns.reads_all (hstep : TakesPatterns deep closing setting state step)
    (hdeep : ∀ p ∈ first :: rest, deep.ReadsPattern p)
    (hs : s.InFront (first.words ++ (PatternTree.wordsBehind rest ++ .mark closing :: ws)) more)
    (acc : Array PatternId) (comma : Bool) :
    ∃ ids t, runLoop step setting (state acc comma) s = .ok (state (acc ++ ids) false) t ∧
      t.InFront (.mark closing :: ws) more ∧ t.tree.StoresPatterns (first :: rest) ids.toList := by
  induction rest generalizing first s acc comma with
  | nil =>
      obtain ⟨id, t, hround, ht, hstores, -⟩ :=
        hstep.reads_next (hdeep first List.mem_cons_self) hstep.ends hs acc comma
      rw [ht.run_accept_of_ne (by simp [Word.mark, hstep.notComma])] at hround
      exact ⟨#[id], t, runLoop_done hround, ht, id, [], rfl, hstores, rfl⟩
  | cons p rest ih =>
      obtain ⟨hfirst, hrest⟩ := List.forall_mem_cons.mp hdeep
      rw [PatternTree.wordsBehind, List.cons_append, List.append_assoc] at hs
      obtain ⟨id, t, hround, ht, hstores, hlt⟩ := hstep.reads_next hfirst (by decide) hs acc comma
      rw [ht.run_accept] at hround
      obtain ⟨ids, u, hloop, hu, hall⟩ := ih hrest ht.next (acc.push id) true
      have hnext : t.next.cursor.remaining < t.cursor.remaining :=
        ht.remaining_lt ht.next (Nat.lt_succ_self _)
      have honward := runLoop_onward step setting (state (acc.push id) true) t.next
      rw [hloop] at honward
      refine ⟨#[id] ++ ids, u, ?_, hu, id, ids.toList, by simp, hstores.mono honward.tree, hall⟩
      rw [runLoop_more hround (Nat.lt_trans hnext hlt), hloop, Array.push_eq_append, Array.append_assoc]

end Items

/-! ## Constructors and lists -/

/-- One more pattern in braces or square brackets. -/
def patternsRound (deep : Deeper) (closing : Symbol) (acc : Array PatternId) :
    Reading (Round (Array PatternId)) := do
  if ← sees (.mark closing) then return .done acc
  let acc := acc.push (← deep.pattern)
  if ← accept (.mark .comma) then return .more acc else return .done acc

theorem takesPatterns_patternsRound {closing : Symbol} (hends : (Word.mark closing).EndsPattern)
    (hcomma : closing ≠ .comma) :
    TakesPatterns deep closing setting (fun acc _ => acc) (patternsRound deep closing) where
  ends := hends
  notComma := hcomma
  closed acc _ s hkind := by
    simp only [patternsRound, sees, Reading.kind, Reading.cursor, asks, run_bind, Outcome.andThen_ok,
      run_pure, hkind, decide_true, if_true]
  item acc _ s id t hkind hread := by
    simp only [patternsRound, sees, Reading.kind, Reading.cursor, asks, run_bind, Outcome.andThen_ok,
      run_pure, hkind, decide_false, Bool.false_eq_true, if_false, hread]
    cases (accept (.mark .comma)).run setting t with
    | ok comma u => cases comma <;> rfl
    | error e u => rfl

theorem run_separatedPatterns {closing : Symbol} {ids : Array PatternId}
    (h : runLoop (patternsRound deep closing) setting #[] s = .ok ids t) :
    (separated (.mark closing) deep.pattern).run setting s = .ok ids.toList t := by
  change (runLoop (patternsRound deep closing) setting #[] s).andThen _ = _
  rw [h]
  rfl

theorem reads_tagPattern (deep : Deeper) (name : Identifier) : deep.ReadsAtom (.tag name) := by
  intro setting s w ws more hw hs
  have hkind : s.cursor.kind = .mark .atSign := hs.kind
  have hname : s.next.InFront (name.word :: w :: ws) more := hs.next
  have hrun : (patternAtom deep).run setting s =
      (closePattern s.cursor.span (.tag name.text)).run setting s.next.next := by
    simp only [patternAtom, Reading.cursor, asks, run_bind, Outcome.andThen_ok, hkind]
    change (identifier.run setting s.next).andThen _ = _
    rw [hname.run_identifier]
    change ((accept (.mark .leftBrace)).run setting s.next.next).andThen _ = _
    rw [hname.next.run_accept_of_ne hw.kind_ne.2]
    rfl
  exact hname.next.reads_of_close hrun fun _ _ _ hpattern => hpattern

/-- The arguments of a constructor, behind the opening brace. -/
theorem reads_patternArgs (hdeep : ∀ p ∈ args, deep.ReadsPattern p) (setting : Setting)
    (hs : s.InFront (PatternTree.wordsOf args ++ .mark .rightBrace :: ws) more) :
    ∃ ids t, (separated (.mark .rightBrace) deep.pattern).run setting s = .ok ids t ∧
      t.InFront (.mark .rightBrace :: ws) more ∧ t.tree.StoresPatterns args ids := by
  have hstep : TakesPatterns deep .rightBrace setting (fun acc _ => acc) (patternsRound deep .rightBrace) :=
    takesPatterns_patternsRound (by decide) (by decide)
  cases args with
  | nil => exact ⟨[], s, run_separatedPatterns (runLoop_done (hstep.closed #[] false s hs.kind)), hs, rfl⟩
  | cons first rest =>
      rw [PatternTree.wordsOf, List.append_assoc] at hs
      obtain ⟨ids, t, hloop, ht, hstores⟩ := hstep.reads_all hdeep hs #[] false
      rw [Array.empty_append] at hloop
      exact ⟨ids.toList, t, run_separatedPatterns hloop, ht, hstores⟩

theorem reads_ctorPattern (name : Identifier) (hdeep : ∀ p ∈ args, deep.ReadsPattern p) :
    deep.ReadsAtom (.ctor name args) := by
  intro setting s w ws more hw hs
  simp only [PatternAtom.words, List.cons_append, List.append_assoc, List.nil_append] at hs
  have hkind : s.cursor.kind = .mark .atSign := hs.kind
  obtain ⟨ids, t, hargs, ht, hstores⟩ := reads_patternArgs hdeep setting hs.next.next.next
  have hrun : (patternAtom deep).run setting s =
      (closePattern s.cursor.span (.ctor name.text ids)).run setting t.next := by
    simp only [patternAtom, Reading.cursor, asks, run_bind, Outcome.andThen_ok, hkind]
    change (identifier.run setting s.next).andThen _ = _
    rw [hs.next.run_identifier]
    change ((accept (.mark .leftBrace)).run setting s.next.next).andThen _ = _
    rw [hs.next.next.run_accept]
    change ((separated (.mark .rightBrace) deep.pattern).run setting s.next.next.next).andThen _ = _
    rw [hargs]
    change ((expect (.mark .rightBrace)).run setting t).andThen _ = _
    rw [ht.run_expect]
    rfl
  exact ht.next.reads_of_close hrun fun _ _ htree hpattern => ⟨ids, hpattern, hstores.mono htree⟩

theorem reads_listPattern (hdeep : ∀ p ∈ first :: rest, deep.ReadsPattern p) :
    deep.ReadsAtom (.list first rest) := by
  intro setting s w ws more hw hs
  simp only [PatternAtom.words, List.cons_append, List.append_assoc, List.nil_append] at hs
  have hkind : s.cursor.kind = .mark .leftBracket := hs.kind
  have hstep : TakesPatterns deep .rightBracket setting (fun acc _ => acc) (patternsRound deep .rightBracket) :=
    takesPatterns_patternsRound (by decide) (by decide)
  obtain ⟨ids, t, hloop, ht, hstores⟩ := hstep.reads_all hdeep hs.next #[] false
  rw [Array.empty_append] at hloop
  have hnot : s.next.cursor.kind ≠ .mark .rightBracket := by
    obtain ⟨v, vs, hwords, hv⟩ := first.words_front
    have hnext := hs.next
    rw [hwords, List.cons_append] at hnext
    rw [hnext.kind]
    intro heq
    exact hv (by rw [Word.EndsPattern, heq]; decide)
  have hrun : (patternAtom deep).run setting s =
      (closePattern s.cursor.span (.list ids.toList)).run setting t.next := by
    simp only [patternAtom, Reading.cursor, asks, run_bind, Outcome.andThen_ok, hkind]
    change ((accept (.mark .rightBracket)).run setting s.next).andThen _ = _
    rw [Session.Before.run_accept_of_ne hnot]
    change ((separated (.mark .rightBracket) deep.pattern).run setting s.next).andThen _ = _
    rw [run_separatedPatterns hloop]
    change ((expect (.mark .rightBracket)).run setting t).andThen _ = _
    rw [ht.run_expect]
    rfl
  refine ht.next.reads_of_close hrun fun _ _ htree hpattern => ?_
  obtain ⟨a, as, hids, hfirst, hrest⟩ := Tree.StoresPatterns.mono htree _ _ hstores
  exact ⟨a, as, hids ▸ hpattern, hfirst, hrest⟩

/-! ## Parentheses -/

/-- One more pattern in parentheses, and whether a comma stands behind it. -/
def parenthesisedRound (deep : Deeper) :
    Array PatternId × Bool → Reading (Round (Array PatternId × Bool))
  | (acc, comma) => do
      if ← sees (.mark .rightParen) then return .done (acc, comma)
      let acc := acc.push (← deep.pattern)
      if ← accept (.mark .comma) then return .more (acc, true) else return .done (acc, false)

theorem takesPatterns_parenthesisedRound :
    TakesPatterns deep .rightParen setting Prod.mk (parenthesisedRound deep) where
  ends := by decide
  notComma := by decide
  closed acc comma s hkind := by
    simp only [parenthesisedRound, sees, Reading.kind, Reading.cursor, asks, run_bind,
      Outcome.andThen_ok, run_pure, hkind, decide_true, if_true]
  item acc comma s id t hkind hread := by
    simp only [parenthesisedRound, sees, Reading.kind, Reading.cursor, asks, run_bind,
      Outcome.andThen_ok, run_pure, hkind, decide_false, Bool.false_eq_true, if_false, hread]
    cases (accept (.mark .comma)).run setting t with
    | ok comma u => cases comma <;> rfl
    | error e u => rfl

/-- What patterns in parentheses are: a comma behind a single one makes it a tuple. -/
def enclosedPattern : List PatternId → Bool → Pattern PatternId
  | [single], false => .paren single
  | items, _ => .tuple items

theorem run_patternAtom_parenthesised {acc : Array PatternId} {comma : Bool}
    (hkind : s.cursor.kind = .mark .leftParen)
    (hloop : runLoop (parenthesisedRound deep) setting (#[], false) s.next = .ok (acc, comma) t)
    (hacc : acc.isEmpty = false) (ht : t.InFront (.mark .rightParen :: ws) more) :
    (patternAtom deep).run setting s =
      (closePattern s.cursor.span (enclosedPattern acc.toList comma)).run setting t.next := by
  simp only [patternAtom, Reading.cursor, asks, run_bind, Outcome.andThen_ok, hkind]
  change (runLoop (parenthesisedRound deep) setting (#[], false) s.next).andThen _ = _
  rw [hloop]
  change ((require (!acc.isEmpty) "pattern").run setting t).andThen _ = _
  rw [hacc]
  change ((expect (.mark .rightParen)).run setting t).andThen _ = _
  rw [ht.run_expect]
  dsimp only
  generalize acc.toList = items
  cases comma <;> rcases items with - | ⟨single, - | ⟨second, items⟩⟩ <;> rfl

theorem reads_parenPattern (hdeep : deep.ReadsPattern p) : deep.ReadsAtom (.paren p) := by
  intro setting s w ws more hw hs
  simp only [PatternAtom.words, List.cons_append, List.append_assoc, List.nil_append] at hs
  have hstep : TakesPatterns deep .rightParen setting Prod.mk (parenthesisedRound deep) :=
    takesPatterns_parenthesisedRound
  obtain ⟨id, t, hround, ht, hstores, -⟩ := hstep.reads_next hdeep (by decide) hs.next #[] false
  rw [ht.run_accept_of_ne (by decide)] at hround
  have hrun := run_patternAtom_parenthesised hs.kind (runLoop_done hround) rfl ht
  exact ht.next.reads_of_close hrun fun _ _ htree hpattern => ⟨id, hpattern, hstores.mono htree⟩

/-- A single pattern with a comma behind it. -/
theorem reads_singlePattern (hdeep : deep.ReadsPattern p) : deep.ReadsAtom (.tuple p []) := by
  intro setting s w ws more hw hs
  simp only [PatternAtom.words, List.cons_append, List.append_assoc, List.nil_append] at hs
  have hstep : TakesPatterns deep .rightParen setting Prod.mk (parenthesisedRound deep) :=
    takesPatterns_parenthesisedRound
  obtain ⟨id, t, hround, ht, hstores, hlt⟩ := hstep.reads_next hdeep (by decide) hs.next #[] false
  rw [ht.run_accept] at hround
  have hnext : t.next.cursor.remaining < t.cursor.remaining :=
    ht.remaining_lt ht.next (Nat.lt_succ_self _)
  have hloop : runLoop (parenthesisedRound deep) setting (#[], false) s.next =
      .ok (#[id], true) t.next := by
    rw [runLoop_more hround (Nat.lt_trans hnext hlt)]
    exact runLoop_done (hstep.closed #[id] true t.next ht.next.kind)
  have hrun := run_patternAtom_parenthesised hs.kind hloop rfl ht.next
  exact ht.next.next.reads_of_close hrun fun _ _ htree hpattern =>
    ⟨id, [], hpattern, hstores.mono htree, rfl⟩

theorem reads_tuplePattern (hdeep : ∀ p ∈ first :: rest, deep.ReadsPattern p) :
    deep.ReadsAtom (.tuple first rest) := by
  cases rest with
  | nil => exact reads_singlePattern (hdeep first List.mem_cons_self)
  | cons second rest =>
      intro setting s w ws more hw hs
      simp only [PatternAtom.words, List.cons_append, List.append_assoc, List.nil_append] at hs
      have hstep : TakesPatterns deep .rightParen setting Prod.mk (parenthesisedRound deep) :=
        takesPatterns_parenthesisedRound
      obtain ⟨ids, t, hloop, ht, a, as, hids, hfirst, b, bs, rfl, hsecond, hrest⟩ :=
        hstep.reads_all hdeep hs.next #[] false
      rw [Array.empty_append] at hloop
      have hacc : ids.isEmpty = false := by
        cases hempty : ids.isEmpty with
        | false => rfl
        | true => simp [Array.isEmpty_iff.mp hempty] at hids
      have hrun := run_patternAtom_parenthesised hs.kind hloop hacc ht
      rw [hids] at hrun
      exact ht.next.reads_of_close hrun fun _ _ htree hpattern =>
        ⟨a, b :: bs, hpattern, hfirst.mono htree, b, bs, rfl, hsecond.mono htree,
          Tree.StoresPatterns.mono htree _ _ hrest⟩

/-! ## Successors and `<>` -/

theorem reads_succPattern (n : UInt64) (hdeep : (nested d).ReadsAtom a) :
    (nested (d + 1)).ReadsAtom (.succ n a) := by
  intro setting s w ws more hw hs
  simp only [PatternAtom.words, List.cons_append] at hs
  have hkind : s.cursor.kind = .nat := hs.kind
  have hplus : s.cursor.kindAt 1 = .mark .plus := by
    rw [hs.faces.kindAt_succ 0]
    exact hs.next.kind
  have hvalue : Literal.nat? s.cursor.lexeme.toList = some n.toNat := by
    have htext : s!"{n.toNat}n".toList = Nat.toDigits 10 n.toNat ++ ['n'] := by
      simp [toString, Nat.toList_repr]
    have hlexeme : s.cursor.lexeme = s!"{n.toNat}n" := hs.lexeme
    rw [hlexeme, htext]
    exact Literal.nat?_toDigits n.toNat_lt
  obtain ⟨id, t, hread, ht, hstores⟩ := hdeep setting s.next.next w ws more hw hs.next.next
  have hrun : (patternAtom (nested (d + 1))).run setting s =
      (closePattern s.cursor.span (.succ n.toNat id)).run setting t := by
    simp only [patternAtom, Reading.cursor, asks, run_bind, Outcome.andThen_ok, hkind, hplus, if_true,
      successor, hvalue]
    change ((patternAtom (nested d)).run setting s.next.next).andThen _ = _
    rw [hread]
    rfl
  exact ht.reads_of_close hrun fun _ _ htree hpattern => ⟨id, hpattern, hstores.mono htree⟩

theorem reads_atomPattern (hdeep : (nested d).ReadsAtom a) : (nested (d + 1)).ReadsPattern (.atom a) := by
  intro setting s w ws more hw hs
  obtain ⟨id, t, hread, ht, hstores⟩ := hdeep setting s w ws more (.inr hw) hs
  refine ⟨id, t, ?_, ht, hstores⟩
  have hcons : w.kind ≠ .mark .cons := by
    simp only [Word.EndsPattern, List.mem_cons, List.not_mem_nil, or_false] at hw
    rcases hw with hw | hw | hw | hw | hw <;> simp [hw]
  change ((patternAtom (nested d)).run setting s).andThen _ = _
  rw [hread]
  change ((accept (.mark .cons)).run setting t).andThen _ = _
  rw [ht.run_accept_of_ne hcons]
  rfl

theorem reads_consPattern (hhead : (nested d).ReadsAtom a) (htail : (nested d).ReadsPattern p) :
    (nested (d + 1)).ReadsPattern (.cons a p) := by
  intro setting s w ws more hw hs
  rw [PatternTree.words, List.append_assoc] at hs
  obtain ⟨head, t, hread, ht, hstores⟩ := hhead setting s (.mark .cons) _ more (.inl rfl) hs
  obtain ⟨tail, u, hread', hu, hstores'⟩ := htail setting t.next w ws more hw ht.next
  have hrun : (nested (d + 1)).pattern.run setting s =
      (closePattern s.cursor.span (.cons head tail)).run setting u := by
    change ((patternAtom (nested d)).run setting s).andThen _ = _
    rw [hread]
    change ((accept (.mark .cons)).run setting t).andThen _ = _
    rw [ht.run_accept]
    change ((nested d).pattern.run setting t.next).andThen _ = _
    rw [hread']
    rfl
  have honward := (onward_of_ok hread').tree
  exact hu.reads_of_close hrun fun _ _ htree hpattern =>
    ⟨head, tail, hpattern, hstores.mono (honward.trans htree), hstores'.mono htree⟩

mutual

/-- A pattern is read by as many levels as its readings are nested deep. -/
theorem reads_patternTree : (p : PatternTree) → (d : Nat) → p.depth ≤ d → (nested d).ReadsPattern p
  | .atom a, d + 1, h => reads_atomPattern (reads_patternHead a d (Nat.le_of_succ_le_succ h))
  | .cons head tail, d + 1, h =>
      have hmax := Nat.max_le.mp (Nat.le_of_succ_le_succ h)
      reads_consPattern (reads_patternHead head d hmax.1) (reads_patternTree tail d hmax.2)

theorem reads_patternHead : (a : PatternAtom) → (d : Nat) → a.depth ≤ d → (nested d).ReadsAtom a
  | .var x, _, _ => reads_varPattern _ x
  | .lit l, _, _ => reads_litPattern _ l
  | .tag name, _, _ => reads_tagPattern _ name
  | .ctor name args, d, h => reads_ctorPattern name (reads_patternTrees args d h)
  | .sym name, _, _ => reads_symPattern _ name
  | .succ n rest, d + 1, h => reads_succPattern n (reads_patternHead rest d (Nat.le_of_succ_le_succ h))
  | .tuple first rest, d, h =>
      have hmax := Nat.max_le.mp h
      reads_tuplePattern (List.forall_mem_cons.mpr
        ⟨reads_patternTree first d hmax.1, reads_patternTrees rest d hmax.2⟩)
  | .list first rest, d, h =>
      have hmax := Nat.max_le.mp h
      reads_listPattern (List.forall_mem_cons.mpr
        ⟨reads_patternTree first d hmax.1, reads_patternTrees rest d hmax.2⟩)
  | .emptyList, _, _ => reads_emptyListPattern _
  | .paren inner, d, h => reads_parenPattern (reads_patternTree inner d h)

theorem reads_patternTrees :
    (ps : List PatternTree) → (d : Nat) → PatternTree.depths ps ≤ d → ∀ p ∈ ps, (nested d).ReadsPattern p
  | [], _, _ => fun _ h => absurd h List.not_mem_nil
  | p :: ps, d, h =>
      have hmax := Nat.max_le.mp h
      List.forall_mem_cons.mpr ⟨reads_patternTree p d hmax.1, reads_patternTrees ps d hmax.2⟩

end

/-! ## Cases -/

theorem run_sees {k : TokenKind} : (sees k).run setting s = .ok (s.cursor.kind = k) s := rfl

theorem run_oneUpTo_single {α : Type} {k : TokenKind} {r : Reading α} {x : α}
    (h : r.run setting s = .ok x t) (ht : t.cursor.kind = k) :
    (oneUpTo k r).run setting s = .ok [x] t := by
  change (runLoop _ setting #[] s).andThen _ = _
  rw [runLoop_done (b := #[x]) (t := t)]
  · rfl
  · simp only [run_bind, run_sees, h, Outcome.andThen_ok, run_pure, ht, decide_true, Bool.not_true]
    rfl

theorem run_collectWhile_nil {α : Type} {k : TokenKind} (r : Reading α) (h : s.cursor.kind ≠ k) :
    (collectWhile (sees k) r).run setting s = .ok [] s := by
  change (runLoop _ setting #[] s).andThen _ = _
  rw [runLoop_done (b := #[])]
  · rfl
  · simp only [run_bind, run_sees, Outcome.andThen_ok, h, decide_false]
    rfl

theorem run_collectWhile_single {α : Type} {k : TokenKind} {r : Reading α} {x : α}
    (h : s.cursor.kind = k) (hr : r.run setting s = .ok x t) (ht : t.cursor.kind ≠ k)
    (hlt : t.cursor.remaining < s.cursor.remaining) :
    (collectWhile (sees k) r).run setting s = .ok [x] t := by
  change (runLoop _ setting #[] s).andThen _ = _
  rw [runLoop_more (b := #[x]) (t := t) _ hlt, runLoop_done (b := #[x])]
  · rfl
  · simp only [run_bind, run_sees, Outcome.andThen_ok, ht, decide_false]
    rfl
  · simp only [run_bind, run_sees, Outcome.andThen_ok, h, decide_true, if_true, hr]
    rfl

theorem Session.InFront.exists_before (h : s.InFront words more) :
    ∃ ts, List.Forall₂ Word.Becomes words ts ∧ s.Before (ts ++ more) := by
  obtain ⟨ts, hts, hrest⟩ := h.faces.rest
  exact ⟨ts, hts, ⟨⟨[], .nil, hrest⟩, h.faces.eof, h.faces.split⟩, h.clean⟩

/-- A scrutinee is a name up to the colon. -/
theorem run_scrutinee {x : Identifier} (d : Nat) (setting : Setting)
    (hs : s.InFront (x.word :: .mark .colon :: ws) more) : ∃ id tree,
      (within Slot.scrutinee (oneUpTo (.mark .colon) ((nested (d + 1)).expr .check))).run setting s =
        .ok [id] { s.next with tree } ∧ tree.term? id = some (nameTerm x.text) := by
  let inside : Setting := { setting with slot := Slot.scrutinee setting.slot }
  have hkind : s.cursor.kind = .ident := hs.kind
  have hlexeme : s.cursor.lexeme = x.text := hs.lexeme
  obtain ⟨id, tree, hleading, hterm, -⟩ := run_leading_ident (nested d) inside hkind
  have hnext : Session.InFront { s.next with tree } (.mark .colon :: ws) more := hs.next.setTree tree
  obtain ⟨ts, hts, hbefore⟩ := hnext.exists_before
  obtain ⟨u, us, hu, -, rfl⟩ := List.forall₂_cons_left_iff.mp hts
  have hloose : u.isTight = false := by rw [Token.isTight, hu.spaced]; rfl
  have hcolon : ({ s.next with tree } : Session).cursor.kind = .mark .colon := hnext.kind
  rw [run_suffixes (nested d) s.cursor.span id (.loose hloose) hbefore] at hleading
  have hsettled : ({ s.next with tree } : Session).cursor.Settled inside.slot .check :=
    .inr ⟨by simp [operator?, hcolon, Infix.ofKind?, Infix.ofSymbol?],
      fun _ => by simp [Cursor.juxtaposes, inside, Slot.scrutinee]⟩
  have hexpr : ((nested (d + 1)).expr .check).run inside s = .ok id { s.next with tree } := by
    change ((leading (nested d)).run inside s).andThen _ = _
    rw [hleading]
    exact runLoop_done hsettled.run_climbRound
  exact ⟨id, tree, run_oneUpTo_single hexpr hcolon, hlexeme ▸ hterm⟩

/-- The body `()`, at the end of the text. -/
theorem run_unit {u : Token} (d : Nat) (setting : Setting) (hs : s.InFront [.mark .leftParen] [u])
    (hu : u.kind = .mark .rightParen) : ∃ id t, (nested (d + 2)).statement.run setting s = .ok id t ∧
      t.Before [] ∧ s.tree.Extends t.tree ∧ t.tree.term? id = some .unit := by
  let inside : Setting := { setting with slot := setting.slot.withUsage .term }
  have hkind : s.cursor.kind = .mark .leftParen := hs.kind
  obtain ⟨ts, hts, hbefore⟩ := hs.next.exists_before
  obtain rfl := List.forall₂_nil_left_iff.mp hts
  have hclosing : s.next.cursor.kind = .mark .rightParen := hbefore.kind.trans hu
  let added := s.tree.addTerm ⟨.unit, s.cursor.span.hull s.next.next.cursor.last, inside.slot.usage⟩
  have hend : Session.Before { s.next.next with tree := added.2 } [] := hbefore.next.setTree added.2
  have hparentheses : (parentheses (nested d) s.cursor.span).run inside s =
      .ok added.1 { s.next.next with tree := added.2 } := by
    change ((accept (.mark .rightParen)).run inside s.next).andThen _ = _
    rw [Session.run_accept hclosing]
    rfl
  have hleading : (leading (nested d)).run inside s = .ok added.1 { s.next.next with tree := added.2 } := by
    rw [run_leading_parentheses (nested d) inside hkind, hparentheses]
    exact run_suffixes (nested d) _ added.1 (.stop .eof) hend
  have hexpr := run_expr_of_leading .assignment .eof hleading hend
  refine ⟨added.1, _, ?_, hend, .addTerm _ _, Tree.term?_addTerm _ _⟩
  change (statement (nested (d + 1))).run inside s = _
  simp only [statement, Reading.cursor, asks, run_bind, Outcome.andThen_ok, hkind]
  exact hexpr

/-- A case with a single pattern, at the end of the text. -/
theorem run_matchCase {u : Token} (hdeep : (nested (d + 2)).ReadsPattern p) (setting : Setting)
    (hs : s.InFront (⟨.word .case, "case"⟩ :: (p.words ++ [.mark .colon, .mark .leftParen])) [u])
    (hu : u.kind = .mark .rightParen) : ∃ pattern body span t,
      (matchCase (nested (d + 2))).run setting s = .ok ⟨[pattern], body, span⟩ t ∧ t.Before [] ∧
        t.tree.StoresPattern p pattern ∧ t.tree.term? body = some .unit := by
  obtain ⟨pattern, t, hread, ht, hstores⟩ :=
    hdeep setting s.next (.mark .colon) [.mark .leftParen] [u] (by decide) hs.next
  obtain ⟨body, v, hbody, hend, hextends, hunit⟩ := run_unit d setting ht.next hu
  have hcase : s.cursor.kind = .word .case := hs.kind
  have hcolon : t.cursor.kind = .mark .colon := ht.kind
  have hsemicolon : v.cursor.kind ≠ .mark .semicolon := by
    rw [hend.faces.kind_nil]
    decide
  refine ⟨pattern, body, s.cursor.span.hull v.cursor.last, v, ?_, hend, hstores.mono hextends, hunit⟩
  rw [matchCase, run_bind, Session.run_expect hcase, Outcome.andThen_ok, run_bind,
    run_oneUpTo_single hread hcolon, Outcome.andThen_ok, run_bind, Session.run_expect hcolon,
    Outcome.andThen_ok, run_bind, hbody, Outcome.andThen_ok, run_bind,
    Session.Before.run_accept_of_ne hsemicolon]
  rfl

/-- A `match` of a name with a single case. -/
theorem run_matching {u : Token} (hdeep : (nested (d + 2)).ReadsPattern p) (setting : Setting)
    (hs : s.InFront (⟨.word .match_, "match"⟩ :: (p.matchingWords ++ [.mark .leftParen])) [u])
    (hu : u.kind = .mark .rightParen) : ∃ id t scrutinee pattern body span,
      (leading (nested (d + 2))).run setting s = .ok id t ∧ t.Before [] ∧
        t.tree.term? id = some (.matchOn [scrutinee] [] [⟨[pattern], body, span⟩]) ∧
        t.tree.term? scrutinee = some (.var "x") ∧ t.tree.StoresPattern p pattern ∧
        t.tree.term? body = some .unit := by
  let x : Identifier := ⟨"x", by decide, by decide, by decide⟩
  simp only [PatternTree.matchingWords, List.cons_append, List.append_assoc, List.nil_append] at hs
  have hkind : s.cursor.kind = .word .match_ := hs.kind
  obtain ⟨scrutinee, tree, hscrutinee, hx⟩ := @run_scrutinee _ _ _ x (d + 1) setting hs.next
  let v : Session := { s.next.next with tree }
  have hv : v.InFront (.mark .colon :: ⟨.word .case, "case"⟩ :: (p.words ++ [.mark .colon, .mark .leftParen])) [u] :=
    hs.next.next.setTree tree
  have hcolon : v.cursor.kind = .mark .colon := hv.kind
  have hcase : v.next.cursor.kind = .word .case := hv.next.kind
  obtain ⟨pattern, body, span, t, hread, ht, hstores, hunit⟩ := run_matchCase hdeep setting hv.next hu
  have hend : t.cursor.kind ≠ .word .case := by
    rw [ht.faces.kind_nil]
    decide
  have hlt : t.cursor.remaining < v.next.cursor.remaining := by
    rw [ht.faces.remaining, hv.next.faces.remaining]
    simp
  have hwith : v.next.cursor.kind ≠ .word .with_ := by
    rw [hcase]
    decide
  let added := t.tree.addTerm ⟨.matchOn [scrutinee] [] [⟨[pattern], body, span⟩],
    s.cursor.span.hull t.cursor.last, setting.slot.usage⟩
  have hrun : (leading (nested (d + 2))).run setting s = .ok added.1 { t with tree := added.2 } := by
    simp only [leading, Reading.cursor, asks, run_bind, Outcome.andThen_ok, hkind]
    change ((within Slot.scrutinee (oneUpTo (.mark .colon) ((nested (d + 2)).expr .check))).run setting s.next).andThen _ = _
    rw [hscrutinee, Outcome.andThen_ok, run_bind, @Session.run_expect v setting _ hcolon, Outcome.andThen_ok,
      run_bind, run_collectWhile_nil _ hwith, Outcome.andThen_ok, run_bind,
      run_collectWhile_single hcase hread hend hlt]
    rfl
  have hname : nameTerm x.text = .var "x" := by decide +kernel
  have hkept := (onward_of_ok hread).tree
  have hextends : t.tree.Extends added.2 := .addTerm _ _
  exact ⟨added.1, _, scrutinee, pattern, body, span, hrun, ht.setTree _, Tree.term?_addTerm _ _,
    hname ▸ (hkept.trans hextends).term? hx, hstores.mono hextends, hextends.term? hunit⟩

/-- Where the depth limit leaves room for it, a pattern that is written in the single case of a
`match` is read as the pattern, and as nothing else. -/
theorem patterns_inverted (p : PatternTree) (config : Config) (hdepth : p.depth + 3 ≤ config.maxDepth) :
    ∃ e scrutinee pattern body span, Expression.ofText p.matching config = .ok e ∧
      e.tree.term? e.root = some (.matchOn [scrutinee] [] [⟨[pattern], body, span⟩]) ∧
      e.tree.term? scrutinee = some (.var "x") ∧ e.tree.term? body = some .unit ∧
      e.tree.StoresPattern p pattern := by
  obtain ⟨d, hd⟩ : ∃ d, config.maxDepth = d + 4 := ⟨config.maxDepth - 4, by
    have hpos : 0 < p.depth := by cases p <;> simp [PatternTree.depth]
    omega⟩
  obtain ⟨u, hu, hfront⟩ := p.inFront_matching
  obtain ⟨id, t, scrutinee, pattern, body, span, hleading, ht, hroot, hx, hpattern, hbody⟩ :=
    run_matching (reads_patternTree p (d + 2) (by omega)) (Reading.setting config true) hfront hu
  have hexpr := run_expr_of_leading .assignment .eof hleading ht
  have hkind : (initial (Lexing.ofText p.matching)).cursor.kind = .word .match_ := hfront.kind
  have hstatement : (nested config.maxDepth).statement.run (Reading.setting config true)
      (initial (Lexing.ofText p.matching)) = .ok id t := by
    rw [hd]
    change (statement (nested (d + 3))).run (Reading.setting config true) _ = _
    simp only [statement, Reading.cursor, asks, run_bind, Outcome.andThen_ok, hkind]
    exact hexpr
  exact ⟨_, scrutinee, pattern, body, span,
    Expression.ofText_of_statement hstatement ht.faces.kind_nil ht.clean, hroot, hx, hbody, hpattern⟩

set_option maxRecDepth 100000 in
/-- Signs, a successor in a tuple of one, a constructor without arguments, and `<>` in a tail. -/
theorem patterns_inverted_nested : ∃ e scrutinee pattern body span head tail,
    Expression.ofText
        "match x : case -7 <> ( 2n + -1 , ) <> [ @ C \x7b \x7d , & s ] <> ( \"\\n\" <> y ) : ()" ⟨9, true⟩ =
          .ok e ∧
      e.tree.term? e.root = some (.matchOn [scrutinee] [] [⟨[pattern], body, span⟩]) ∧
      e.tree.pattern? pattern = some (.cons head tail) ∧ e.tree.pattern? head = some (.lit (.int (-7))) := by
  let name (text : String) (h : text.toList.head?.any Scanned.isWordStart = true)
      (h' : Scanned.wordLength text.toList = text.length) (h'' : TokenKind.ofWord? text = none) :
      Identifier := ⟨text, h, h', h''⟩
  let single : PatternAtom := .tuple (.atom (.succ 2 (.lit (.int (-1))))) []
  let items : PatternAtom :=
    .list (.atom (.ctor (name "C" rfl rfl rfl) [])) [.atom (.sym (name "s" rfl rfl rfl))]
  let inner : PatternAtom := .paren (.cons (.lit (.str "\n")) (.atom (.var (name "y" rfl rfl rfl))))
  let p : PatternTree := .cons (.lit (.int (-7))) (.cons single (.cons items (.atom inner)))
  have htext : p.matching =
      "match x : case -7 <> ( 2n + -1 , ) <> [ @ C \x7b \x7d , & s ] <> ( \"\\n\" <> y ) : ()" := by
    decide +kernel
  obtain ⟨e, scrutinee, pattern, body, span, he, hroot, -, -, head, tail, hpattern, hhead, -⟩ :=
    patterns_inverted p ⟨9, true⟩ (by decide +kernel)
  exact ⟨e, scrutinee, pattern, body, span, head, tail, htext ▸ he, hroot, hpattern, hhead⟩

end BendSyntax
