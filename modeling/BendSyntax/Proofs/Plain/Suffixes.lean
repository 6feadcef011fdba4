import BendSyntax.Proofs.Plain.Simulation

/-! Suffixes of plain operands. A term that is added reaches from the front of its operand to the
last token that was read, so it spells what has been read since. -/

namespace BendSyntax

open Reading Pieces
open Reading (Round)

namespace Plain

variable {x : Source} {setting : Setting} {s t u : Session} {deep : Deeper} {b : Part}
  {head id : TermId} {c : Cursor}

/-! ## Terms -/

namespace Source

theorem Spells.mono {tree tree' : Tree} {d : Cursor} (h : x.Spells tree id c d b)
    (htree : tree.Prefix tree') (hpatterns : tree'.patterns = tree.patterns)
    (hid : id.index < tree.terms.size) : x.Spells tree' id c d b :=
  { h with
    dump := (htree.dump hpatterns hid).trans h.dump
    start := by rw [htree.span hid, h.start]
    stop := by rw [htree.span hid, h.stop] }

theorem Reads.mono {tree tree' : Tree} (h : x.Reads tree id) (htree : tree.Prefix tree')
    (hpatterns : tree'.patterns = tree.patterns) (hid : id.index < tree.terms.size) :
    x.Reads tree' id := by
  obtain ⟨c, d, b, hspells⟩ := h
  exact ⟨c, d, b, hspells.mono htree hpatterns hid⟩

/-- A place where a plain term may begin. -/
structure Starts (x : Source) (c : Cursor) : Prop where
  faces : x.Faces c
  outside : c.split = false
  fresh : x.Fresh c

/-- An answer is what stands somewhere if it is what the parsers make of it. -/
theorem Answers.follows (h : x.Answers c s id b) (hc : x.Starts c) (hreach : c.Reaches s.cursor)
    (hgrown : Grown c.pieces b s.cursor.pieces) : x.Follows s where
  toSound := h.toSound
  reads i hi := by
    by_cases hid : i = id
    · subst hid
      exact ⟨c, s.cursor, b, {
        front := hc.faces
        outside := hc.outside
        fresh := hc.fresh
        back := h.faces
        reaches := hreach
        grown := hgrown
        dump := h.dump
        start := h.start
        stop := h.stop }⟩
    · exact h.others i hi hid

/-- A term that is added is an answer if it reaches up to the cursor. -/
theorem Follows.addTerm (h : x.Follows s) (hc : c.advance.Before s.cursor) {node : TermNode}
    (hdump : (node.term.map s.tree.dump fun q => s.tree.patternDumps.getD q.index "").dump = b.dump)
    (hname : node.term.nameLength? = if b.bare then some node.span.length else none)
    (hstart : node.span.start = c.span.start) (hstop : node.span.stop = s.cursor.last.stop) :
    x.Answers c (s.withTerm node) (s.tree.addTerm node).1 b := by
  have hprefix : s.tree.Prefix (s.withTerm node).tree := .addTerm _ _
  have hterm : (s.withTerm node).tree.term? (s.tree.addTerm node).1 = some node.term :=
    Tree.term?_addTerm _ _
  have hspan : (s.withTerm node).tree.span (s.tree.addTerm node).1 = node.span := by
    simp [Session.withTerm, Tree.addTerm, Tree.span]
  refine {
    faces := h.faces
    failures := h.failures
    patterns := h.patterns
    diagnostics := h.diagnostics
    others := fun i hi hne => ?_
    before := hc
    lt := by simp [Session.withTerm, Tree.addTerm]
    dump := (Tree.dump_addTerm _ _).trans hdump
    bare := ?_
    named := fun term n hterm' hn => ?_
    start := by rw [hspan, hstart]
    stop := by rw [hspan, hstop]; rfl }
  · have hi' : i.index < s.tree.terms.size := by
      have hlt : i.index < s.tree.terms.size + 1 := by
        simpa [Session.withTerm, Tree.addTerm] using hi
      refine Nat.lt_of_le_of_ne (Nat.le_of_lt_succ hlt) fun heq => hne ?_
      exact congrArg TermId.mk heq
    exact (h.reads i hi').mono hprefix rfl hi'
  · rw [Tree.isBareName, hterm]
    dsimp only
    rw [hname, hspan]
    cases b.bare <;> simp
  · obtain rfl : node.term = term := Option.some.inj (hterm.symm.trans hterm')
    rw [hspan]
    rw [hname] at hn
    split at hn
    · exact Nat.le_of_eq (Option.some.inj hn).symm
    · cases hn

end Source

/-- The term of a part, closed behind what has been read since a cursor. -/
theorem simulates_close (hs : x.Follows s) (hc : c.advance.Before s.cursor)
    {term : Term TermId PatternId} {e : Term String String}
    (hdump : (term.map s.tree.dump fun q => s.tree.patternDumps.getD q.index "").dump = e.dump)
    (hname : term.nameLength? = none) {β : Type} (answer : β) :
    Simulates x setting s (close c.span term) (Pure.pure answer) fun id a t =>
      a = answer ∧ t.cursor = s.cursor ∧ x.Answers c t id (part e) := by
  have hstart : (c.span.hull s.cursor.last).start = c.span.start := by
    rw [Span.hull_start]
    refine Nat.min_eq_left ?_
    have hle := hc.start
    rwa [Cursor.last_advance] at hle
  have hstop : (c.span.hull s.cursor.last).stop = s.cursor.last.stop := by
    rw [Span.hull_stop]
    refine Nat.max_eq_right ?_
    have hle := hc.stop
    rwa [Cursor.last_advance] at hle
  refine ⟨⟨.addTerm _ _, .refl _, .refl _⟩, answer, rfl, rfl, rfl, ?_⟩
  exact hs.addTerm hc hdump hname hstart hstop

/-! ## Lists of terms -/

/-- Terms of a tree with their dumps. -/
structure Lists (tree : Tree) (ids : List TermId) (dumps : List String) : Prop where
  dumps : ids.map tree.dump = dumps
  lt : ∀ id ∈ ids, id.index < tree.terms.size

theorem Lists.nil (tree : Tree) : Lists tree [] [] := ⟨rfl, by simp⟩

theorem Lists.mono {tree tree' : Tree} {ids : List TermId} {dumps : List String}
    (h : Lists tree ids dumps) (htree : tree.Prefix tree')
    (hpatterns : tree'.patterns = tree.patterns) : Lists tree' ids dumps where
  dumps := by
    rw [← h.dumps]
    exact List.map_congr_left fun id hid => htree.dump hpatterns (h.lt id hid)
  lt id hid := Nat.lt_of_lt_of_le (h.lt id hid) htree.size_terms

theorem Lists.push {tree : Tree} {ids : Array TermId} {dumps : List String}
    (h : Lists tree ids.toList dumps) (hid : id.index < tree.terms.size) :
    Lists tree (ids.push id).toList (dumps ++ [tree.dump id]) where
  dumps := by rw [Array.toList_push, List.map_append, h.dumps, List.map_singleton]
  lt a ha := by
    rw [Array.toList_push, List.mem_append, List.mem_singleton] at ha
    rcases ha with ha | rfl
    · exact h.lt a ha
    · exact hid

/-- A reading of a term that is dumped as the answer of a parser. -/
def ReadsItem (x : Source) (setting : Setting) (item : Reading TermId) (item' : Parser String) :
    Prop :=
  ∀ s, x.Follows s → x.Fresh s.cursor → Simulates x setting s item item' fun id dump t =>
    x.Follows t ∧ id.index < t.tree.terms.size ∧ t.tree.dump id = dump

section Lists

variable {item : Reading TermId} {item' : Parser String} {ids : Array TermId} {dumps : List String}

/-- One more item. A comma behind it is taken. -/
theorem simulates_item (hitem : ReadsItem x setting item item') (hs : x.Follows s)
    (hfresh : x.Fresh s.cursor) (hids : Lists s.tree ids.toList dumps) :
    Simulates x setting s (do
        let acc := ids.push (← item)
        if ← Reading.accept (.mark .comma) then return Round.more acc else return Round.done acc)
      (Parser.commaRound item' dumps)
      (Simulates.Meets
        (fun ids dumps t => x.Follows t ∧ x.Fresh t.cursor ∧ Lists t.tree ids.toList dumps)
        fun ids dumps t => x.Follows t ∧ Lists t.tree ids.toList dumps) := by
  refine .bind (hitem s hs hfresh) ?_
  rintro id dump t hst ⟨ht, hlt, hdump⟩
  refine .bind (.accept ht.toSound rfl) ?_
  rintro comma comma' u htu ⟨hsame, hyes, hno⟩
  have hlists : Lists t.tree (ids.push id).toList (dumps ++ [dump]) :=
    hdump ▸ (hids.mono hst.tree (ht.patterns.trans hs.patterns.symm)).push hlt
  subst hsame
  cases comma with
  | true =>
      obtain ⟨hkind, rfl⟩ := hyes rfl
      refine .pure ⟨ht.next (by simp [hkind]), ?_, hlists⟩
      exact .advance ht.faces (by simp [hkind]) (by rw [hkind]; rfl)
  | false =>
      obtain ⟨-, rfl⟩ := hno rfl
      exact .pure ⟨ht, hlists⟩

theorem simulates_separated {bracket : TokenKind} (hitem : ReadsItem x setting item item')
    (hs : x.Follows s) (hfresh : x.Fresh s.cursor) :
    Simulates x setting s (Reading.separated bracket item) (Parser.separated bracket item')
      fun ids dumps t => x.Follows t ∧ Lists t.tree ids dumps := by
  refine .pure_left (.loop (I := fun ids dumps t =>
    x.Follows t ∧ x.Fresh t.cursor ∧ Lists t.tree ids.toList dumps) ?_
    (fun _ _ _ h => h.1.faces.toAhead) (fun _ _ _ h => ⟨h.1, h.2.2⟩) ⟨hs, hfresh, .nil _⟩)
  rintro ids dumps t ⟨ht, hfresh, hids⟩
  refine .sees ht.toSound <| .ite .rfl (fun _ => .pure ?_) fun _ =>
    simulates_item hitem ht hfresh hids
  exact ⟨ht, hids⟩

theorem simulates_commaList (hitem : ReadsItem x setting item item') (hs : x.Follows s)
    (hfresh : x.Fresh s.cursor) :
    Simulates x setting s (Reading.commaList item) (Parser.commaList item')
      fun ids dumps t => x.Follows t ∧ Lists t.tree ids dumps := by
  refine .pure_left (.loop (I := fun ids dumps t =>
    x.Follows t ∧ x.Fresh t.cursor ∧ Lists t.tree ids.toList dumps) ?_
    (fun _ _ _ h => h.1.faces.toAhead) (fun _ _ _ h => ⟨h.1, h.2.2⟩) ⟨hs, hfresh, .nil _⟩)
  rintro ids dumps t ⟨ht, hfresh, hids⟩
  exact simulates_item hitem ht hfresh hids

end Lists

/-! ## Looking ahead -/

theorem Source.Faces.leftParen_tight (h : x.Faces c) :
    (decide (Pieces.kind c.pieces = .mark .leftParen) && tight c.pieces) =
      (decide (c.kind = .mark .leftParen) && c.isTight) := by
  rw [h.kind_pieces]
  by_cases hkind : c.kind = .mark .leftParen
  · rw [h.tight_pieces (h.rest_ne_nil (by simp [hkind]))]
  · simp [hkind]

theorem Source.Faces.kind_ne (h : x.Faces c) {k : TokenKind} (hk : k.isElementary = false)
    (heof : k ≠ .eof) : c.kind ≠ k := by
  rintro rfl
  rw [h.isElementary heof] at hk
  cases hk

theorem Source.Faces.startsOperand (h : x.Faces c) {slot : Slot} (hfree : slot = .free slot.usage) :
    Pieces.startsOperand c.pieces = c.startsOperand slot := by
  rw [hfree]
  have hampersand : c.kind ≠ .mark .ampersand := h.kind_ne (by decide) (by decide)
  simp only [Pieces.startsOperand, Cursor.startsOperand, Cursor.startsArgument, Cursor.atHead,
    Cursor.atCaseHead, Cursor.atFieldHead, Slot.free, Bool.false_and, Bool.not_false,
    Bool.true_and, hampersand, decide_false, Bool.or_false, h.kind_pieces, h.atRefl_pieces,
    Bool.or_assoc]

/-! ## Arguments -/

/-- The readings of the next level do what the parsers of expressions do. -/
def Guided (x : Source) (deep : Deeper) : Prop :=
  ∀ min setting s, setting.slot = .free setting.slot.usage → x.Follows s → x.Fresh s.cursor →
    Simulates x setting s (deep.expr min) (expr min) fun id b t =>
      x.Follows t ∧ x.Answers s.cursor t id b

section Suffixes

variable (hdeep : Guided x deep)
include hdeep

theorem readsItem_expr (hfree : setting.slot = .free setting.slot.usage) (min : Level) :
    ReadsItem x setting (deep.expr min) ((·.dump) <$> expr min) := fun s hs hfresh =>
  .pure_right ((hdeep min setting s hfree hs hfresh).weaken fun _ _ _ _ _ h => ⟨h.1, h.2.lt, h.2.dump⟩)

theorem simulates_callArgs (hs : x.Follows s) (hfresh : x.Fresh s.cursor) :
    Simulates x setting s (Grammar.callArgs deep) (callArgs expr) fun ids dumps t =>
      x.Follows t ∧ Lists t.tree ids dumps := by
  have hlist : Simulates x setting s (delimited (Reading.separated (.mark .rightParen) deep.inner))
      (Parser.separated (.mark .rightParen) (inner expr)) fun ids dumps t =>
        x.Follows t ∧ Lists t.tree ids dumps :=
    .within (simulates_separated (readsItem_expr hdeep rfl .check) hs hfresh)
  refine hlist.bind ?_
  rintro ids dumps t _ ⟨ht, hids⟩
  refine .bind (.expect ht.toSound rfl) ?_
  rintro _ _ _ _ ⟨hkind, -, rfl⟩
  exact .pure ⟨ht.next (by simp [hkind]), hids⟩

theorem simulates_call (hs : x.Follows s) (hc : c.advance.Before s.cursor)
    (hhead : head.index < s.tree.terms.size) (hdump : s.tree.dump head = b.dump) (tight : Bool)
    (hkind : s.cursor.kind = .mark .leftParen) :
    Simulates x setting s (Grammar.call deep head c.span tight) (call expr b) fun id b t =>
      x.Answers c t id b := by
  refine .bind (.advance hs.toSound (by simp [hkind])) ?_
  rintro _ _ _ hleads ⟨-, rfl⟩
  have hnext := hs.next (s := s) (by simp [hkind])
  refine (simulates_callArgs hdeep hnext (.advance hs.faces (by simp [hkind]) (by rw [hkind]; rfl))).bind ?_
  rintro ids dumps t htu ⟨ht, hids⟩
  have hst := hleads.trans htu
  refine (simulates_close ht (hc.trans hst.cursor) ?_ rfl _).weaken fun _ _ _ _ _ h => h.1 ▸ h.2.2
  simp only [Term.map, Term.dump, hids.dumps, ← hdump,
    hst.tree.dump (ht.patterns.trans hs.patterns.symm) hhead]

/-- A list in angle brackets, at the opening one. -/
theorem simulates_typeArgs (hs : x.Follows s) (hkind : s.cursor.kind = .mark .less) :
    Simulates x setting s (Grammar.typeArgs deep) (typeArgs expr) fun ids dumps t =>
      x.Follows t ∧ Lists t.tree ids dumps := by
  refine .bind (.advance hs.toSound (by simp [hkind])) ?_
  rintro _ _ _ _ ⟨-, rfl⟩
  have hlist : Simulates x setting s.next
      (delimited (withUsage .type (Reading.commaList (deep.expr .additive))))
      (Parser.commaList ((·.dump) <$> expr .additive)) fun ids dumps t =>
        x.Follows t ∧ Lists t.tree ids dumps :=
    .within <| .within <| simulates_commaList (readsItem_expr hdeep rfl .additive)
      (hs.next (by simp [hkind])) (.advance hs.faces (by simp [hkind]) (by rw [hkind]; rfl))
  refine hlist.bind ?_
  rintro ids dumps t _ ⟨ht, hids⟩
  refine .bind (.closeAngle ht.toSound) ?_
  rintro _ _ u _ ⟨hfaces, hu⟩
  rw [hu]
  exact .pure ⟨⟨⟨hfaces, ht.failures, ht.patterns, ht.diagnostics⟩, ht.reads⟩, hids⟩

/-- Type arguments with values behind them, or with nothing that begins an operand. -/
theorem tries_genericArgs (hfree : setting.slot = .free setting.slot.usage) (hs : x.Follows s)
    (hkind : s.cursor.kind = .mark .less) :
    Tries x setting s (Grammar.genericArgs deep) (genericArgs expr) fun found found' t =>
      x.Follows t ∧ Lists t.tree found.1 found'.1 ∧
        ((found.2 = none ∧ found'.2 = none) ∨
          ∃ ids dumps, found.2 = some ids ∧ found'.2 = some dumps ∧ Lists t.tree ids dumps) := by
  refine .bind (simulates_typeArgs hdeep hs hkind) ?_
  rintro types types' t hst ⟨ht, htypes⟩
  refine .cursor ?_
  have hparen := ht.faces.leftParen_tight
  have hstarts := ht.faces.startsOperand hfree
  split
  · rename_i hcall
    rw [hcall] at hparen
    simp only [Bool.and_eq_true, decide_eq_true_eq] at hcall
    refine .congr (q := do Parser.advance; let values ← callArgs expr; return (types', some values))
      ?_ ?_
    · simp only [valueArgs?, Parser.looks, Parser.run_bind, Parser.run_asks, Option.bind_some, hparen,
        if_true, Functor.map, Option.bind_assoc, Parser.run_pure, Function.comp_apply]
    · refine .bind (.advance ht.toSound (by simp [hcall.1])) ?_
      rintro _ _ _ _ ⟨-, rfl⟩
      have hfresh : x.Fresh t.next.cursor :=
        .advance ht.faces (by simp [hcall.1]) (by rw [hcall.1]; rfl)
      refine .bind (simulates_callArgs hdeep (ht.next (by simp [hcall.1])) hfresh) ?_
      rintro values values' u htu ⟨hu, hvalues⟩
      refine .pure ⟨hu, ?_, .inr ⟨values, values', rfl, rfl, hvalues⟩⟩
      exact htypes.mono htu.tree (hu.patterns.trans ht.patterns.symm)
  · rename_i hcall
    rw [Bool.eq_false_iff.mpr hcall] at hparen
    refine .slot ?_
    split
    · rename_i hoperand
      rw [hoperand] at hstarts
      refine .declines ht.toSound ?_
      simp only [valueArgs?, Parser.looks, Parser.run_bind, Parser.run_asks, Option.bind_some, hparen,
        hstarts, Bool.false_eq_true, if_true, if_false, Parser.run_fail, Option.bind_none]
    · rename_i hoperand
      rw [Bool.eq_false_iff.mpr hoperand] at hstarts
      refine .congr (q := return (types', none)) ?_ (.pure ⟨ht, htypes, .inl ⟨rfl, rfl⟩⟩)
      simp only [valueArgs?, Parser.looks, Parser.run_bind, Parser.run_asks, Option.bind_some, hparen,
        hstarts, Bool.false_eq_true, if_false, Parser.run_pure]

/-- `f<A, B>(x)` or `F<A, B>`, unless the bracket is a comparison. -/
theorem simulates_generic? (hfree : setting.slot = .free setting.slot.usage) (hs : x.Follows s)
    (hc : c.advance.Before s.cursor) (hhead : head.index < s.tree.terms.size)
    (hdump : s.tree.dump head = b.dump) (hkind : s.cursor.kind = .mark .less) :
    Simulates x setting s (Grammar.generic? deep head c.span) (Parser.attempt (genericArgs expr))
      fun found found' t =>
        (found = none ∧ found' = none ∧ x.Sound t ∧ t.cursor = s.cursor ∧ t.tree = s.tree) ∨
          ∃ id args, found = some id ∧ found' = some args ∧ x.Answers c t id (generic b args) := by
  refine (Simulates.attempt hs.toSound (fun f hindex hwhat => ?_)
    (tries_genericArgs hdeep hfree hs hkind)).bind_left fun found found' t hst hfound => ?_
  · rw [Source.Vain, hwhat, hindex, ← hs.faces.pieces (hs.faces.outside (by rw [hkind]; rfl))]
  · obtain ⟨rfl, rfl, hnone⟩ | ⟨⟨types, values⟩, ⟨types', values'⟩, rfl, rfl, ht, htypes, hvalues⟩ := hfound
    · exact .pure (.inl ⟨rfl, rfl, hnone⟩)
    · have hdump' : t.tree.dump head = b.dump :=
        (hst.tree.dump (ht.patterns.trans hs.patterns.symm) hhead).trans hdump
      have hbefore := hc.trans hst.cursor
      dsimp only at htypes hvalues
      obtain ⟨rfl, rfl⟩ | ⟨ids, dumps, rfl, rfl, hids⟩ := hvalues
      · refine .pure_left ((simulates_close (e := .tyApp b.dump types') ht hbefore ?_ rfl _).weaken ?_)
        · simp only [Term.map, Term.dump, htypes.dumps, hdump']
        · rintro id _ u - - ⟨rfl, -, h⟩
          exact .inr ⟨id, _, rfl, rfl, h⟩
      · refine .pure_left
          ((simulates_close (e := .genericCall b.dump types' dumps) ht hbefore ?_ rfl _).weaken ?_)
        · simp only [Term.map, Term.dump, htypes.dumps, hids.dumps, hdump']
        · rintro id _ u - - ⟨rfl, -, h⟩
          exact .inr ⟨id, _, rfl, rfl, h⟩

end Suffixes

end Plain

end BendSyntax
