import BendSyntax.Proofs.Plain.Suffixes

/-! Operands of plain expressions with what directly follows them. As long as suffixes are taken,
what has been read is an operand with some of its suffixes. -/

namespace BendSyntax

open Reading Pieces
open Reading (Round)

namespace Plain

variable {x : Source} {setting : Setting} {s t u : Session} {deep : Deeper} {b : Part}
  {head id : TermId} {c : Cursor}

/-! ## Terms as they grow -/

theorem Source.Faces.starts (h : x.Faces c) (hwhole : isWhole c.kind = true) (hfresh : x.Fresh c) :
    x.Starts c := ⟨h, h.outside hwhole, hfresh⟩

/-- A term that has been read from a cursor on, in one of the ways in which terms grow. -/
structure Source.Partly (x : Source) (P : List Piece → Part → List Piece → Prop) (c : Cursor)
    (s : Session) (id : TermId) (b : Part) : Prop extends x.Answers c s id b where
  reaches : c.Reaches s.cursor
  grown : P c.pieces b s.cursor.pieces

theorem Source.Partly.follows {P : List Piece → Part → List Piece → Prop}
    (h : x.Partly P c s id b) (hc : x.Starts c) (hP : ∀ ps b qs, P ps b qs → Grown ps b qs) :
    x.Follows s :=
  h.toAnswers.follows hc h.reaches (hP _ _ _ h.grown)

/-- A session that differs in what is remembered only has the same answer. -/
theorem Source.Answers.of_same (h : x.Answers c s id b) (ht : x.Sound t)
    (hcursor : t.cursor = s.cursor) (htree : t.tree = s.tree) : x.Answers c t id b where
  toSound := ht
  others := htree ▸ h.others
  before := hcursor ▸ h.before
  lt := htree ▸ h.lt
  dump := htree ▸ h.dump
  bare := htree ▸ h.bare
  named := htree ▸ h.named
  start := htree ▸ h.start
  stop := by rw [htree, hcursor]; exact h.stop

/-- An answer that has been read from the front of a term on is all that has been read. -/
theorem Simulates.follows {r : Reading TermId} {p : Parser Part} (hs : x.Starts s.cursor)
    (h : Simulates x setting s r p fun id b t => x.Answers s.cursor t id b)
    (hgrown : ∀ b qs, p.run s.cursor.pieces = some (b, qs) → Grown s.cursor.pieces b qs) :
    Simulates x setting s r p fun id b t => x.Follows t ∧ x.Answers s.cursor t id b :=
  h.weaken fun _ _ _ hst hrun h => ⟨h.follows hs hst.reaches (hgrown _ _ hrun), h⟩

/-! ## Braces -/

theorem run_operand_refl {ps : List Piece} (h : atRefl ps = true) :
    (operand expr).run ps = refl.run ps := by
  have hkind : Pieces.kind ps = .mark .leftBrace := by simp_all [atRefl]
  rw [operand, Parser.kind, Parser.run_asks_bind, hkind]
  simp only [Parser.looks, Parser.run_asks_bind, h, if_true]

/-- `{==}` at a cursor. -/
theorem simulates_refl (hs : x.Follows s) (hrefl : s.cursor.atRefl = true) :
    Simulates x setting s Grammar.refl refl fun id b t =>
      x.Follows t ∧ x.Answers s.cursor t id b := by
  obtain ⟨h0, h1, h2⟩ : s.cursor.kind = .mark .leftBrace ∧ s.cursor.kindAt 1 = .mark .eqEq ∧
      s.cursor.kindAt 2 = .mark .rightBrace := by simpa [Cursor.atRefl, and_assoc] using hrefl
  have hne := hs.faces.rest_ne_nil (by simp [h0])
  have hs1 := hs.next (by simp [h0])
  have h1 : s.next.cursor.kind = .mark .eqEq := (Cursor.kindAt_advance hne 0).trans h1
  have h2 : s.next.next.cursor.kind = .mark .rightBrace :=
    (Cursor.kindAt_advance (hs1.faces.rest_ne_nil (by simp [h1])) 0).trans
      ((Cursor.kindAt_advance hne 1).trans h2)
  have hs2 := hs1.next (by simp [h1])
  refine .follows (hs.faces.starts (by rw [h0]; rfl) (.of_kind (by simp [h0]))) (.here ?_)
    fun b qs hrun => .inl (.of_operand ((run_operand_refl (hs.faces.atRefl_pieces.trans hrefl)).trans hrun))
  refine .bind (.advance hs.toSound (by simp [h0])) ?_
  rintro _ _ _ - ⟨-, rfl⟩
  refine .bind (.advance hs1.toSound (by simp [h1])) ?_
  rintro _ _ _ - ⟨-, rfl⟩
  refine .bind (.advance hs2.toSound (by simp [h2])) ?_
  rintro _ _ _ - ⟨-, rfl⟩
  refine (simulates_close (hs2.next (by simp [h2])) ?_ rfl rfl _).weaken
    fun _ _ _ _ _ h => h.1 ▸ h.2.2
  exact hs1.faces.before_advance.trans hs2.faces.before_advance

/-- The sides of an equality without the braces. -/
def sides : Parser (String × Bool × String) := do
  let lhs ← expr .comparison
  match Grammar.negated? (← Parser.kind) with
  | some negated =>
      Parser.advance
      return (lhs.dump, negated, (← expr .comparison).dump)
  | none => Parser.fail

theorem run_equality (ps : List Piece) : (equality expr).run ps = (do
    Parser.advance
    let found ← sides
    Parser.expect (.mark .rightBrace)
    return found : Parser (String × Bool × String)).run ps := by
  simp only [equality, sides, Parser.run_bind, Option.bind_assoc]
  refine Option.bind_congr fun _ _ => Option.bind_congr fun lhs _ => Option.bind_congr fun k _ => ?_
  cases Grammar.negated? k.1 with
  | none => rfl
  | some negated => simp only [Parser.run_bind, Option.bind_assoc, Parser.run_pure, Option.bind_some]

/-- The sides of an equality as terms, and as they are dumped. -/
def Source.Sided (x : Source) (found : TermId × Bool × TermId) (shown : String × Bool × String)
    (t : Session) : Prop :=
  x.Follows t ∧ (found.1.index < t.tree.terms.size ∧ t.tree.dump found.1 = shown.1) ∧
    found.2.1 = shown.2.1 ∧ found.2.2.index < t.tree.terms.size ∧ t.tree.dump found.2.2 = shown.2.2

section Suffixes

variable (hdeep : Guided x deep)
include hdeep

/-- The sides of an equality are read, or there is none. -/
theorem tries_equalitySides (hfree : setting.slot = .free setting.slot.usage) (hs : x.Follows s)
    (hfresh : x.Fresh s.cursor) :
    Tries x setting s (Grammar.equalitySides deep) sides (x.Sided) := by
  refine .bind (hdeep .comparison _ s hfree hs hfresh) ?_
  rintro lhs a t hst ⟨ht, hlhs⟩
  refine .kind ht.toSound ?_
  cases hnegated : Grammar.negated? t.cursor.kind with
  | none => exact .declines ht.toSound rfl
  | some negated =>
      have hends : t.cursor.kind ≠ .eof ∧ t.cursor.kind.endsOperand = false := by
        unfold Grammar.negated? at hnegated
        split at hnegated <;> simp_all [TokenKind.endsOperand]
      refine .bind (.advance ht.toSound hends.1) ?_
      rintro _ _ _ htu ⟨-, rfl⟩
      refine .bind (hdeep .comparison _ t.next hfree (ht.next hends.1)
        (.advance ht.faces hends.1 hends.2)) ?_
      rintro rhs a' u hu ⟨hfollows, hrhs⟩
      refine .pure ⟨hfollows, ⟨?_, ?_⟩, rfl, hrhs.lt, hrhs.dump⟩
      · exact Nat.lt_of_lt_of_le hlhs.lt hu.tree.size_terms
      · exact (hu.tree.dump (hfollows.patterns.trans ht.patterns.symm) hlhs.lt).trans hlhs.dump

/-- An equality in braces, or something else. -/
theorem tries_equality (hs : x.Follows s) (hkind : s.cursor.kind = .mark .leftBrace) :
    Tries x setting s (Grammar.equality deep) (equality expr) x.Sided := by
  refine .congr (run_equality _) (.bind (.advance hs.toSound (by simp [hkind])) ?_)
  rintro _ _ _ hnext ⟨-, rfl⟩
  have hsides : Tries x setting s.next (delimited (withUsage .term (Grammar.equalitySides deep)))
      sides x.Sided :=
    .within <| .within <| tries_equalitySides hdeep rfl (hs.next (by simp [hkind]))
      (.advance hs.faces (by simp [hkind]) (by rw [hkind]; rfl))
  refine hsides.behind rfl fun found found' t hst hfound => ?_
  refine Tries.accept (g := Pure.pure found') hfound.1.toSound rfl fun hclose => .pure ?_
  exact ⟨hfound.1.next (by simp [hclose]), hfound.2⟩

/-- A brace behind a term: `{==}`, an equality or implicit arguments. -/
theorem simulates_braceSuffix (hs : x.Follows s) (hc : c.advance.Before s.cursor)
    (hhead : head.index < s.tree.terms.size) (hdump : s.tree.dump head = b.dump) (tight : Bool)
    (hkind : s.cursor.kind = .mark .leftBrace) :
    Simulates x setting s (Grammar.braceSuffix deep head c.span tight) (braces expr b) fun id a t =>
      x.Answers c t id a := by
  refine .cursor <| .looks ?_
  rw [hs.faces.atRefl_pieces]
  refine .ite .rfl (fun hrefl => ?_) fun _ => ?_
  · refine (simulates_refl hs hrefl).bind ?_
    rintro arg a t hst ⟨ht, harg⟩
    refine (simulates_close ht (hc.trans hst.cursor) ?_ rfl _).weaken fun _ _ _ _ _ h => h.1 ▸ h.2.2
    have hdump' := (hst.tree.dump (ht.patterns.trans hs.patterns.symm) hhead).trans hdump
    simp only [Term.map, Term.dump, hdump', harg.dump]
  · refine (Simulates.attempt hs.toSound (fun f hindex hwhat => ?_)
      (tries_equality hdeep hs hkind)).bind fun found found' t hst hfound => ?_
    · rw [Source.Vain, hwhat, hindex, ← hs.faces.pieces (hs.faces.outside (by rw [hkind]; rfl))]
    obtain ⟨rfl, rfl, ht, hcursor, htree⟩ |
      ⟨⟨lhs, negated, rhs⟩, ⟨l, negated', r⟩, rfl, rfl, ht, ⟨-, hl⟩, hnegated, -, hr⟩ := hfound
    · have ht' : x.Follows t := ⟨ht, htree ▸ hs.reads⟩
      have hkind' : t.cursor.kind = .mark .leftBrace := hcursor ▸ hkind
      refine .congr (q := do
        Parser.expect (.mark .leftBrace)
        let args ← Parser.separated (.mark .rightBrace) (inner expr)
        Parser.expect (.mark .rightBrace)
        return part (.implicit b.dump args true)) rfl ?_ (.bind (.expect ht rfl) ?_)
      · simp only [implicitArgs, Parser.run_bind, Option.bind_assoc, Parser.run_pure,
          Option.bind_some, Parser.expect, Parser.sees, Parser.looks, Parser.run_asks,
          ht.faces.kind_pieces, hkind', decide_true, if_true]
      rintro _ _ _ htu ⟨-, -, rfl⟩
      have hlist : Simulates x setting t.next
          (delimited (withUsage .term (Reading.separated (.mark .rightBrace) deep.inner)))
          (Parser.separated (.mark .rightBrace) (inner expr)) fun ids dumps t =>
            x.Follows t ∧ Lists t.tree ids dumps :=
        .within <| .within <| simulates_separated (readsItem_expr hdeep rfl .check)
          (ht'.next (by simp [hkind'])) (.advance ht.faces (by simp [hkind']) (by rw [hkind']; rfl))
      refine hlist.bind ?_
      rintro ids dumps u hu ⟨hu', hids⟩
      refine .bind (.expect hu'.toSound rfl) ?_
      rintro _ _ _ huv ⟨hclose, -, rfl⟩
      have hleads := ((hst.trans htu).trans hu).trans huv
      refine (simulates_close (hu'.next (by simp [hclose])) (hc.trans hleads.cursor) ?_ rfl _).weaken
        fun _ _ _ _ _ h => h.1 ▸ h.2.2
      have hdump' := (hleads.tree.dump (hu'.patterns.trans hs.patterns.symm) hhead).trans hdump
      simp only [Term.map, Term.dump]
      rw [hdump']
      simp only [Session.next, hids.dumps]
    · dsimp only at hnegated hl hr
      subst hnegated
      refine (simulates_close ht (hc.trans hst.cursor) ?_ rfl _).weaken fun _ _ _ _ _ h => h.1 ▸ h.2.2
      have hdump' := (hst.tree.dump (ht.patterns.trans hs.patterns.symm) hhead).trans hdump
      simp only [Term.map, Term.dump, hdump', hl, hr]

end Suffixes

end Plain

end BendSyntax
