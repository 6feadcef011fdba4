import BendSyntax.Proofs.Plain.Terms

/-! Plain expressions. The readings of all levels do what the parser of expressions does, as long as
they do not meet the depth limit. -/

namespace BendSyntax

open Reading Grammar Pieces
open Reading (Round)

namespace Plain

variable {x : Source} {setting : Setting} {s t u : Session} {deep : Deeper} {b : Part}
  {head id : TermId} {c : Cursor} {min : Level}

theorem isWhole_of_operand {deep : Level → Parser Part} {ps : List Piece} {y : Part × List Piece}
    (h : (Plain.operand deep).run ps = some y) : isWhole (Pieces.kind ps) = true := by
  rw [Plain.operand, Parser.kind, Parser.run_asks_bind] at h
  unfold isWhole
  split
  · rename_i hkind
    rw [hkind] at h
    cases h
  · rename_i hkind
    rw [hkind] at h
    cases h
  · rename_i hkind
    rw [hkind] at h
    cases h
  · rfl

theorem isWhole_of_leading {deep : Level → Parser Part} {ps : List Piece} {y : Part × List Piece}
    (h : (Plain.leading deep).run ps = some y) : isWhole (Pieces.kind ps) = true := by
  rw [Plain.leading, Parser.kind, Parser.run_asks_bind] at h
  split at h
  · rename_i hkind
    rw [hkind]
    rfl
  · rename_i hkind
    rw [hkind]
    rfl
  · obtain ⟨_, _, hoperand, -⟩ := Parser.run_bind_eq_some.mp h
    exact isWhole_of_operand hoperand

theorem endsOperand_of_infix {k : TokenKind} {op : Infix} (h : Infix.ofKind? k = some op) :
    k ≠ .eof ∧ k.endsOperand = false := by
  cases k with
  | mark s => cases s <;> cases h <;> exact ⟨nofun, rfl⟩
  | word w => cases w <;> cases h <;> exact ⟨nofun, rfl⟩
  | _ => cases h

section Expressions

variable (hdeep : Guided x deep)
include hdeep

/-! ## What an expression begins with -/

theorem simulates_signed (op : UnaryOp) (hfree : setting.slot = .free setting.slot.usage)
    (hs : x.Follows s) (hne : s.cursor.kind ≠ .eof) (hends : s.cursor.kind.endsOperand = false) :
    Simulates x setting s (before deep s.cursor.span .operand (.op1 op)) (signed expr op)
      fun id b t => x.Answers s.cursor t id b := by
  refine .bind (.advance hs.toSound hne) ?_
  rintro _ _ _ - ⟨-, rfl⟩
  refine .bind (hdeep .operand _ _ hfree (hs.next hne) (.advance hs.faces hne hends)) ?_
  rintro arg a t hst ⟨ht, harg⟩
  refine (simulates_close ht hst.cursor ?_ rfl _).weaken fun _ _ _ _ _ h => h.1 ▸ h.2.2
  simp only [Term.map, Term.dump, harg.dump]

theorem simulates_leading (htop : deep.Tops) (hfree : setting.slot = .free setting.slot.usage)
    (hs : x.Follows s) (hfresh : x.Fresh s.cursor) :
    Simulates x setting s (Grammar.leading deep) (Plain.leading expr)
      fun id b t => x.Partly Chains s.cursor t id b := by
  suffices h : Simulates x setting s (Grammar.leading deep) (Plain.leading expr)
      fun id b t => x.Answers s.cursor t id b from
    h.weaken fun _ _ _ hst hrun h => ⟨h, hst.reaches, .of_leading hrun⟩
  have hother (k : TokenKind) (hk : k.isElementary = false) (heof : k ≠ .eof) : s.cursor.kind ≠ k :=
    hs.faces.kind_ne hk heof
  have hoperand : Simulates x setting s (do
        let head ← Grammar.operand deep
        Grammar.suffixes deep s.cursor.span head)
      (do
        let head ← Plain.operand expr
        Plain.suffixes expr head) fun id b t => x.Answers s.cursor t id b := by
    refine .bind ((simulates_operand hdeep htop hfree hs).weaken (T := fun id b t =>
      x.Starts s.cursor ∧ x.Partly Heads s.cursor t id b) fun id b t hst hrun h => ?_) ?_
    · have hwhole := isWhole_of_operand hrun
      rw [hs.faces.kind_pieces] at hwhole
      exact ⟨hs.faces.starts hwhole hfresh, h, hst.reaches, .of_operand hrun⟩
    · rintro id b t - ⟨hc, h⟩
      exact (simulates_suffixes hdeep hfree hc h).weaken fun _ _ _ _ _ h => h.toAnswers
  refine .cursor <| .kind_right ?_
  rw [hs.faces.kind_pieces]
  generalize hkind : s.cursor.kind = k at *
  dsimp only
  split
  · exact simulates_signed hdeep .not hfree hs (by simp [hkind]) (by rw [hkind]; rfl)
  · exact simulates_signed hdeep .neg hfree hs (by simp [hkind]) (by rw [hkind]; rfl)
  case h_18 =>
    split
    · contradiction
    · contradiction
    · exact hoperand
  all_goals exact absurd rfl (hother _ (by decide) (by decide))

/-! ## Arguments and operators -/

theorem simulates_juxtaposed? (hfree : setting.slot = .free setting.slot.usage) (hs : x.Follows s)
    (h : x.Answers c s id b) :
    Simulates x setting s (Grammar.juxtaposed? deep id c.span) (Plain.juxtaposed? expr b)
      fun found found' t => (found = none ∧ found' = none ∧ t = s) ∨
        ∃ id b, found = some id ∧ found' = some b ∧ x.Answers c t id b := by
  have hparen : (decide (Pieces.kind s.cursor.pieces = .mark .leftParen) &&
      !Pieces.tight s.cursor.pieces) =
        (decide (s.cursor.kind = .mark .leftParen) && !s.cursor.isTight) := by
    rw [hs.faces.kind_pieces]
    by_cases hkind : s.cursor.kind = .mark .leftParen
    · rw [hs.faces.tight (by simp [hkind])]
    · simp [hkind]
  have hsome {r : Reading TermId} {p : Parser Part} (hr : Simulates x setting s r p fun id b t =>
      x.Answers c t id b) : Simulates x setting s (some <$> r) (some <$> p) fun found found' t =>
        (found = none ∧ found' = none ∧ t = s) ∨
          ∃ id b, found = some id ∧ found' = some b ∧ x.Answers c t id b :=
    hr.bind fun id b _ _ h => .pure (.inr ⟨id, b, rfl, rfl, h⟩)
  have hjuxtapose : setting.slot.noJuxtapose = false := by rw [hfree]; rfl
  have hloose : setting.slot.noLooseBrace = false := by rw [hfree]; rfl
  have hargument : s.cursor.startsArgument setting.slot = Cursor.opensArgument s.cursor.kind := by
    have hampersand : s.cursor.kind ≠ .mark .ampersand := hs.faces.kind_ne (by decide) (by decide)
    rw [hfree]
    simp [Cursor.startsArgument, Cursor.atHead, Cursor.atCaseHead, Cursor.atFieldHead, Slot.free,
      hampersand]
  refine .cursor <| .slot ?_
  rw [hjuxtapose, hargument]
  refine .bareName <| .looks ?_
  rw [hparen, h.bare]
  refine .ite .rfl (fun hcall => ?_) fun _ => .looks ?_
  · simp only [Bool.and_eq_true, decide_eq_true_eq] at hcall
    exact hsome (simulates_call hdeep hs h.before h.lt h.dump false hcall.1.1)
  rw [hs.faces.kind_pieces]
  refine .ite (by rw [decide_eq_true_eq]) (fun hbrace => ?_) fun _ => .looks ?_
  · have hbraces : s.cursor.bracesOperand setting.slot = true := by
      rw [hfree]
      simp [Cursor.bracesOperand, hbrace, Slot.free, Cursor.atCaseHead]
    rw [hloose, hbraces]
    exact hsome (simulates_braceSuffix hdeep hs h.before h.lt h.dump _ hbrace)
  · rw [hs.faces.kind_pieces]
    refine .ite .rfl (fun hopens => ?_) fun _ => .pure (.inl ⟨rfl, rfl, rfl⟩)
    have hfresh : x.Fresh s.cursor := .of_kind fun hkind => by
      rw [hkind] at hopens
      cases hopens
    refine (hdeep .suffix _ _ hfree hs hfresh).bind ?_
    rintro arg a t hst ⟨ht, harg⟩
    refine .pure_left ((simulates_close (e := .app b.dump a.dump) ht (h.before.trans hst.cursor) ?_
      rfl _).weaken ?_)
    · have hdump := (hst.tree.dump (ht.patterns.trans hs.patterns.symm) h.lt).trans h.dump
      simp only [Term.map, Term.dump, harg.dump, hdump]
    · rintro id' _ u - - ⟨rfl, -, hanswers⟩
      exact .inr ⟨id', _, rfl, rfl, hanswers⟩

theorem simulates_operatorRound (hfree : setting.slot = .free setting.slot.usage) (hs : x.Follows s)
    (h : x.Answers c s id b) :
    Simulates x setting s (Grammar.operatorRound deep min c.span id) (Plain.operatorRound expr min b)
      (x.Suffixed c s id b) := by
  have hoperator : Grammar.operator? s.cursor setting.slot min =
      Plain.operator? s.cursor.kind min := by
    rw [hfree]
    unfold Grammar.operator? Plain.operator?
    cases Infix.ofKind? s.cursor.kind <;> simp [Slot.free]
  refine .cursor <| .slot <| .kind_right ?_
  rw [hoperator, hs.faces.kind_pieces]
  cases hop : Plain.operator? s.cursor.kind min with
  | none => exact .pure ⟨rfl, rfl, rfl, h⟩
  | some op =>
      obtain ⟨hne, hends⟩ := endsOperand_of_infix (infix_of_operator? hop).1
      have hnext := hs.next hne
      refine .bind (.advance hs.toSound hne) ?_
      rintro _ _ _ hsnext ⟨-, rfl⟩
      have hfresh : x.Fresh s.next.cursor := .advance hs.faces hne hends
      have hright : Simulates x setting s.next (rightOperand deep op) (expr op.next) fun id b t =>
          x.Follows t ∧ x.Answers s.next.cursor t id b := by
        unfold rightOperand
        split
        · exact .within (hdeep op.next _ _ (by rw [hfree]; rfl) hnext hfresh)
        · exact hdeep op.next _ _ hfree hnext hfresh
      refine hright.bind ?_
      rintro rhs a t hst ⟨ht, hrhs⟩
      have hleads := hsnext.trans hst
      have hdump := (hleads.tree.dump (ht.patterns.trans hs.patterns.symm) h.lt).trans h.dump
      refine .pure_left ((simulates_close (e := infixDumps op.form b.dump a.dump) ht
        (h.before.trans hleads.cursor) ?_ ?_ _).weaken ?_)
      · cases op.form <;> simp only [infixDumps, infixTerm, Term.map, Term.dump, hdump, hrhs.dump]
      · cases op.form <;> rfl
      · rintro id' _ u - - ⟨rfl, -, hanswers⟩
        exact hanswers

theorem simulates_climbRound (hfree : setting.slot = .free setting.slot.usage) (hs : x.Follows s)
    (h : x.Answers c s id b) :
    Simulates x setting s (Grammar.climbRound deep min c.span id) (Plain.climbRound expr min b)
      (x.Suffixed c s id b) := by
  have hhead : s.cursor.atHead setting.slot = false := by
    rw [hfree]
    rfl
  refine .cursor <| .slot ?_
  rw [hhead, if_neg Bool.false_ne_true]
  refine .ite .rfl (fun _ => ?_) fun _ => simulates_operatorRound hdeep hfree hs h
  refine (simulates_juxtaposed? hdeep hfree hs h).bind ?_
  rintro found found' t - (⟨rfl, rfl, rfl⟩ | ⟨id', b', rfl, rfl, h'⟩)
  · exact simulates_operatorRound hdeep hfree hs h
  · exact .pure h'

theorem simulates_expression (htop : deep.Tops) (hfree : setting.slot = .free setting.slot.usage)
    (hs : x.Follows s) (hfresh : x.Fresh s.cursor) :
    Simulates x setting s (Grammar.expression deep min) (expr min) fun id b t =>
      x.Follows t ∧ x.Answers s.cursor t id b := by
  refine .congr rfl (run_expr min _) (.here ?_)
  refine .bind (Q := fun id b t => x.Starts s.cursor ∧ x.Partly Chains s.cursor t id b)
    ((simulates_leading hdeep htop hfree hs hfresh).weaken fun id b t hst hrun h => ?_) ?_
  · have hwhole := isWhole_of_leading hrun
    rw [hs.faces.kind_pieces] at hwhole
    exact ⟨hs.faces.starts hwhole hfresh, h⟩
  rintro lhs b t hst ⟨hc, h⟩
  have hchains : ∀ ps b qs, Chains ps b qs → Grown ps b qs := fun _ _ _ => .inr
  refine (Simulates.loop (I := fun id b t => x.Partly Chains s.cursor t id b) (fun id b t h => ?_)
    (fun _ _ _ h => h.faces.toAhead) (fun _ _ _ h => h) h).weaken
      fun _ _ _ _ _ h => ⟨h.follows hc hchains, h.toAnswers⟩
  exact (simulates_climbRound hdeep hfree (h.follows hc hchains) h.toAnswers).weaken
    fun _ _ _ hst hrun hround => hround.partly h hst fun _ heq => h.grown.climb (heq ▸ hrun)

end Expressions

theorem guided_nested (x : Source) (d : Nat) : Guided x (Grammar.nested d) := by
  induction d with
  | zero =>
      intro min setting s _ hs _ he
      cases he
  | succ d ih =>
      intro min setting s hfree hs hfresh
      exact simulates_expression ih (tops_nested d) hfree hs hfresh

end Plain

end BendSyntax
