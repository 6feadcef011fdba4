import BendSyntax.Proofs.Formula.Reading
import BendSyntax.Proofs.Generics.Tokens

/-! A generic is read as it stands. Whatever follows a list of types begins no operand, so no list
is taken for a comparison, and the halves of a `>>` close the two lists that end there. -/

namespace BendSyntax

open Reading Grammar Pieces

variable {deep : Deeper} {d : Nat} {min : Level} {start : Span} {setting : Setting} {s t : Session}
  {w : Word} {words more : List Word} {id : TermId} {g first : Generic} {gs rest args : List Generic}

/-! ## Sessions -/

namespace Session.Facing

theorem setTree (h : s.Facing words) (tree : Tree) : Session.Facing { s with tree } words :=
  ⟨h.orderly, h.pieces, h.named, h.clean, h.failures⟩

theorem kind_nil (h : s.Facing []) : s.cursor.kind = .eof := by
  rw [← h.orderly.kind_pieces, List.forall₂_nil_left_iff.mp h.pieces]
  rfl

theorem exists_piece (h : s.Facing (w :: words)) : ∃ p ps, s.cursor.pieces = p :: ps ∧ w.Fits p ∧
    List.Forall₂ Word.Fits words ps := by
  obtain ⟨p, ps, hp, hps, hpieces⟩ := List.forall₂_cons_left_iff.mp h.pieces
  exact ⟨p, ps, hpieces, hp, hps⟩

theorem kind (h : s.Facing (w :: words)) (hw : w.kind ≠ .mark .greater) : s.cursor.kind = w.kind := by
  obtain ⟨p, ps, hpieces, hp, -⟩ := h.exists_piece
  rw [← h.orderly.kind_pieces, hpieces, Pieces.kind, ← hp.kind, if_neg]
  · rfl
  · intro hjoined
    cases ps with
    | nil => cases hjoined
    | cons q qs => simp [joined, hp.kind, hw] at hjoined

theorem kind_greater (h : s.Facing (.mark .greater :: words)) :
    s.cursor.kind = .mark .greater ∨ s.cursor.kind = .mark .shiftRight := by
  obtain ⟨p, ps, hpieces, hp, -⟩ := h.exists_piece
  rw [← h.orderly.kind_pieces, hpieces, Pieces.kind]
  split
  · exact .inr rfl
  · exact .inl hp.kind

theorem rest_ne_nil (h : s.Facing (w :: words)) : s.cursor.rest ≠ [] := by
  intro hnil
  obtain ⟨p, ps, hpieces, -⟩ := h.exists_piece
  rw [h.orderly.pieces_of_nil hnil] at hpieces
  cases hpieces

theorem lexeme (h : s.Facing (w :: words)) (hw : w.kind = .ident) : s.cursor.lexeme = w.text := by
  obtain ⟨p, ps, hpieces, hp, -⟩ := h.exists_piece
  have hkind := (h.kind (by simp [hw])).trans hw
  rw [← h.orderly.lexeme_pieces (by rw [hkind]; rfl), hpieces]
  exact hp.lexeme

/-- A mark touches what stands in front of it. -/
theorem tight (h : s.Facing (w :: words)) (hw : w.kind ≠ .ident) : s.cursor.isTight = true := by
  obtain ⟨p, ps, hpieces, hp, -⟩ := h.exists_piece
  rw [← h.orderly.tight_pieces h.rest_ne_nil, hpieces]
  exact hp.tight hw

theorem named_of_reaches (h : s.Facing words) (hreach : s.cursor.Reaches t.cursor) :
    ∀ u ∈ t.cursor.rest, u.span.length = u.lexeme.utf8ByteSize := by
  obtain ⟨n, -, hrest, -⟩ := hreach
  rw [hrest]
  exact fun u hu => h.named u (List.mem_of_mem_drop hu)

theorem next (h : s.Facing (w :: words)) (hw : w.kind ≠ .mark .greater) : s.next.Facing words := by
  obtain ⟨p, ps, hpieces, hp, hps⟩ := h.exists_piece
  refine ⟨h.orderly.advance, ?_, h.named_of_reaches (.advance _), h.clean, h.failures⟩
  have hbehind : s.next.cursor.pieces = ps := by
    change s.cursor.advance.pieces = ps
    rw [h.orderly.pieces_advance h.rest_ne_nil, hpieces, behind, if_neg]
    · rfl
    · intro hjoined
      cases ps with
      | nil => cases hjoined
      | cons q qs => simp [joined, hp.kind, hw] at hjoined
  rwa [hbehind]

/-- Behind the last type of a list the list is closed, by a token or by half of one. -/
theorem run_closeAngle (h : s.Facing (.mark .greater :: words)) (setting : Setting) :
    ∃ t, closeAngle.run setting s = .ok () t ∧ t.Facing words ∧ t.tree = s.tree := by
  obtain ⟨p, ps, hpieces, hp, hps⟩ := h.exists_piece
  have hrest {qs : List Piece} (hrun : Parser.closeAngle.run s.cursor.pieces = some ((), qs)) :
      List.Forall₂ Word.Fits words qs := by
    have hkind : Pieces.kind s.cursor.pieces = .mark .greater ∨
        Pieces.kind s.cursor.pieces = .mark .shiftRight := h.orderly.kind_pieces ▸ h.kind_greater
    obtain ⟨-, rfl⟩ := Prod.mk.inj (Option.some.inj ((if_pos hkind).symm.trans hrun))
    rwa [hpieces]
  rcases h.kind_greater with hkind | hkind
  · refine ⟨s.next, ?_, ⟨h.orderly.advance, hrest (h.orderly.run_closeAngle_advance hkind),
      h.named_of_reaches (.advance _), h.clean, h.failures⟩, rfl⟩
    simp only [closeAngle, Reading.kind, Reading.cursor, asks, run_bind, Outcome.andThen_ok, run_pure,
      hkind]
    rfl
  · refine ⟨{ s with cursor := s.cursor.halve }, ?_, ⟨h.orderly.halve hkind,
      hrest (h.orderly.run_closeAngle_halve hkind), h.named, h.clean, h.failures⟩, rfl⟩
    simp only [closeAngle, Reading.kind, Reading.cursor, asks, run_bind, Outcome.andThen_ok, run_pure,
      hkind]
    rfl

theorem remaining_lt (h : s.Facing words) (k : t.Facing more) (hreach : s.cursor.Reaches t.cursor)
    (hlt : more.length < words.length) : t.cursor.remaining < s.cursor.remaining := by
  refine (h.orderly.pieces_length_lt_iff hreach k.orderly.toAhead).mp ?_
  rwa [← h.pieces.length_eq, ← k.pieces.length_eq]

end Session.Facing

/-! ## Ends -/

/-- What may stand behind an expression of a level: no `>` where comparisons and shifts are taken. -/
structure Generic.Ends (min : Level) (more : List Word) : Prop where
  closes : Closes more
  level : more.head? = some (.mark .greater) → Level.shift < min

theorem Generic.ends_mark {s : Symbol} (hs : s = .comma ∨ s = .rightParen) (more : List Word) :
    Ends min (.mark s :: more) := by
  rcases hs with rfl | rfl
  · exact ⟨closes_mark (by decide) more, nofun⟩
  · exact ⟨closes_mark (by decide) more, nofun⟩

theorem Generic.ends_greater (h : Level.shift < min) (more : List Word) :
    Ends min (.mark .greater :: more) :=
  ⟨closes_mark (by decide) more, fun _ => h⟩

namespace Session.Facing

theorem kind_of_closes (h : s.Facing more) (hcloses : Generic.Closes more) :
    s.cursor.kind ∈ [.eof, .mark .comma, .mark .rightParen] ∨
      more.head? = some (.mark .greater) ∧
        (s.cursor.kind = .mark .greater ∨ s.cursor.kind = .mark .shiftRight) := by
  cases more with
  | nil => exact .inl (by simp [h.kind_nil])
  | cons w more =>
      obtain ⟨mark, hmark, rfl⟩ := hcloses w rfl
      simp only [List.mem_cons, List.not_mem_nil, or_false] at hmark
      rcases hmark with rfl | rfl | rfl
      · have hkind : s.cursor.kind = .mark .comma := h.kind nofun
        exact .inl (by simp [hkind])
      · exact .inr ⟨rfl, h.kind_greater⟩
      · have hkind : s.cursor.kind = .mark .rightParen := h.kind nofun
        exact .inl (by simp [hkind])

theorem kind_ne_comma {mark : Symbol} (h : s.Facing (.mark mark :: more)) (hmark : mark ≠ .comma) :
    s.cursor.kind ≠ .mark .comma := by
  by_cases hgreater : mark = .greater
  · subst hgreater
    rcases h.kind_greater with hkind | hkind <;> simp [hkind]
  · rw [h.kind (by simpa [Word.mark] using hgreater)]
    simpa [Word.mark] using hmark

/-- No operand begins behind a generic. -/
theorem not_startsOperand (h : s.Facing more) (hcloses : Generic.Closes more) (slot : Slot) :
    s.cursor.startsOperand slot = false := by
  have hkind : s.cursor.kind ∈ [.eof, .mark .comma, .mark .rightParen, .mark .greater,
      .mark .shiftRight] := by
    rcases h.kind_of_closes hcloses with hkind | ⟨-, hkind⟩
    · simp only [List.mem_cons, List.not_mem_nil, or_false] at hkind ⊢
      tauto
    · simp only [List.mem_cons, List.not_mem_nil, or_false]
      tauto
  simp only [List.mem_cons, List.not_mem_nil, or_false] at hkind
  rcases hkind with hkind | hkind | hkind | hkind | hkind <;>
    simp [Cursor.startsOperand, Cursor.startsArgument, Cursor.opensArgument, Cursor.opensOperand,
      Cursor.atRefl, hkind]

/-- An expression ends there. -/
theorem settled (h : s.Facing more) (hends : Generic.Ends min more) (slot : Slot) :
    s.cursor.Settled slot min := by
  rcases h.kind_of_closes hends.closes with hkind | ⟨hgreater, hkind⟩
  · simp only [List.mem_cons, List.not_mem_nil, or_false] at hkind
    refine .inr ⟨?_, fun _ => ?_⟩ <;> rcases hkind with hkind | hkind | hkind <;>
      simp [operator?, hkind, Infix.ofKind?, Infix.ofSymbol?, Cursor.juxtaposes, Cursor.startsArgument,
        Cursor.opensArgument]
  · have hlevel := hends.level hgreater
    have hcomparison : Level.comparison < min := Nat.lt_trans (by decide) hlevel
    refine .inr ⟨?_, fun _ => ?_⟩ <;> rcases hkind with hkind | hkind <;>
      simp [operator?, hkind, Infix.ofKind?, Infix.ofSymbol?, Infix.leftOp, hlevel, hcomparison,
        Cursor.juxtaposes, Cursor.startsArgument, Cursor.opensArgument]

/-- Nor is there another suffix. -/
theorem run_suffixes (h : s.Facing more) (hcloses : Generic.Closes more) (deep : Deeper) (start : Span)
    (id : TermId) (setting : Setting) : (suffixes deep start id).run setting s = .ok id s := by
  refine runLoop_done ?_
  simp only [suffixRound, Reading.cursor, Reading.slot, asks, run_bind, Outcome.andThen_ok]
  split
  · rfl
  · rcases h.kind_of_closes hcloses with hkind | ⟨-, hkind⟩
    · simp only [List.mem_cons, List.not_mem_nil, or_false] at hkind
      rcases hkind with hkind | hkind | hkind <;> rw [hkind] <;> rfl
    · rcases hkind with hkind | hkind <;> rw [hkind] <;> rfl

theorem run_expr_of_leading (ht : t.Facing more) (hends : Generic.Ends min more)
    (hleading : (leading (nested d)).run setting s = .ok id t) :
    ((nested (d + 1)).expr min).run setting s = .ok id t := by
  change ((leading (nested d)).run setting s).andThen _ = _
  rw [hleading]
  exact runLoop_done (ht.settled hends _).run_climbRound

end Session.Facing

/-! ## Lists -/

/-- Whether a generic is read whole. -/
def Deeper.ReadsGeneric (deep : Deeper) (g : Generic) : Prop :=
  ∀ (min : Level) (setting : Setting) (s : Session) (more : List Word),
    setting.slot = .free setting.slot.usage → Generic.Ends min more → s.Facing (g.words ++ more) →
    ∃ id t, (deep.expr min).run setting s = .ok id t ∧ t.Facing more ∧ t.tree.StoresGeneric g id

/-- A round in front of a name reads an item, and a comma with it if there is one. -/
def TakesItem (step : Array TermId → Reading (Round (Array TermId))) (item : Reading TermId)
    (setting : Setting) : Prop :=
  ∀ acc s id t, s.cursor.kind = .ident → item.run setting s = .ok id t →
    (step acc).run setting s = ((accept (.mark .comma)).run setting t).andThen fun comma u =>
      .ok (if comma then .more (acc.push id) else .done (acc.push id)) u

theorem Generic.words_length_pos (g : Generic) : 0 < g.words.length := by
  obtain ⟨x, ws, hwords⟩ := g.words_front
  rw [hwords]
  exact Nat.succ_pos _

theorem Session.Facing.kind_words (h : s.Facing (g.words ++ more)) : s.cursor.kind = .ident := by
  obtain ⟨x, ws, hwords⟩ := g.words_front
  rw [hwords, List.cons_append] at h
  exact h.kind nofun

/-- The rounds take all items. The induction is on the items behind the first one. -/
theorem reads_listed {step : Array TermId → Reading (Round (Array TermId))} {closing : Symbol}
    (hstep : TakesItem step (deep.expr min) setting)
    (hslot : setting.slot = .free setting.slot.usage)
    (hdeep : ∀ g ∈ first :: rest, deep.ReadsGeneric g)
    (hends : Generic.Ends min (.mark closing :: more)) (hclosing : closing ≠ .comma)
    (hs : s.Facing (first.words ++ (Generic.wordsBehind rest ++ .mark closing :: more)))
    (acc : Array TermId) :
    ∃ ids t, runLoop step setting acc s = .ok (acc ++ ids) t ∧ t.Facing (.mark closing :: more) ∧
      t.tree.StoresGenerics (first :: rest) ids.toList := by
  induction rest generalizing first s acc with
  | nil =>
      obtain ⟨id, t, hread, ht, hstores⟩ := hdeep first List.mem_cons_self min setting s _ hslot hends hs
      have hround := hstep acc s id t hs.kind_words hread
      rw [Session.Before.run_accept_of_ne (ht.kind_ne_comma hclosing)] at hround
      exact ⟨#[id], t, runLoop_done hround, ht, id, [], rfl, hstores, rfl⟩
  | cons g rest ih =>
      obtain ⟨hfirst, hrest⟩ := List.forall_mem_cons.mp hdeep
      rw [Generic.wordsBehind, List.cons_append, List.append_assoc] at hs
      obtain ⟨id, t, hread, ht, hstores⟩ :=
        hfirst min setting s _ hslot (Generic.ends_mark (.inl rfl) _) hs
      have hround := hstep acc s id t hs.kind_words hread
      have hkind : t.cursor.kind = .mark .comma := ht.kind nofun
      rw [Session.run_accept hkind] at hround
      have hnext := ht.next nofun
      obtain ⟨ids, u, hloop, hu, hstores'⟩ := ih hrest hnext (acc.push id)
      have honward := runLoop_onward step setting (acc.push id) t.next
      rw [hloop] at honward
      have hlt : t.next.cursor.remaining < s.cursor.remaining := by
        refine hs.remaining_lt hnext ((onward_of_ok hread).cursor.trans (.advance _)) ?_
        have hpos := first.words_length_pos
        simp only [List.length_append, List.length_cons]
        omega
      refine ⟨#[id] ++ ids, u, ?_, hu, id, ids.toList, by simp, hstores.mono honward.tree, hstores'⟩
      rw [runLoop_more hround hlt, hloop, Array.push_eq_append, Array.append_assoc]

/-- Type arguments, at the opening bracket. -/
theorem run_typeArgs (hdeep : ∀ g ∈ first :: rest, deep.ReadsGeneric g) (setting : Setting)
    (hs : s.Facing (.mark .less :: (first.words ++ (Generic.wordsBehind rest ++ .mark .greater :: more)))) :
    ∃ ids t, (typeArgs deep).run setting s = .ok ids t ∧ t.Facing more ∧
      t.tree.StoresGenerics (first :: rest) ids := by
  let inside : Setting := { setting with slot := setting.slot.delimited.withUsage .type }
  have hstep : TakesItem (fun acc => do
      let acc := acc.push (← deep.expr .additive)
      if ← accept (.mark .comma) then return .more acc else return .done acc) (deep.expr .additive) inside := by
    intro acc s id t _ hread
    rw [run_bind, hread, Outcome.andThen_ok, run_bind]
    congr 1
    funext comma u
    cases comma <;> rfl
  obtain ⟨ids, t, hloop, ht, hstores⟩ := reads_listed hstep rfl hdeep
    (Generic.ends_greater (by decide) more) (by decide) (hs.next nofun) #[]
  obtain ⟨u, hclose, hu, htree⟩ := ht.run_closeAngle setting
  refine ⟨ids.toList, u, ?_, hu, htree ▸ hstores⟩
  change ((delimited (withUsage .type (commaList (deep.expr .additive)))).run setting s.next).andThen _ = _
  have hlist : (delimited (withUsage .type (commaList (deep.expr .additive)))).run setting s.next =
      .ok ids.toList t := by
    change (runLoop _ inside #[] s.next).andThen _ = _
    rw [hloop, Array.empty_append]
    rfl
  rw [hlist]
  change (closeAngle.run setting t).andThen _ = _
  rw [hclose]
  rfl

/-- The arguments of a call, behind the opening bracket. -/
theorem run_callArgs (hdeep : ∀ g ∈ args, deep.ReadsGeneric g) (setting : Setting)
    (hs : s.Facing (Generic.wordsOf args ++ .mark .rightParen :: more)) :
    ∃ ids t, (callArgs deep).run setting s = .ok ids t ∧ t.Facing more ∧
      t.tree.StoresGenerics args ids := by
  let inside : Setting := { setting with slot := setting.slot.delimited }
  obtain ⟨ids, t, hloop, ht, hstores⟩ : ∃ ids t,
      runLoop (itemsRound deep .rightParen) inside #[] s = .ok ids t ∧
        t.Facing (.mark .rightParen :: more) ∧ t.tree.StoresGenerics args ids.toList := by
    cases args with
    | nil =>
        refine ⟨#[], s, runLoop_done ?_, hs, rfl⟩
        have hkind : s.cursor.kind = .mark .rightParen := hs.kind nofun
        simp only [itemsRound, sees, Reading.kind, Reading.cursor, asks, run_bind, Outcome.andThen_ok,
          run_pure, hkind, decide_true, if_true]
    | cons first rest =>
        have hstep : TakesItem (itemsRound deep .rightParen) (deep.expr .check) inside :=
          fun acc s id t hkind hread => run_itemsRound (by simp [hkind]) hread acc
        rw [Generic.wordsOf, List.append_assoc] at hs
        obtain ⟨ids, t, hloop, ht, hstores⟩ :=
          reads_listed hstep rfl hdeep (Generic.ends_mark (.inr rfl) more) (by decide) hs #[]
        exact ⟨ids, t, by rw [hloop, Array.empty_append], ht, hstores⟩
  refine ⟨ids.toList, t.next, ?_, ht.next nofun, hstores⟩
  have hlist : (delimited (separated (.mark .rightParen) deep.inner)).run setting s =
      .ok ids.toList t := by
    change (runLoop (itemsRound deep .rightParen) inside #[] s).andThen _ = _
    rw [hloop]
    rfl
  have hkind : t.cursor.kind = .mark .rightParen := ht.kind nofun
  rw [callArgs, run_bind, hlist, Outcome.andThen_ok, run_bind, Session.run_expect hkind]
  rfl

/-! ## Generics -/

/-- A name stands alone where no suffix follows it. -/
theorem Session.Facing.run_leading (hs : s.Facing (w :: words)) (hw : w.kind = .ident) (deep : Deeper)
    (setting : Setting) : ∃ id tree, (leading deep).run setting s =
        (suffixes deep s.cursor.span id).run setting { s.next with tree } ∧
      Session.Facing { s.next with tree } words ∧ tree.term? id = some (nameTerm w.text) ∧
      tree.isBareName id = true := by
  have hkind := (hs.kind (by simp [hw])).trans hw
  obtain ⟨id, tree, hrun, hterm, hspan⟩ := run_leading_ident deep setting hkind
  refine ⟨id, tree, hrun, (hs.next (by simp [hw])).setTree tree, hs.lexeme hw ▸ hterm, ?_⟩
  have hlength : s.cursor.span.length = s.cursor.lexeme.utf8ByteSize := by
    obtain ⟨t, ts, hrest, hsplit, -⟩ := hs.orderly.pieces_of_isWhole (by rw [hkind]; rfl)
    have hspan : s.cursor.span = t.span := by simp [Cursor.span, hsplit, Cursor.token_of_cons hrest]
    rw [hspan, Cursor.lexeme, Cursor.token_of_cons hrest, hs.named t (hrest ▸ List.mem_cons_self)]
  rw [Tree.isBareName, hterm]
  simp [nameLength?_nameTerm, hspan, hlength]

theorem reads_genericName (d : Nat) (x : Identifier) : (nested (d + 1)).ReadsGeneric (.name x) := by
  intro min setting s more _ hends hs
  obtain ⟨id, tree, hrun, ht, hterm, -⟩ := hs.run_leading rfl (nested d) setting
  rw [ht.run_suffixes hends.closes] at hrun
  exact ⟨id, _, ht.run_expr_of_leading hends hrun, ht, hterm⟩

/-- A reading that succeeds where nothing has failed is not passed over. -/
theorem run_genericArgs? {found : List TermId × Option (List TermId)} (hs : s.failures = [])
    (h : (genericArgs deep).run setting s = .ok (some found) t) :
    (genericArgs? deep).run setting s = .ok (some found) t := by
  rw [genericArgs?, run_attempt]
  simp only [hs, List.any_nil, Bool.and_false, Bool.false_eq_true, if_false, h, Outcome.retracted,
    Outcome.andThen_ok, Option.isNone_some]

/-- The term that type arguments make of a name. -/
def instanceTerm (head : TermId) : List TermId × Option (List TermId) → Term TermId PatternId
  | (args, some values) => .genericCall head args values
  | (args, none) => .tyApp head args

/-- Behind a bare name type arguments are taken. -/
theorem run_suffixRound_less {found : List TermId × Option (List TermId)} {head : TermId}
    (hs : s.Facing (.mark .less :: words)) (hslot : setting.slot = .free setting.slot.usage)
    (hbare : s.tree.isBareName head = true)
    (h : (genericArgs deep).run setting s = .ok (some found) t) :
    (suffixRound deep start head).run setting s =
      (Round.more <$> close start (instanceTerm head found)).run setting t := by
  have hkind : s.cursor.kind = .mark .less := hs.kind nofun
  have htight : s.cursor.isTight = true := hs.tight nofun
  have hcase : s.cursor.atCaseHead setting.slot = false := by
    rw [hslot]
    rfl
  have hgeneric : (generic? deep head start).run setting s =
      (some <$> close start (instanceTerm head found)).run setting t := by
    rw [generic?, run_bind, run_genericArgs? hs.failures h]
    obtain ⟨args, - | values⟩ := found <;> rfl
  simp only [suffixRound, Reading.cursor, Reading.slot, asks, run_bind, Outcome.andThen_ok, htight,
    hcase, hkind, Bool.not_true, Bool.or_self, Bool.false_eq_true, if_false]
  have hname : (Reading.bareName head).run setting s = .ok true s := by
    change Outcome.ok (s.tree.isBareName head) s = _
    rw [hbare]
  rw [hname, Outcome.andThen_ok, if_pos rfl, run_bind, hgeneric]
  rfl

/-- A name with type arguments is read, and what it is depends on what the arguments are. -/
theorem reads_instance {x : Identifier} {ws : List Word}
    (hslot : setting.slot = .free setting.slot.usage) (hends : Generic.Ends min more)
    (hs : s.Facing (x.word :: .mark .less :: ws)) (hlength : more.length < ws.length)
    (h : ∀ u : Session, u.Facing (.mark .less :: ws) → ∃ found t,
      (genericArgs (nested d)).run setting u = .ok (some found) t ∧ t.Facing more ∧
        ∀ tree id head, t.tree.Extends tree → tree.term? id = some (instanceTerm head found) →
          tree.term? head = some (nameTerm x.text) → tree.StoresGeneric g id) :
    ∃ id t, ((nested (d + 1)).expr min).run setting s = .ok id t ∧ t.Facing more ∧
      t.tree.StoresGeneric g id := by
  obtain ⟨head, tree, hleading, hu, hhead, hbare⟩ := hs.run_leading rfl (nested d) setting
  obtain ⟨found, t, hargs, ht, hstores⟩ := h _ hu
  let node : TermNode := ⟨instanceTerm head found, s.cursor.span.hull t.cursor.last, setting.slot.usage⟩
  let v : Session := { t with tree := (t.tree.addTerm node).2 }
  have hv : v.Facing more := ht.setTree _
  have hmore : (suffixRound (nested d) s.cursor.span head).run setting { s.next with tree } =
      .ok (.more (t.tree.addTerm node).1) v :=
    run_suffixRound_less hu hslot hbare hargs
  have hlt : v.cursor.remaining < s.next.cursor.remaining :=
    hu.remaining_lt hv (onward_of_ok hargs).cursor (Nat.lt_succ_of_lt hlength)
  have hread : (leading (nested d)).run setting s = .ok (t.tree.addTerm node).1 v := by
    rw [hleading]
    change runLoop (suffixRound (nested d) s.cursor.span) setting head _ = _
    rw [runLoop_more hmore hlt]
    exact hv.run_suffixes hends.closes _ _ _ _
  refine ⟨_, v, hv.run_expr_of_leading hends hread, hv, ?_⟩
  have hextends : t.tree.Extends v.tree := .addTerm _ _
  exact hstores _ _ head hextends (Tree.term?_addTerm _ _)
    (((onward_of_ok hargs).tree.trans hextends).term? hhead)

theorem reads_genericTyApp (head : Identifier) (hdeep : ∀ g ∈ first :: rest, (nested d).ReadsGeneric g) :
    (nested (d + 1)).ReadsGeneric (.tyApp head first rest) := by
  intro min setting s more hslot hends hs
  simp only [Generic.words, List.cons_append, List.append_assoc, List.nil_append] at hs
  refine reads_instance hslot hends hs ?_ fun u hu => ?_
  · simp only [List.length_append, List.length_cons]
    omega
  · obtain ⟨ids, t, hread, ht, hstores⟩ := run_typeArgs hdeep setting hu
    refine ⟨(ids, none), t, ?_, ht, fun tree id head htree hterm hhead => ?_⟩
    · have hkind : t.cursor.kind ≠ .mark .leftParen := by
        rcases ht.kind_of_closes hends.closes with hkind | ⟨-, hkind | hkind⟩
        · rintro hparen
          simp [hparen] at hkind
        · simp [hkind]
        · simp [hkind]
      have hoperand := ht.not_startsOperand hends.closes setting.slot
      rw [genericArgs, run_bind, hread]
      simp only [Reading.cursor, Reading.slot, asks, run_bind, Outcome.andThen_ok, hkind, decide_false,
        Bool.false_and, Bool.false_eq_true, if_false, hoperand, run_pure]
    · obtain ⟨a, as, rfl, hfirst, hrest⟩ := Tree.StoresGenerics.mono htree _ _ hstores
      exact ⟨_, a, as, hterm, hhead, hfirst, hrest⟩

theorem reads_genericCall (func : Identifier) (hdeep : ∀ g ∈ first :: rest, (nested d).ReadsGeneric g)
    (hargs : ∀ g ∈ args, (nested d).ReadsGeneric g) :
    (nested (d + 1)).ReadsGeneric (.call func first rest args) := by
  intro min setting s more hslot hends hs
  simp only [Generic.words, List.cons_append, List.append_assoc, List.nil_append] at hs
  refine reads_instance hslot hends hs ?_ fun u hu => ?_
  · simp only [List.length_append, List.length_cons]
    omega
  · obtain ⟨ids, t, hread, ht, hstores⟩ := run_typeArgs hdeep setting hu
    obtain ⟨values, v, hcall, hv, hvalues⟩ := run_callArgs hargs setting (ht.next nofun)
    refine ⟨(ids, some values), v, ?_, hv, fun tree id head htree hterm hhead => ?_⟩
    · have hkind : t.cursor.kind = .mark .leftParen := ht.kind nofun
      have htight : t.cursor.isTight = true := ht.tight nofun
      rw [genericArgs, run_bind, hread]
      simp only [Reading.cursor, asks, run_bind, Outcome.andThen_ok, hkind, htight, decide_true,
        Bool.and_self, if_true]
      change ((callArgs (nested d)).run setting t.next).andThen _ = _
      rw [hcall]
      rfl
    · obtain ⟨a, as, rfl, hfirst, hrest⟩ := Tree.StoresGenerics.mono ((onward_of_ok hcall).tree.trans htree) _ _ hstores
      exact ⟨_, a, as, values, hterm, hhead, hfirst, hrest, Tree.StoresGenerics.mono htree _ _ hvalues⟩

mutual

/-- A generic is read by as many levels as its readings are nested deep. -/
theorem reads_generic : (g : Generic) → (d : Nat) → g.depth ≤ d → (nested d).ReadsGeneric g
  | .name x, d + 1, _ => reads_genericName d x
  | .tyApp head first rest, d + 1, h =>
      have hmax := Nat.max_le.mp (Nat.le_of_succ_le_succ h)
      reads_genericTyApp head (List.forall_mem_cons.mpr
        ⟨reads_generic first d hmax.1, reads_generics rest d hmax.2⟩)
  | .call func first rest args, d + 1, h =>
      have hmax := Nat.max_le.mp (Nat.le_of_succ_le_succ h)
      have hlist := Nat.max_le.mp hmax.1
      reads_genericCall func (List.forall_mem_cons.mpr
        ⟨reads_generic first d hlist.1, reads_generics rest d hlist.2⟩) (reads_generics args d hmax.2)

theorem reads_generics :
    (gs : List Generic) → (d : Nat) → Generic.depths gs ≤ d → ∀ g ∈ gs, (nested d).ReadsGeneric g
  | [], _, _ => fun _ h => absurd h List.not_mem_nil
  | g :: gs, d, h =>
      have hmax := Nat.max_le.mp h
      List.forall_mem_cons.mpr ⟨reads_generic g d hmax.1, reads_generics gs d hmax.2⟩

end

/-! ## Texts -/

/-- A generic does not begin a binding: neither `=` nor a colon stands behind its first name. -/
theorem run_statement_generic (deep : Deeper) (hs : s.Facing g.words) :
    (statement deep).run setting s = (deep.expr .assignment).run setting s := by
  have hkind : s.cursor.kindAt 1 = .eof ∨ s.cursor.kindAt 1 = .mark .less := by
    cases g with
    | name x =>
        have hnext : s.next.Facing [] := hs.next nofun
        rw [← Cursor.kindAt_advance hs.rest_ne_nil 0]
        exact .inl hnext.kind_nil
    | tyApp | call =>
        have hnext := hs.next nofun
        rw [← Cursor.kindAt_advance hs.rest_ne_nil 0]
        exact .inr (hnext.kind nofun)
  have hequals : s.cursor.kindAt 1 ≠ .mark .equals := by rcases hkind with hkind | hkind <;> simp [hkind]
  have hcolon : s.cursor.kindAt 1 ≠ .mark .colon := by rcases hkind with hkind | hkind <;> simp [hkind]
  simp only [statement, Reading.cursor, asks, run_bind, Outcome.andThen_ok]
  split
  · exact absurd ‹_› hequals
  · exact absurd ‹_› hcolon
  · rfl

/-- Where the depth limit leaves room for it, the text of a generic is read as the generic, and as
nothing else, however the lexer pairs the brackets that close its lists. -/
theorem generics_inverted (g : Generic) (config : Config) (hdepth : g.depth < config.maxDepth) :
    ∃ e, Expression.ofText g.text config = .ok e ∧ e.tree.StoresGeneric g e.root ∧ e.dump = g.dump := by
  obtain ⟨d, hd⟩ : ∃ d, config.maxDepth = d + 1 := ⟨config.maxDepth - 1, by omega⟩
  have hfacing := g.facing_initial
  obtain ⟨id, t, hexpr, ht, hstores⟩ := reads_generic g d (by omega) .assignment (Reading.setting config true)
    (initial (Lexing.ofText g.text)) [] rfl ⟨nofun, nofun⟩ (by rwa [List.append_nil])
  have hstatement : ((nested config.maxDepth).statement).run (Reading.setting config true)
      (initial (Lexing.ofText g.text)) = .ok id t := by
    rw [hd]
    exact (run_statement_generic (nested d) hfacing).trans hexpr
  have hread := Expression.ofText_of_statement hstatement ht.kind_nil ht.clean
  exact ⟨_, hread, hstores, hstores.dump (Expression.inRange_read hread).1⟩

set_option maxRecDepth 100000 in
/-- Three closing brackets are a `>>` and a `>`, behind a path and in front of a comma. -/
theorem generics_inverted_three_closers :
    ∃ e, Expression.ofText "f<A<B<C<d/e>>>,x>(g<y>(),z)" ⟨6, true⟩ = .ok e ∧
      e.dump = "(call f <(tyapp A (tyapp B (tyapp C d/e))) x> (call g <y>) z)" := by
  let name (text : String) (h : text.toList.head?.any Scanned.isWordStart = true)
      (h' : Scanned.wordLength text.toList = text.length) (h'' : TokenKind.ofWord? text = none) :
      Identifier := ⟨text, h, h', h''⟩
  let path : Generic := .tyApp (name "C" rfl rfl rfl) (.name (name "d/e" rfl rfl rfl)) []
  let type : Generic := .tyApp (name "A" rfl rfl rfl) (.tyApp (name "B" rfl rfl rfl) path []) []
  let args : List Generic :=
    [.call (name "g" rfl rfl rfl) (.name (name "y" rfl rfl rfl)) [] [], .name (name "z" rfl rfl rfl)]
  let g : Generic := .call (name "f" rfl rfl rfl) type [.name (name "x" rfl rfl rfl)] args
  have htext : g.text = "f<A<B<C<d/e>>>,x>(g<y>(),z)" := by decide +kernel
  have hdump : g.dump = "(call f <(tyapp A (tyapp B (tyapp C d/e))) x> (call g <y>) z)" := by
    decide +kernel
  obtain ⟨e, he, -, hshown⟩ := generics_inverted g ⟨6, true⟩ (by decide +kernel)
  exact ⟨e, htext ▸ he, hshown.trans hdump⟩

end BendSyntax
