import BendSyntax.Proofs.Layout.LastTerm
import BendSyntax.Proofs.Plain.Operands

/-! Plain operands with their suffixes, and what stands in an operand. -/

namespace BendSyntax

open Reading Grammar Pieces
open Reading (Round)

namespace Plain

variable {x : Source} {setting : Setting} {s t u : Session} {deep : Deeper} {b : Part}
  {head id : TermId} {c : Cursor}

/-! ## Suffixes -/

theorem Source.Faces.tight (h : x.Faces c) (hkind : c.kind ≠ .eof) :
    Pieces.tight c.pieces = c.isTight := h.tight_pieces (h.rest_ne_nil hkind)

theorem run_suffixRound_of_loose {deep : Level → Parser Part} {ps : List Piece}
    (h : Pieces.tight ps = false) : (Plain.suffixRound deep b).run ps = some (.done b, ps) := by
  rw [Plain.suffixRound, Parser.looks, Parser.run_asks_bind, h]
  rfl

theorem run_suffixRound_of_tight {deep : Level → Parser Part} {ps : List Piece}
    (h : Pieces.tight ps = true) : (Plain.suffixRound deep b).run ps =
      (match Pieces.kind ps with
        | .mark .leftParen => .more <$> call deep b
        | .mark .less =>
            if b.bare then do
              match ← Parser.attempt (genericArgs deep) with
              | some args => return .more (generic b args)
              | none => return .done b
            else return .done b
        | .mark .leftBracket => do
            match ← Parser.attempt listSuffix with
            | some _ => return .more (part (.listType b.dump))
            | none => return .done b
        | .mark .leftBrace => .more <$> braces deep b
        | _ => return .done b : Parser (Round Part)).run ps := by
  rw [Plain.suffixRound, Parser.looks, Parser.run_asks_bind, h]
  rfl

/-- Whether an operand goes on. If it does not, it is the answer as before. -/
def Source.Suffixed (x : Source) (c : Cursor) (s : Session) (id : TermId) (b : Part) :
    Round TermId → Round Part → Session → Prop :=
  Simulates.Meets (fun id a t => x.Answers c t id a) fun id' a t =>
    id' = id ∧ a = b ∧ t.cursor = s.cursor ∧ x.Answers c t id a

/-- An operand that has gone on has grown, another one is as it was. -/
theorem Source.Suffixed.partly {P : List Piece → Part → List Piece → Prop}
    {round : Round TermId} {round' : Round Part} (hround : x.Suffixed c s id b round round' t)
    (h : x.Partly P c s id b) (hst : s.Leads t)
    (hmore : ∀ a, round' = .more a → P c.pieces a t.cursor.pieces) :
    Simulates.Meets (fun id b t => x.Partly P c t id b) (fun id b t => x.Partly P c t id b)
      round round' t := by
  cases round with
  | more id' =>
      cases round' with
      | more a => exact ⟨hround, h.reaches.trans hst.reaches, hmore a rfl⟩
      | done a => exact hround.elim
  | done id' =>
      cases round' with
      | more a => exact hround.elim
      | done a =>
          obtain ⟨rfl, rfl, hcursor, hanswers⟩ := hround
          exact ⟨hanswers, hcursor ▸ h.reaches, hcursor ▸ h.grown⟩

/-- `[]` at a cursor, or another bracket. -/
theorem simulates_listSuffix (hs : x.Follows s) (h : x.Answers c s id b)
    (hkind : s.cursor.kind = .mark .leftBracket) :
    Simulates x setting s
      (if s.cursor.kindAt 1 = .mark .rightBracket then do
        let _ ← advance
        let _ ← advance
        .more <$> close c.span (.listType id)
      else return .done id)
      (do
        match ← Parser.attempt listSuffix with
        | some _ => return .more (part (.listType b.dump))
        | none => return .done b)
      (x.Suffixed c s id b) := by
  have hwhole : isWhole s.cursor.kind = true := by rw [hkind]; rfl
  have htail := hs.faces.kind_tail hwhole
  have hne : s.cursor.kind ≠ .eof := by simp [hkind]
  have hnext := hs.next hne
  have hkind1 : s.next.cursor.kind = s.cursor.kindAt 1 :=
    Cursor.kindAt_advance (hs.faces.rest_ne_nil hne) 0
  by_cases hlist : s.cursor.kindAt 1 = .mark .rightBracket
  · rw [if_pos hlist]
    rw [hlist] at htail hkind1
    have hne1 : s.next.cursor.kind ≠ .eof := by simp [hkind1]
    refine .congr (q := do
      Parser.advance
      Parser.advance
      return .more (part (.listType b.dump))) rfl ?_ (.bind (.advance hs.toSound hne) ?_)
    · have hrun := hs.faces.run_advance hne
      have hrun1 : Parser.advance.run s.cursor.advance.pieces =
          some ((), s.next.cursor.advance.pieces) := hnext.faces.run_advance hne1
      simp only [Parser.attempt, listSuffix, Parser.looks, Parser.run_bind, Parser.run_asks,
        Option.bind_some, htail, decide_true, if_true, hrun, hrun1, Parser.run_pure]
    rintro _ _ _ hleads ⟨-, rfl⟩
    refine .bind (.advance hnext.toSound hne1) ?_
    rintro _ _ _ hleads' ⟨-, rfl⟩
    have hbefore := (h.before.trans hleads.cursor).trans hleads'.cursor
    refine .pure_left ((simulates_close (e := .listType b.dump) (hnext.next hne1) hbefore ?_ rfl
      _).weaken ?_)
    · simp only [Term.map, Term.dump, Session.next, h.dump]
    · rintro id' _ t - - ⟨rfl, -, ht⟩
      exact ht
  · rw [if_neg hlist]
    refine .congr (q := return .done b) rfl ?_ (.pure ⟨rfl, rfl, rfl, h⟩)
    simp only [Parser.attempt, listSuffix, Parser.looks, Parser.run_bind, Parser.run_asks,
      Option.bind_some, htail, hlist, decide_false, Bool.false_eq_true, if_false, Parser.run_fail,
      Parser.run_pure]

section Suffixes

variable (hdeep : Guided x deep)
include hdeep

/-- One more suffix, or none; then the operand is the answer as before. -/
theorem simulates_suffixRound (hfree : setting.slot = .free setting.slot.usage) (hs : x.Follows s)
    (h : x.Answers c s id b) :
    Simulates x setting s (Grammar.suffixRound deep c.span id) (suffixRound expr b)
      (x.Suffixed c s id b) := by
  have hcase : s.cursor.atCaseHead setting.slot = false := by
    rw [hfree]
    rfl
  have hdone : Simulates x setting s (pure (.done id)) (pure (.done b)) (x.Suffixed c s id b) :=
    .pure ⟨rfl, rfl, rfl, h⟩
  refine .cursor <| .slot ?_
  rw [hcase, Bool.or_false]
  by_cases hend : s.cursor.kind = .eof
  · refine .congr (o := pure (.done id)) (q := pure (.done b)) ?_ ?_ hdone
    · rw [hend]
      split <;> rfl
    · refine run_suffixRound_of_loose ?_
      rw [hs.faces.pieces_of_nil]
      · rfl
      · by_contra hne
        exact hs.faces.kind_ne_eof hne hend
  have htight := hs.faces.tight hend
  cases hloose : s.cursor.isTight with
  | false =>
      rw [hloose] at htight
      exact .congr rfl (run_suffixRound_of_loose htight) hdone
  | true =>
      rw [hloose] at htight
      refine .congr rfl (run_suffixRound_of_tight htight) ?_
      rw [hs.faces.kind_pieces]
      simp only [Bool.not_true, Bool.false_eq_true, if_false]
      generalize hkind : s.cursor.kind = k
      split
      · refine Simulates.map (F := Round.more) (G := Round.more) ?_
        exact simulates_call hdeep hs h.before h.lt h.dump true hkind
      · refine .bareName ?_
        rw [h.bare]
        refine .ite .rfl (fun _ => ?_) fun _ => hdone
        refine (simulates_generic? hdeep hfree hs h.before h.lt h.dump hkind).bind ?_
        rintro found found' t - (⟨rfl, rfl, ht, hcursor, htree⟩ | ⟨id', args, rfl, rfl, ht⟩)
        · exact .pure ⟨rfl, rfl, hcursor, h.of_same ht hcursor htree⟩
        · exact .pure ht
      · exact simulates_listSuffix hs h hkind
      · have hbrace : s.cursor.bracesOperand setting.slot = true := by
          rw [hfree]
          simp [Cursor.bracesOperand, hkind, Slot.free, Cursor.atCaseHead]
        rw [if_pos hbrace]
        refine Simulates.map (F := Round.more) (G := Round.more) ?_
        exact simulates_braceSuffix hdeep hs h.before h.lt h.dump true hkind
      · first
        | exact hdone
        | split <;> first | contradiction | exact hdone

/-- All suffixes that touch an operand. -/
theorem simulates_suffixes (hfree : setting.slot = .free setting.slot.usage) (hc : x.Starts c)
    (h : x.Partly Heads c s id b) :
    Simulates x setting s (Grammar.suffixes deep c.span id) (suffixes expr b)
      fun id b t => x.Partly Heads c t id b := by
  refine .loop (I := fun id b t => x.Partly Heads c t id b) (fun id b s h => ?_)
    (fun _ _ _ h => h.faces.toAhead) (fun _ _ _ h => h) h
  exact (simulates_suffixRound hdeep hfree (h.follows hc fun _ _ _ => .inl) h.toAnswers).weaken
    fun _ _ _ hst hrun hround => hround.partly h hst fun _ heq => h.grown.suffix (heq ▸ hrun)

end Suffixes

/-! ## Parentheses -/

/-- A term in parentheses reaches up to them, and it is no bare name. -/
theorem Source.Answers.widen {d : Cursor} (h : x.Answers d s id b) (ht : x.Sound t)
    (htree : t.tree = s.tree) {span : Span} (hbefore : c.advance.Before t.cursor)
    (hstart : span.start = c.span.start) (hfront : c.span.start < d.span.start)
    (hstop : span.stop = t.cursor.last.stop) (hback : s.cursor.last.stop ≤ t.cursor.last.stop) :
    x.Answers c { t with tree := t.tree.widen id span } id { b with bare := false } := by
  have hlt : id.index < t.tree.terms.size := htree ▸ h.lt
  have hspan := Tree.span_widen t.tree span hlt
  have hwide : (t.tree.span id).length < ((t.tree.widen id span).span id).length := by
    rw [hspan, Span.length, Span.length, Span.hull_start, Span.hull_stop, htree, h.start, h.stop]
    have hordered : d.span.start ≤ s.cursor.last.stop := by
      refine Nat.le_trans ?_ h.faces.last
      rw [← Cursor.last_advance]
      exact h.before.start
    omega
  have hterm := Tree.term?_widen t.tree id id span
  refine {
    faces := ht.faces
    failures := ht.failures
    patterns := ht.patterns
    diagnostics := ht.diagnostics
    others := fun i hi hne => ?_
    before := hbefore
    lt := by simpa [Tree.widen] using hlt
    dump := by rw [Tree.dump_widen, htree, h.dump]
    bare := ?_
    named := fun term n hterm' hn => ?_
    start := ?_
    stop := ?_ }
  · have hi' : i.index < t.tree.terms.size := by simpa [Tree.widen] using hi
    obtain ⟨c, d, b, hspells⟩ := htree ▸ h.others i (htree ▸ hi') hne
    have hne' : i.index ≠ id.index := fun heq => hne (congrArg TermId.mk heq)
    exact ⟨c, d, b, { hspells with
      dump := by rw [Tree.dump_widen]; exact hspells.dump
      start := by rw [Tree.span_widen_of_ne _ _ hne']; exact hspells.start
      stop := by rw [Tree.span_widen_of_ne _ _ hne']; exact hspells.stop }⟩
  · rw [Tree.isBareName, hterm]
    cases hname : t.tree.term? id with
    | none => rfl
    | some term =>
        simp only [beq_eq_false_iff_ne]
        intro hlength
        have hle := h.named term _ (htree ▸ hname) hlength
        rw [← htree] at hle
        exact Nat.lt_irrefl _ (Nat.lt_of_lt_of_le hwide hle)
  · rw [hterm] at hterm'
    have hle := h.named term n (htree ▸ hterm') hn
    rw [← htree] at hle
    exact Nat.le_trans hle (Nat.le_of_lt hwide)
  · rw [hspan, Span.hull_start, hstart, htree, h.start]
    exact Nat.min_eq_right (Nat.le_of_lt hfront)
  · rw [hspan, Span.hull_stop, hstop, htree, h.stop]
    exact Nat.max_eq_right hback

/-- What follows may change what has been added since an earlier session. -/
theorem Simulates.bind_since {α β γ δ : Type} {r : Reading α} {f : α → Reading γ} {p : Parser β}
    {g : β → Parser δ} {Q : α → β → Session → Prop} {R : γ → δ → Session → Prop}
    (h : Simulates x setting s r p Q)
    (hf : ∀ a b t, r.run setting s = .ok a t → s.Leads t → Q a b t →
      Mirrors x s ((f a).run setting t) ((g b).run t.cursor.pieces) R) :
    Simulates x setting s (r >>= f) (p >>= g) R := by
  unfold Simulates Mirrors at h
  unfold Simulates
  rw [run_bind]
  cases hr : r.run setting s with
  | error e t =>
      rw [hr] at h
      exact fun he => (h he).bind g
  | ok a t =>
      rw [hr] at h
      obtain ⟨hleads, b, hb, hab⟩ := h
      rw [Parser.run_bind, hb]
      exact hf a b t hr hleads hab

theorem Simulates.since {α β : Type} {r : Reading α} {p : Parser β} {Q : α → β → Session → Prop}
    (h : Simulates x setting t r p Q) (hst : s.Leads t) :
    Mirrors x s (r.run setting t) (p.run t.cursor.pieces) Q := by
  unfold Simulates Mirrors at h
  unfold Mirrors
  cases hr : r.run setting t with
  | error e u =>
      rw [hr] at h
      exact fun he => ⟨hst.tree.trans (h he).tree, (h he).failures, (h he).answer⟩
  | ok a u =>
      rw [hr] at h
      exact ⟨hst.trans h.1, h.2⟩

/-- The closing bracket behind a term that was added since. -/
theorem mirrors_enclosed (hst : s.Leads t) (hsize : s.tree.terms.size ≤ id.index) {d : Cursor}
    (h : x.Answers d t id b) (hc : c.advance.Before t.cursor) (hfront : c.span.start < d.span.start) :
    Mirrors x s ((do
        let stop ← expect (.mark .rightParen)
        Reading.widen id (c.span.hull stop)
        return id : Reading TermId).run setting t)
      ((do
        Parser.expect (.mark .rightParen)
        return { b with bare := false } : Parser Part).run t.cursor.pieces)
      fun id b t => x.Answers c t id b := by
  have hexpect : Simulates x setting t (expect (.mark .rightParen)) (Parser.expect (.mark .rightParen)) _ :=
    .expect h.toSound rfl
  unfold Simulates Mirrors at hexpect
  rw [run_bind, Parser.run_bind]
  cases hrun : (expect (.mark .rightParen)).run setting t with
  | error e u =>
      rw [hrun] at hexpect
      refine fun he => ⟨hst.tree.trans (hexpect he).tree, (hexpect he).failures, ?_⟩
      rw [(hexpect he).answer]
      rfl
  | ok stop u =>
      rw [hrun] at hexpect
      obtain ⟨hleads, _, hb, hkind, rfl, rfl⟩ := hexpect
      have hnext := h.toSound.next (by simp [hkind])
      have hlast : t.next.cursor.last = t.cursor.span := Cursor.last_advance _
      have hstart : (c.span.hull t.cursor.span).start = c.span.start := by
        have hle := hc.start
        rw [Cursor.last_advance] at hle
        rw [Span.hull_start]
        exact Nat.min_eq_left (Nat.le_trans hle (Nat.le_trans h.faces.last h.faces.behind))
      have hstop : (c.span.hull t.cursor.span).stop = t.next.cursor.last.stop := by
        have hle := (hc.trans hleads.cursor).stop
        rw [Cursor.last_advance, hlast] at hle
        rw [Span.hull_stop, hlast]
        exact Nat.max_eq_right hle
      rw [hb]
      refine ⟨⟨(hst.trans hleads).tree.widen hsize _, (hst.trans hleads).cursor,
        (hst.trans hleads).reaches⟩, _, rfl, ?_⟩
      exact h.widen hnext rfl (hc.trans hleads.cursor) hstart hfront hstop hleads.cursor.stop

/-! ## Operands -/

theorem simulates_identifier (hs : x.Sound s) :
    Simulates x setting s Reading.identifier identifier fun a b t =>
      a.1 = b ∧ s.cursor.kind = .ident ∧ t = s.next := by
  refine .congr (o := if s.cursor.kind = .ident then (do
      let span ← Reading.advance
      return (s.cursor.lexeme, span)) else Reading.unexpected "identifier")
    (q := if Pieces.kind s.cursor.pieces = .ident then (do
      Parser.advance
      return Pieces.lexeme s.cursor.pieces) else Parser.fail) ?_ ?_
    (.ite (by rw [hs.faces.kind_pieces]) (fun hkind => ?_) fun _ => .unexpected hs rfl)
  · rfl
  · simp only [identifier, Parser.expect, Parser.sees, Parser.looks, Parser.run_bind, Parser.run_asks,
      Option.bind_some, decide_eq_true_eq, Parser.run_pure]
    split <;> simp [Parser.run_bind]
  · refine .bind (.advance hs (by simp [hkind])) ?_
    rintro span _ _ - ⟨-, rfl⟩
    rw [hs.faces.lexeme_pieces (by rw [hkind]; rfl)]
    exact .pure ⟨rfl, hkind, rfl⟩

section Operands

variable (hdeep : Guided x deep)
include hdeep

theorem simulates_parentheses (htop : deep.Tops) (hs : x.Follows s)
    (hkind : s.cursor.kind = .mark .leftParen) :
    Simulates x setting s (Grammar.parentheses deep s.cursor.span) (parentheses expr)
      fun id b t => x.Answers s.cursor t id b := by
  have hne : s.cursor.kind ≠ .eof := by simp [hkind]
  have hnext := hs.next hne
  have hbefore : s.cursor.advance.Before s.next.cursor := .refl _
  refine .bind (.advance hs.toSound hne) ?_
  rintro _ _ _ - ⟨-, rfl⟩
  refine .bind (.accept hnext.toSound rfl) ?_
  rintro closed _ t - ⟨rfl, hyes, hno⟩
  cases closed with
  | true =>
      obtain ⟨hclose, rfl⟩ := hyes rfl
      have hleads := leads_next hnext.toSound
      exact (simulates_close (hnext.next (by simp [hclose])) hleads.cursor rfl rfl _).weaken
        fun _ _ _ _ _ h => h.1 ▸ h.2.2
  | false =>
      obtain ⟨-, rfl⟩ := hno rfl
      have hfresh : x.Fresh s.next.cursor :=
        .advance hs.faces hne (by rw [hkind]; rfl)
      have hinner : Simulates x setting s.next (delimited deep.inner) (expr .check) fun id b t =>
          x.Follows t ∧ x.Answers s.next.cursor t id b := .within (hdeep .check _ _ rfl hnext hfresh)
      refine hinner.bind_since ?_
      rintro first b t hrun hst ⟨ht, hfirst⟩
      have hfront : s.cursor.span.start < s.next.cursor.span.start :=
        hs.faces.span_lt_advance (hs.faces.rest_ne_nil hne)
      by_cases hcomma : t.cursor.kind = .mark .comma
      · refine Simulates.since (.bind (.accept ht.toSound rfl) ?_) hst
        rintro comma _ u htu ⟨rfl, hyes, hno⟩
        cases comma with
        | false => exact absurd hcomma (hno rfl).1
        | true =>
            obtain ⟨-, rfl⟩ := hyes rfl
            refine .congr (q := do
              let rest ← Parser.separated (.mark .rightParen) (inner expr)
              Parser.expect (.mark .rightParen)
              return part (.tuple (b.dump :: rest))) rfl ?_ ?_
            · simp only [callArgs, Parser.run_bind, Option.bind_assoc, Parser.run_pure,
                Option.bind_some, if_true]
            have hlist : Simulates x setting t.next
                (delimited (Reading.separated (.mark .rightParen) deep.inner))
                (Parser.separated (.mark .rightParen) (inner expr)) fun ids dumps t =>
                  x.Follows t ∧ Lists t.tree ids dumps :=
              .within <| simulates_separated (readsItem_expr hdeep rfl .check)
                (ht.next (by simp [hcomma])) (.advance ht.faces (by simp [hcomma]) (by rw [hcomma]; rfl))
            refine hlist.bind ?_
            rintro ids dumps u hu ⟨hu', hids⟩
            refine .bind (.expect hu'.toSound rfl) ?_
            rintro _ _ _ huv ⟨hclose, -, rfl⟩
            have hleads := ((hst.trans htu).trans hu).trans huv
            refine (simulates_close (hu'.next (by simp [hclose])) (hbefore.trans hleads.cursor) ?_ rfl
              _).weaken fun _ _ _ _ _ h => h.1 ▸ h.2.2
            have hdump := ((htu.trans hu).tree.dump (hu'.patterns.trans ht.patterns.symm) hfirst.lt).trans
              hfirst.dump
            simp only [Term.map, Term.dump, List.map_cons, Session.next, hids.dumps, hdump]
      · have haccept : (Parser.accept (.mark .comma)).run t.cursor.pieces =
            some (false, t.cursor.pieces) := by
          rw [Parser.run_accept rfl, ht.faces.kind_pieces, if_neg hcomma]
        rw [run_bind, Session.Before.run_accept_of_ne hcomma, Parser.run_bind, haccept]
        obtain ⟨hlt, hcloses⟩ := htop .check _ _ first t hrun first rfl
        have hnew : s.next.tree.terms.size ≤ first.index := by
          have hlast := hcloses.top
          unfold Session.Top at hlast
          omega
        exact mirrors_enclosed hst hnew hfirst (hbefore.trans hst.cursor) hfront

/-- `[]` or `[a, b]` -/
theorem simulates_listTerm (hs : x.Follows s) (hkind : s.cursor.kind = .mark .leftBracket) :
    Simulates x setting s (Grammar.listTerm deep s.cursor.span) (listTerm expr)
      fun id b t => x.Answers s.cursor t id b := by
  have hne : s.cursor.kind ≠ .eof := by simp [hkind]
  have hnext := hs.next hne
  have hbefore : s.cursor.advance.Before s.next.cursor := .refl _
  refine .bind (.advance hs.toSound hne) ?_
  rintro _ _ _ - ⟨-, rfl⟩
  refine .bind (.accept hnext.toSound rfl) ?_
  rintro closed _ t hst ⟨rfl, hyes, hno⟩
  cases closed with
  | true =>
      obtain ⟨hclose, rfl⟩ := hyes rfl
      exact (simulates_close (hnext.next (by simp [hclose])) hst.cursor rfl rfl _).weaken
        fun _ _ _ _ _ h => h.1 ▸ h.2.2
  | false =>
      obtain ⟨-, rfl⟩ := hno rfl
      have hlist : Simulates x setting s.next
          (delimited (Reading.separated (.mark .rightBracket) deep.inner))
          (Parser.separated (.mark .rightBracket) (inner expr)) fun ids dumps t =>
            x.Follows t ∧ Lists t.tree ids dumps :=
        .within <| simulates_separated (readsItem_expr hdeep rfl .check) hnext
          (.advance hs.faces hne (by rw [hkind]; rfl))
      refine hlist.bind ?_
      rintro ids dumps u hu ⟨hu', hids⟩
      refine .bind (.expect hu'.toSound rfl) ?_
      rintro _ _ _ huv ⟨hclose, -, rfl⟩
      refine (simulates_close (hu'.next (by simp [hclose])) (hu.trans huv).cursor ?_ rfl
        _).weaken fun _ _ _ _ _ h => h.1 ▸ h.2.2
      simp only [Term.map, Term.dump, Session.next, hids.dumps]

/-- `@Tag` or `@Tag{a, b}` -/
theorem simulates_constructor (hfree : setting.slot = .free setting.slot.usage) (hs : x.Follows s)
    (hkind : s.cursor.kind = .mark .atSign) :
    Simulates x setting s (Grammar.constructor deep s.cursor.span) (constructor expr)
      fun id b t => x.Answers s.cursor t id b := by
  have hne : s.cursor.kind ≠ .eof := by simp [hkind]
  have hnext := hs.next hne
  have hbefore : s.cursor.advance.Before s.next.cursor := .refl _
  refine .bind (.advance hs.toSound hne) ?_
  rintro _ _ _ - ⟨-, rfl⟩
  refine .bind (simulates_identifier hnext.toSound) ?_
  rintro ⟨name, span⟩ _ _ hst ⟨rfl, hident, rfl⟩
  have ht := hnext.next (by simp [hident])
  have hbraces : s.next.next.cursor.bracesOperand setting.slot =
      decide (s.next.next.cursor.kind = .mark .leftBrace) := by
    rw [hfree]
    simp [Cursor.bracesOperand, Slot.free, Cursor.atCaseHead]
  refine .cursor <| .slot <| .asks_right ?_
  rw [hbraces, ht.faces.kind_pieces]
  refine .ite .rfl (fun hbrace => ?_) fun _ => ?_
  · rw [decide_eq_true_eq] at hbrace
    have hne' : s.next.next.cursor.kind ≠ .eof := by simp [hbrace]
    refine .congr (q := do
      Parser.advance
      let args ← Parser.separated (.mark .rightBrace) (inner expr)
      Parser.expect (.mark .rightBrace)
      return part (.ctor name args)) rfl ?_ (.bind (.advance ht.toSound hne') ?_)
    · simp only [implicitArgs, Parser.run_bind, Option.bind_assoc, Parser.run_pure, Option.bind_some]
    rintro _ _ _ htu ⟨-, rfl⟩
    have hlist : Simulates x setting s.next.next.next
        (delimited (Reading.separated (.mark .rightBrace) deep.inner))
        (Parser.separated (.mark .rightBrace) (inner expr)) fun ids dumps t =>
          x.Follows t ∧ Lists t.tree ids dumps :=
      .within <| simulates_separated (readsItem_expr hdeep rfl .check) (ht.next hne')
        (.advance ht.faces hne' (by rw [hbrace]; rfl))
    refine hlist.bind ?_
    rintro ids dumps u hu ⟨hu', hids⟩
    refine .bind (.expect hu'.toSound rfl) ?_
    rintro _ _ _ huv ⟨hclose, -, rfl⟩
    have hleads := ((hst.trans htu).trans hu).trans huv
    refine (simulates_close (hu'.next (by simp [hclose])) hleads.cursor ?_ rfl
      _).weaken fun _ _ _ _ _ h => h.1 ▸ h.2.2
    simp only [Term.map, Term.dump, Session.next, hids.dumps]
  · exact (simulates_close ht hst.cursor rfl rfl _).weaken fun _ _ _ _ _ h => h.1 ▸ h.2.2

omit hdeep in
/-- A token that is a term of its own. -/
theorem simulates_leaf {term : Term TermId PatternId} (hs : x.Follows s)
    (hne : s.cursor.kind ≠ .eof)
    (hdump : (term.map s.tree.dump fun q => s.tree.patternDumps.getD q.index "").dump = b.dump)
    (hname : term.nameLength? = if b.bare then some s.cursor.span.length else none) :
    Simulates x setting s (do
        let _ ← advance
        addTerm term s.cursor.span)
      (do
        Parser.advance
        return b) fun id b t => x.Answers s.cursor t id b := by
  refine .bind (.advance hs.toSound hne) ?_
  rintro _ _ _ hst ⟨-, rfl⟩
  refine ⟨⟨.addTerm _ _, .refl _, .refl _⟩, b, rfl, ?_⟩
  refine (hs.next hne).addTerm (.refl _) hdump hname rfl ?_
  exact (congrArg Span.stop (Cursor.last_advance _)).symm

omit hdeep in
theorem dump_nameTerm (lexeme : String) (f : TermId → String) (g : PatternId → String) :
    ((nameTerm lexeme).map f g).dump = lexeme := by
  unfold nameTerm
  split
  · simp only [Term.map, Term.dump, intercalate_cutAtSlashes, String.ofList_toList]
  · rfl

omit hdeep in
/-- A literal at a cursor. -/
theorem simulates_literal (hs : x.Follows s) (hliteral : isLiteral s.cursor.kind = true) :
    Simulates x setting s (do
        let value ← Grammar.literal s.cursor.kind
        let _ ← advance
        addTerm (.lit value) s.cursor.span)
      (literal s.cursor.kind) fun id b t => x.Answers s.cursor t id b := by
  have hwhole : isWhole s.cursor.kind = true := isWhole_of_isLiteral hliteral
  have hne : s.cursor.kind ≠ .eof := by
    rintro heof
    rw [heof] at hliteral
    cases hliteral
  have hvalue : s.cursor.token.literal? = Literal.ofLexeme? s.cursor.kind s.cursor.lexeme.toList := by
    rw [Token.literal?, Cursor.kind_of_not_split (hs.faces.outside hwhole)]
    rfl
  have hlexeme := hs.faces.lexeme_pieces hwhole
  cases hfound : Literal.ofLexeme? s.cursor.kind s.cursor.lexeme.toList with
  | none =>
      refine .congr (o := Reading.fail (.invalid s!"malformed {s.cursor.kind.name}" s.cursor.span))
        (q := Parser.fail) ?_ ?_ (.fail hs.toSound rfl)
      · simp only [Grammar.literal, Reading.cursor, asks, run_bind, Outcome.andThen_ok, hvalue, hfound]
        rfl
      · simp only [Plain.literal, Parser.run_asks_bind, hlexeme, hfound]
  | some value =>
      refine .congr (o := do
        let _ ← advance
        addTerm (.lit value) s.cursor.span)
        (q := do
          Parser.advance
          return part (.lit value)) ?_ ?_ (simulates_leaf hs hne rfl rfl)
      · simp only [Grammar.literal, Reading.cursor, asks, run_bind, Outcome.andThen_ok, hvalue, hfound,
          run_pure]
      · simp only [Plain.literal, Parser.run_asks_bind, hlexeme, hfound]

omit hdeep in
/-- Of the constants only `*` is a plain operand. -/
theorem kind_of_constant? {k : TokenKind} {term : Term TermId PatternId} (h : constant? k = some term) :
    k = .mark .star ∨ k.isElementary = false ∧ k ≠ .eof := by
  unfold constant? at h
  split at h
  case h_16 => exact .inl rfl
  case h_17 => cases h
  all_goals exact .inr ⟨by decide, by decide⟩

/-- An operand without what follows it. -/
theorem simulates_operand (htop : deep.Tops) (hfree : setting.slot = .free setting.slot.usage)
    (hs : x.Follows s) :
    Simulates x setting s (Grammar.operand deep) (operand expr)
      fun id b t => x.Answers s.cursor t id b := by
  refine .cursor <| .kind_right ?_
  rw [hs.faces.kind_pieces]
  by_cases hident : s.cursor.kind = .ident
  · rw [if_pos hident, hident]
    refine .congr (q := do
      Parser.advance
      return ⟨s.cursor.lexeme, true⟩) rfl ?_ (simulates_leaf hs (by simp [hident])
        (dump_nameTerm _ _ _) ?_)
    · simp only [identifier, Parser.expect, Parser.sees, Parser.looks, Parser.run_bind, Parser.run_asks,
        Option.bind_some, hs.faces.kind_pieces, hident, decide_true, if_true,
        hs.faces.lexeme_pieces (by rw [hident]; rfl), Option.bind_assoc, Parser.run_pure]
    · rw [nameLength?_nameTerm, hs.faces.length_of_ident hident]
      rfl
  rw [if_neg hident]
  by_cases hliteral : isLiteral s.cursor.kind = true
  · rw [if_pos hliteral]
    refine .congr (q := Plain.literal s.cursor.kind) rfl ?_ (simulates_literal hs hliteral)
    split
    all_goals simp_all [isLiteral]
  rw [if_neg hliteral]
  by_cases hstar : s.cursor.kind = .mark .star
  · rw [hstar]
    exact simulates_leaf hs (by simp [hstar]) rfl rfl
  have hother (k : TokenKind) (hk : k.isElementary = false) (heof : k ≠ .eof) : s.cursor.kind ≠ k :=
    hs.faces.kind_ne hk heof
  have hconstant : constant? s.cursor.kind = none := by
    cases hterm : constant? s.cursor.kind with
    | none => rfl
    | some term =>
        obtain hkind | ⟨hkind, heof⟩ := kind_of_constant? hterm
        · exact absurd hkind hstar
        · exact absurd rfl (hother _ hkind heof)
  rw [hconstant]
  dsimp only
  unfold compound
  generalize hkind : s.cursor.kind = k at *
  split
  · exact simulates_constructor hdeep hfree hs hkind
  · exact absurd rfl (hother _ (by decide) (by decide))
  · exact absurd rfl (hother _ (by decide) (by decide))
  · exact simulates_parentheses hdeep htop hs hkind
  · exact simulates_listTerm hdeep hs hkind
  · refine .looks ?_
    rw [hs.faces.atRefl_pieces]
    exact .ite .rfl (fun hrefl => (simulates_refl hs hrefl).weaken fun _ _ _ _ _ h => h.2) fun _ =>
      .unexpected hs.toSound rfl
  · exact absurd rfl (hother _ (by decide) (by decide))
  · exact absurd rfl (hother _ (by decide) (by decide))
  · exact absurd rfl (hother _ (by decide) (by decide))
  · refine .congr (q := Parser.fail) rfl ?_ (.unexpected hs.toSound rfl)
    split
    · contradiction
    · contradiction
    · contradiction
    · contradiction
    · contradiction
    · contradiction
    · rw [if_neg hliteral]

end Operands

end Plain

end BendSyntax
