import BendSyntax.Proofs.Chain
import BendSyntax.Proofs.Chain.Sessions
import BendSyntax.Proofs.Shapes

/-! Case blocks whose bodies are chains, or blocks again. A semicolon may end a case or not: it is
not a part of the cases, and they are read in the same way. -/

namespace BendSyntax

open Reading Grammar

/-! ## Cases -/

mutual

/-- What a case has behind its head: a chain, or a block behind `λ` or behind `~` and a name. -/
inductive CaseBody where
  | chain (first : Identifier) (links : List Link)
  | lam (kind : BlockKind) (cases : CaseList)
  | tilde (scrutinee : Identifier) (kind : BlockKind) (cases : CaseList)

/-- Cases with their tags, in order. -/
inductive CaseList where
  | nil
  | cons (tag : CaseTag TermId) (body : CaseBody) (more : CaseList)

end

def CaseList.tags : CaseList → List (CaseTag TermId)
  | nil => []
  | cons tag _ more => tag :: more.tags

mutual

/-- How deep the readings of a body are nested. -/
def CaseBody.depth : CaseBody → Nat
  | .chain _ links => links.length + 2
  | .lam _ cases => cases.depth + 2
  | .tilde _ _ cases => max 1 cases.depth + 2

def CaseList.depth : CaseList → Nat
  | .nil => 0
  | .cons _ body more => max body.depth more.depth

end

mutual

/-- Whether a term is a body, with the chains in it grouped by the table. -/
def Tree.Presents (t : Tree) : CaseBody → TermId → Prop
  | .chain first links, id =>
      ∃ g, t.Shows g id ∧ g.Grouped ∧ g.first = first.text ∧ g.rest = links.map Link.step
  | .lam kind cases, id =>
      ∃ cs, t.term? id = some (.lamMatch ⟨kind, cs, none⟩) ∧ t.PresentsAll cases cs
  | .tilde scrutinee kind cases, id =>
      ∃ arg cs, t.term? id = some (.tildeMatch arg ⟨kind, cs, none⟩) ∧
        t.term? arg = some (nameTerm scrutinee.text) ∧ t.PresentsAll cases cs

def Tree.PresentsAll (t : Tree) : CaseList → List (BlockCase TermId) → Prop
  | .nil, cs => cs = []
  | .cons tag body more, cs =>
      ∃ c cs', cs = c :: cs' ∧ c.tag = tag ∧ t.Presents body c.body ∧ t.PresentsAll more cs'

end

mutual

theorem Tree.Presents.mono {t u : Tree} (h : t.Extends u) :
    (body : CaseBody) → (id : TermId) → t.Presents body id → u.Presents body id
  | .chain _ _, _, ⟨g, hshows, hg⟩ => ⟨g, hshows.mono h, hg⟩
  | .lam _ cases, _, ⟨cs, hterm, hcases⟩ => ⟨cs, h.term? hterm, Tree.PresentsAll.mono h cases cs hcases⟩
  | .tilde _ _ cases, _, ⟨arg, cs, hterm, harg, hcases⟩ =>
      ⟨arg, cs, h.term? hterm, h.term? harg, Tree.PresentsAll.mono h cases cs hcases⟩

theorem Tree.PresentsAll.mono {t u : Tree} (h : t.Extends u) :
    (cases : CaseList) → (cs : List (BlockCase TermId)) → t.PresentsAll cases cs →
      u.PresentsAll cases cs
  | .nil, _, hcs => hcs
  | .cons _ body more, _, ⟨c, cs', hcs, htag, hbody, hmore⟩ =>
      ⟨c, cs', hcs, htag, Tree.Presents.mono h body c.body hbody,
        Tree.PresentsAll.mono h more cs' hmore⟩

end

/-! ## Tokens -/

/-- The tokens of a head with its colon, for all heads without a label. -/
inductive CaseHead.Spells : CaseHead → CaseTag TermId → List Token → Prop
  | unit {a b c : Token} (h : [a, b, c].map (·.kind) =
      [.mark .leftParen, .mark .rightParen, .mark .colon]) : Spells .unit .unit [a, b, c]
  | pair {a b c d : Token} (h : [a, b, c, d].map (·.kind) =
      [.mark .leftParen, .mark .comma, .mark .rightParen, .mark .colon]) :
      Spells .pair .pair [a, b, c, d]
  | false {a b : Token} (h : [a, b].map (·.kind) = [.word .false, .mark .colon]) :
      Spells .false .false [a, b]
  | true {a b : Token} (h : [a, b].map (·.kind) = [.word .true, .mark .colon]) :
      Spells .true .true [a, b]
  | zero {a b : Token} (h : [a, b].map (·.kind) = [.nat, .mark .colon])
      (hnat : Literal.nat? a.lexeme.toList = some 0) : Spells .zero .zero [a, b]
  | succ {a b c : Token} (h : [a, b, c].map (·.kind) = [.nat, .mark .plus, .mark .colon])
      (hnat : Literal.nat? a.lexeme.toList = some 1) (htight : b.isTight = Bool.true) :
      Spells .succ .succ [a, b, c]
  | nil {a b c : Token} (h : [a, b, c].map (·.kind) =
      [.mark .leftBracket, .mark .rightBracket, .mark .colon]) : Spells .nil .nil [a, b, c]
  | cons {a b : Token} (h : [a, b].map (·.kind) = [.mark .cons, .mark .colon]) :
      Spells .cons .cons [a, b]
  | refl {a b c d : Token} (h : [a, b, c, d].map (·.kind) =
      [.mark .leftBrace, .mark .eqEq, .mark .rightBrace, .mark .colon]) :
      Spells .refl .refl [a, b, c, d]
  | ctor {a b c : Token} (h : [a, b, c].map (·.kind) = [.mark .atSign, .ident, .mark .colon]) :
      Spells .ctor (.ctor b.lexeme) [a, b, c]
  | sym {a b c : Token} (h : [a, b, c].map (·.kind) = [.mark .ampersand, .ident, .mark .colon]) :
      Spells .sym (.sym b.lexeme) [a, b, c]

mutual

/-- The tokens of a body. -/
inductive CaseBody.Spells : CaseBody → List Token → Prop
  | chain {first : Identifier} {links : List Link} {ts : List Token}
      (h : List.Forall₂ Word.Becomes (first.word :: Link.words links) ts) :
      CaseBody.Spells (.chain first links) ts
  | lam {kind : BlockKind} {cases : CaseList} {a b c : Token} {ts : List Token}
      (ha : a.kind = .word .lambda) (hb : b.kind = .mark .leftBrace) (hcases : cases.Spells ts)
      (hc : c.kind = .mark .rightBrace)
      (hkind : kind.Admits cases.tags none) :
      CaseBody.Spells (.lam kind cases) (a :: b :: (ts ++ [c]))
  | tilde {scrutinee : Identifier} {kind : BlockKind} {cases : CaseList} {a x b c : Token}
      {ts : List Token} (ha : a.kind = .mark .tilde) (hx : scrutinee.word.Becomes x)
      (hb : b.kind = .mark .leftBrace) (hcases : cases.Spells ts) (hc : c.kind = .mark .rightBrace)
      (hkind : kind.Admits cases.tags none) :
      CaseBody.Spells (.tilde scrutinee kind cases) (a :: x :: b :: (ts ++ [c]))

/-- The tokens of cases. A case may end with a semicolon. -/
inductive CaseList.Spells : CaseList → List Token → Prop
  | nil : CaseList.Spells .nil []
  | cons {head : CaseHead} {tag : CaseTag TermId} {body : CaseBody} {more : CaseList}
      {hs bs ms : List Token} (hhead : head.Spells tag hs) (hbody : body.Spells bs)
      (hmore : more.Spells ms) : CaseList.Spells (.cons tag body more) (hs ++ (bs ++ ms))
  | closed {head : CaseHead} {tag : CaseTag TermId} {body : CaseBody} {more : CaseList}
      {hs bs ms : List Token} {t : Token} (hhead : head.Spells tag hs) (hbody : body.Spells bs)
      (ht : t.kind = .mark .semicolon) (hmore : more.Spells ms) :
      CaseList.Spells (.cons tag body more) (hs ++ (bs ++ t :: ms))

end

/-! ## Heads -/

namespace CaseHead.Spells

variable {head : CaseHead} {tag : CaseTag TermId} {hs more : List Token} {c : Cursor}

theorem caseHead? (h : head.Spells tag hs) (hc : c.Faces [] (hs ++ more)) :
    c.caseHead? = some head := by
  have hrest := hc.rest_nil
  have hsplit := hc.split
  cases h with
  | zero h hnat =>
      simp only [List.map_cons, List.map_nil, List.cons.injEq] at h
      simp [Cursor.caseHead?, Cursor.kindAt, Cursor.tokenAt, Cursor.kind, Cursor.token, hrest,
        hsplit, h, Cursor.isNat, Cursor.lexeme, hnat]
  | succ h hnat htight =>
      simp only [List.map_cons, List.map_nil, List.cons.injEq] at h
      simp [Cursor.caseHead?, Cursor.kindAt, Cursor.tokenAt, Cursor.kind, Cursor.token, hrest,
        hsplit, h, Cursor.isNat, Cursor.lexeme, hnat, Cursor.tightAt, htight]
  | _ h =>
      simp only [List.map_cons, List.map_nil, List.cons.injEq] at h
      simp [Cursor.caseHead?, Cursor.kindAt, Cursor.tokenAt, Cursor.kind, Cursor.token, hrest,
        hsplit, h]

theorem length_pos (h : head.Spells tag hs) : 0 < hs.length := by
  cases h <;> exact Nat.succ_pos _

/-- In a case block an expression ends in front of a head. -/
theorem stop (h : head.Spells tag hs) {slot : Slot} (hslot : slot.caseHeads) :
    Stop slot (hs ++ more) :=
  .head hslot fun _ hc => by rw [h.caseHead? hc]; rfl

theorem reads_fixedTag {s : Session} (ts : List Token) (tag : CaseTag TermId) (setting : Setting)
    (hs : s.Before (ts ++ more)) :
    ∃ t, (fixedTag tag ts.length).run setting s = .ok tag t ∧ t.Before more := by
  have hskip : ∃ t, (skipTokens ts.length).run setting s = .ok () t ∧ t.Before more := by
    induction ts generalizing s with
    | nil => exact ⟨s, rfl, hs⟩
    | cons _ ts ih => exact ih hs.next
  obtain ⟨t, hrun, ht⟩ := hskip
  exact ⟨t, by rw [fixedTag, run_bind, hrun]; rfl, ht⟩

/-- A head is read up to its colon. -/
theorem reads_caseTag {s : Session} (h : head.Spells tag hs) (deep : Deeper) (setting : Setting)
    (hs' : s.Before (hs ++ more)) :
    ∃ colon t, (caseTag deep head).run setting s = .ok tag t ∧ colon.kind = .mark .colon ∧
      t.Before (colon :: more) := by
  have hnamed {a b c : Token} {make : String → CaseTag TermId} (hs' : s.Before (a :: b :: c :: more))
      (hb : b.kind = .ident) :
      (advance >>= fun _ => identifier >>= fun x => pure (make x.1) :
        Reading (CaseTag TermId)).run setting s = .ok (make b.lexeme) s.next.next := by
    have hident : s.next.cursor.kind = .ident := hs'.next.kind.trans hb
    have hlexeme : s.next.cursor.lexeme = b.lexeme := congrArg Token.lexeme hs'.next.token
    change ((identifier >>= fun x => pure (make x.1) : Reading (CaseTag TermId))).run setting s.next = _
    simp only [identifier, Reading.cursor, asks, run_bind, Outcome.andThen_ok, hident, if_true, hlexeme]
    rfl
  cases h with
  | ctor h =>
      simp only [List.map_cons, List.map_nil, List.cons.injEq, and_true] at h
      exact ⟨_, _, hnamed hs' h.2.1, h.2.2, hs'.next.next⟩
  | sym h =>
      simp only [List.map_cons, List.map_nil, List.cons.injEq, and_true] at h
      exact ⟨_, _, hnamed hs' h.2.1, h.2.2, hs'.next.next⟩
  | @unit a b c h | @succ a b c h | @nil a b c h =>
      simp only [List.map_cons, List.map_nil, List.cons.injEq, and_true] at h
      obtain ⟨t, hrun, ht⟩ := reads_fixedTag [a, b] _ setting hs'
      exact ⟨_, t, hrun, h.2.2, ht⟩
  | @pair a b c d h | @refl a b c d h =>
      simp only [List.map_cons, List.map_nil, List.cons.injEq, and_true] at h
      obtain ⟨t, hrun, ht⟩ := reads_fixedTag [a, b, c] _ setting hs'
      exact ⟨_, t, hrun, h.2.2.2, ht⟩
  | @false a b h | @true a b h | @zero a b h | @cons a b h =>
      simp only [List.map_cons, List.map_nil, List.cons.injEq, and_true] at h
      obtain ⟨t, hrun, ht⟩ := reads_fixedTag [a] _ setting hs'
      exact ⟨_, t, hrun, h.2, ht⟩

end CaseHead.Spells

/-! ## Cases in a block -/

/-- Whether a slot admits dots and braces. -/
def Slot.Roomy (s : Slot) : Prop := s.noDot = false ∧ s.noBrace = false

/-- Whether a body is read whole in front of a stop. -/
def Deeper.ReadsBody (deep : Deeper) (body : CaseBody) : Prop :=
  ∀ (setting : Setting) (s : Session) (ts more : List Token), body.Spells ts →
    Stop setting.slot more → setting.slot.Roomy → s.Before (ts ++ more) →
    ∃ id t, deep.statement.run setting s = .ok id t ∧ t.Before more ∧ t.tree.Presents body id

def Deeper.ReadsAll (deep : Deeper) : CaseList → Prop
  | .nil => True
  | .cons _ body more => deep.ReadsBody body ∧ deep.ReadsAll more

/-- What is left behind a body, with a semicolon and without one. -/
inductive Closes : List Token → List Token → Prop
  | open {ts : List Token} (h : ∀ t ∈ ts.head?, t.kind ≠ .mark .semicolon) : Closes ts ts
  | semicolon {t : Token} {ts : List Token} (h : t.kind = .mark .semicolon) : Closes (t :: ts) ts

section Blocks

variable {deep : Deeper} {setting : Setting} {s : Session} {head : CaseHead} {tag : CaseTag TermId}
  {body : CaseBody} {cases : CaseList} {hs bs ts after more : List Token} {brace : Token}

/-- A case is read with its semicolon, if it has one. -/
theorem reads_blockCase (hdeep : deep.ReadsBody body) (hhead : head.Spells tag hs)
    (hbody : body.Spells bs) (hstop : Stop setting.slot after) (hslot : setting.slot.Roomy)
    (hcloses : Closes after more) (hs' : s.Before (hs ++ (bs ++ after))) :
    ∃ c t, (blockCase deep head).run setting s = .ok c t ∧ c.tag = tag ∧
      t.tree.Presents body c.body ∧ t.Before more := by
  obtain ⟨colon, u, htag, hcolon, hu⟩ := hhead.reads_caseTag deep setting hs'
  obtain ⟨id, v, hread, hv, hpresents⟩ := hdeep setting u.next bs after hbody hstop hslot hu.next
  have hrun : (blockCase deep head).run setting s =
      ((accept (.mark .semicolon)).run setting v).andThen fun _ =>
        (since s.cursor.span >>= fun span => pure ⟨tag, span, id⟩).run setting := by
    change ((caseTag deep head).run setting s).andThen _ = _
    rw [htag]
    change ((expect (.mark .colon)).run setting u).andThen _ = _
    rw [hu.run_expect hcolon]
    change (deep.statement.run setting u.next).andThen _ = _
    rw [hread]
    rfl
  cases hcloses with
  | «open» hafter =>
      have hkind : v.cursor.kind ≠ .mark .semicolon := by
        cases after with
        | nil => simp [hv.faces.kind_nil]
        | cons t ts => simpa [hv.kind] using hafter t rfl
      rw [Session.Before.run_accept_of_ne hkind] at hrun
      exact ⟨_, v, hrun, rfl, hpresents, hv⟩
  | semicolon hkind =>
      rw [hv.run_accept hkind] at hrun
      exact ⟨_, v.next, hrun, rfl, hpresents, hv.next⟩

/-- Behind the last case stands a brace, and behind any other the head of the next. -/
theorem CaseList.Spells.front (h : cases.Spells ts) (brace : Token) (more : List Token) :
    (∃ ms, ts ++ brace :: more = brace :: ms) ∨
      ∃ head tag hs ms, CaseHead.Spells head tag hs ∧ ts ++ brace :: more = hs ++ ms := by
  cases h with
  | nil => exact .inl ⟨more, rfl⟩
  | cons hhead => exact .inr ⟨_, _, _, _, hhead, List.append_assoc _ _ _⟩
  | closed hhead => exact .inr ⟨_, _, _, _, hhead, List.append_assoc _ _ _⟩

theorem CaseList.Spells.stop (h : cases.Spells ts) (hbrace : brace.kind = .mark .rightBrace)
    {slot : Slot} (hslot : slot.caseHeads = true) : Stop slot (ts ++ brace :: more) := by
  rcases h.front brace more with ⟨ms, hms⟩ | ⟨head, tag, hs, ms, hhead, hms⟩
  · exact hms ▸ .mark (.inr (.inr (.inl hbrace)))
  · exact hms ▸ hhead.stop hslot

/-- What stands in front of the cases that are left ends nothing and separates nothing. -/
theorem CaseList.Spells.kind_front (h : cases.Spells ts) (hbrace : brace.kind = .mark .rightBrace)
    (more : List Token) :
    ∀ t ∈ (ts ++ brace :: more).head?,
      t.kind ≠ .mark .semicolon ∧ t.kind ≠ .mark .comma ∧ t.kind ≠ .mark .eqEq := by
  intro t ht
  rcases h.front brace more with ⟨ms, hms⟩ | ⟨head, tag, hs, ms, hhead, hms⟩
  · rw [hms] at ht
    obtain rfl : brace = t := by simpa using ht
    simp [hbrace]
  · rw [hms] at ht
    cases hhead <;> simp_all

theorem CaseList.Spells.closes (h : cases.Spells ts) (hbrace : brace.kind = .mark .rightBrace) :
    Closes (ts ++ brace :: more) (ts ++ brace :: more) :=
  .open fun t ht => (h.kind_front hbrace more t ht).1

/-- The first of several cases, and what is left behind it. -/
theorem reads_firstCase {rest : CaseList} (hdeep : deep.ReadsBody body)
    (hcaseHeads : setting.slot.caseHeads = true) (hslot : setting.slot.Roomy)
    (hspells : (CaseList.cons tag body rest).Spells ts) (hbrace : brace.kind = .mark .rightBrace)
    (hs' : s.Before (ts ++ brace :: more)) :
    ∃ head hs ms c t, CaseHead.Spells head tag hs ∧ s.cursor.caseHead? = some head ∧
      rest.Spells ms ∧ ms.length < ts.length ∧
      (blockCase deep head).run setting s = .ok c t ∧ c.tag = tag ∧
      t.tree.Presents body c.body ∧ t.Before (ms ++ brace :: more) := by
  cases hspells with
  | @cons head _ _ _ hs bs ms hhead hbody hmore =>
      rw [List.append_assoc, List.append_assoc] at hs'
      obtain ⟨c, t, hrun, htag, hpresents, ht⟩ := reads_blockCase hdeep hhead hbody
        (hmore.stop hbrace hcaseHeads) hslot (hmore.closes hbrace) hs'
      have hpos := hhead.length_pos
      refine ⟨head, hs, ms, c, t, hhead, hhead.caseHead? hs'.faces, hmore, ?_, hrun, htag,
        hpresents, ht⟩
      simp only [List.length_append]
      omega
  | @closed head _ _ _ hs bs ms semicolon hhead hbody hsemicolon hmore =>
      rw [List.append_assoc, List.append_assoc] at hs'
      obtain ⟨c, t, hrun, htag, hpresents, ht⟩ := reads_blockCase hdeep hhead hbody
        (.mark (.inl hsemicolon)) hslot (.semicolon hsemicolon) hs'
      have hpos := hhead.length_pos
      refine ⟨head, hs, ms, c, t, hhead, hhead.caseHead? hs'.faces, hmore, ?_, hrun, htag,
        hpresents, ht⟩
      simp only [List.length_append, List.length_cons]
      omega

/-- The rounds of an enum block take all cases. The induction is on the cases that are left. -/
theorem reads_enumRounds (hcaseHeads : setting.slot.caseHeads = true)
    (hslot : setting.slot.Roomy) (hbrace : brace.kind = .mark .rightBrace) :
    (cases : CaseList) → (s : Session) → (ts : List Token) → (acc : Array (BlockCase TermId)) →
      deep.ReadsAll cases → (∀ tag ∈ cases.tags, tag.OfEnum) → cases.Spells ts →
      s.Before (ts ++ brace :: more) →
      ∃ cs t, runLoop (enumRound deep) setting acc s = .ok (acc ++ cs) t ∧
        t.tree.PresentsAll cases cs.toList ∧ t.Before (brace :: more)
  | .nil, s, ts, acc, _, _, hspells, hs' => by
      cases hspells
      have hnone : s.cursor.caseHead? = none := by
        have hkind : s.cursor.kind = .mark .rightBrace := hs'.kind.trans hbrace
        unfold Cursor.caseHead?
        split <;> simp_all
      have hdone : (enumRound deep acc).run setting s = .ok (.done acc) s := by
        simp only [enumRound, Reading.cursor, asks, run_bind, Outcome.andThen_ok, hnone]
        rfl
      exact ⟨#[], s, by rw [runLoop_done hdone, Array.append_empty], rfl, hs'⟩
  | .cons tag body rest, s, ts, acc, hdeep, htags, hspells, hs' => by
      obtain ⟨htag, htags⟩ := List.forall_mem_cons.mp htags
      obtain ⟨head, hs, ms, c, t, hhead, hsome, hmore, hlength, hrun, hc, hpresents, ht⟩ :=
        reads_firstCase hdeep.1 hcaseHeads hslot hspells hbrace hs'
      have hround : (enumRound deep acc).run setting s = .ok (.more (acc.push c)) t := by
        have hcase : (blockCase deep head >>= fun c => pure (Round.more (acc.push c))).run setting s =
            .ok (.more (acc.push c)) t := by
          rw [run_bind, hrun]
          rfl
        simp only [enumRound, Reading.cursor, asks, run_bind, Outcome.andThen_ok, hsome]
        cases hhead with
        | ctor | sym => exact hcase
        | _ => exact htag.elim
      have hremaining : t.cursor.remaining < s.cursor.remaining := by
        rw [ht.faces.remaining, hs'.faces.remaining, List.length_append, List.length_append]
        simp only [List.length_nil]
        omega
      obtain ⟨cs, u, hloop, hcs, hu⟩ :=
        reads_enumRounds hcaseHeads hslot hbrace rest t ms (acc.push c) hdeep.2 htags hmore ht
      refine ⟨#[c] ++ cs, u, ?_, ?_, hu⟩
      · rw [runLoop_more hround hremaining, hloop, Array.push_eq_append, Array.append_assoc]
      · have honward : t.tree.Extends u.tree := by
          have := runLoop_onward (enumRound deep) setting (acc.push c) t
          rw [hloop] at this
          exact this.tree
        exact ⟨c, cs.toList, by simp, hc, hpresents.mono honward, hcs⟩

/-- The two cases of a positional block. -/
theorem reads_positionalBlock (kind : BlockKind) {first second : CaseHead}
    {tag tag' : CaseTag TermId} {body' : CaseBody}
    (hfirst : ∀ head hs, CaseHead.Spells head tag hs → head = first)
    (hsecond : ∀ head hs, CaseHead.Spells head tag' hs → head = second)
    (hcaseHeads : setting.slot.caseHeads = true) (hslot : setting.slot.Roomy)
    (hbrace : brace.kind = .mark .rightBrace)
    (hdeep : deep.ReadsAll (.cons tag body (.cons tag' body' .nil)))
    (hspells : (CaseList.cons tag body (.cons tag' body' .nil)).Spells ts)
    (hs' : s.Before (ts ++ brace :: more)) :
    ∃ cs t, (positionalBlock deep kind first second).run setting s = .ok ⟨kind, cs, none⟩ t ∧
      t.tree.PresentsAll (.cons tag body (.cons tag' body' .nil)) cs ∧ t.Before (brace :: more) := by
  have hcase {first : CaseHead} {c : BlockCase TermId} {s t : Session}
      (hsome : s.cursor.caseHead? = some first)
      (hrun : (blockCase deep first).run setting s = .ok c t) :
      (positionalCase deep kind first).run setting s = .ok c t := by
    simp only [positionalCase, Reading.cursor, asks, run_bind, Outcome.andThen_ok, hsome, if_true]
    exact hrun
  obtain ⟨head, hs, ms, c, t, hhead, hsome, hmore, -, hrun, hc, hpresents, ht⟩ :=
    reads_firstCase hdeep.1 hcaseHeads hslot hspells hbrace hs'
  obtain rfl := hfirst head hs hhead
  obtain ⟨head', hs, ms, c', u, hhead', hsome', hmore', -, hrun', hc', hpresents', hu⟩ :=
    reads_firstCase hdeep.2.1 hcaseHeads hslot hmore hbrace ht
  obtain rfl := hsecond head' hs hhead'
  cases hmore'
  have honward := (onward_of_ok hrun').tree
  refine ⟨[c, c'], u, ?_, ⟨c, [c'], rfl, hc, hpresents.mono honward, c', [], rfl, hc', hpresents',
    rfl⟩, hu⟩
  rw [positionalBlock, run_bind, hcase hsome hrun, Outcome.andThen_ok, run_bind,
    hcase hsome' hrun']
  rfl

theorem reads_singleBlock (kind : BlockKind) {first : CaseHead}
    (hfirst : ∀ head hs, CaseHead.Spells head tag hs → head = first)
    (hcaseHeads : setting.slot.caseHeads = true) (hslot : setting.slot.Roomy)
    (hbrace : brace.kind = .mark .rightBrace) (hdeep : deep.ReadsAll (.cons tag body .nil))
    (hspells : (CaseList.cons tag body .nil).Spells ts) (hs' : s.Before (ts ++ brace :: more)) :
    ∃ cs t, (singleBlock deep kind first).run setting s = .ok ⟨kind, cs, none⟩ t ∧
      t.tree.PresentsAll (.cons tag body .nil) cs ∧ t.Before (brace :: more) := by
  obtain ⟨head, hs, ms, c, t, hhead, -, hmore, -, hrun, hc, hpresents, ht⟩ :=
    reads_firstCase hdeep.1 hcaseHeads hslot hspells hbrace hs'
  obtain rfl := hfirst head hs hhead
  cases hmore
  refine ⟨[c], t, ?_, ⟨c, [], rfl, hc, hpresents, rfl⟩, ht⟩
  rw [singleBlock, run_bind, hrun]
  rfl

theorem reads_enumBlock (hcaseHeads : setting.slot.caseHeads = true)
    (hslot : setting.slot.Roomy) (hbrace : brace.kind = .mark .rightBrace)
    (hdeep : deep.ReadsAll cases) (htags : ∀ tag ∈ cases.tags, tag.OfEnum)
    (hspells : cases.Spells ts) (hs' : s.Before (ts ++ brace :: more)) :
    ∃ cs t, (enumBlock deep).run setting s = .ok ⟨.enum, cs, none⟩ t ∧
      t.tree.PresentsAll cases cs ∧ t.Before (brace :: more) := by
  obtain ⟨cs, t, hloop, hcs, ht⟩ :=
    reads_enumRounds hcaseHeads hslot hbrace cases s ts #[] hdeep htags hspells hs'
  refine ⟨cs.toList, t, ?_, hcs, ht⟩
  have hkind : t.cursor.kind = .mark .rightBrace := ht.kind.trans hbrace
  change (runLoop (enumRound deep) setting #[] s).andThen _ = _
  rw [hloop, Array.empty_append, Outcome.andThen_ok]
  simp [sees, Reading.kind, Reading.cursor, asks, run_bind, run_pure, hkind]

/-- The first head decides how a block is read. -/
theorem run_blockCases (deep : Deeper) (setting : Setting) (hsome : s.cursor.caseHead? = some head) :
    (blockCases deep).run setting s = (blockFrom deep head).run setting s := by
  have hkind : s.cursor.kind ≠ .mark .rightBrace := fun hkind => by
    unfold Cursor.caseHead? at hsome
    split at hsome <;> simp_all
  simp only [blockCases, Reading.cursor, asks, run_bind, Outcome.andThen_ok, if_neg hkind, hsome]

/-- All cases of a block are read, whatever the kind of the block. -/
theorem reads_blockCases (setting : Setting) {kind : BlockKind} (hkind : kind.Admits cases.tags none)
    (hcaseHeads : setting.slot.caseHeads = true) (hslot : setting.slot.Roomy)
    (hbrace : brace.kind = .mark .rightBrace) (hdeep : deep.ReadsAll cases)
    (hspells : cases.Spells ts) (hs' : s.Before (ts ++ brace :: more)) :
    ∃ cs t, (blockCases deep).run setting s = .ok ⟨kind, cs, none⟩ t ∧
      t.tree.PresentsAll cases cs ∧ t.Before (brace :: more) := by
  cases cases with
  | nil =>
      cases hkind with
      | empty =>
          cases hspells
          have hkind : s.cursor.kind = .mark .rightBrace := hs'.kind.trans hbrace
          refine ⟨[], s, ?_, rfl, hs'⟩
          simp only [blockCases, Reading.cursor, asks, run_bind, Outcome.andThen_ok, if_pos hkind]
          rfl
      | enum _ hsome => simp [CaseList.tags] at hsome
  | cons tag body rest =>
      obtain ⟨head, hs, -, -, -, hhead, hsome, -⟩ :=
        reads_firstCase hdeep.1 hcaseHeads hslot hspells hbrace hs'
      rw [run_blockCases deep setting hsome]
      generalize htags : (CaseList.cons tag body rest).tags = tags at hkind
      cases hkind with
      | enum henum =>
          have hblock := reads_enumBlock hcaseHeads hslot hbrace hdeep (htags ▸ henum) hspells hs'
          have htag : tag.OfEnum := henum tag (by rw [← htags]; exact List.mem_cons_self)
          cases hhead with
          | ctor | sym => exact hblock
          | _ => exact htag.elim
      | empty => cases htags
      | sup label =>
          obtain ⟨rfl, -⟩ : tag = .sup label ∧ rest.tags = [] := by simpa [CaseList.tags] using htags
          cases hhead
      | unit | pair | eql =>
          cases rest with
          | cons => simp [CaseList.tags] at htags
          | nil =>
              simp only [CaseList.tags, List.cons.injEq, and_true] at htags
              subst htags
              cases hhead
              exact reads_singleBlock _ (fun _ _ h => by cases h; rfl) hcaseHeads hslot hbrace hdeep
                hspells hs'
      | bool | nat | list =>
          cases rest with
          | nil => simp [CaseList.tags] at htags
          | cons tag' body' rest =>
              cases rest with
              | cons => simp [CaseList.tags] at htags
              | nil =>
                  simp only [CaseList.tags, List.cons.injEq, and_true] at htags
                  obtain ⟨rfl, rfl⟩ := htags
                  cases hhead
                  exact reads_positionalBlock _ (fun _ _ h => by cases h; rfl)
                    (fun _ _ h => by cases h; rfl) hcaseHeads hslot hbrace hdeep hspells hs'

/-- A block is read with its braces, whatever the slot. -/
theorem reads_caseBlock (deep : Deeper) (setting : Setting) {kind : BlockKind}
    (hkind : kind.Admits cases.tags none) {opening : Token}
    (hopening : opening.kind = .mark .leftBrace) (hbrace : brace.kind = .mark .rightBrace)
    (hdeep : deep.ReadsAll cases) (hspells : cases.Spells ts)
    (hs' : s.Before (opening :: (ts ++ brace :: more))) :
    ∃ cs t, (caseBlock deep).run setting s = .ok ⟨kind, cs, none⟩ t ∧
      t.tree.PresentsAll cases cs ∧ t.Before more := by
  obtain ⟨cs, t, hrun, hcs, ht⟩ := reads_blockCases
    { setting with slot := { Slot.free .term with caseHeads := true } } hkind rfl ⟨rfl, rfl⟩ hbrace hdeep
    hspells hs'.next
  refine ⟨cs, t.next, ?_, hcs, ht.next⟩
  change ((expect (.mark .leftBrace)).run setting s).andThen _ = _
  rw [hs'.run_expect hopening]
  change ((blockCases deep).run
    { setting with slot := { Slot.free .term with caseHeads := true } } s.next).andThen _ = _
  rw [hrun]
  change ((expect (.mark .rightBrace)).run setting t).andThen _ = _
  rw [ht.run_expect hbrace]
  rfl

end Blocks

/-! ## Bodies -/

section Bodies

variable {d : Nat} {setting : Setting} {s t : Session} {ts more : List Token} {id : TermId}

/-- A statement that does not begin with a name, and ends where its first operand does. -/
theorem run_statement_leading (hkind : s.cursor.kind ≠ .ident) (hstop : Stop setting.slot more)
    (hleading : (leading (nested d)).run { setting with slot := setting.slot.withUsage .term } s =
      .ok id t) (ht : t.Before more) : (nested (d + 2)).statement.run setting s = .ok id t := by
  have hsettled := ht.faces.settled (hstop.withUsage .term) Level.assignment
  have hdone : (climbRound (nested d) .assignment s.cursor.span id).run
      { setting with slot := setting.slot.withUsage .term } t = .ok (.done id) t :=
    Cursor.Settled.run_climbRound hsettled
  have hexpr : ((nested (d + 1)).expr .assignment).run
      { setting with slot := setting.slot.withUsage .term } s = .ok id t := by
    change ((leading (nested d)).run _ s).andThen _ = _
    rw [hleading]
    exact runLoop_done hdone
  change (statement (nested (d + 1))).run _ s = _
  rw [← hexpr]
  simp only [statement, Reading.cursor, asks, run_bind, Outcome.andThen_ok]
  split
  · exact absurd ‹_› hkind
  · exact absurd ‹_› hkind
  · rfl

theorem run_lambda (deep : Deeper) (start : Span) (setting : Setting)
    (hopening : s.next.cursor.kind = .mark .leftBrace) : (lambda deep start).run setting s =
      (caseBlock deep >>= fun block => close start (.lamMatch block)).run setting s.next := by
  rw [lambda, run_bind]
  change (sees (.mark .leftBrace) >>= fun x => if x = true then _ else _).run setting s.next = _
  simp only [sees, Reading.kind, Reading.cursor, asks, run_bind, Outcome.andThen_ok, run_pure,
    hopening, decide_true, if_true]

theorem run_tilde (deep : Deeper) (start : Span) (setting : Setting)
    (hexpr : (deep.expr .operand).run { setting with slot := { setting.slot with noBrace := true } }
      s.next = .ok id t)
    (hslot : setting.slot.noBrace = false) (hopening : t.cursor.kind = .mark .leftBrace)
    (hhead : t.cursor.caseHead? = none) : (tilde deep start).run setting s =
      (caseBlock deep >>= fun block => close start (.tildeMatch id block)).run setting t := by
  have hbraced : (!setting.slot.noBrace && decide (t.cursor.kind = .mark .leftBrace) &&
      !t.cursor.atCaseHead setting.slot) = true := by
    simp [hslot, hopening, Cursor.atCaseHead, hhead]
  rw [tilde, run_bind]
  change ((deep.expr .operand).run _ s.next).andThen _ = _
  rw [hexpr]
  simp only [Reading.slot, Reading.cursor, asks, run_bind, Outcome.andThen_ok, hbraced, if_true]

/-- A name on its own is a chain without operators. -/
theorem reads_name {deep : Deeper} {n : Nat} (hdeep : deep.ReadsChains n) (min : Level)
    (setting : Setting) (hstop : Stop setting.slot more) (hslot : setting.slot.noDot = false) (hn : 0 < n)
    {x : Identifier} (hfaces : s.cursor.Faces (x.word :: Link.words []) more)
    (hclean : s.diagnostics = #[]) :
    ∃ id t, (deep.expr min).run setting s = .ok id t ∧ t.tree.term? id = some (nameTerm x.text) ∧
      t.Before more := by
  obtain ⟨g, id, t, rest, hexpr, ht, hg, -⟩ :=
    hdeep min setting s x [] more hstop hslot hn hfaces hclean
  obtain ⟨hnil, hrest⟩ := List.append_eq_nil_iff.mp hg.steps
  obtain rfl : rest = [] := List.map_eq_nil_iff.mp hrest
  cases g with
  | node => simp [Grouping.rest] at hnil
  | name y =>
      obtain rfl : y = x.text := hg.first
      exact ⟨id, t, hexpr, ht.shows, ht.faces, ht.clean⟩

mutual

/-- In front of a stop a body is read whole, where the depth leaves room for it. The induction is on
the body; of the readings of the next level only those that are used are known. -/
theorem CaseBody.reads :
    (body : CaseBody) → (d : Nat) → body.depth ≤ d → (nested d).ReadsBody body
  | .chain first links, d, hdepth => by
      intro setting s ts more hspells hstop hslot hs
      simp only [CaseBody.depth] at hdepth
      obtain ⟨d, rfl⟩ : ∃ e, d = e + 1 := ⟨d - 1, by omega⟩
      cases hspells with
      | chain hwords =>
          obtain ⟨g, id, t, hrun, ht, hgrouped, hfirst, hrest⟩ := run_statement_chain
            { setting with slot := setting.slot.withUsage .term }
            (readsChains_nested d) (hstop.withUsage .term) hslot.1 (by omega)
            (hs.faces_words hwords) hs.clean
          exact ⟨id, t, hrun, ⟨ht.faces, ht.clean⟩, g, ht.shows, hgrouped, hfirst, hrest⟩
  | .lam kind cases, d, hdepth => by
      intro setting s ts more hspells hstop hslot hs
      simp only [CaseBody.depth] at hdepth
      obtain ⟨d, rfl⟩ : ∃ e, d = e + 2 := ⟨d - 2, by omega⟩
      cases hspells with
      | @lam _ _ a b c ts ha hb hcases hc hkind =>
          rw [List.cons_append, List.cons_append, List.append_assoc] at hs
          have hlambda : s.cursor.kind = .word .lambda := hs.kind.trans ha
          have hopening : s.next.cursor.kind = .mark .leftBrace := hs.next.kind.trans hb
          obtain ⟨cs, u, hblock, hcs, hu⟩ := reads_caseBlock (nested d)
            { setting with slot := setting.slot.withUsage .term } hkind hb hc
            (CaseList.reads cases d (by omega)) hcases hs.next
          have hu' := hu.setTree (u.tree.addTerm
            ⟨.lamMatch ⟨kind, cs, none⟩, s.cursor.span.hull u.cursor.last, .term⟩).2
          refine ⟨_, _, run_statement_leading (by simp [hlambda]) hstop ?_ hu', hu',
            cs, Tree.term?_addTerm _ _, Tree.PresentsAll.mono (.addTerm _ _) _ _ hcs⟩
          simp only [leading, Reading.cursor, asks, run_bind, Outcome.andThen_ok, hlambda]
          rw [run_lambda _ _ _ hopening, run_bind, hblock]
          rfl
  | .tilde scrutinee kind cases, d, hdepth => by
      intro setting s ts more hspells hstop hslot hs
      simp only [CaseBody.depth] at hdepth
      obtain ⟨d, rfl⟩ : ∃ e, d = e + 2 := ⟨d - 2, by omega⟩
      cases hspells with
      | @tilde _ _ _ a x b c ts ha hx hb hcases hc hkind =>
          simp only [List.cons_append, List.append_assoc, List.nil_append] at hs
          have htilde : s.cursor.kind = .mark .tilde := hs.kind.trans ha
          have hargument : s.next.Before ([x] ++ b :: (ts ++ c :: more)) := hs.next
          have hname : s.next.cursor.Faces (scrutinee.word :: Link.words [])
              (b :: (ts ++ c :: more)) := hargument.faces_words (.cons hx .nil)
          have hfront := hcases.kind_front hc more
          obtain ⟨arg, u, hexpr, harg, hu⟩ := reads_name (readsChains_nested d) .operand
            { setting with slot := { setting.slot.withUsage .term with noBrace := true } }
            (.brace rfl hb fun t ht => (hfront t ht).2.1) hslot.1 (by omega) hname hs.next.clean
          have hopening : u.cursor.kind = .mark .leftBrace := hu.kind.trans hb
          have hhead : u.cursor.caseHead? = none := by
            obtain ⟨y, ys, hys⟩ := List.exists_cons_of_ne_nil
              (List.append_ne_nil_of_right_ne_nil ts (List.cons_ne_nil c more))
            have hnext : u.cursor.kindAt 1 ≠ .mark .eqEq := by
              rw [hys] at hu
              rw [hu.kindAt_one]
              exact (hfront y (by rw [hys]; rfl)).2.2
            unfold Cursor.caseHead?
            split <;> simp_all
          obtain ⟨cs, v, hblock, hcs, hv⟩ := reads_caseBlock (nested d)
            { setting with slot := setting.slot.withUsage .term } hkind hb hc
            (CaseList.reads cases d (by omega)) hcases hu
          have hv' := hv.setTree (v.tree.addTerm
            ⟨.tildeMatch arg ⟨kind, cs, none⟩, s.cursor.span.hull v.cursor.last, .term⟩).2
          have harg' := (onward_of_ok hblock).tree.term? harg
          refine ⟨_, _, run_statement_leading (by simp [htilde]) hstop ?_ hv', hv', arg, cs,
            Tree.term?_addTerm _ _,
            Tree.Extends.term? (.addTerm _ _) harg', Tree.PresentsAll.mono (.addTerm _ _) _ _ hcs⟩
          simp only [leading, Reading.cursor, asks, run_bind, Outcome.andThen_ok, htilde]
          rw [run_tilde _ _ { setting with slot := setting.slot.withUsage .term } hexpr hslot.2
            hopening hhead, run_bind, hblock]
          rfl

theorem CaseList.reads :
    (cases : CaseList) → (d : Nat) → cases.depth ≤ d → (nested d).ReadsAll cases
  | .nil, _, _ => trivial
  | .cons _ body more, d, hdepth =>
      ⟨CaseBody.reads body d (Nat.le_trans (Nat.le_max_left _ _) hdepth),
        CaseList.reads more d (Nat.le_trans (Nat.le_max_right _ _) hdepth)⟩

end

end Bodies

end BendSyntax
