import BendSyntax.Proofs.Layout.Expressions
import BendSyntax.Proofs.Ownership.Items

/-! Where items put their nodes. An item is read without an error, or an error node stands for its
body, which is then the only thing that was reported, or it cannot be read, in which case nothing
was reported yet. -/

namespace BendSyntax

open Reading Grammar Owner

section Roots

variable {τ : Type}

/-- The body of a definition, or the value of one that is an equation. -/
def DefForm.body : DefForm τ → τ
  | full _ _ body => body
  | equation _ value => value
  | nullary body => body

def Item.body? : Item τ → Option τ
  | .definition d => some d.form.body
  | _ => none

/-- Whether an item stands for a region that could not be read. -/
def Item.isError : Item τ → Bool
  | .error _ => true
  | _ => false

theorem Item.isError_of_mem_body? {item : Item τ} {a : τ} (h : a ∈ item.body?) :
    item.isError = false := by
  cases item with
  | error span => cases h
  | _ => rfl

end Roots

/-- An item that was read, and whose roots lie in its span one behind the other. -/
structure Item.Covers (item : Item TermId) (t : Tree) : Prop where
  isError : item.isError = false
  placed : t.Placed ((⟨t, []⟩ : Program).itemSpan item).start (loose item)
    ((⟨t, []⟩ : Program).itemSpan item).stop

namespace Session

/-- An error node for a body of which there is nothing in the text: where the body is missing, the
next item begins. -/
structure Missing (s : Session) (id : TermId) : Prop where
  term : s.tree.term? id = some .error
  span : s.tree.span id = s.cursor.span.opening
  starts : s.cursor.kind.startsItem = true

/-- An error was reported, and the node that was added last stands for what could not be read. -/
structure Damaged (s t : Session) (id : TermId) : Prop where
  cursor : s.cursor.Before t.cursor
  terms : ∃ (k : List TermNode) (node : TermNode),
    t.tree.terms.toList = s.tree.terms.toList ++ k ++ [node] ∧
      (∀ other ∈ k, other.term ≠ .error) ∧ node.term = .error
  top : t.Top id
  patterns : s.tree.patterns.toList <+: t.tree.patterns.toList
  report : ∃ e : SyntaxError, t.diagnostics = s.diagnostics.push e.toDiagnostic ∧
    s.cursor.span.start ≤ e.span.start ∧ e.span.start ≤ t.cursor.span.start
  stopped : t.cursor.kind.startsItem = true

theorem Damaged.treePrefix {s t : Session} {id : TermId} (h : s.Damaged t id) :
    s.tree.Prefix t.tree := by
  obtain ⟨k, node, hterms, -⟩ := h.terms
  exact ⟨⟨k ++ [node], by rw [hterms, List.append_assoc]⟩, h.patterns⟩

theorem Grows.damaged {s t u : Session} {id : TermId} (h : s.Grows t) (hd : t.Damaged u id) :
    s.Damaged u id := by
  obtain ⟨as, has, hne⟩ := h.terms
  obtain ⟨bs, node, hbs, hne', hnode⟩ := hd.terms
  obtain ⟨e, hdiagnostics, hlower, hupper⟩ := hd.report
  refine ⟨h.cursor.trans hd.cursor, ⟨as ++ bs, node, ?_, ?_, hnode⟩, hd.top,
    h.patterns.trans hd.patterns,
    ⟨e, ?_, Nat.le_trans h.cursor.front hlower, hupper⟩, hd.stopped⟩
  · rw [hbs, has]
    simp
  · exact fun other hother => (List.mem_append.mp hother).elim (hne other) (hne' other)
  · rw [hdiagnostics, h.diagnostics]

end Session

/-- What a part of an item leaves behind: it has been read, or an error node stands for the body. -/
def Outcome.Ends {α : Type} (s : Session) (P D : α → Session → Prop) (body : α → Option TermId) :
    Outcome α → Prop
  | .ok a t => t.Sound ∧ (s.Grows t ∧ P a t ∨ D a t ∧ ∃ id ∈ body a, s.Damaged t id)
  | .error e t => t.cursor.Orderly ∧ s.Grows t ∧ e.span = t.cursor.span

/-- Given the nodes `k`, a part of an item is read from a session on, or an error node stands for
the body. -/
def RecoversAt {α : Type} (setting : Setting) (s : Session) (b : Base) (k : List Held)
    (r : Reading α)
    (P D : α → Session → Prop) (body : α → Option TermId) : Prop :=
  s.Sound → b.Meets s.cursor → s.tree.Placed b.lo k s.cursor.last.stop →
    (r.run setting s).Ends s P D body

/-- Given the nodes `k`, a part of an item is read, or an error node stands for the body. -/
abbrev Recovers {α : Type} (b : Base) (k : List Held) (r : Reading α) (P D : α → Session → Prop)
    (body : α → Option TermId) : Prop :=
  ∀ setting s, RecoversAt setting s b k r P D body

/-- The nodes of an answer are placed. -/
abbrev Holding {α : Type} (b : Base) (o : α → List Held) (a : α) (t : Session) : Prop :=
  t.tree.Placed b.lo (o a) t.cursor.last.stop

/-- The nodes of an answer are placed, but for a missing body. -/
def Keeping {α : Type} (b : Base) (o : α → List Held) (a : α) (t : Session) : Prop :=
  Holding b o a t ∨
    ∃ k id, o a = k ++ loose id ∧ t.tree.Placed b.lo k t.cursor.last.stop ∧ t.Missing id

/-- Given the nodes `k`, a reading from a session on leaves the nodes of its answer. -/
abbrev SavesAt {α : Type} (setting : Setting) (s : Session) (b : Base) (k : List Held)
    (r : Reading α)
    (o : α → List Held) (body : α → Option TermId) : Prop :=
  RecoversAt setting s b k r (Holding b o) (Keeping b o) body

/-- Given the nodes `k`, a reading leaves the nodes of its answer. -/
abbrev Saves {α : Type} (b : Base) (k : List Held) (r : Reading α) (o : α → List Held)
    (body : α → Option TermId) : Prop :=
  Recovers b k r (Holding b o) (Keeping b o) body

/-- An item whose roots are placed in its span, but for a missing body. -/
def Item.Keeps (item : Item TermId) (t : Session) : Prop :=
  t.tree.Placed ((⟨t.tree, []⟩ : Program).itemSpan item).start (loose item)
      ((⟨t.tree, []⟩ : Program).itemSpan item).stop ∨
    ∃ k id, loose item = k ++ loose id ∧ t.Missing id ∧
      t.tree.Placed ((⟨t.tree, []⟩ : Program).itemSpan item).start k
        ((⟨t.tree, []⟩ : Program).itemSpan item).stop

/-- Given the nodes `k`, an item is read whose roots are placed in its span. -/
abbrev SavesItem (b : Base) (k : List Held) (r : Reading (Item TermId)) : Prop :=
  Recovers b k r (fun item t => item.Covers t.tree) Item.Keeps Item.body?

section Rules

variable {α β : Type} {setting : Setting} {s : Session} {b : Base} {k : List Held} {r : Reading α}
  {f : α → Reading β} {p : α → List Held} {P D : α → Session → Prop} {Q E : β → Session → Prop}
  {body : α → Option TermId} {body' : β → Option TermId}

theorem Outcome.Ends.trans {t : Session} {x : Outcome α} (h : s.Grows t) (hx : x.Ends t P D body) :
    x.Ends s P D body := by
  cases x with
  | ok a u =>
      refine ⟨hx.1, hx.2.imp (fun hclean => ⟨h.trans hclean.1, hclean.2⟩) ?_⟩
      exact fun ⟨hkept, id, hid, hd⟩ => ⟨hkept, id, hid, h.damaged hd⟩
  | error e u => exact ⟨hx.1, h.trans hx.2.1, hx.2.2⟩

theorem LaysAt.recovers (h : LaysAt setting s b k r p) :
    RecoversAt setting s b k r (Holding b p) D body := by
  intro hs hb hk
  have hr := h hs hb hk
  cases hrun : r.run setting s with
  | ok a t =>
      rw [hrun] at hr
      exact ⟨hr.1, .inl hr.2⟩
  | error e t =>
      rw [hrun] at hr
      exact hr

namespace RecoversAt

theorem seq (h : LaysAt setting s b k r p)
    (hf : ∀ a t, r.run setting s = .ok a t → RecoversAt setting t b (p a) (f a) Q E body') :
    RecoversAt setting s b k (r >>= f) Q E body' := by
  intro hs hb hk
  have hr := h hs hb hk
  rw [run_bind]
  cases hrun : r.run setting s with
  | ok a t =>
      rw [hrun] at hr
      exact (hf a t hrun hr.1 (hb.mono hr.2.1.cursor) hr.2.2).trans hr.2.1
  | error e t =>
      rw [hrun] at hr
      exact hr

theorem bind (h : LaysAt setting s (.here s.cursor.span.start) [] r p)
    (hf : ∀ a t, r.run setting s = .ok a t → RecoversAt setting t b (k ++ p a) (f a) Q E body') :
    RecoversAt setting s b k (r >>= f) Q E body' := seq h.frame hf

theorem here {f : Span → Reading β} (h : RecoversAt setting s b k (f s.cursor.span) Q E body') :
    RecoversAt setting s b k (Reading.here >>= f) Q E body' := h

/-- Goes on with what is known. -/
theorem andAsks {g : α → Setting → Session → β} (h : RecoversAt setting s b k r P D body)
    (hclean : ∀ a setting t, b.Meets t.cursor → P a t → Q (g a setting t) t)
    (hdamaged : ∀ a setting t, b.Meets t.cursor → D a t → E (g a setting t) t)
    (hbody : ∀ a setting t, ∀ id ∈ body a, id ∈ body' (g a setting t)) :
    RecoversAt setting s b k (r >>= fun a => asks (g a)) Q E body' := by
  intro hs hb hk
  have hr := h hs hb hk
  rw [run_bind]
  cases hrun : r.run setting s with
  | ok a t =>
      rw [hrun] at hr
      obtain ⟨ht, hends⟩ := hr
      refine ⟨ht, hends.imp (fun hc => ?_) fun ⟨hd, id, hid, hdamage⟩ => ?_⟩
      · exact ⟨hc.1, hclean a setting t (hb.mono hc.1.cursor) hc.2⟩
      · exact ⟨hdamaged a setting t (hb.mono hdamage.cursor) hd, id,
          hbody a setting t id hid, hdamage⟩
  | error e t =>
      rw [hrun] at hr
      exact hr

/-- Goes on to an answer that has the same nodes. -/
theorem map {g : α → β} {o : β → List Held}
    (h : SavesAt setting s b k r p body) (ho : ∀ a, p a = o (g a))
    (hbody : ∀ a, ∀ id ∈ body a, id ∈ body' (g a)) : SavesAt setting s b k (g <$> r) o body' := by
  refine h.andAsks (g := fun a _ _ => g a) (fun a _ t _ hheld => ?_) (fun a _ t _ hkept => ?_)
    fun a _ _ => hbody a
  · rwa [Holding, ← ho a]
  · rwa [Keeping, Holding, ← ho a]

end RecoversAt

namespace Recovers

theorem bind (h : Adds r p) (hf : ∀ a, Recovers b (k ++ p a) (f a) Q E body') :
    Recovers b k (r >>= f) Q E body' :=
  fun setting s => .bind (h setting s) fun a t _ => hf a setting t

theorem skip (h : Quiet r) (hf : ∀ a, Recovers b k (f a) Q E body') :
    Recovers b k (r >>= f) Q E body' :=
  bind h fun a => (List.append_nil k).symm ▸ hf a

theorem ite {c : Prop} [Decidable c] {r' : Reading α} (hyes : c → Recovers b k r P D body)
    (hno : ¬c → Recovers b k r' P D body) : Recovers b k (if c then r else r') P D body := by
  split
  · exact hyes ‹_›
  · exact hno ‹_›

theorem map {g : α → β} {o : β → List Held}
    (h : Saves b k r p body) (ho : ∀ a, p a = o (g a))
    (hbody : ∀ a, ∀ id ∈ body a, id ∈ body' (g a)) : Saves b k (g <$> r) o body' :=
  fun setting s => (h setting s).map ho hbody

/-- An item that ends with its span. -/
theorem item {start : Span} {mk : α → Span → Item TermId} {o : α → List Held}
    (h : Saves (.since start) k r o body)
    (hread : ∀ a span, (mk a span).isError = false)
    (hspan : ∀ a span (q : Program), q.itemSpan (mk a span) = span)
    (hroots : ∀ a span, loose (mk a span) = o a)
    (hbody : ∀ a span, ∀ id ∈ body a, id ∈ (mk a span).body?) :
    SavesItem (.since start) k (r >>= fun a => since start >>= fun span => pure (mk a span)) := by
  have hextent {t : Session} (hb : (Base.since start).Meets t.cursor) :
      (start.hull t.cursor.last).start = start.start ∧
        (start.hull t.cursor.last).stop = t.cursor.last.stop := by
    simp [hb.1, hb.2]
  refine fun setting s => (h setting s).andAsks (g := fun a _ t => mk a (start.hull t.cursor.last))
    (fun a _ t hb hheld => ?_) (fun a _ t hb hkept => ?_) fun a _ t => hbody a _
  · refine ⟨hread _ _, ?_⟩
    rw [hspan, hroots, (hextent hb).1, (hextent hb).2]
    exact hheld
  · rw [Item.Keeps, hspan, hroots, (hextent hb).1, (hextent hb).2]
    exact hkept.imp_right fun ⟨k, id, ho, hplaced, hmissing⟩ => ⟨k, id, ho, hmissing, hplaced⟩

/-- An item without a body. -/
theorem item_of_lays {start : Span} {mk : α → Span → Item TermId} {o : α → List Held}
    (h : Lays (.since start) k r o)
    (hread : ∀ a span, (mk a span).isError = false)
    (hspan : ∀ a span (q : Program), q.itemSpan (mk a span) = span)
    (hroots : ∀ a span, loose (mk a span) = o a) :
    SavesItem (.since start) k (r >>= fun a => since start >>= fun span => pure (mk a span)) := by
  have hr : Saves (.since start) k r o fun _ => none := fun setting s => (h setting s).recovers
  exact hr.item hread hspan hroots nofun

end Recovers

end Rules

/-! ## Recovery -/

namespace Cursor

/-- Where skipping to an item comes to: it stays in front of a keyword that begins an item, and
else goes on behind the next token. -/
structure Skips (c d : Cursor) : Prop where
  starts : d.kind.startsItem = true
  place : d = c ∨ c.kind.startsItem = false ∧ d.Orderly ∧ c.advance.Before d

namespace Skips

variable {c d : Cursor} (h : c.Skips d)

include h

theorem orderly (hc : c.kind.startsItem = true → c.Orderly) : d.Orderly := by
  obtain rfl | ⟨-, hd, -⟩ := h.place
  · exact hc h.starts
  · exact hd

theorem before (hc : c.Orderly) : c.Before d := by
  obtain rfl | ⟨-, -, hbefore⟩ := h.place
  · exact .refl _
  · exact hc.before_advance.trans hbefore

end Skips

theorem Ahead.remaining_lt_advance {c : Cursor} (h : c.Ahead) (hkind : c.kind ≠ .eof) :
    c.advance.remaining < c.remaining := by
  refine (Reaches.advance c).remaining_lt ?_
  rw [index_advance (h.rest_ne_nil hkind)]
  exact Nat.lt_succ_self _

/-- Nothing is skipped in front of an item, not even half a token. -/
theorem Ahead.whole_of_startsItem {c : Cursor} (h : c.Ahead)
    (hstarts : c.whole.kind.startsItem = true) : c.whole = c := by
  cases hsplit : c.split with
  | false => exact congrArg (Cursor.mk c.rest c.eof c.index · c.last) hsplit.symm
  | true =>
      have hkind : c.whole.kind = .mark .shiftRight := h.split hsplit
      simp [hkind, TokenKind.startsItem] at hstarts

/-- Skipping from the first half of a `>>` on goes past the second half. -/
theorem Skips.front_le {c d : Cursor} (h : c.whole.Skips d) (hc : c.Ahead) :
    c.span.start ≤ d.span.start := by
  obtain rfl | ⟨-, -, hbefore⟩ := h.place
  · rw [hc.whole_of_startsItem h.starts]
  · have hstop : c.whole.span.stop = c.span.stop := (stop_span _).trans (stop_span c).symm
    calc c.span.start ≤ c.span.stop := hc.span_le
      _ = c.whole.span.stop := hstop.symm
      _ ≤ c.whole.advance.span.start := hc.whole.stop_le_advance
      _ ≤ d.span.start := hbefore.front

end Cursor

/-- A region from a place on is empty if nothing was skipped, and otherwise reaches to the last
token that was. -/
def Cursor.Skipped (c d : Cursor) (start region : Span) : Prop :=
  d = c ∧ region = start ∨
    region.start = start.start ∧ region.start ≤ region.stop ∧ region.stop = d.last.stop

/-- A region is extended over a token that is skipped. -/
theorem Cursor.Ahead.covers_advance {c d : Cursor} {region region' : Span} (h : c.Ahead)
    (hlower : region.start ≤ c.span.start) (hupper : region.stop ≤ c.span.start)
    (hcovers : (region.hull c.span).start ≤ c.advance.span.start →
      (region.hull c.span).stop ≤ c.advance.span.start →
        c.advance.Skipped d (region.hull c.span) region') :
    region'.start = region.start ∧ region'.start ≤ region'.stop ∧ region'.stop = d.last.stop := by
  have hbegin : (region.hull c.span).start = region.start := by simp [hlower]
  have hend : (region.hull c.span).stop = c.span.stop := by
    simp [Nat.le_trans hupper h.span_le]
  rw [hbegin, hend] at hcovers
  obtain ⟨rfl, rfl⟩ | ⟨hstart, hrest⟩ :=
    hcovers (Nat.le_trans hlower h.span_le_advance) h.stop_le_advance
  · rw [hbegin, hend, last_advance]
    exact ⟨rfl, Nat.le_trans hlower h.span_le, rfl⟩
  · exact ⟨hstart.trans hbegin, hrest⟩

theorem run_skipToItem (start : Span) (setting : Setting) (s : Session) (hs : s.cursor.Ahead) :
    ∃ region d, (skipToItem start).run setting s = .ok region { s with cursor := d } ∧
      s.cursor.Skips d ∧
      (start.start ≤ s.cursor.span.start → s.cursor.Skipped d start.opening region) := by
  let step : Span → Reading (Round Span) := fun region => do
    if (← kind).startsItem then return .done region
    else return .more (region.hull (← advance))
  suffices ∀ (n : Nat) (region : Span) (s : Session), s.cursor.remaining = n → s.cursor.Ahead →
      ∃ region' d, runLoop step setting region s = .ok region' { s with cursor := d } ∧
        s.cursor.Skips d ∧ (region.start ≤ s.cursor.span.start → region.stop ≤ s.cursor.span.start →
          s.cursor.Skipped d region region') by
    obtain ⟨region, d, hrun, hskips, hcovers⟩ := this _ start.opening s rfl hs
    exact ⟨region, d, hrun, hskips, fun hstart => hcovers hstart hstart⟩
  -- by how much text is left, of which every round but the last takes a token
  intro n
  induction n using Nat.strong_induction_on with
  | _ n ih =>
      intro region s hn hs
      have hstep : (step region).run setting s =
          (if s.cursor.kind.startsItem then (pure (.done region) : Reading _)
            else advance >>= fun span => pure (.more (region.hull span))).run setting s := rfl
      cases hstarts : s.cursor.kind.startsItem with
      | true =>
          have hdone : (step region).run setting s = .ok (.done region) s := by
            rw [hstep, if_pos hstarts]
            rfl
          exact ⟨region, s.cursor, runLoop_done hdone, ⟨hstarts, .inl rfl⟩, fun _ _ =>
            .inl ⟨rfl, rfl⟩⟩
      | false =>
          have heof : s.cursor.kind ≠ .eof := fun heof => by
            simp [heof, TokenKind.startsItem] at hstarts
          have hlt := hs.remaining_lt_advance heof
          have hmore : (step region).run setting s = .ok (.more (region.hull s.cursor.span))
              { s with cursor := s.cursor.advance } := by
            rw [hstep, if_neg (by simp [hstarts])]
            rfl
          obtain ⟨region', d, hrun, hskips, hcovers⟩ := ih _ (hn ▸ hlt) (region.hull s.cursor.span)
            { s with cursor := s.cursor.advance } rfl hs.advance
          have hadvance := hs.orderly_advance
          refine ⟨region', d, ?_, ⟨hskips.starts, .inr ⟨hstarts, ?_, hskips.before hadvance⟩⟩, ?_⟩
          · rw [runLoop_more hmore hlt]
            exact hrun
          · exact hskips.orderly fun _ => hadvance
          · exact fun hlower hupper => .inr (hs.covers_advance hlower hupper hcovers)

/-- An error node is put where its region is placed, or it is missing. -/
theorem keeping_errorNode {s t : Session} {b : Base} {k : List Held} {d : Cursor} {region : Span}
    {usage : Usage} (hs : s.Sound) (hb : b.Meets s.cursor) (hst : s.cursor.Before t.cursor)
    (hreach : s.cursor.Reaches t.cursor) (ht : t.cursor.Orderly) (htree : t.tree = s.tree)
    (hk : s.tree.Placed b.lo k s.cursor.last.stop) (hskips : t.cursor.Skips d)
    (hcovers : t.cursor.Skipped d s.cursor.span.opening region) :
    Keeping b (fun id => k ++ loose id) (t.tree.addTerm ⟨.error, region, usage⟩).1
      ({ t with cursor := d }.withTerm ⟨.error, region, usage⟩) := by
  have hbefore := hskips.before ht
  have hkept := hk.mono hs.tree (.addTerm s.tree ⟨.error, region, usage⟩)
  -- a region that begins with the statement and is in front of what was read last is placed
  have hplaced (hstart : region.start = s.cursor.span.start) (hordered : region.start ≤ region.stop)
      (hstop : region.stop ≤ d.last.stop) :
      Holding b (fun id => k ++ loose id) (t.tree.addTerm ⟨.error, region, usage⟩).1
        ({ t with cursor := d }.withTerm ⟨.error, region, usage⟩) := by
    have hnode : (s.tree.addTerm ⟨.error, region, usage⟩).2.Placed s.cursor.span.start
        (loose (s.tree.addTerm ⟨.error, region, usage⟩).1) d.last.stop :=
      ⟨Tree.fits_addTerm s.tree ⟨.error, region, usage⟩ (Nat.le_of_eq hstart.symm) hordered hstop
        (by simp [Term.infix?]), trivial⟩
    rw [Holding, htree]
    have hall := hkept.append hnode hs.cursor.behind (hb.lo_le hs.cursor)
      (Nat.le_trans hst.stop hbefore.stop)
    simpa [Session.withTerm, htree] using hall
  rcases hcovers with ⟨rfl, rfl⟩ | ⟨hstart, hordered, hstop⟩
  · by_cases hindex : s.cursor.index < t.cursor.index
    · refine .inl (hplaced rfl (Nat.le_refl _) ?_)
      exact Nat.le_trans hs.cursor.span_le (hst.stop_le_last hs.cursor.toAhead hreach hindex)
    · have hspan :=
        hs.cursor.span_of_startsItem ht.toAhead hreach (Nat.le_of_not_lt hindex) hskips.starts
      refine .inr ⟨k, _, rfl, ?_, ?_, ?_, hskips.starts⟩
      · rw [← htree] at hkept
        exact hkept.mono_hi hst.stop
      · simp [Session.withTerm, Tree.addTerm, Tree.term?]
      · simp [Session.withTerm, Tree.addTerm, Tree.span, hspan]
  · exact .inl (hplaced hstart hordered (Nat.le_of_eq hstop))

/-- A statement whose error is reported is discarded, and only an error node was added. -/
theorem saves_statementOrError {deep : Deeper} {setting : Setting} {s : Session} {b : Base}
    {k : List Held} {describe : SyntaxError → SyntaxError}
    (hspan : ∀ e, (describe e).span = e.span) (h : Places deep.statement) :
    SavesAt setting s b k (statementOrError deep describe s.cursor.span) (fun id => k ++ loose id)
      some := by
  intro hs hb hk
  have hr := (h setting s).frame hs hb hk
  change ((deep.statement.run setting s).recovered setting.config.recover describe s _).Ends s _ _ _
  have honward := deep.statement.onward setting s
  cases hrun : deep.statement.run setting s with
  | ok a t =>
      rw [hrun] at hr
      exact ⟨hr.1, .inl hr.2⟩
  | error e t =>
      rw [hrun] at honward
      obtain ⟨hcursor, hgrows, he⟩ := hrun ▸ hr
      cases hrecover : setting.config.recover with
      | false => exact ⟨hcursor, hgrows, (hspan e).trans he⟩
      | true =>
          have htree : t.tree.rewind s.tree.mark = s.tree := hgrows.treePrefix.rewind
          let u := (t.discard s).report (describe e)
          have hu : u.tree = s.tree := htree
          obtain ⟨region, d, hskip, hskips, hcovers⟩ :=
            run_skipToItem s.cursor.span setting u hcursor.toAhead
          let node : TermNode := ⟨.error, region, setting.slot.usage⟩
          have herror : (errorNode s.cursor.span).run setting u =
              .ok (u.tree.addTerm node).1 ({ u with cursor := d }.withTerm node) := by
            rw [errorNode, run_bind, hskip]
            rfl
          change ((errorNode s.cursor.span).run setting u).Ends s _ _ _
          rw [herror]
          have hd : d.Orderly := hskips.orderly fun _ => hcursor
          have hbefore : t.cursor.Before d := hskips.before hcursor
          refine ⟨⟨hd, (hu ▸ hs.tree).addTerm node trivial⟩, .inr ⟨?_, _, rfl, ?_⟩⟩
          · exact keeping_errorNode (t := u) hs hb hgrows.cursor honward.cursor hcursor hu hk
              hskips (hcovers hgrows.cursor.front)
          · refine ⟨hgrows.cursor.trans hbefore, ⟨[], node, ?_, nofun, rfl⟩, ?_, ?_,
              ⟨describe e, ?_, ?_, ?_⟩, hskips.starts⟩
            · simp [Session.withTerm, Tree.addTerm, hu]
            · simp [Session.Top, Session.withTerm, Tree.addTerm]
            · simp [Session.withTerm, Tree.addTerm, hu]
            · simp [Session.withTerm, u, Session.discard, Session.report, hgrows.diagnostics]
            · rw [hspan, he]
              exact hgrows.cursor.front
            · rw [hspan, he]
              exact hbefore.front

/-! ## Items -/

/-- Where a keyword begins an item, its errors come up behind the keyword. -/
structure Session.Enters (s t : Session) : Prop where
  sound : t.Sound
  grows : s.Grows t
  front : s.cursor.kind.startsItem = true → s.cursor.span.start < t.cursor.span.start
  meets : s.cursor.kind.startsItem = true → (Base.since s.cursor.span).Meets t.cursor

section Items

@[simp] theorem loose_defForm (form : DefForm TermId) :
    loose form = form.roots.map (.loose <| .term ·) := loose_terms form.roots

@[simp] theorem loose_item (item : Item TermId) :
    loose item = item.roots.map (.loose <| .term ·) := loose_terms item.roots

@[simp] theorem loose_typeParams (ps : List (TypeParam TermId)) :
    loose ps = (ps.filterMap (·.bound)).map (.loose <| .term ·) := by
  rw [loose, refs_typeParams, List.map_map]
  rfl

variable {deep : Deeper} (h : deep.LaysOut) {b : Base} {k : List Held}

include h

theorem saves_body : Saves b k (body deep) (fun id => k ++ loose id) some :=
  fun _ _ => .here (saves_statementOrError (fun _ => rfl) h.statement)

theorem places_typeParam : Places (typeParam deep) := by
  refine .skip quiet_identifier fun name => .skip (quiet_accept _) fun colon => ?_
  exact .ite (fun _ => .bind (h.looseExpr _).withUsage fun bound _ => .pure rfl) fun _ => .pure rfl

theorem places_typeParams : Places (typeParams deep) := by
  refine .skip (quiet_accept _) fun less => .ite (fun _ => ?_) fun _ => .pure rfl
  exact .bind (adds_commaList (places_typeParam h)).list.delimited fun _ _ =>
    .skip quiet_closeAngle fun _ => .pure rfl

theorem places_params : Places (params deep) :=
  .bind (adds_separated _ (places_binder h.type)).list.delimited fun _ _ =>
    .skip (quiet_expect _) fun _ => .pure rfl

theorem places_result? : Places (result? deep) :=
  .skip (quiet_accept _) fun _ => .ite (fun _ => h.type.map fun _ => rfl) fun _ => .pure rfl

theorem places_equationType : Places (equationType deep) :=
  .bind h.type fun _ _ => .skip (quiet_sees _) fun _ =>
    .ite (fun _ => .pure rfl) fun _ => lays_unexpected _

/-- What a form holds, in the order of the text. -/
theorem saves_definitionTail :
    Saves b k (definitionTail deep) (fun form => k ++ loose form) fun form => some form.body := by
  refine fun setting s => .here ?_
  have htype : Places (some <$> equationType deep) := (places_equationType h).map fun _ => rfl
  refine .bind (adds_speculate htype rfl setting s) fun found t ht => ?_
  cases found with
  | some type =>
      have hvalue : Saves b (k ++ loose (some type)) (expect (.mark .equals) >>= fun _ =>
          DefForm.equation type <$> body deep) (fun form => k ++ loose form)
            fun form => some form.body := by
        refine .skip (quiet_expect _) fun _ => (saves_body h).map (fun value => ?_) ?_
        · simp [DefForm.roots]
        · simp [DefForm.body]
      exact hvalue setting t
  | none =>
      rw [← (stays_of_speculate ht).1]
      refine .map (saves_statementOrError (fun e => ?_) h.statement) (fun id => ?_) ?_
      · cases e <;> rfl
      · simp [DefForm.roots]
      · simp [DefForm.body]

theorem saves_definitionForm :
    Saves b k (definitionForm deep) (fun form => k ++ loose form) fun form => some form.body := by
  refine .skip (quiet_accept _) fun opens => .ite (fun _ => ?_) fun _ => ?_
  · refine .bind (places_params h) fun params => .bind (places_result? h) fun result => ?_
    refine .skip (quiet_expect _) fun _ => (saves_body h).map (fun id => ?_) ?_
    · cases result <;> simp [DefForm.roots, Function.comp_def]
    · simp [DefForm.body]
  · exact .skip (quiet_expect _) fun _ => saves_definitionTail h

/-! An item is followed from behind its first token on, where that is a keyword. -/

theorem saves_definition (start : Span) :
    SavesItem (.since start) [] (identifier >>= fun name => typeParams deep >>= fun typeParams =>
        definitionForm deep >>= fun form => since start >>= fun span =>
          pure (.definition ⟨name.1, typeParams, form, span⟩)) := by
  refine .skip quiet_identifier fun name => .bind (places_typeParams h) fun typeParams => ?_
  refine .item (saves_definitionForm h) (fun _ _ => rfl) (fun _ _ _ => rfl) (fun form span => ?_)
    fun _ _ _ => id
  simp [Item.roots, Def.roots]

theorem places_ctorCase : Places (ctorCase deep) := by
  refine .skip (quiet_expect _) fun start => .skip (quiet_expect _) fun _ =>
    .skip quiet_identifier fun _ => ?_
  have hfield : Quiet atField := .skip quiet_cursor fun _ => quiet_pure _
  refine .skip (quiet_expect _) fun _ =>
    .bind (adds_collectWhile hfield (places_binder (h.looseExpr _))).list.within fun fields _ => ?_
  exact .skip (quiet_since _) fun _ => .pure rfl

theorem saves_typeDefinition (start : Span) :
    SavesItem (.since start) [] (identifier >>= fun name => typeParams deep >>= fun typeParams =>
        optionalParams deep >>= fun params => expect (.mark .colon) >>= fun _ =>
        collectWhile (sees (.word .case)) (ctorCase deep) >>= fun cases =>
        Reading.require (!cases.isEmpty) "`case`" >>= fun _ => since start >>= fun span =>
          pure (.typeDef ⟨name.1, typeParams, params, cases, span⟩)) := by
  have hparams : Places (optionalParams deep) :=
    .skip (quiet_accept _) fun _ => .ite (fun _ => places_params h) fun _ => .pure rfl
  refine .skip quiet_identifier fun name => .bind (places_typeParams h) fun typeParams => ?_
  refine .bind hparams fun params => .skip (quiet_expect _) fun _ => ?_
  refine .bind (adds_collectWhile (quiet_sees _) (places_ctorCase h)).list fun cases => ?_
  refine .item_of_lays (quiet_require _ _).lays (fun _ _ => rfl) (fun _ _ _ => rfl) fun _ span => ?_
  have hcases : loose cases =
      (cases.flatMap fun c => c.fields.map (·.type)).map (.loose <| .term ·) := by
    rw [← each_loose]
    simp only [each, List.map_flatMap, List.map_map]
    exact congrArg (List.flatMap · cases) (funext fun c => loose_binders c.fields)
  simp [hcases, Item.roots, TypeDef.roots, Function.comp_def]

theorem saves_assertion (start : Span) :
    SavesItem (.since start) [] (deep.term >>= fun term => expect (.mark .colon) >>= fun _ =>
        deep.type >>= fun type => since start >>= fun span =>
          pure (.assertion term type span)) := by
  refine .bind h.term fun term => .skip (quiet_expect _) fun _ => ?_
  exact .item_of_lays h.type.lays (fun _ _ => rfl) (fun _ _ _ => rfl) fun _ _ => rfl

theorem saves_proof (start : Span) :
    SavesItem (.since start) [] (identifier >>= fun name => expect (.mark .colon) >>= fun _ =>
        within (fun s => { s with noLooseBrace := true }) deep.type >>= fun type =>
        expect (.mark .leftBrace) >>= fun _ => delimited deep.statement >>= fun id =>
        expect (.mark .rightBrace) >>= fun _ => since start >>= fun span =>
          pure (.proof name.1 type id span)) := by
  refine .skip quiet_identifier fun name => .skip (quiet_expect _) fun _ => ?_
  refine .bind h.type.within fun type => .skip (quiet_expect _) fun _ => ?_
  refine .bind h.statement.delimited fun id => ?_
  refine .item_of_lays (quiet_expect _).lays (fun _ _ => rfl) (fun _ _ _ => rfl) fun _ span => ?_
  simp [Item.roots]

theorem item_ends (setting : Setting) {s : Session} (hs : s.Sound) (hkind : s.cursor.kind ≠ .eof) :
    ∃ t, s.Enters t ∧
      ((item deep).run setting s).Ends t (fun item u => item.Covers u.tree) Item.Keeps
        Item.body? := by
  let t : Session := { s with cursor := s.cursor.advance }
  have hmeets : (Base.since s.cursor.span).Meets t.cursor := by
    simp [Base.Meets, t]
  have hadvance : s.Enters t :=
    ⟨⟨hs.cursor.advance, hs.tree⟩, .setCursor hs.cursor.before_advance,
      fun _ => hs.cursor.span_lt_advance (hs.cursor.rest_ne_nil hkind), fun _ => hmeets⟩
  simp only [item, Reading.kind, Reading.cursor, asks, run_bind, run_pure, Outcome.andThen_ok]
  split
  · exact ⟨t, hadvance, saves_definition h _ setting t hadvance.sound hmeets trivial⟩
  · exact ⟨t, hadvance, saves_typeDefinition h _ setting t hadvance.sound hmeets trivial⟩
  · exact ⟨t, hadvance, saves_assertion h _ setting t hadvance.sound hmeets trivial⟩
  · exact ⟨t, hadvance, saves_proof h _ setting t hadvance.sound hmeets trivial⟩
  · rename_i hdef htype hassert htry
    have hstarts : s.cursor.kind.startsItem = false := by
      cases hword : s.cursor.kind with
      | word w => cases w <;> simp_all [TokenKind.startsItem, Keyword.startsItem]
      | eof => exact absurd hword hkind
      | _ => rfl
    refine ⟨s, ⟨hs, .refl s, by simp [hstarts], by simp [hstarts]⟩, ?_⟩
    have hlays := h.statement setting s hs (Nat.le_refl _) trivial
    rw [run_bind]
    cases hstatement : deep.statement.run setting s with
    | ok id u =>
        obtain ⟨hu, hgrows, hfits, -⟩ := hstatement ▸ hlays
        refine ⟨hu, .inl ⟨hgrows, ?_⟩⟩
        have hspan : u.tree.Fits (u.tree.span id).start (.loose (.term id)) (u.tree.span id).stop :=
          ⟨hfits.mem, Nat.le_refl _, hfits.ordered, Nat.le_refl _, hfits.binds⟩
        exact ⟨rfl, hspan, trivial⟩
    | error e u =>
        rw [hstatement] at hlays
        exact hlays

end Items

end BendSyntax
