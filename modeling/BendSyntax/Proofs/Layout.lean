import BendSyntax.Proofs.Layout.Cursors
import BendSyntax.Proofs.Layout.Placement
import BendSyntax.Proofs.Ownership

/-! Where readings put the nodes that they add. A reading is followed from a sound session to
the next one: its answer holds nodes that lie behind one another between the place where the
reading began and the last token that was read, and bind as tightly as is asked of them. An
error is always found at the cursor. -/

namespace BendSyntax

open Reading Owner

/-- A cursor that has not moved back in the text. The tokens that it has passed end no later than
what was read last. -/
structure Cursor.Before (c d : Cursor) : Prop where
  front : c.span.start ≤ d.span.start
  start : c.last.start ≤ d.last.start
  stop : c.last.stop ≤ d.last.stop
  passed : ∀ t ∈ c.rest, t ∈ d.rest ∨ t.span.stop ≤ d.last.stop

namespace Cursor

theorem Before.refl (c : Cursor) : c.Before c :=
  ⟨Nat.le_refl _, Nat.le_refl _, Nat.le_refl _, fun _ => .inl⟩

theorem Before.trans {c d e : Cursor} (h : c.Before d) (k : d.Before e) : c.Before e where
  front := Nat.le_trans h.front k.front
  start := Nat.le_trans h.start k.start
  stop := Nat.le_trans h.stop k.stop
  passed t ht := (h.passed t ht).elim (k.passed t) fun hpassed => .inr (Nat.le_trans hpassed k.stop)

/-- A token that was read ends no later than what was read last. -/
theorem Before.stop_le_last {c d : Cursor} (h : c.Before d) (hc : c.Ahead) (hreach : c.Reaches d)
    (hlt : c.index < d.index) : c.span.stop ≤ d.last.stop := by
  obtain ⟨t, ht, hpassed, hstop⟩ := hc.exists_passed hreach hlt
  exact hstop ▸ (h.passed t ht).resolve_left hpassed

namespace Orderly

variable {c : Cursor} (h : c.Orderly)

include h

theorem before_advance : c.Before c.advance where
  front := h.span_le_advance
  start := by
    rw [last_advance]
    exact Nat.le_trans h.last h.behind
  stop := by
    rw [last_advance]
    exact Nat.le_trans h.behind h.span_le
  passed t ht := by
    rw [last_advance]
    exact c.mem_advance ht

theorem before_halve (hkind : c.kind = .mark .shiftRight) : c.Before c.halve := by
  have hspan := h.span_of_shiftRight hkind
  have hbehind := h.behind
  have hlast := h.last
  rw [hspan] at hbehind
  refine ⟨?_, ?_, ?_, fun _ => .inl⟩
  · rw [hspan]
    simp [Cursor.halve, Cursor.span, token]
  · exact Nat.le_trans hlast hbehind
  · exact Nat.le_succ_of_le hbehind

end Orderly

end Cursor

namespace Session

def withTerm (s : Session) (node : TermNode) : Session :=
  { s with tree := (s.tree.addTerm node).2 }

structure Sound (s : Session) : Prop where
  cursor : s.cursor.Orderly
  tree : s.tree.Sound

/-- Going on with no error: nodes are added, and nothing is reported. -/
structure Grows (s t : Session) : Prop where
  cursor : s.cursor.Before t.cursor
  terms : ∃ k : List TermNode, t.tree.terms.toList = s.tree.terms.toList ++ k ∧
    ∀ node ∈ k, node.term ≠ .error
  patterns : s.tree.patterns.toList <+: t.tree.patterns.toList
  diagnostics : t.diagnostics = s.diagnostics

namespace Grows

variable {s t u : Session}

theorem refl (s : Session) : s.Grows s :=
  ⟨.refl _, ⟨[], by simp⟩, List.prefix_refl _, rfl⟩

theorem trans (h : s.Grows t) (k : t.Grows u) : s.Grows u := by
  obtain ⟨as, has, hne⟩ := h.terms
  obtain ⟨bs, hbs, hne'⟩ := k.terms
  refine ⟨h.cursor.trans k.cursor, ⟨as ++ bs, ?_, ?_⟩, h.patterns.trans k.patterns, ?_⟩
  · rw [hbs, has, List.append_assoc]
  · exact fun node hnode => (List.mem_append.mp hnode).elim (hne node) (hne' node)
  · rw [k.diagnostics, h.diagnostics]

theorem treePrefix (h : s.Grows t) : s.tree.Prefix t.tree :=
  ⟨h.terms.elim fun k hk => ⟨k, hk.1.symm⟩, h.patterns⟩

theorem setCursor {c : Cursor} (h : s.cursor.Before c) : s.Grows { s with cursor := c } :=
  ⟨h, ⟨[], by simp⟩, List.prefix_refl _, rfl⟩

theorem addTerm (s : Session) {node : TermNode} (h : node.term ≠ .error) :
    s.Grows (s.withTerm node) :=
  ⟨.refl _, ⟨[node], by simp [withTerm, Tree.addTerm], by simpa using h⟩, List.prefix_refl _, rfl⟩

theorem addPattern (s : Session) (node : PatternNode) :
    s.Grows { s with tree := (s.tree.addPattern node).2 } :=
  ⟨.refl _, ⟨[], by simp [Tree.addPattern]⟩, by simp [Tree.addPattern], rfl⟩

theorem remember (s : Session) (f : Failure) : s.Grows (s.remember f) :=
  ⟨.refl _, ⟨[], by simp [Session.remember]⟩, List.prefix_refl _, rfl⟩

/-- The span of a node that was added can be extended. -/
theorem widen (h : s.Grows t) {id : TermId} (hid : s.tree.terms.size ≤ id.index) (span : Span) :
    s.Grows { t with tree := t.tree.widen id span } := by
  obtain ⟨k, hk, hne⟩ := h.terms
  have hsub : (t.tree.widen id span).terms.toList.take s.tree.terms.size = s.tree.terms.toList := by
    rw [← Array.length_toList]
    exact (List.prefix_iff_eq_take.mp (h.treePrefix.widen hid span).terms).symm
  refine ⟨h.cursor, ⟨(t.tree.widen id span).terms.toList.drop s.tree.terms.size, ?_, ?_⟩,
    h.patterns, h.diagnostics⟩
  · conv_lhs => rw [← List.take_append_drop s.tree.terms.size (t.tree.widen id span).terms.toList]
    rw [hsub]
  · intro node hnode
    obtain ⟨i, hi⟩ := List.mem_iff_getElem?.mp hnode
    have hold : ∃ old ∈ k, node.term = old.term := by
      rw [List.getElem?_drop, Array.getElem?_toList, Tree.getElem?_widen,
        ← Array.getElem?_toList, hk,
        List.getElem?_append_right (by simp), Array.length_toList, Nat.add_sub_cancel_left] at hi
      split at hi
      · obtain ⟨old, hold, rfl⟩ := Option.map_eq_some_iff.mp hi
        exact ⟨old, List.mem_of_getElem? hold, rfl⟩
      · exact ⟨node, List.mem_of_getElem? hi, rfl⟩
    obtain ⟨old, hmem, hterm⟩ := hold
    rw [hterm]
    exact hne old hmem

/-- Back at an earlier session, only the memory of what failed is not the same. -/
theorem rewind (h : s.Grows t) : t.rewind s = { s with failures := t.failures } := by
  simp [Session.rewind, h.treePrefix.rewind, h.diagnostics]

theorem grows_rewind (h : s.Grows t) : s.Grows (t.rewind s) := by
  rw [h.rewind]
  exact ⟨.refl _, ⟨[], by simp⟩, List.prefix_refl _, rfl⟩

end Grows

theorem Sound.rewind {s t : Session} (hs : s.Sound) (h : s.Grows t) : (t.rewind s).Sound := by
  rw [h.rewind]
  exact ⟨hs.cursor, hs.tree⟩

end Session

/-- Where a reading begins: at a place in the text, or behind the first token of a construct. -/
inductive Base where
  | here (lo : Nat)
  | since (start : Span)

namespace Base

/-- Where the nodes of a reading begin at the earliest. -/
def lo : Base → Nat
  | here lo => lo
  | since start => start.start

def Meets : Base → Cursor → Prop
  | here lo, c => lo ≤ c.span.start
  | since start, c => start.start ≤ c.last.start ∧ start.stop ≤ c.last.stop

variable {b : Base} {c d : Cursor}

theorem Meets.mono (h : b.Meets c) (hcd : c.Before d) : b.Meets d := by
  cases b with
  | here lo => exact Nat.le_trans h hcd.front
  | since start => exact ⟨Nat.le_trans h.1 hcd.start, Nat.le_trans h.2 hcd.stop⟩

theorem Meets.lo_le (h : b.Meets c) (hc : c.Orderly) : b.lo ≤ c.span.start := by
  cases b with
  | here lo => exact h
  | since start => exact Nat.le_trans h.1 (Nat.le_trans hc.last hc.behind)

end Base

/-- What a reading from `s` leaves behind. -/
def Outcome.Laid {α : Type} (s : Session) (b : Base) (o : α → List Held) : Outcome α → Prop
  | .ok a t => t.Sound ∧ s.Grows t ∧ t.tree.Placed b.lo (o a) t.cursor.last.stop
  | .error e t => t.cursor.Orderly ∧ s.Grows t ∧ e.span = t.cursor.span

/-- Given the nodes `k`, a reading from a session leaves the nodes `o` of its answer. -/
def LaysAt {α : Type} (setting : Setting) (s : Session) (b : Base) (k : List Held)
    (r : Reading α) (o : α → List Held) : Prop :=
  s.Sound → b.Meets s.cursor → s.tree.Placed b.lo k s.cursor.last.stop →
    (r.run setting s).Laid s b o

/-- Given the nodes `k`, a reading always leaves the nodes `o` of its answer. -/
abbrev Lays {α : Type} (b : Base) (k : List Held) (r : Reading α) (o : α → List Held) : Prop :=
  ∀ setting s, LaysAt setting s b k r o

/-- A reading that adds the nodes `o` of its answer behind the cursor. -/
abbrev Adds {α : Type} (r : Reading α) (o : α → List Held) : Prop :=
  ∀ setting s, LaysAt setting s (.here s.cursor.span.start) [] r o

/-- A reading that adds no nodes. -/
abbrev Quiet {α : Type} (r : Reading α) : Prop := Adds r fun _ => []

/-- What a value refers to, however tightly it binds. -/
def loose {α : Type} [Owner α] (a : α) : List Held := (refs a).map .loose

/-- A reading that adds the nodes that its answer refers to. -/
abbrev Places {α : Type} [Owner α] (r : Reading α) : Prop := Adds r loose

/-- A term that binds at a level or more tightly. -/
def heldAt (level : Level) (id : TermId) : List Held := [⟨.term id, level⟩]

/-- From its first token on, a reading from a session adds the nodes `o` of its answer, and it
takes this token. -/
def BeginsAt {α : Type} (setting : Setting) (s : Session) (r : Reading α) (o : α → List Held) :
    Prop :=
  LaysAt setting s (.here s.cursor.span.start) [] r o ∧
    ∀ a t, r.run setting s = .ok a t → s.Sound → (Base.since s.cursor.span).Meets t.cursor

/-- Given its first token, a construct adds the nodes `o` of its answer. -/
abbrev Begins {α : Type} (r : Span → Reading α) (o : α → List Held) : Prop :=
  ∀ setting s, BeginsAt setting s (r s.cursor.span) o

/-- Given its first token, a construct adds the nodes that its answer refers to. -/
abbrev Opens {α : Type} [Owner α] (r : Span → Reading α) : Prop := Begins r loose

/-- Given its first token, a construct adds a term that is no operator. -/
abbrev OpensTight (r : Span → Reading TermId) : Prop := Begins r (heldAt .operand)

/-- The same nodes with lower demands. -/
abbrev Relaxes (k l : List Held) : Prop :=
  List.Forall₂ (fun g h => g.ref = h.ref ∧ h.level ≤ g.level) k l

theorem Relaxes.of_eq {k l : List Held} (h : k = l) : Relaxes k l :=
  h ▸ List.forall₂_same.mpr fun _ _ => ⟨rfl, Nat.le_refl _⟩

theorem relaxes_heldAt {level level' : Level} (h : level' ≤ level) (id : TermId) :
    Relaxes (heldAt level id) (heldAt level' id) :=
  .cons ⟨rfl, h⟩ .nil

section Rules

variable {α β : Type} {setting : Setting} {s : Session} {b : Base} {k : List Held}
  {r : Reading α} {f : α → Reading β} {p q : α → List Held} {o : β → List Held}

namespace Outcome.Laid

/-- What is left behind from a later session on was left behind from an earlier one on. -/
theorem trans {t : Session} {x : Outcome α} (h : s.Grows t) (hx : x.Laid t b p) :
    x.Laid s b p := by
  cases x with
  | ok a u => exact ⟨hx.1, h.trans hx.2.1, hx.2.2⟩
  | error e u => exact ⟨hx.1, h.trans hx.2.1, hx.2.2⟩

/-- Goes on from where a reading ends. -/
theorem bind {b' : Base} (h : (r.run setting s).Laid s b p)
    (hf : ∀ a t, r.run setting s = .ok a t → t.Sound → s.Grows t →
      t.tree.Placed b.lo (p a) t.cursor.last.stop → ((f a).run setting t).Laid t b' o) :
    ((r >>= f).run setting s).Laid s b' o := by
  rw [run_bind]
  cases hrun : r.run setting s with
  | ok a t =>
      rw [hrun] at h
      exact (hf a t hrun h.1 h.2.1 h.2.2).trans h.2.1
  | error e t =>
      rw [hrun] at h
      exact h

end Outcome.Laid

/-! ## Composition -/

namespace LaysAt

theorem pure {a : α} (h : k = p a) : LaysAt setting s b k (Pure.pure a : Reading α) p :=
  fun hs _ hk => ⟨hs, .refl s, h ▸ hk⟩

theorem fail {e : SyntaxError} (h : e.span = s.cursor.span) :
    LaysAt setting s b k (Reading.fail e : Reading α) p :=
  fun hs _ _ => ⟨hs.cursor, .refl s, h⟩

theorem seq (h : LaysAt setting s b k r p)
    (hf : ∀ a t, r.run setting s = .ok a t → s.Grows t → LaysAt setting t b (p a) (f a) o) :
    LaysAt setting s b k (r >>= f) o :=
  fun hs hb hk => (h hs hb hk).bind fun a t hrun ht hgrows hplaced =>
    hf a t hrun hgrows ht (hb.mono hgrows.cursor) hplaced

/-- Nodes that are there stay in front of those that are added. -/
theorem frame (h : LaysAt setting s (.here s.cursor.span.start) [] r p) :
    LaysAt setting s b k r fun a => k ++ p a := by
  intro hs hb hk
  have hr := h hs (Nat.le_refl _) trivial
  cases hrun : r.run setting s with
  | ok a t =>
      obtain ⟨ht, hgrows, hplaced⟩ := hrun ▸ hr
      refine ⟨ht, hgrows, ?_⟩
      have hk := hk.mono hs.tree hgrows.treePrefix
      exact hk.append hplaced hs.cursor.behind (hb.lo_le hs.cursor) hgrows.cursor.stop
  | error e t =>
      rw [hrun] at hr
      exact hr

theorem bind (h : LaysAt setting s (.here s.cursor.span.start) [] r p)
    (hf : ∀ a t, r.run setting s = .ok a t → s.Grows t →
      LaysAt setting t b (k ++ p a) (f a) o) : LaysAt setting s b k (r >>= f) o :=
  h.frame.seq hf

theorem weaken (h : LaysAt setting s b k r p) (hpq : ∀ a, Relaxes (p a) (q a)) :
    LaysAt setting s b k r q := by
  intro hs hb hk
  have hr := h hs hb hk
  cases hrun : r.run setting s with
  | ok a t =>
      obtain ⟨ht, hgrows, hplaced⟩ := hrun ▸ hr
      exact ⟨ht, hgrows, hplaced.relax (hpq a)⟩
  | error e t =>
      rw [hrun] at hr
      exact hr

theorem map {g : α → β} (h : LaysAt setting s b k r p) (hg : ∀ a, p a = o (g a)) :
    LaysAt setting s b k (g <$> r) o :=
  h.seq fun a _ _ _ => pure (hg a)

theorem ite {c : Prop} [Decidable c] {r' : Reading α} (hyes : c → LaysAt setting s b k r p)
    (hno : ¬c → LaysAt setting s b k r' p) : LaysAt setting s b k (if c then r else r') p := by
  split
  · exact hyes ‹_›
  · exact hno ‹_›

theorem within {g : Slot → Slot}
    (h : LaysAt { setting with slot := g setting.slot } s b k r p) :
    LaysAt setting s b k (Reading.within g r) p := h

/-- The cursor is known at a session. -/
theorem cursor {f : Cursor → Reading β} (h : LaysAt setting s b k (f s.cursor) o) :
    LaysAt setting s b k (Reading.cursor >>= f) o := h

theorem kind {f : TokenKind → Reading β} (h : LaysAt setting s b k (f s.cursor.kind) o) :
    LaysAt setting s b k (Reading.kind >>= f) o := h

theorem here {f : Span → Reading β} (h : LaysAt setting s b k (f s.cursor.span) o) :
    LaysAt setting s b k (Reading.here >>= f) o := h

end LaysAt

namespace Lays

theorem seq (h : Lays b k r p) (hf : ∀ a, Lays b (p a) (f a) o) : Lays b k (r >>= f) o :=
  fun setting s => (h setting s).seq fun a t _ _ => hf a setting t

/-- Goes on with more nodes. -/
theorem bind (h : Adds r p) (hf : ∀ a, Lays b (k ++ p a) (f a) o) : Lays b k (r >>= f) o :=
  fun setting s => (h setting s).bind fun a t _ _ => hf a setting t

/-- Goes on with the same nodes. -/
theorem skip (h : Quiet r) (hf : ∀ a, Lays b k (f a) o) : Lays b k (r >>= f) o :=
  bind h fun a => (List.append_nil k).symm ▸ hf a

theorem pure {a : α} (h : k = p a) : Lays b k (Pure.pure a : Reading α) p := fun _ _ => .pure h

/-- An answer that does not refer to the nodes that there are. -/
theorem drop {a : α} (h : p a = []) : Lays b k (Pure.pure a : Reading α) p := by
  intro setting s hs _ _
  refine ⟨hs, .refl s, ?_⟩
  rw [h]
  trivial

theorem map {g : α → β} (h : Lays b k r p) (hg : ∀ a, p a = o (g a)) : Lays b k (g <$> r) o :=
  fun setting s => (h setting s).map hg

theorem ite {c : Prop} [Decidable c] {r' : Reading α} (hyes : c → Lays b k r p)
    (hno : ¬c → Lays b k r' p) : Lays b k (if c then r else r') p :=
  fun setting s => .ite (fun hc => hyes hc setting s) fun hc => hno hc setting s

end Lays

namespace Adds

/-- Nodes are added wherever there are nodes already. -/
theorem lays (h : Adds r p) : Lays b k r fun a => k ++ p a := fun setting s => (h setting s).frame

theorem of_lays (h : ∀ lo, Lays (.here lo) [] r p) : Adds r p := fun setting s => h _ setting s

theorem bind (h : Adds r p) (hf : ∀ a lo, Lays (.here lo) (p a) (f a) o) : Adds (r >>= f) o :=
  of_lays fun lo => Lays.bind h fun a => hf a lo

theorem skip (h : Quiet r) (hf : ∀ a, Adds (f a) o) : Adds (r >>= f) o :=
  of_lays fun _ => Lays.skip h fun a => (hf a).lays

theorem pure {a : α} (h : p a = []) : Adds (Pure.pure a : Reading α) p := fun _ _ => .pure h.symm

theorem map {g : α → β} (h : Adds r p) (hg : ∀ a, p a = o (g a)) : Adds (g <$> r) o :=
  fun setting s => (h setting s).map hg

theorem weaken (h : Adds r p) (hpq : ∀ a, Relaxes (p a) (q a)) : Adds r q :=
  fun setting s => (h setting s).weaken hpq

theorem ite {c : Prop} [Decidable c] {r' : Reading α} (hyes : c → Adds r p)
    (hno : ¬c → Adds r' p) : Adds (if c then r else r') p :=
  fun setting s => .ite (fun hc => hyes hc setting s) fun hc => hno hc setting s

theorem within {g : Slot → Slot} (h : Adds r p) : Adds (Reading.within g r) p :=
  fun _ s => .within (h _ s)

theorem withUsage {usage : Usage} (h : Adds r p) : Adds (Reading.withUsage usage r) p := h.within

theorem delimited (h : Adds r p) : Adds (Reading.delimited r) p := h.within

theorem quiet (h : Adds r p) : Quiet r := by
  intro setting s hs hb hk
  have hr := h setting s hs hb hk
  cases hrun : r.run setting s with
  | ok a t => exact ⟨(hrun ▸ hr).1, (hrun ▸ hr).2.1, trivial⟩
  | error e t =>
      rw [hrun] at hr
      exact hr

end Adds

/-! ## First tokens -/

namespace BeginsAt

theorem advanceAt {f : Span → Reading β}
    (h : s.Sound → LaysAt setting { s with cursor := s.cursor.advance } (.since s.cursor.span) []
      (f s.cursor.span) o) : BeginsAt setting s (Reading.advance >>= f) o := by
  let t : Session := { s with cursor := s.cursor.advance }
  have hmeets : (Base.since s.cursor.span).Meets t.cursor := by
    simp [Base.Meets, t]
  have hlaid (hs : s.Sound) : ((f s.cursor.span).run setting t).Laid t (.since s.cursor.span) o :=
    h hs ⟨hs.cursor.advance, hs.tree⟩ hmeets trivial
  constructor
  · exact fun hs _ _ => Outcome.Laid.trans (.setCursor hs.cursor.before_advance) (hlaid hs)
  · intro b u hu hs
    have hu' : (f s.cursor.span).run setting t = .ok b u := hu
    have hgrows := (hu' ▸ hlaid hs).2.1
    exact hmeets.mono hgrows.cursor

theorem advance {f : Span → Reading β} (h : Lays (.since s.cursor.span) [] (f s.cursor.span) o) :
    BeginsAt setting s (Reading.advance >>= f) o := advanceAt fun _ => h _ _

theorem fail {e : SyntaxError} (h : e.span = s.cursor.span) :
    BeginsAt setting s (Reading.fail e : Reading α) p :=
  ⟨.fail h, nofun⟩

theorem unexpected (what : String) : BeginsAt setting s (unexpected what) p :=
  ⟨.cursor (.fail rfl), nofun⟩

theorem ite {c : Prop} [Decidable c] {r' : Reading α} (hyes : c → BeginsAt setting s r p)
    (hno : ¬c → BeginsAt setting s r' p) : BeginsAt setting s (if c then r else r') p := by
  split
  · exact hyes ‹_›
  · exact hno ‹_›

theorem cursor {f : Cursor → Reading β} (h : BeginsAt setting s (f s.cursor) o) :
    BeginsAt setting s (Reading.cursor >>= f) o := h

theorem here {f : Span → Reading β} (h : BeginsAt setting s (f s.cursor.span) o) :
    BeginsAt setting s (Reading.here >>= f) o := h

theorem adds (h : BeginsAt setting s r p) :
    LaysAt setting s (.here s.cursor.span.start) [] r p := h.1

theorem seq (h : BeginsAt setting s r p) (hf : ∀ a, Lays (.since s.cursor.span) (p a) (f a) o) :
    BeginsAt setting s (r >>= f) o := by
  have hgoes {a : α} {t : Session} (hs : s.Sound) (hr : r.run setting s = .ok a t) (ht : t.Sound)
      (hplaced : t.tree.Placed s.cursor.span.start (p a) t.cursor.last.stop) :
      ((f a).run setting t).Laid t (.since s.cursor.span) o :=
    hf a setting t ht (h.2 a t hr hs) hplaced
  constructor
  · exact fun hs hb hk => (h.1 hs hb hk).bind fun a t hr ht _ hplaced => hgoes hs hr ht hplaced
  · intro b u hu hs
    have hlaid := h.1 hs (Nat.le_refl _) trivial
    rw [run_bind] at hu
    cases hr : r.run setting s with
    | ok a t =>
        rw [hr] at hu hlaid
        have hnext := hgoes hs hr hlaid.1 hlaid.2.2
        rw [Outcome.andThen_ok] at hu
        rw [hu] at hnext
        exact (h.2 a t hr hs).mono hnext.2.1.cursor
    | error e t =>
        rw [hr] at hu
        cases hu

/-- Goes on behind a reading that takes nothing. -/
theorem skip (h : ∀ a t, r.run setting s = .ok a t → t = s) (hquiet : Quiet r)
    (hf : ∀ a, BeginsAt setting s (f a) o) : BeginsAt setting s (r >>= f) o := by
  constructor
  · refine LaysAt.bind (hquiet setting s) fun a t ht _ => ?_
    rw [h a t ht]
    exact (hf a).1
  · intro b u hu
    rw [run_bind] at hu
    cases hr : r.run setting s with
    | ok a t =>
        rw [hr, h a t hr] at hu
        exact (hf a).2 b u hu
    | error e t =>
        rw [hr] at hu
        cases hu

end BeginsAt

end Rules

variable {α β : Type} {setting : Setting} {s : Session} {b : Base} {k : List Held}

/-! ## Readings that add no nodes -/

section Quiet

variable {r : Reading α} {f : α → Reading β}

theorem quiet_asks (g : Setting → Session → α) : Quiet (asks g) :=
  fun _ s hs _ _ => ⟨hs, .refl s, trivial⟩

theorem quiet_pure (a : α) : Quiet (pure a : Reading α) := quiet_asks _

theorem quiet_cursor : Quiet cursor := quiet_asks _

theorem quiet_slot : Quiet slot := quiet_asks _

theorem quiet_kind : Quiet kind := quiet_cursor.skip fun _ => quiet_pure _

theorem quiet_here : Quiet here := quiet_cursor.skip fun _ => quiet_pure _

theorem quiet_sees (kind : TokenKind) : Quiet (sees kind) := quiet_kind.skip fun _ => quiet_pure _

theorem quiet_since (start : Span) : Quiet (since start) := quiet_cursor.skip fun _ => quiet_pure _

theorem quiet_bareName (id : TermId) : Quiet (bareName id) :=
  fun _ s hs _ _ => ⟨hs, .refl s, trivial⟩

theorem quiet_advance : Quiet advance := fun _ _ hs _ _ =>
  ⟨⟨hs.cursor.advance, hs.tree⟩, .setCursor hs.cursor.before_advance, trivial⟩

theorem quiet_accept (kind : TokenKind) : Quiet (accept kind) :=
  (quiet_sees kind).skip fun _ =>
    .ite (fun _ => quiet_advance.skip fun _ => quiet_pure _) fun _ => quiet_pure _

/-- What was expected is missed at the cursor. -/
theorem lays_unexpected {p : α → List Held} (what : String) : Lays b k (unexpected what) p :=
  fun _ _ => .cursor (.fail rfl)

theorem adds_unexpected {p : α → List Held} (what : String) : Adds (unexpected what) p :=
  fun _ _ => lays_unexpected what _ _

theorem quiet_require (condition : Bool) (what : String) : Quiet (require condition what) :=
  .ite (fun _ => quiet_pure _) fun _ => adds_unexpected what

theorem quiet_expect (kind : TokenKind) : Quiet (expect kind) :=
  (quiet_sees kind).skip fun _ => .ite (fun _ => quiet_advance) fun _ => adds_unexpected _

theorem quiet_identifier : Quiet identifier :=
  quiet_cursor.skip fun _ =>
    .ite (fun _ => quiet_advance.skip fun _ => quiet_pure _) fun _ => adds_unexpected _

theorem quiet_halve (hkind : s.cursor.kind = .mark .shiftRight) :
    LaysAt setting s (.here s.cursor.span.start) [] halve fun _ => [] := fun hs _ _ =>
  ⟨⟨hs.cursor.halve hkind, hs.tree⟩, .setCursor (hs.cursor.before_halve hkind), trivial⟩

theorem quiet_closeAngle : Quiet closeAngle := by
  intro setting s
  refine LaysAt.kind ?_
  split
  · exact (quiet_advance.skip fun _ => quiet_pure _) setting s
  · exact quiet_halve ‹_›
  · exact lays_unexpected _ setting s

theorem quiet_skipTokens (n : Nat) : Quiet (Grammar.skipTokens n) := by
  induction n with
  | zero => exact quiet_pure _
  | succ n ih => exact quiet_advance.skip fun _ => ih

end Quiet

/-! ## Nodes -/

section Nodes

variable {start span : Span} {term : Term TermId PatternId} {level : Level}

/-- A term that reaches from the first token of a construct to the last token that was read. -/
theorem laysAt_addTerm (hk : Relaxes k term.demands) (hterm : term ≠ .error)
    (hlevel : ∀ form lhs rhs, term.infix? = some (form, lhs, rhs) → level ≤ form.binding.level) :
    LaysAt setting s (.since start) k (addTerm term (start.hull s.cursor.last)) (heldAt level) := by
  intro hs hb hplaced
  have hstart : (start.hull s.cursor.last).start = start.start := by simp [hb.1]
  have hstop : (start.hull s.cursor.last).stop = s.cursor.last.stop := by simp [hb.2]
  have hplaced : s.tree.Placed (start.hull s.cursor.last).start term.demands
      (start.hull s.cursor.last).stop := by
    rw [hstart, hstop]
    exact hplaced.relax hk
  have hordered : (start.hull s.cursor.last).start ≤ (start.hull s.cursor.last).stop := by
    rw [hstart, hstop]
    exact Nat.le_trans hb.1 hs.cursor.last
  have hsound := hs.tree.addTerm ⟨term, start.hull s.cursor.last, setting.slot.usage⟩ hplaced
  refine ⟨⟨hs.cursor, hsound⟩, .addTerm s hterm, ?_, trivial⟩
  exact Tree.fits_addTerm s.tree _ (Nat.le_of_eq hstart.symm) hordered (Nat.le_of_eq hstop) hlevel

theorem lays_close (hk : Relaxes k term.demands) (hterm : term ≠ .error)
    (hlevel : ∀ form lhs rhs, term.infix? = some (form, lhs, rhs) → level ≤ form.binding.level) :
    Lays (.since start) k (close start term) (heldAt level) :=
  fun _ _ => laysAt_addTerm hk hterm hlevel

/-- A term that is no operator binds tightly. -/
theorem lays_close_tight (hk : Relaxes k term.demands) (hterm : term ≠ .error)
    (hoperands : term.infix? = none) :
    Lays (.since start) k (close start term) (heldAt .operand) :=
  lays_close hk hterm fun form lhs rhs h => by simp [hoperands] at h

/-- A term without children over the first token. -/
theorem beginsAt_leaf (hterm : term ≠ .error) (hchildren : term.children = []) :
    BeginsAt setting s (advance >>= fun _ => addTerm term s.cursor.span) (heldAt level) := by
  have hdemands : term.demands = [] := by simpa [hchildren] using term.ref_demands
  have hoperands : ∀ form lhs rhs, term.infix? = some (form, lhs, rhs) →
      level ≤ form.binding.level := fun form lhs rhs h => by
    rw [Term.demands_of_infix? h] at hdemands
    cases hdemands
  have hlays : LaysAt setting { s with cursor := s.cursor.advance } (.since s.cursor.span) []
      (addTerm term (s.cursor.span.hull s.cursor.advance.last)) (heldAt level) :=
    laysAt_addTerm (by simp [hdemands]) hterm hoperands
  rw [Cursor.last_advance, Span.hull_self] at hlays
  exact .advanceAt fun _ => hlays

theorem lays_closePattern {pattern : Pattern PatternId}
    (hk : k = pattern.children.map (.loose <| .pattern ·)) :
    Lays (.since start) k (closePattern start pattern) loose := by
  subst hk
  intro setting s hs hb hplaced
  have hstart : (start.hull s.cursor.last).start = start.start := by simp [hb.1]
  have hstop : (start.hull s.cursor.last).stop = s.cursor.last.stop := by simp [hb.2]
  have hordered : (start.hull s.cursor.last).start ≤ (start.hull s.cursor.last).stop := by
    rw [hstart, hstop]
    exact Nat.le_trans hb.1 hs.cursor.last
  have hsound := hs.tree.addPattern ⟨pattern, start.hull s.cursor.last⟩
    (by rwa [hstart, hstop])
  refine ⟨⟨hs.cursor, hsound⟩, .addPattern s _, ?_, trivial⟩
  exact Tree.fits_addPattern s.tree _ (Nat.le_of_eq hstart.symm) hordered (Nat.le_of_eq hstop)

end Nodes

/-! ## Loops -/

/-- What a round holds. -/
def Reading.Round.holds (o : α → List Held) : Round α → List Held
  | .more a => o a
  | .done a => o a

theorem lays_loop {step : α → Reading (Round α)} {o : α → List Held}
    (h : ∀ a, Lays b (o a) (step a) (Round.holds o)) (a : α) :
    Lays b (o a) (loop step a) o := by
  intro setting s hs hb hk
  change (runLoop step setting a s).Laid s b o
  fun_induction runLoop with
  | case1 a s c now hstep =>
      have hround := h a setting s hs hb hk
      rw [hstep] at hround
      exact hround
  | case2 a s c now hstep hlt ih =>
      obtain ⟨hnow, hgrows, hplaced⟩ := hstep ▸ h a setting s hs hb hk
      exact (ih hnow (hb.mono hgrows.cursor) hplaced).trans hgrows
  | case3 a s c now hstep hge =>
      have hround := h a setting s hs hb hk
      rw [hstep] at hround
      exact hround
  | case4 a s e now hstep =>
      have hround := h a setting s hs hb hk
      rw [hstep] at hround
      exact hround

section Lists

variable {r : Reading α} {more : Reading Bool} {o : α → List Held}

/-- What the items of a list hold. -/
def each (o : α → List Held) (as : List α) : List Held := as.flatMap o

theorem each_push (as : Array α) (a : α) :
    each o (as.push a).toList = each o as.toList ++ o a := by
  simp [each]

theorem each_loose [Owner α] : (each loose : List α → List Held) = loose := by
  funext as
  simp only [each, loose, refs, List.map_flatMap]
  rfl

/-- A list of items that hold what they refer to. -/
theorem Adds.list [Owner α] {r : Reading (List α)} (h : Adds r (each loose)) : Places r := by
  rwa [each_loose] at h

theorem adds_list {step : Array α → Reading (Round (Array α))}
    (h : ∀ lo as, Lays (.here lo) (each o as.toList) (step as)
      (Round.holds fun as => each o as.toList)) :
    Adds (loop step #[] >>= fun as => pure as.toList) (each o) :=
  .bind (.of_lays fun lo => lays_loop (h lo) #[]) fun _ _ => .pure rfl

theorem adds_collectWhile (hmore : Quiet more) (h : Adds r o) :
    Adds (collectWhile more r) (each o) := by
  refine adds_list fun lo as => .skip hmore fun b => .ite (fun _ => ?_) fun _ => .pure rfl
  exact .bind h fun a => .pure (each_push as a).symm

theorem adds_collectThrough (h : Adds r o) (hmore : Quiet more) :
    Adds (collectThrough r more) (each o) := by
  refine adds_list fun lo as => .bind h fun a => .skip hmore fun b => .ite (fun _ => ?_) fun _ => ?_
  · exact .pure (each_push as a).symm
  · exact .pure (each_push as a).symm

theorem adds_commaList (h : Adds r o) : Adds (commaList r) (each o) :=
  adds_collectThrough h (quiet_accept _)

theorem adds_oneUpTo (stop : TokenKind) (h : Adds r o) : Adds (oneUpTo stop r) (each o) :=
  adds_collectThrough h ((quiet_sees stop).skip fun _ => quiet_pure _)

theorem adds_separated (bracket : TokenKind) (h : Adds r o) :
    Adds (separated bracket r) (each o) := by
  refine adds_list fun lo as => .skip (quiet_sees bracket) fun b =>
    .ite (fun _ => .pure rfl) fun _ => ?_
  refine .bind h fun a => .skip (quiet_accept _) fun b => .ite (fun _ => ?_) fun _ => ?_
  · exact .pure (each_push as a).symm
  · exact .pure (each_push as a).symm

end Lists

/-! ## Attempts -/

section Attempts

variable {r : Reading (Option α)} {o : Option α → List Held}

theorem adds_speculate (h : Adds r o) (hnone : o none = []) : Adds (speculate r) o := by
  intro setting s hs hb hk
  have hr := h setting s hs hb hk
  change ((r.run setting s).retracted s).Laid s _ o
  match hrun : r.run setting s with
  | .ok (some a) t =>
      rw [hrun] at hr
      exact hr
  | .ok none t =>
      rw [hrun] at hr
      refine ⟨hs.rewind hr.2.1, hr.2.1.grows_rewind, ?_⟩
      rw [hnone]
      trivial
  | .error e t =>
      rw [hrun] at hr
      simp only [Outcome.retracted]
      split
      · exact hr
      · refine ⟨hs.rewind hr.2.1, hr.2.1.grows_rewind, ?_⟩
        rw [hnone]
        trivial

theorem adds_attempt (what : Attempt) (h : Adds r o) (hnone : o none = []) :
    Adds (attempt what r) o := by
  intro setting s hs hb hk
  rw [run_attempt]
  dsimp only
  split
  · refine ⟨⟨hs.cursor, hs.tree⟩, .remember s _, ?_⟩
    rw [hnone]
    trivial
  · have hr := adds_speculate h hnone setting s hs hb hk
    change ((r.run setting s).retracted s).Laid s _ o at hr
    cases hrun : (r.run setting s).retracted s with
    | error e t =>
        rw [hrun] at hr
        exact hr
    | ok answer t =>
        rw [hrun] at hr
        obtain ⟨ht, hgrows, hplaced⟩ := hr
        cases answer with
        | none => exact ⟨⟨ht.cursor, ht.tree⟩, hgrows.trans (.remember t _), hplaced⟩
        | some a => exact ⟨ht, hgrows, hplaced⟩

theorem quiet_succeeds {r : Reading α} (h : Quiet r) : Quiet (succeeds r) := by
  intro setting s hs hb hk
  have hr := h setting s hs hb hk
  change ((r.run setting s).tested s).Laid s _ _
  cases hrun : r.run setting s with
  | ok a t =>
      rw [hrun] at hr
      exact ⟨hs.rewind hr.2.1, hr.2.1.grows_rewind, trivial⟩
  | error e t =>
      rw [hrun] at hr
      simp only [Outcome.tested]
      split
      · exact hr
      · exact ⟨hs.rewind hr.2.1, hr.2.1.grows_rewind, trivial⟩

end Attempts

end BendSyntax
