import BendSyntax.Proofs.Layout.ItemEnds
import BendSyntax.Proofs.Layout.Rounds

/-! What a round over the items of a text covers with recovery. The tokens of an item lie in its
span, except for a semicolon, and its roots lie there, except for a body that is missing. If an item
could not be read, its region holds its tokens or is empty. -/

namespace BendSyntax

open Reading Grammar Owner

/-- The span of an item whose terms are nodes of a tree. -/
abbrev Tree.itemSpan (t : Tree) (item : Item TermId) : Span := (⟨t, []⟩ : Program).itemSpan item

namespace Session

/-- Where a token is found behind an item: it is still to be read, or it is a semicolon, or it lies
in the span of the item. If the item is an error with an empty region, it is in front of the
cursor. -/
def Locates (s t : Session) (item : Item TermId) (x : Token) : Prop :=
  x ∈ t.cursor.rest ∨ x.kind = .mark .semicolon ∨ (t.tree.itemSpan item).contains x.span = true ∨
    item = .error s.cursor.span.opening ∧ x.span.stop ≤ t.cursor.span.start

/-- Between two sessions an item was read, or skipped where it could not be read. -/
structure Passes (s t : Session) (item : Item TermId) : Prop where
  sound : t.Sound
  outside : t.cursor.split = false
  tree : s.tree.Prefix t.tree
  start : (t.tree.itemSpan item).start = s.cursor.span.start
  stop : (t.tree.itemSpan item).stop ≤ t.cursor.span.start
  mem : ∀ id ∈ item.roots, id.index < t.tree.terms.size
  roots : ∀ id ∈ item.roots,
    (t.tree.itemSpan item).contains (t.tree.span id) = true ∨ t.Missing id
  tokens : ∀ x ∈ s.cursor.rest, s.Locates t item x

end Session

/-- The roots of an item, but for a missing body, are nodes in its span. -/
theorem Item.Keeps.roots {t : Session} {item : Item TermId} (h : item.Keeps t) (id : TermId)
    (hid : id ∈ item.roots) :
    id.index < t.tree.terms.size ∧
      ((t.tree.itemSpan item).contains (t.tree.span id) = true ∨ t.Missing id) := by
  have hheld : Held.loose (.term id) ∈ loose item := by
    rw [loose_item]
    exact List.mem_map_of_mem hid
  have hfits {lo hi : Nat} {k : List Held} (hk : t.tree.Placed lo k hi)
      (hmem : Held.loose (.term id) ∈ k) : id.index < t.tree.terms.size ∧
        lo ≤ (t.tree.span id).start ∧ (t.tree.span id).stop ≤ hi := by
    have hfits := hk.mem hmem
    exact ⟨Tree.mem_nodes_term.mp hfits.mem, hfits.lower, hfits.upper⟩
  rcases h with hplaced | ⟨k, body, hroots, hmissing, hplaced⟩
  · obtain ⟨hmem, hlower, hupper⟩ := hfits hplaced hheld
    exact ⟨hmem, .inl (by simp [Span.contains, hlower, hupper])⟩
  · rw [hroots, List.mem_append] at hheld
    rcases hheld with hheld | hheld
    · obtain ⟨hmem, hlower, hupper⟩ := hfits hplaced hheld
      exact ⟨hmem, .inl (by simp [Span.contains, hlower, hupper])⟩
    · obtain rfl : id = body := by simpa [loose, refs, Held.loose] using hheld
      obtain ⟨node, hnode, -⟩ := Option.map_eq_some_iff.mp hmissing.term
      exact ⟨(Array.getElem?_eq_some_iff.mp hnode).1, .inr hmissing⟩

section Items

variable {setting : Setting} {s t : Session} {item : Item TermId} (hs : s.Sound)
  (houtside : s.cursor.split = false)

include hs houtside

/-- The tokens that end in a span from the first token on lie in it. -/
theorem Session.Spans.locates (h : s.Spans t (t.tree.itemSpan item)) {x : Token}
    (hx : x ∈ s.cursor.rest) : s.Locates t item x := by
  refine (h.stop x hx).imp_right (.imp_right fun hstop => .inl ?_)
  have hstart := Nat.le_trans h.start (hs.cursor.start_le_of_mem houtside hx)
  simp [Span.contains, hstart, hstop]

/-- A statement that is an item. -/
theorem passes_statement {d : Nat} {id : TermId}
    (h : (nested d).statement.run setting s = .ok id t) : s.Passes t (.expr id) := by
  obtain ⟨ht, hgrows, hfits, -⟩ :=
    h ▸ (laysOut_nested d).statement setting s hs (Nat.le_refl _) trivial
  exact {
    sound := ht
    outside := ht.cursor.split_of_outside ((endOutside_nested d).statement _ _ _ _ h)
    tree := hgrows.treePrefix
    start := Nat.le_antisymm (spans_nested_statement d hs h).start hfits.lower
    stop := Nat.le_trans hfits.upper ht.cursor.behind
    mem := by simpa [Item.roots] using Tree.mem_nodes_term.mp hfits.mem
    roots := fun root hroot => .inl <| by
      obtain rfl : root = id := by simpa [Item.roots] using hroot
      exact Span.contains_refl _
    tokens := fun x hx => (spans_nested_statement d hs h).locates hs houtside hx }

/-- An item that begins with a keyword has a span from there to the last token that was read. -/
theorem passes_keyword {d : Nat} (hkind : s.cursor.kind ≠ .eof)
    (hstarts : s.cursor.kind.startsItem = true)
    (hspan : ∀ p : Program, p.itemSpan item = s.cursor.span.hull t.cursor.last)
    (h : (Grammar.item (nested d)).run setting s = .ok item t) : s.Passes t item := by
  obtain ⟨u, henters, hends⟩ := item_ends (laysOut_nested d) setting hs hkind
  rw [h] at hends
  obtain ⟨ht, hends⟩ := hends
  have hleaves : u.cursor.Before t.cursor ∧ u.tree.Prefix t.tree ∧ item.Keeps t := by
    obtain ⟨hgrows, hcovers⟩ | ⟨hkeeps, id, -, hdamaged⟩ := hends
    · exact ⟨hgrows.cursor, hgrows.treePrefix, .inl hcovers.placed⟩
    · exact ⟨hdamaged.cursor, hdamaged.treePrefix, hkeeps⟩
  obtain ⟨hbefore, htree, hkeeps⟩ := hleaves
  have hmeets := (henters.meets hstarts).mono hbefore
  have hspan : t.tree.itemSpan item = s.cursor.span.hull t.cursor.last := hspan _
  have hstart : (t.tree.itemSpan item).start = s.cursor.span.start := by simp [hspan, hmeets.1]
  have hstop : (t.tree.itemSpan item).stop = t.cursor.last.stop := by simp [hspan, hmeets.2]
  have hspans : s.Spans t (t.tree.itemSpan item) := by
    refine ⟨Nat.le_of_eq hstart, fun x hx => ?_⟩
    rw [hstop]
    exact ((henters.grows.cursor.trans hbefore).passed x hx).imp_right .inr
  exact {
    sound := ht
    outside := ht.cursor.split_of_outside (endsOutside_item (endOutside_nested d) _ _ _ _ h)
    tree := henters.grows.treePrefix.trans htree
    start := hstart
    stop := hstop ▸ ht.cursor.behind
    mem := fun id hid => (hkeeps.roots id hid).1
    roots := fun id hid => (hkeeps.roots id hid).2
    tokens := fun x hx => hspans.locates hs houtside hx }

/-- An item that could not be read has a region that holds its tokens or is empty. -/
theorem passes_error {u : Session} {e : SyntaxError} {d : Cursor} {region : Span}
    (hst : s.Grows u) (hreach : s.cursor.Reaches u.cursor)
    (hskips : u.cursor.SkipsItem d s.cursor.span region) :
    s.Passes { (u.discard s).report e with cursor := d } (.error region) := by
  have htree : u.tree.rewind s.tree.mark = s.tree := hst.treePrefix.rewind
  have hregion := hskips.region (hs.cursor.start_le_whole houtside hreach)
  have hfront := Nat.le_trans hst.cursor.front hskips.front
  refine {
    sound := ⟨hskips.orderly, ?_⟩
    outside := hskips.orderly.split_of_startsItem hskips.starts
    tree := ?_
    start := ?_
    stop := ?_
    mem := nofun
    roots := nofun
    tokens := fun x hx => ?_ }
  · change (u.tree.rewind s.tree.mark).Sound
    rw [htree]
    exact hs.tree
  · change s.tree.Prefix (u.tree.rewind s.tree.mark)
    rw [htree]
    exact .refl _
  · change region.start = s.cursor.span.start
    rcases hregion with rfl | ⟨hstart, -⟩
    · rfl
    · exact hstart
  · change region.stop ≤ d.span.start
    rcases hregion with rfl | ⟨-, -, hstop⟩
    · exact hfront
    · exact hstop ▸ hskips.orderly.behind
  · have hpassed : x ∈ d.rest ∨ x.span.stop ≤ d.last.stop :=
      (hst.cursor.passed x hx).elim (hskips.passed x) fun hpassed =>
        .inr (Nat.le_trans hpassed hskips.last)
    refine hpassed.imp_right fun hpassed => .inr ?_
    rcases hregion with rfl | ⟨hstart, -, hstop⟩
    · exact .inr ⟨rfl, Nat.le_trans hpassed hskips.orderly.behind⟩
    · refine .inl ?_
      change region.contains x.span = true
      simp [Span.contains, hstart, hstop, hpassed, hs.cursor.start_le_of_mem houtside hx]

/-- With recovery, every round passes an item. -/
theorem passes_recovering {d : Nat} (hkind : s.cursor.kind ≠ .eof)
    (hrecover : setting.config.recover = true)
    (h : (recovering id (skipItem s.cursor) (Grammar.item (nested d))).run setting s = .ok item t) :
    s.Passes t item := by
  change ((Grammar.item (nested d)).run setting s).recovered setting.config.recover id s
    ((skipItem s.cursor).run setting) = _ at h
  cases hrun : (Grammar.item (nested d)).run setting s with
  | ok read u =>
      rw [hrun] at h
      cases h
      rcases span_of_item hrun with ⟨id, rfl, hstatement⟩ | ⟨hstarts, hspan⟩
      · exact passes_statement hs houtside hstatement
      · exact passes_keyword hs houtside hkind hstarts hspan hrun
  | error e u =>
      have honward := (Grammar.item (nested d)).onward setting s
      obtain ⟨v, henters, hends⟩ := item_ends (laysOut_nested d) setting hs hkind
      rw [hrun] at hends honward h
      obtain ⟨hu, hgrows, -⟩ := hends
      obtain ⟨region, c, hskip, hskips⟩ :=
        run_skipItem setting (t := (u.discard s).report e) hu s.cursor
      simp only [Outcome.recovered, hrecover, if_true] at h
      rw [show id e = e from rfl, hskip] at h
      cases h
      exact passes_error hs houtside (henters.grows.trans hgrows) honward.cursor hskips

omit houtside in
/-- With recovery, a round reads or skips an item and the semicolons behind it, unless no token is
left. -/
theorem itemRound_cases {d : Nat} {read : Array (Item TermId)}
    (hrecover : setting.config.recover = true) {x : Round (Array (Item TermId))}
    (hx : (itemRound (nested d) read).run setting s = .ok x t) :
    (x = .done read ∧ t = s ∧ s.cursor.rest = []) ∨
      s.cursor.kind ≠ .eof ∧ t.cursor.remaining < s.cursor.remaining ∧ ∃ item u,
        x = .more (read.push item) ∧ semicolons.run setting u = .ok () t ∧
        (recovering id (skipItem s.cursor) (Grammar.item (nested d))).run setting s =
          .ok item u := by
  by_cases hkind : s.cursor.kind = .eof
  · rw [itemRound_done hkind] at hx
    cases hx
    exact .inl ⟨rfl, rfl, not_not.mp fun hrest => hs.cursor.kind_ne_eof hrest hkind⟩
  obtain ⟨item, u, hround, hlt⟩ := itemRound_more setting
    (hs.cursor.rest_ne_nil hkind) hkind hrecover d read
  obtain ⟨rfl, rfl⟩ : x = .more (read.push item) ∧ t = u := by simpa [hround] using hx.symm
  refine .inr ⟨hkind, hlt, item, ?_⟩
  rw [run_itemRound, if_neg hkind] at hround
  obtain ⟨item?, u, hu, hround⟩ := ok_of_bind hround
  cases item? with
  | none => cases hround
  | some item' =>
      obtain ⟨⟨⟩, v, hv, hround⟩ := ok_of_bind hround
      simp only [run_pure, Outcome.ok.injEq, Round.more.injEq] at hround
      obtain ⟨hread, rfl⟩ := hround
      obtain rfl : item' = item := Array.push_eq_push.mp hread |>.1
      exact ⟨u, rfl, hv, ok_of_reported hu⟩

end Items

/-- What every round with recovery hands on holds in the end, and then no token is left. -/
theorem runLoop_items {setting : Setting} {d : Nat} {I : List (Item TermId) → Session → Prop}
    (hrecover : setting.config.recover = true) (hsound : ∀ items s, I items s → s.Sound)
    (hround : ∀ items s item t u, I items s → s.cursor.kind ≠ .eof →
      (recovering id (skipItem s.cursor) (Grammar.item (nested d))).run setting s = .ok item t →
      semicolons.run setting t = .ok () u → I (items ++ [item]) u)
    {read items : Array (Item TermId)} {s t : Session} (h : I read.toList s)
    (ht : runLoop (itemRound (nested d)) setting read s = .ok items t) :
    I items.toList t ∧ t.cursor.rest = [] := by
  have hstep {read items : Array (Item TermId)} {s t : Session} (h : I read.toList s)
      (ht : (itemRound (nested d) read).run setting s = .ok (.more items) t) :
      t.cursor.remaining < s.cursor.remaining ∧ I items.toList t := by
    obtain ⟨hx, -⟩ | ⟨hkind, hlt, item, u, hx, hsemicolons, hitem⟩ :=
      itemRound_cases (hsound _ _ h) hrecover ht <;> cases hx
    exact ⟨hlt, Array.toList_push ▸ hround _ _ _ _ _ h hkind hitem hsemicolons⟩
  fun_induction runLoop with
  | case1 read s c now hnow =>
      cases ht
      obtain ⟨hx, rfl, hrest⟩ | ⟨-, -, item, u, hx, -⟩ :=
        itemRound_cases (hsound _ _ h) hrecover hnow <;> cases hx
      exact ⟨h, hrest⟩
  | case2 read s c now hnow hlt ih => exact ih (hstep h hnow).2 ht
  | case3 read s c now hnow hge => exact absurd (hstep h hnow).1 hge
  | case4 read s e now hnow => cases ht

end BendSyntax
