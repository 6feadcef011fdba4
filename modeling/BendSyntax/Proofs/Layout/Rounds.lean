import BendSyntax.Proofs.Layout.Items
import BendSyntax.Proofs.Layout.LastTerm

/-! What the rounds over the items of a text leave behind. In every round an item is read and lies
in its span, or one error is reported and one mark stands for what could not be read: an error
node that is the body of a definition, or an error item. -/

namespace BendSyntax

open Reading Grammar Owner

/-- How many error nodes a tree has. -/
def Tree.errorCount (t : Tree) : Nat := t.terms.toList.countP (·.term = .error)

namespace Item

/-- What an item covers it still covers when nodes are added. -/
theorem Covers.mono {item : Item TermId} {t u : Tree} (h : item.Covers t) (ht : t.Sound)
    (hsub : t.Prefix u) : item.Covers u := by
  refine ⟨h.isError, ?_⟩
  have hplaced := h.placed.mono ht hsub
  cases item with
  | expr id =>
      have hid : id.index < t.terms.size := Tree.mem_nodes_term.mp h.placed.1.mem
      have hspan : u.span id = t.span id := hsub.span hid
      simp only [Program.itemSpan, hspan]
      exact hplaced
  | _ => exact hplaced

end Item

namespace Session

/-- An item was read, and the cursor stands behind it. -/
structure Reads (s t : Session) (item : Item TermId) : Prop where
  sound : t.Sound
  grows : s.Grows t
  front : s.cursor.span.start < t.cursor.span.start
  covers : item.Covers t.tree

/-- An item could not be read: an error was reported, and one mark stands for what is missing. -/
structure Marks (s t : Session) (item : Item TermId) : Prop where
  sound : t.Sound
  mark : item.isError = true ∧ t.tree = s.tree ∨
    item.isError = false ∧ ∃ id ∈ item.body?, ∃ (k : List TermNode) (node : TermNode),
      t.tree.terms.toList = s.tree.terms.toList ++ k ++ [node] ∧
        (∀ other ∈ k, other.term ≠ .error) ∧ node.term = .error ∧ t.Top id
  report : ∃ e : SyntaxError, t.diagnostics = s.diagnostics.push e.toDiagnostic ∧
    s.cursor.span.start ≤ e.span.start ∧
    (s.cursor.kind.startsItem = true → s.cursor.span.start < e.span.start) ∧
    e.span.start ≤ t.cursor.span.start
  stopped : t.cursor.kind.startsItem = true

end Session

section Rounds

variable (setting : Setting) {s : Session}

theorem quiet_semicolons : Quiet semicolons := by
  have hround : ∀ lo a, Lays (.here lo) [] (accept (.mark .semicolon) >>= fun more =>
      if more then pure (Round.more a) else pure (.done a)) (Round.holds fun _ : Unit => []) :=
    fun lo a => .skip (quiet_accept _) fun _ => .ite (fun _ => .pure rfl) fun _ => .pure rfl
  exact .of_lays fun lo => lays_loop (hround lo) ()

/-- No semicolon begins an item. -/
theorem run_semicolons (hstarts : s.cursor.kind.startsItem = true) :
    semicolons.run setting s = .ok () s := by
  have hkind : s.cursor.kind ≠ .mark .semicolon := fun hkind => by
    simp [hkind, TokenKind.startsItem] at hstarts
  refine runLoop_done ?_
  change ((if decide (s.cursor.kind = .mark .semicolon) then advance >>= fun _ => pure true
    else pure false : Reading Bool).run setting s).andThen _ = _
  rw [if_neg (by simpa using hkind)]
  rfl

/-- Where skipping the rest of an item from an error on comes to. Unless the first token of the item
lies behind the error, the region is empty or reaches from there to the last token skipped. -/
structure Cursor.SkipsItem (c d : Cursor) (first region : Span) : Prop where
  orderly : d.Orderly
  starts : d.kind.startsItem = true
  front : c.span.start ≤ d.span.start
  last : c.last.stop ≤ d.last.stop
  passed : ∀ t ∈ c.rest, t ∈ d.rest ∨ t.span.stop ≤ d.last.stop
  region : first.start ≤ c.whole.span.start → region = first.opening ∨
    region.start = first.start ∧ region.start ≤ region.stop ∧ region.stop = d.last.stop

/-- From the first half of a `>>` on, skipping goes past the second half. -/
theorem Cursor.Orderly.skips_whole {c d : Cursor} {first region : Span} (hc : c.Orderly)
    (hskips : c.whole.Skips d)
    (hcovers : first.start ≤ c.whole.span.start → c.whole.Skipped d first.opening region) :
    c.SkipsItem d first region where
  orderly := hskips.orderly fun hstarts => by rwa [hc.whole_of_startsItem hstarts]
  starts := hskips.starts
  front := hskips.front_le hc.toAhead
  last := by
    obtain rfl | ⟨-, -, hbefore⟩ := hskips.place
    · exact Nat.le_refl _
    · have hstop : c.whole.span.stop = c.span.stop := (stop_span _).trans (stop_span c).symm
      calc c.last.stop ≤ c.span.stop := Nat.le_trans hc.behind hc.span_le
        _ = c.whole.advance.last.stop := by rw [last_advance, hstop]
        _ ≤ d.last.stop := hbefore.stop
  passed t ht := by
    obtain rfl | ⟨-, -, hbefore⟩ := hskips.place
    · exact .inl ht
    · refine (c.whole.mem_advance ht).elim (hbefore.passed t) fun hpassed => .inr ?_
      exact Nat.le_trans (c.whole.last_advance ▸ hpassed) hbefore.stop
  region hstart := (hcovers hstart).imp_left (·.2)

/-- If the error came up in front of the first token, this token is skipped first. -/
theorem Cursor.Orderly.skips_advance {c d : Cursor} {first region : Span} (hc : c.Orderly)
    (hskips : c.whole.advance.Skips d)
    (hcovers : first.start ≤ c.whole.advance.span.start →
      c.whole.advance.Skipped d first.opening region) : c.SkipsItem d first region := by
  have hadvance := hc.whole.orderly_advance
  have hbefore := hskips.before hadvance
  have hstop : c.whole.span.stop = c.span.stop := (stop_span _).trans (stop_span c).symm
  refine ⟨hskips.orderly fun _ => hadvance, hskips.starts, ?_, ?_, fun t ht => ?_, fun hstart => ?_⟩
  · calc c.span.start ≤ c.span.stop := hc.span_le
      _ = c.whole.span.stop := hstop.symm
      _ ≤ c.whole.advance.span.start := hc.whole.stop_le_advance
      _ ≤ d.span.start := hbefore.front
  · calc c.last.stop ≤ c.span.stop := Nat.le_trans hc.behind hc.span_le
      _ = c.whole.advance.last.stop := by rw [last_advance, hstop]
      _ ≤ d.last.stop := hbefore.stop
  · refine (c.whole.mem_advance ht).elim (hbefore.passed t) fun hpassed => .inr ?_
    exact Nat.le_trans (c.whole.last_advance ▸ hpassed) hbefore.stop
  · exact (hcovers (Nat.le_trans hstart hc.whole.span_le_advance)).imp_left (·.2)

theorem run_skipItem {t : Session} (ht : t.cursor.Orderly) (first : Cursor) :
    ∃ region d, (skipItem first).run setting t = .ok (.error region) { t with cursor := d } ∧
      t.cursor.SkipsItem d first.span region := by
  suffices ∃ c : Cursor,
      (whole (skipFirst first)).run setting t = .ok () { t with cursor := c } ∧ c.Ahead ∧
        ∀ region d, c.Skips d → (first.span.start ≤ c.span.start →
          c.Skipped d first.span.opening region) → t.cursor.SkipsItem d first.span region by
    obtain ⟨c, hrun, hahead, hskipsItem⟩ := this
    obtain ⟨region, d, hskip, hskips, hcovers⟩ :=
      run_skipToItem first.span setting { t with cursor := c } hahead
    refine ⟨region, d, ?_, hskipsItem region d hskips hcovers⟩
    have hall : (skipItem first).run setting t =
        (whole (skipFirst first) >>= fun _ => skipToItem first.span >>= fun region =>
          pure (.error region)).run setting t := rfl
    rw [hall, run_bind, hrun, Outcome.andThen_ok, run_bind, hskip]
    rfl
  have hrun : (whole (skipFirst first)).run setting t =
      (if t.cursor.index = first.index then advance >>= fun _ => pure () else pure () :
        Reading Unit).run setting { t with cursor := t.cursor.whole } := rfl
  rw [hrun]
  by_cases hindex : t.cursor.index = first.index
  · rw [if_pos hindex]
    exact ⟨t.cursor.whole.advance, rfl, ht.whole.advance, fun _ _ => ht.skips_advance⟩
  · rw [if_neg hindex]
    exact ⟨t.cursor.whole, rfl, ht.whole, fun _ _ => ht.skips_whole⟩

/-- A round reads an item or marks what could not be read; without recovery, an error is left. -/
theorem recovering_item (d : Nat) (hs : s.Sound) (hkind : s.cursor.kind ≠ .eof) :
    match (recovering id (skipItem s.cursor) (Grammar.item (nested d))).run setting s with
    | .ok item t => s.Reads t item ∨ s.Marks t item
    | .error _ t => setting.config.recover = false ∧ t.diagnostics = s.diagnostics := by
  obtain ⟨t, henters, hends⟩ := item_ends (laysOut_nested d) setting hs hkind
  change match ((Grammar.item (nested d)).run setting s).recovered setting.config.recover id s
      ((skipItem s.cursor).run setting) with
    | .ok item t => s.Reads t item ∨ s.Marks t item
    | .error _ t => setting.config.recover = false ∧ t.diagnostics = s.diagnostics
  cases hrun : (Grammar.item (nested d)).run setting s with
  | ok item u =>
      obtain ⟨hu, hclean | ⟨-, id, hid, hdamaged⟩⟩ := hrun ▸ hends
      · obtain ⟨hgrows, hcovers⟩ := hclean
        have hlt := takes_item d setting s item u (hs.cursor.rest_ne_nil hkind) hrun
        have hreach := (onward_of_ok hrun).cursor
        exact .inl ⟨hu, henters.grows.trans hgrows, hs.cursor.span_lt_of_index_lt hreach hlt,
          hcovers⟩
      · obtain ⟨k, node, hterms, hk, hnode⟩ := (henters.grows.damaged hdamaged).terms
        obtain ⟨e, hreport, hlower, hupper⟩ := hdamaged.report
        refine .inr ⟨hu, .inr ⟨Item.isError_of_mem_body? hid, id, hid, k, node, hterms, hk, hnode,
          hdamaged.top⟩, ⟨e, ?_, ?_, ?_, hupper⟩, hdamaged.stopped⟩
        · rw [hreport, henters.grows.diagnostics]
        · exact Nat.le_trans henters.grows.cursor.front hlower
        · exact fun hstarts => Nat.lt_of_lt_of_le (henters.front hstarts) hlower
  | error e u =>
      obtain ⟨hu, hgrows', he⟩ := hrun ▸ hends
      have hgrows := henters.grows.trans hgrows'
      cases hrecover : setting.config.recover with
      | false => exact ⟨rfl, hgrows.diagnostics⟩
      | true =>
          have htree : u.tree.rewind s.tree.mark = s.tree := hgrows.treePrefix.rewind
          obtain ⟨region, c, hskip, hskips⟩ :=
            run_skipItem setting (t := (u.discard s).report e) hu s.cursor
          change match (skipItem s.cursor).run setting ((u.discard s).report e) with
            | .ok item t => s.Reads t item ∨ s.Marks t item
            | .error _ t => _
          rw [hskip]
          refine .inr ⟨⟨hskips.orderly, ?_⟩, .inl ⟨rfl, htree⟩, ⟨e, ?_, ?_, ?_, ?_⟩, hskips.starts⟩
          · change (u.tree.rewind s.tree.mark).Sound
            rw [htree]
            exact hs.tree
          · exact congrArg (·.push e.toDiagnostic) hgrows.diagnostics
          · exact he ▸ hgrows.cursor.front
          · exact fun hstarts =>
              he ▸ Nat.lt_of_lt_of_le (henters.front hstarts) hgrows'.cursor.front
          · exact he ▸ hskips.front

end Rounds

/-! ## Accounts -/

/-- What was reported behind `before` is accounted for: every report belongs to one mark, they
come in the order of the text, and without a report every item lies in its span. -/
structure Accounted (before : List Diagnostic) (items : List (Item TermId)) (s : Session) :
    Prop where
  sound : s.Sound
  reports : ∃ es : List SyntaxError, s.diagnostics.toList = before ++ es.map (·.toDiagnostic) ∧
    es.length = s.tree.errorCount + items.countP (·.isError) ∧
    es.Pairwise (·.span.start < ·.span.start) ∧
    ∀ e ∈ es, e.span.start < s.cursor.span.start ∨
      s.cursor.kind.startsItem = true ∧ e.span.start ≤ s.cursor.span.start
  bodies : ∀ id, s.tree.term? id = some .error → ∃ item ∈ items, id ∈ item.body?
  covers : s.diagnostics.toList = before → ∀ item ∈ items, item.Covers s.tree

namespace Tree

variable {s t : Tree} {k : List TermNode} {id : TermId}

/-- No error node is among those that were added. -/
theorem term?_of_append (hk : t.terms.toList = s.terms.toList ++ k)
    (hne : ∀ node ∈ k, node.term ≠ .error) (h : t.term? id = some .error) :
    s.term? id = some .error := by
  simp only [term?, ← Array.getElem?_toList, hk, List.getElem?_append] at h ⊢
  split at h
  · exact h
  · obtain ⟨node, hnode, hterm⟩ := Option.map_eq_some_iff.mp h
    exact absurd hterm (hne node (List.mem_of_getElem? hnode))

/-- Only the node that was added last can be an error node. -/
theorem term?_of_append_last {node : TermNode}
    (hk : t.terms.toList = s.terms.toList ++ k ++ [node]) (hne : ∀ node ∈ k, node.term ≠ .error)
    (h : t.term? id = some .error) : s.term? id = some .error ∨ id.index + 1 = t.terms.size := by
  let u : Tree := ⟨(s.terms.toList ++ k).toArray, t.patterns⟩
  have hsize : t.terms.size = u.terms.size + 1 := by
    rw [← Array.length_toList, hk]
    simp [u, Nat.add_assoc]
  obtain ⟨hi, -⟩ := Array.getElem?_eq_some_iff.mp (Option.map_eq_some_iff.mp h).choose_spec.1
  by_cases htop : id.index + 1 = t.terms.size
  · exact .inr htop
  · have hu : t.terms[id.index]? = u.terms[id.index]? := by
      rw [← Array.getElem?_toList, hk,
        List.getElem?_append_left (by simp [u] at hsize; simp; omega)]
      simp [u]
    exact .inl (term?_of_append (t := u) rfl hne (by rwa [term?, ← hu]))

theorem errorCount_of_append (hk : t.terms.toList = s.terms.toList ++ k)
    (hne : ∀ node ∈ k, node.term ≠ .error) : t.errorCount = s.errorCount := by
  have hnone : k.countP (·.term = .error) = 0 :=
    List.countP_eq_zero.mpr fun node hnode => by simpa using hne node hnode
  rw [errorCount, hk, List.countP_append, hnone]
  rfl

theorem errorCount_of_append_last {node : TermNode}
    (hk : t.terms.toList = s.terms.toList ++ k ++ [node]) (hne : ∀ node ∈ k, node.term ≠ .error)
    (hnode : node.term = .error) : t.errorCount = s.errorCount + 1 := by
  let u : Tree := ⟨(s.terms.toList ++ k).toArray, t.patterns⟩
  rw [← errorCount_of_append (t := u) rfl hne, errorCount, hk, List.countP_append]
  simp [hnode, errorCount, u]

end Tree

namespace Accounted

variable {before : List Diagnostic} {items : List (Item TermId)} {s t : Session}
  {item : Item TermId}

theorem reads (h : Accounted before items s) (hreads : s.Reads t item) :
    Accounted before (items ++ [item]) t := by
  obtain ⟨es, hes, hlength, hsorted, hpassed⟩ := h.reports
  obtain ⟨k, hk, hne⟩ := hreads.grows.terms
  have hcount := Tree.errorCount_of_append hk hne
  refine ⟨hreads.sound, ⟨es, ?_, ?_, hsorted, fun e he => .inl ?_⟩, fun id hid => ?_, ?_⟩
  · rw [hreads.grows.diagnostics, hes]
  · simp [hlength, hcount, hreads.covers.isError]
  · rcases hpassed e he with hlt | ⟨-, hle⟩
    · exact Nat.lt_trans hlt hreads.front
    · exact Nat.lt_of_le_of_lt hle hreads.front
  · obtain ⟨old, hold, hbody⟩ := h.bodies id (Tree.term?_of_append hk hne hid)
    exact ⟨old, List.mem_append_left _ hold, hbody⟩
  · rw [hreads.grows.diagnostics]
    intro hclean other hother
    rcases List.mem_append.mp hother with hold | hnew
    · exact (h.covers hclean other hold).mono h.sound.tree hreads.grows.treePrefix
    · obtain rfl := List.mem_singleton.mp hnew
      exact hreads.covers

theorem marks (h : Accounted before items s) (hmarks : s.Marks t item) :
    Accounted before (items ++ [item]) t := by
  obtain ⟨es, hes, hlength, hsorted, hpassed⟩ := h.reports
  obtain ⟨e, hreport, hlower, hstrict, hupper⟩ := hmarks.report
  -- an earlier error lies in front of the cursor, or of the keyword that the new one is behind
  have hlt : ∀ old ∈ es, old.span.start < e.span.start := fun old hold => by
    rcases hpassed old hold with hlt | ⟨hstarts, hle⟩
    · exact Nat.lt_of_lt_of_le hlt hlower
    · exact Nat.lt_of_le_of_lt hle (hstrict hstarts)
  have hdiagnostics : t.diagnostics.toList = before ++ (es ++ [e]).map (·.toDiagnostic) := by
    rw [hreport, Array.toList_push, hes]
    simp
  refine ⟨hmarks.sound, ⟨es ++ [e], hdiagnostics, ?_, ?_, ?_⟩, ?_, ?_⟩
  · rcases hmarks.mark with ⟨hitem, htree⟩ | ⟨hitem, id, -, k, node, hk, hne, hnode, -⟩
    · simp [hlength, htree, hitem, Nat.add_assoc]
    · simp [hlength, Tree.errorCount_of_append_last hk hne hnode, hitem, Nat.add_right_comm]
  · rw [List.pairwise_append]
    exact ⟨hsorted, List.pairwise_singleton _ _, fun old hold new hnew =>
      List.mem_singleton.mp hnew ▸ hlt old hold⟩
  · intro other hother
    rcases List.mem_append.mp hother with hold | hnew
    · exact .inl (Nat.lt_of_lt_of_le (hlt other hold) hupper)
    · exact .inr ⟨hmarks.stopped, List.mem_singleton.mp hnew ▸ hupper⟩
  · intro id hid
    rcases hmarks.mark with ⟨-, htree⟩ | ⟨-, last, hlast, k, node, hk, hne, -, htop⟩
    · obtain ⟨old, hold, hbody⟩ := h.bodies id (htree ▸ hid)
      exact ⟨old, List.mem_append_left _ hold, hbody⟩
    · rcases Tree.term?_of_append_last hk hne hid with hold | hindex
      · obtain ⟨old, hold, hbody⟩ := h.bodies id hold
        exact ⟨old, List.mem_append_left _ hold, hbody⟩
      · have heq : id = last := congrArg TermId.mk (Nat.succ.inj (hindex.trans htop.symm))
        exact ⟨item, by simp, heq ▸ hlast⟩
  · intro hclean
    rw [hdiagnostics] at hclean
    simp at hclean

end Accounted

section Runs

variable {setting : Setting} {before : List Diagnostic} {items : Array (Item TermId)} {s : Session}

theorem Session.Reads.semicolons {t u : Session} {item : Item TermId} (h : s.Reads t item)
    (hu : semicolons.run setting t = .ok () u) : s.Reads u item := by
  obtain ⟨hsound, hgrows, -⟩ := hu ▸ quiet_semicolons setting t h.sound (Nat.le_refl _) trivial
  exact ⟨hsound, h.grows.trans hgrows, Nat.lt_of_lt_of_le h.front hgrows.cursor.front,
    h.covers.mono h.sound.tree hgrows.treePrefix⟩

variable (setting) in
theorem accounted_itemRound (d : Nat) (h : Accounted before items.toList s) :
    match (itemRound (nested d) items).run setting s with
    | .ok (.more items') t => Accounted before items'.toList t
    | .ok (.done items') t =>
        Accounted before items'.toList t ∨
          setting.config.recover = false ∧ t.diagnostics.toList ≠ before
    | .error _ _ => False := by
  by_cases hkind : s.cursor.kind = .eof
  · rw [itemRound_done hkind]
    exact .inl h
  have hround := recovering_item setting d h.sound hkind
  rw [run_itemRound, if_neg hkind, run_bind]
  cases hrun : (recovering id (skipItem s.cursor) (Grammar.item (nested d))).run setting s with
  | ok item t =>
      have hreported : (reported (recovering id (skipItem s.cursor)
          (Grammar.item (nested d)))).run setting s = .ok (some item) t :=
        congrArg Outcome.reported hrun
      have hsure : Sure setting.config semicolons := Sure.semicolons
      obtain ⟨⟨⟩, u, hu⟩ := hsure setting.remembers setting.slot t
      rw [hreported, Outcome.andThen_ok, run_bind, hu]
      change Accounted before (items.push item).toList u
      rw [Array.toList_push]
      rw [hrun] at hround
      rcases hround with hreads | hmarks
      · exact h.reads (hreads.semicolons hu)
      · obtain ⟨⟩ := (run_semicolons setting hmarks.stopped).symm.trans hu
        exact h.marks hmarks
  | error e t =>
      have hreported : (reported (recovering id (skipItem s.cursor)
          (Grammar.item (nested d)))).run setting s = .ok none (t.report e) :=
        congrArg Outcome.reported hrun
      obtain ⟨hrecover, hdiagnostics⟩ := hrun ▸ hround
      rw [hreported]
      obtain ⟨es, hes, -⟩ := h.reports
      refine .inr ⟨hrecover, fun hclean => ?_⟩
      rw [Session.report, Array.toList_push, hdiagnostics, hes] at hclean
      simp at hclean

/-- What is accounted for in front of a round is accounted for when all items have been read. -/
theorem accounted_runLoop (d : Nat) (h : Accounted before items.toList s)
    {items' : Array (Item TermId)} {t : Session}
    (ht : runLoop (itemRound (nested d)) setting items s = .ok items' t) :
    Accounted before items'.toList t ∨
      setting.config.recover = false ∧ t.diagnostics.toList ≠ before := by
  fun_induction runLoop with
  | case1 items s c now hstep =>
      obtain ⟨⟩ := ht
      have hround := accounted_itemRound setting d h
      rw [hstep] at hround
      exact hround
  | case2 items s c now hstep hlt ih =>
      have hround := accounted_itemRound setting d h
      rw [hstep] at hround
      exact ih hround ht
  | case3 items s c now hstep hge =>
      obtain ⟨⟩ := ht
      have hround := accounted_itemRound setting d h
      rw [hstep] at hround
      exact .inl hround
  | case4 items s e now hstep => cases ht

end Runs

end BendSyntax
