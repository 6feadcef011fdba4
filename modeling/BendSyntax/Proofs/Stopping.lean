import BendSyntax.Proofs.Coverage
import BendSyntax.Proofs.Dumps
import BendSyntax.Proofs.Stopping.Items

/-! Reading without recovery stops where reading with recovery reports its first error: its items are
those in front of the first one that is damaged, and its reports end with the first error. -/

namespace BendSyntax

open Reading Grammar Owner

/-! ## Trees to which nodes were added -/

namespace Tree

variable {t u : Tree}

/-- A tree that has the roots of items, and with every node its children. -/
structure Holds (t : Tree) (items : List (Item TermId)) : Prop where
  roots : ∀ item ∈ items, ∀ id ∈ item.roots, .term id ∈ t.nodes
  children : ∀ ref ∈ t.nodes, ∀ child ∈ t.childrenOf ref, child ∈ t.nodes

theorem Sound.mem_of_mem_childrenOf (h : t.Sound) {ref child : Ref}
    (hchild : child ∈ t.childrenOf ref) : child ∈ t.nodes := by
  cases ref with
  | term id =>
      cases hnode : t.terms[id.index]? with
      | none => simp [childrenOf, term?, hnode] at hchild
      | some node =>
          have hmem : child ∈ node.term.children := by simpa [childrenOf, term?, hnode] using hchild
          rw [← Term.ref_demands] at hmem
          obtain ⟨held, hheld, rfl⟩ := List.mem_map.mp hmem
          exact ((h.terms _ node hnode).placed.mem hheld).mem
  | pattern id =>
      cases hnode : t.patterns[id.index]? with
      | none => simp [childrenOf, hnode] at hchild
      | some node =>
          obtain ⟨p, hp, rfl⟩ : ∃ p ∈ node.pattern.children, .pattern p = child := by
            simpa [childrenOf, hnode] using hchild
          exact ((h.patterns _ node hnode).mem (List.mem_map_of_mem hp)).mem

namespace Prefix

variable (h : t.Prefix u)

include h

theorem patternDumps {i : Nat} (hi : i < t.patterns.size) :
    u.patternDumps.getD i "" = t.patternDumps.getD i "" := by
  obtain ⟨k, hk⟩ := h.patterns
  rw [patternDumps_eq u, ← hk, List.foldl_append, ← patternDumps_eq]
  obtain ⟨more, hmore⟩ := foldl_pushing_append (fun done node =>
    (node.pattern.map fun id => done.getD id.index "").dump) k t.patternDumps
  rw [hmore, getD_append_of_lt (by rwa [size_patternDumps])]

theorem termDumps (ht : t.Sound) {i : Nat} (hi : i < t.terms.size) :
    u.termDumps.getD i "" = t.termDumps.getD i "" := by
  obtain ⟨k, hk⟩ := h.terms
  have hpattern {j : Nat} {x : TermNode} (hx : t.terms.toList[j]? = some x) {q : PatternId}
      (hq : .pattern q ∈ x.term.children) : q.index < t.patterns.size := by
    have hterm : t.term? ⟨j⟩ = some x.term := by
      rw [Tree.term?, ← Array.getElem?_toList, hx, Option.map_some]
    have hchild : .pattern q ∈ t.childrenOf (.term ⟨j⟩) := by rwa [childrenOf, hterm]
    exact mem_nodes_pattern.mp (ht.mem_of_mem_childrenOf hchild)
  have hsame : t.terms.toList.foldl (pushing fun done node =>
        (node.term.map (fun id => done.getD id.index "")
          fun id => u.patternDumps.getD id.index "").dump) #[] = t.termDumps := by
    rw [termDumps_eq]
    refine foldl_pushing_congr fun j x before hx _ => ?_
    exact congrArg Term.dump
      (x.term.map_congr (fun _ _ => rfl) fun q hq => h.patternDumps (hpattern hx hq))
  rw [termDumps_eq u, ← hk, List.foldl_append, hsame]
  obtain ⟨more, hmore⟩ := foldl_pushing_append (fun done node =>
    (node.term.map (fun id => done.getD id.index "")
      fun id => u.patternDumps.getD id.index "").dump) k t.termDumps
  rw [hmore, getD_append_of_lt (by rwa [size_termDumps])]

/-- Items whose roots were there have the dumps that they had. -/
theorem itemDumps (ht : t.Sound) {items : List (Item TermId)}
    (hroots : ∀ item ∈ items, ∀ id ∈ item.roots, id.index < t.terms.size) :
    (⟨u, items⟩ : Program).itemDumps = (⟨t, items⟩ : Program).itemDumps :=
  List.map_congr_left fun item hitem => congrArg Item.dump
    (item.map_congr fun id hid => h.termDumps ht (hroots item hitem id hid))

end Prefix

end Tree

/-! ## Damaged items -/

theorem Item.mem_roots_of_mem_body? {τ : Type} {item : Item τ} {a : τ} (h : a ∈ item.body?) :
    a ∈ item.roots := by
  cases item with
  | definition d =>
      obtain rfl : d.form.body = a := by simpa [Item.body?] using h
      cases hform : d.form <;> simp [Item.roots, Def.roots, DefForm.roots, DefForm.body, hform]
  | _ => cases h

namespace Tree

/-- Whether an item, or the body of a definition, could not be read. -/
def damages (t : Tree) (item : Item TermId) : Bool :=
  item.isError || item.body?.any fun id => t.term? id = some .error

/-- A tree without error nodes. -/
def Whole (t : Tree) : Prop := ∀ id, t.term? id ≠ some .error

variable {t u : Tree} {item : Item TermId}

theorem lt_size_of_term? {id : TermId} {term : Term TermId PatternId} (h : t.term? id = some term) :
    id.index < t.terms.size := by
  obtain ⟨node, hnode, -⟩ := Option.map_eq_some_iff.mp h
  exact (Array.getElem?_eq_some_iff.mp hnode).1

theorem Prefix.damages (h : t.Prefix u) (hitem : t.damages item = true) : u.damages item = true := by
  rw [Tree.damages, Bool.or_eq_true] at hitem ⊢
  refine hitem.imp_right fun hbody => ?_
  obtain ⟨id, hid, hterm⟩ := (Option.any_eq_true _ _).mp hbody
  have hterm : t.term? id = some .error := of_decide_eq_true hterm
  refine (Option.any_eq_true _ _).mpr ⟨id, hid, decide_eq_true ?_⟩
  rw [h.term? (lt_size_of_term? hterm), hterm]

/-- The roots of an item are where no error node is. -/
theorem Prefix.not_damages (h : t.Prefix u) (ht : t.Whole) (hread : item.isError = false)
    (hroots : ∀ id ∈ item.roots, id.index < t.terms.size) : u.damages item = false := by
  rw [Tree.damages, hread, Bool.false_or]
  refine Bool.eq_false_iff.mpr fun hbody => ?_
  obtain ⟨id, hid, hterm⟩ := (Option.any_eq_true _ _).mp hbody
  have hterm : u.term? id = some .error := of_decide_eq_true hterm
  rw [h.term? (hroots id (Item.mem_roots_of_mem_body? hid))] at hterm
  exact ht id hterm

end Tree

/-! ## Rounds -/

section Rounds

variable {l : Lexing} {depth : Nat} {s t : Session}

variable (l depth) in
/-- A session that both runs come to when they have read some items and reported nothing. -/
structure Undamaged (items : List (Item TermId)) (s : Session) : Prop extends s.Shared l depth where
  covered : Covered l.tokens items s
  read : ∀ item ∈ items, item.isError = false
  whole : s.tree.Whole
  diagnostics : s.diagnostics = l.diagnostics.toArray

/-- From `s` on, one run ends at `u` with a report, and the other one, which has reported the same,
marks the next item as damaged and goes on to `t`. -/
structure Session.Halts (s u t : Session) (read items : List (Item TermId)) : Prop where
  before : s.tree.Prefix u.tree
  behind : s.tree.Prefix t.tree
  report : ∃ e : SyntaxError, u.diagnostics = s.diagnostics.push e.toDiagnostic ∧
    u.diagnostics.toList <+: t.diagnostics.toList
  damaged : ∃ item rest, items = read ++ item :: rest ∧ t.tree.damages item = true

variable {d : Nat} {read : Array (Item TermId)}

theorem Session.Marks.damages {s t : Session} {item : Item TermId} (h : s.Marks t item) :
    t.tree.damages item = true := by
  rw [Tree.damages, Bool.or_eq_true]
  obtain ⟨hitem, -⟩ | ⟨-, id, hid, k, node, hterms, -, hnode, htop⟩ := h.mark
  · exact .inl hitem
  · refine .inr ((Option.any_eq_true _ _).mpr ⟨id, hid, decide_eq_true ?_⟩)
    have hlast : t.tree.terms[id.index]? = some node := by
      have hsize := congrArg List.length hterms
      simp only [Array.length_toList, List.length_append, List.length_singleton] at hsize
      have hindex : id.index = (s.tree.terms.toList ++ k).length := by
        have htop : id.index + 1 = t.tree.terms.size := htop
        simp only [List.length_append, Array.length_toList]
        omega
      rw [← Array.getElem?_toList, hterms, hindex, List.getElem?_concat_length]
    rw [Tree.term?, hlast, Option.map_some, hnode]

/-- No semicolon is reported, and no node is one. -/
theorem run_semicolons_sound (setting : Setting) (hs : s.Sound) :
    ∃ t, semicolons.run setting s = .ok () t ∧ t.Sound ∧ s.Grows t := by
  have hsure : Sure setting.config semicolons := Sure.semicolons
  obtain ⟨⟨⟩, t, ht⟩ := hsure setting.remembers setting.slot s
  obtain ⟨hsound, hgrows, -⟩ := ht ▸ quiet_semicolons setting s hs (Nat.le_refl _) trivial
  exact ⟨t, ht, hsound, hgrows⟩

theorem Session.Shared.semicolons (slot : Slot) (hs : s.Shared l depth) :
    ∃ t, (semicolons.run ⟨⟨depth, true⟩, true, slot⟩ s = .ok () t ∧
      semicolons.run ⟨⟨depth, false⟩, true, slot⟩ s = .ok () t) ∧ t.Shared l depth ∧ s.Grows t := by
  obtain ⟨hshared, hright⟩ := shared_of_agree slot
    (Comparison.agrees_semicolons _ _ hs.sessions.cursor) (fun _ => rfl) quiet_semicolons hs
  obtain ⟨t, ht, -⟩ := run_semicolons_sound ⟨⟨depth, true⟩, true, slot⟩ hs.sound
  rw [ht] at hshared hright
  exact ⟨t, ⟨ht, hright⟩, hshared⟩

section Runs

variable {setting : Setting} {item : Item TermId} (hkind : s.cursor.kind ≠ .eof)

include hkind

theorem itemRound_of_ok {v : Session}
    (ht : (recovering id (skipItem s.cursor) (Grammar.item (nested d))).run setting s = .ok item t)
    (hv : semicolons.run setting t = .ok () v) :
    (itemRound (nested d) read).run setting s = .ok (.more (read.push item)) v := by
  have hreported : (reported (recovering id (skipItem s.cursor) (Grammar.item (nested d)))).run
      setting s = .ok (some item) t := congrArg Outcome.reported ht
  rw [run_itemRound, if_neg hkind, run_bind, hreported, Outcome.andThen_ok, run_bind, hv]
  rfl

theorem itemRound_of_error {e : SyntaxError}
    (ht : (recovering id (skipItem s.cursor) (Grammar.item (nested d))).run setting s = .error e t) :
    (itemRound (nested d) read).run setting s = .ok (.done read) (t.report e) := by
  have hreported : (reported (recovering id (skipItem s.cursor) (Grammar.item (nested d)))).run
      setting s = .ok none (t.report e) := congrArg Outcome.reported ht
  rw [run_itemRound, if_neg hkind, run_bind, hreported]
  rfl

end Runs

namespace Undamaged

variable (h : Undamaged l depth read.toList s)

include h

/-- Where both runs have read an item, they are at the next session. -/
theorem push {item : Item TermId} {u : Session} (slot : Slot) (hkind : s.cursor.kind ≠ .eof)
    (ht : (recovering id (skipItem s.cursor) (Grammar.item (nested d))).run
      ⟨⟨depth, true⟩, true, slot⟩ s = .ok item t) (hgrows : s.Grows t)
    (hu : semicolons.run ⟨⟨depth, true⟩, true, slot⟩ t = .ok () u) (hshared : u.Shared l depth)
    (hgrows' : t.Grows u) : Undamaged l depth (read.push item).toList u := by
  have hread : item.isError = false := by
    have hmarks := recovering_item ⟨⟨depth, true⟩, true, slot⟩ d h.sound hkind
    rw [ht] at hmarks
    rcases hmarks with hreads | hmarks
    · exact hreads.covers.isError
    · obtain ⟨e, hreport, -⟩ := hmarks.report
      have hsize := congrArg Array.size (hgrows.diagnostics.symm.trans hreport)
      simp at hsize
  refine ⟨hshared, ?_, fun old hold => ?_, ?_, ?_⟩
  · exact (h.covered.of_more rfl (itemRound_of_ok hkind ht hu)).2.2.2
  · rw [Array.toList_push, List.mem_append, List.mem_singleton] at hold
    rcases hold with hold | rfl
    · exact h.read old hold
    · exact hread
  · obtain ⟨k, hk, hne⟩ := (hgrows.trans hgrows').terms
    exact fun id hid => h.whole id (Tree.term?_of_append hk hne hid)
  · rw [hgrows'.diagnostics, hgrows.diagnostics, h.diagnostics]

/-- A round leads both runs to the next session, or it is the last one without recovery. -/
theorem itemRound (slot : Slot) (hkind : s.cursor.kind ≠ .eof) :
    ∃ item t, (Grammar.itemRound (nested d) read).run ⟨⟨depth, true⟩, true, slot⟩ s =
        .ok (.more (read.push item)) t ∧
      ((Grammar.itemRound (nested d) read).run ⟨⟨depth, false⟩, true, slot⟩ s =
          .ok (.more (read.push item)) t ∧ Undamaged l depth (read.push item).toList t ∨
        ∃ u, (Grammar.itemRound (nested d) read).run ⟨⟨depth, false⟩, true, slot⟩ s =
          .ok (.done read) u ∧ s.Halts u t read.toList (read.push item).toList) := by
  rcases stops_recovering (d := d) slot h.toShared hkind with
    ⟨item, t, hleft, hright, ht, hgrows⟩ | ⟨item, t, e, u, hleft, hright, hgrows, hreport⟩
  · obtain ⟨v, ⟨hv, hv'⟩, hshared, hgrows'⟩ := ht.semicolons slot
    exact ⟨item, v, itemRound_of_ok hkind hleft hv, .inl
      ⟨itemRound_of_ok hkind hright hv', h.push slot hkind hleft hgrows hv hshared hgrows'⟩⟩
  · have hmarks : s.Marks t item := by
      have hmarks := recovering_item ⟨⟨depth, true⟩, true, slot⟩ d h.sound hkind
      rw [hleft] at hmarks
      refine hmarks.resolve_left fun hreads => ?_
      have hsize := congrArg Array.size (hreads.grows.diagnostics.symm.trans hreport)
      simp at hsize
    obtain ⟨v, hv, -, hgrows'⟩ := run_semicolons_sound ⟨⟨depth, true⟩, true, slot⟩ hmarks.sound
    have hround : (Grammar.itemRound (nested d) read).run ⟨⟨depth, true⟩, true, slot⟩ s =
        .ok (.more (read.push item)) v := itemRound_of_ok hkind hleft hv
    have hsame : (u.report e).diagnostics = s.diagnostics.push e.toDiagnostic :=
      congrArg (·.push e.toDiagnostic) hgrows.diagnostics
    refine ⟨item, v, hround, .inr ⟨_, itemRound_of_error hkind hright,
      hgrows.treePrefix, ?_, ⟨e, hsame, ?_⟩, item, [], by simp, ?_⟩⟩
    · exact (h.covered.of_more rfl hround).2.1
    · rw [hsame, hgrows'.diagnostics, hreport]
    · exact hgrows'.treePrefix.damages hmarks.damages

end Undamaged

/-- With recovery, reading goes on from what was read. -/
theorem Covered.extends_runLoop {tokens : Tokens} {setting : Setting} {items : Array (Item TermId)}
    (hrecover : setting.config.recover = true) (h : Covered tokens read.toList s)
    (ht : Reading.runLoop (itemRound (nested d)) setting read s = .ok items t) :
    read.toList <+: items.toList ∧ s.tree.Prefix t.tree := by
  fun_induction Reading.runLoop with
  | case1 read s c now hstep =>
      cases ht
      rcases h.of_itemRound hrecover hstep with ⟨hx, rfl, -⟩ | ⟨item, hx, -⟩ <;> cases hx
      exact ⟨List.prefix_refl _, .refl _⟩
  | case2 read s c now hstep hlt ih =>
      obtain ⟨-, htree, hitems, hcovered⟩ := h.of_more hrecover hstep
      obtain ⟨hitems', htree'⟩ := ih hcovered ht
      exact ⟨hitems.trans hitems', htree.trans htree'⟩
  | case3 read s c now hstep hge => exact absurd (h.of_more hrecover hstep).1 hge
  | case4 read s e now hstep => cases ht

/-- Behind the session in which one run stops, the other one only adds to what it has. -/
theorem Session.Halts.mono {u v : Session} {old items items' : List (Item TermId)}
    (h : s.Halts u t old items) (htree : t.tree.Prefix v.tree) (hitems : items <+: items')
    (hreports : t.diagnostics.toList <+: v.diagnostics.toList) : s.Halts u v old items' := by
  obtain ⟨e, he, hbefore⟩ := h.report
  obtain ⟨item, rest, rfl, hitem⟩ := h.damaged
  obtain ⟨more, rfl⟩ := hitems
  exact ⟨h.before, h.behind.trans htree, ⟨e, he, hbefore.trans hreports⟩,
    item, rest ++ more, by simp, htree.damages hitem⟩

/-- Both runs read all items, or they part where the first item is damaged. -/
theorem Undamaged.runLoop (slot : Slot) {items : Array (Item TermId)}
    (h : Undamaged l depth read.toList s)
    (ht : Reading.runLoop (Grammar.itemRound (nested d)) ⟨⟨depth, true⟩, true, slot⟩ read s =
      .ok items t) :
    (Reading.runLoop (Grammar.itemRound (nested d)) ⟨⟨depth, false⟩, true, slot⟩ read s =
        .ok items t ∧ Undamaged l depth items.toList t) ∨
      ∃ first u v,
        Reading.runLoop (Grammar.itemRound (nested d)) ⟨⟨depth, false⟩, true, slot⟩ read s =
          .ok first u ∧
        Undamaged l depth first.toList v ∧ v.Halts u t first.toList items.toList := by
  fun_induction Reading.runLoop (Grammar.itemRound (nested d)) ⟨⟨depth, true⟩, true, slot⟩ read s with
  | case1 read s c now hstep =>
      obtain ⟨⟩ := ht
      by_cases hkind : s.cursor.kind = .eof
      · obtain ⟨⟩ := (itemRound_done hkind read).symm.trans hstep
        exact .inl ⟨runLoop_done (itemRound_done hkind _), h⟩
      · obtain ⟨item, u, hround, -⟩ := h.itemRound (d := d) slot hkind
        obtain ⟨⟩ := hround.symm.trans hstep
  | case2 read s c now hstep hlt ih =>
      by_cases hkind : s.cursor.kind = .eof
      · obtain ⟨⟩ := (itemRound_done hkind read).symm.trans hstep
      · obtain ⟨item, u, hround, hends⟩ := h.itemRound (d := d) slot hkind
        obtain ⟨⟩ := hround.symm.trans hstep
        rcases hends with ⟨hright, hu⟩ | ⟨v, hright, hhalts⟩
        · rw [runLoop_more hright hlt]
          exact ih hu ht
        · refine .inr ⟨read, v, s, runLoop_done hright, h, ?_⟩
          obtain ⟨-, -, -, hcovered⟩ := h.covered.of_more rfl hstep
          obtain ⟨hitems, htree⟩ := hcovered.extends_runLoop rfl ht
          refine hhalts.mono htree hitems ?_
          have honward := runLoop_onward (Grammar.itemRound (nested d)) ⟨⟨depth, true⟩, true, slot⟩
            (read.push item) now
          rw [ht] at honward
          exact honward.diagnostics
  | case3 read s c now hstep hge => exact absurd (h.covered.of_more rfl hstep).1 hge
  | case4 read s e now hstep => cases ht

end Rounds

/-! ## Texts -/

theorem undamaged_initial (source : String) (depth : Nat) :
    Undamaged (Lexing.ofText source) depth [] (initial (Lexing.ofText source)) where
  sessions := ⟨⟨.start (Lexing.eof_kind_onward _ _ _), ⟨rfl, rfl, rfl, rfl⟩, rfl⟩, .start _ _ _,
    .start _ _ _, .start _ _ _, rfl⟩
  sound := Session.sound_initial source
  covered := Covered.initial source
  read := nofun
  whole := nofun
  diagnostics := rfl

/-- What the readings of a text end with: one program, or two that part at the first damage. -/
theorem Program.parts (source : String) (depth : Nat) :
    ∃ items t, Program.ofText source ⟨depth, true⟩ = ⟨⟨t.tree, items⟩, t.diagnostics.toList⟩ ∧
      (Program.ofText source ⟨depth, false⟩ = ⟨⟨t.tree, items⟩, t.diagnostics.toList⟩ ∧
          Undamaged (Lexing.ofText source) depth items t ∨
        ∃ first u v, Program.ofText source ⟨depth, false⟩ = ⟨⟨u.tree, first⟩, u.diagnostics.toList⟩ ∧
          Undamaged (Lexing.ofText source) depth first v ∧ v.Halts u t first items) := by
  obtain ⟨all, t, hloop, hread⟩ := Program.read_runLoop ⟨depth, true⟩ true source
  refine ⟨all.toList, t, hread, ?_⟩
  have hstart : Undamaged (Lexing.ofText source) depth (#[] : Array (Item TermId)).toList
      (initial (Lexing.ofText source)) := undamaged_initial source depth
  rcases hstart.runLoop (.free .term) hloop with
    ⟨hright, hundamaged⟩ | ⟨first, v, w, hright, hundamaged, hhalts⟩
  · exact .inl ⟨Program.read_of_runLoop hright, hundamaged⟩
  · exact .inr ⟨first.toList, v, w, Program.read_of_runLoop hright, hundamaged, hhalts⟩

/-- Of an undamaged session all items are kept. -/
theorem Undamaged.not_damages {l : Lexing} {depth : Nat} {items : List (Item TermId)} {s : Session}
    {t : Tree} (h : Undamaged l depth items s) (ht : s.tree.Prefix t) :
    ∀ item ∈ items, t.damages item = false :=
  fun item hitem => ht.not_damages h.whole (h.read item hitem) (h.covered.mem item hitem)

theorem Undamaged.holds {l : Lexing} {depth : Nat} {items : List (Item TermId)} {s : Session}
    (h : Undamaged l depth items s) : s.tree.Holds items where
  roots item hitem id hid := Tree.mem_nodes_term.mpr (h.covered.mem item hitem id hid)
  children _ _ _ hchild := h.sound.tree.mem_of_mem_childrenOf hchild

/-- Without recovery a text is read up to the first item that is damaged: the reports are the
lexical ones and the first one of the grammar, and the items in front of the damage are the same,
with the same nodes, spans and dumps. -/
theorem stopping_early (source : String) (depth : Nat) :
    let all := Program.ofText source ⟨depth, true⟩
    let first := Program.ofText source ⟨depth, false⟩
    (∃ reports, all.diagnostics = (Lexing.ofText source).diagnostics ++ reports ∧
        first.diagnostics = (Lexing.ofText source).diagnostics ++ reports.take 1) ∧
      first.program.items = all.program.items.takeWhile (!all.program.tree.damages ·) ∧
      (∃ kept : Tree, kept.Holds first.program.items ∧ kept.Prefix first.program.tree ∧
        kept.Prefix all.program.tree) ∧
      (∀ item ∈ first.program.items, first.program.itemSpan item = all.program.itemSpan item) ∧
      first.program.itemDumps = all.program.itemDumps.take first.program.items.length ∧
      ((∀ item ∈ all.program.items, all.program.tree.damages item = false) → first = all) := by
  obtain ⟨items, t, hall, ⟨hfirst, hundamaged⟩ | ⟨first, u, v, hfirst, hundamaged, hhalts⟩⟩ :=
    Program.parts source depth
  · have hclean := hundamaged.not_damages (.refl t.tree)
    rw [hall, hfirst]
    refine ⟨⟨[], by simp [hundamaged.diagnostics], by simp [hundamaged.diagnostics]⟩, ?_,
      ⟨t.tree, hundamaged.holds, .refl _, .refl _⟩, fun _ _ => rfl, ?_, fun _ => rfl⟩
    · rw [← List.append_nil items, List.takeWhile_append_of_pos fun item hitem => by
        simp [hclean item hitem], List.takeWhile_nil]
    · simp [Program.itemDumps]
  · obtain ⟨e, hreport, more, hreports⟩ := hhalts.report
    obtain ⟨item, rest, rfl, hdamaged⟩ := hhalts.damaged
    have hclean := hundamaged.not_damages hhalts.behind
    have hroots := hundamaged.covered.mem
    rw [hall, hfirst]
    refine ⟨⟨e.toDiagnostic :: more, ?_, ?_⟩, ?_,
      ⟨v.tree, hundamaged.holds, hhalts.before, hhalts.behind⟩, fun old hold => ?_, ?_, fun h => ?_⟩
    · rw [← hreports, hreport, hundamaged.diagnostics]
      simp
    · rw [hreport, hundamaged.diagnostics]
      simp
    · rw [List.takeWhile_append_of_pos fun item hitem => by simp [hclean item hitem],
        List.takeWhile_cons_of_neg (by simp [hdamaged]), List.append_nil]
    · exact (hhalts.before.itemSpan (hroots old hold)).trans
        (hhalts.behind.itemSpan (hroots old hold)).symm
    · rw [hhalts.before.itemDumps hundamaged.sound.tree hroots,
        ← hhalts.behind.itemDumps hundamaged.sound.tree hroots]
      simp [Program.itemDumps]
    · have hwhole := h item (by simp)
      rw [hdamaged] at hwhole
      cases hwhole

set_option maxRecDepth 100000 in
/-- Of a definition, one with a broken body and an assertion, the first is read without recovery. -/
theorem stopping_early_broken :
    let all := Program.ofText "def a : 1n def b : ) assert x : y type" ⟨256, true⟩
    let first := Program.ofText "def a : 1n def b : ) assert x : y type" ⟨256, false⟩
    (all.program.items.length = 4 ∧ all.diagnostics.length = 2) ∧
      first.program.items = all.program.items.take 1 ∧
      first.diagnostics = all.diagnostics.take 1 := by
  intro all first
  obtain ⟨⟨reports, hall, hfirst⟩, hitems, -⟩ :=
    stopping_early "def a : 1n def b : ) assert x : y type" 256
  have hlexical : (Lexing.ofText "def a : 1n def b : ) assert x : y type").diagnostics = [] := by
    decide +kernel
  have hundamaged : all.program.items.takeWhile (!all.program.tree.damages ·) =
      all.program.items.take 1 := by decide +kernel
  refine ⟨by decide +kernel, hitems.trans hundamaged, ?_⟩
  rw [hlexical, List.nil_append] at hall hfirst
  exact hfirst.trans (congrArg (·.take 1) hall.symm)

end BendSyntax
