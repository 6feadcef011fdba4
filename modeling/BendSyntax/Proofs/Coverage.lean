import BendSyntax.Proofs.Layout.Texts
import BendSyntax.Proofs.Layout.Tokens

/-! How much of a text the items cover that are read from it with recovery. Items lie one behind
the other, roots lie in their items, and tokens lie in items, with two exceptions: a body that is
missing is marked behind its definition, and where an error comes up right in front of the next
item, the tokens in front of the error are in no item. -/

namespace BendSyntax

open Reading Grammar Owner

namespace Program

/-- A token that lies in the span of an item. -/
def Spans (p : Program) (x : Token) : Prop :=
  ∃ item ∈ p.items, (p.itemSpan item).contains x.span = true

instance (p : Program) (x : Token) : Decidable (p.Spans x) :=
  inferInstanceAs (Decidable (∃ item ∈ p.items, (p.itemSpan item).contains x.span = true))

/-- A token behind the place of an error item whose region is empty, and in front of the items that
follow. -/
def Drops (p : Program) (x : Token) : Prop :=
  ∃ before region after, p.items = before ++ .error region :: after ∧ region.isEmpty = true ∧
    region.start ≤ x.span.start ∧ ∀ item ∈ after, x.span.stop ≤ (p.itemSpan item).start

end Program

/-- An error node for a missing body: its span is empty and lies where the next item begins or the
text ends. -/
def Tree.Lacks (t : Tree) (tokens : Tokens) (id : TermId) : Prop :=
  t.term? id = some .error ∧
    ∃ x ∈ tokens.toList, x.kind.startsItem = true ∧ t.span id = x.span.opening

/-- What is kept of a text. -/
structure Program.KeepsText (p : Program) (tokens : Tokens) : Prop where
  ordered : p.items.Pairwise fun a b => (p.itemSpan a).stop ≤ (p.itemSpan b).start
  roots : ∀ item ∈ p.items, ∀ id ∈ item.roots,
    (p.itemSpan item).contains (p.tree.span id) = true ∨ p.tree.Lacks tokens id
  tokens : ∀ x ∈ tokens.body, x.kind ≠ .mark .semicolon → p.Spans x ∨ p.Drops x

/-- The span of an item stays what it is when nodes are added. -/
theorem Tree.Prefix.itemSpan {item : Item TermId} {t u : Tree} (h : t.Prefix u)
    (hmem : ∀ id ∈ item.roots, id.index < t.terms.size) : u.itemSpan item = t.itemSpan item := by
  cases item with
  | expr id => exact h.span (hmem id (by simp [Item.roots]))
  | _ => rfl

/-- What the items that were read so far cover of the tokens in front of the cursor. -/
structure Covered (tokens : Tokens) (items : List (Item TermId)) (s : Session) : Prop where
  sound : s.Sound
  outside : s.cursor.split = false
  reach : (Cursor.start tokens).Reaches s.cursor
  mem : ∀ item ∈ items, ∀ id ∈ item.roots, id.index < s.tree.terms.size
  ordered : items.Pairwise fun a b => (s.tree.itemSpan a).stop ≤ (s.tree.itemSpan b).start
  behind : ∀ item ∈ items, (s.tree.itemSpan item).stop ≤ s.cursor.span.start
  roots : ∀ item ∈ items, ∀ id ∈ item.roots,
    (s.tree.itemSpan item).contains (s.tree.span id) = true ∨ s.tree.Lacks tokens id
  tokens : ∀ x ∈ tokens.body, x ∈ s.cursor.rest ∨ x.kind = .mark .semicolon ∨
    (⟨s.tree, items⟩ : Program).Spans x ∨
      (⟨s.tree, items⟩ : Program).Drops x ∧ x.span.stop ≤ s.cursor.span.start

variable {tokens : Tokens} {items : List (Item TermId)} {item : Item TermId} {s t : Session}

namespace Covered

/-- The next token, or the end of the text, is one of the tokens. -/
theorem token_mem (hreach : (Cursor.start tokens).Reaches t.cursor) :
    t.cursor.token ∈ tokens.toList := by
  obtain ⟨n, -, hrest, -, heof⟩ := hreach
  unfold Cursor.token
  split
  · rename_i x xs hcons
    have hx : x ∈ tokens.body.drop n := hrest ▸ hcons ▸ List.mem_cons_self
    exact List.mem_append_left _ (List.mem_of_mem_drop hx)
  · rw [heof]
    simp [Tokens.toList, Cursor.start]

theorem lacks (hreach : (Cursor.start tokens).Reaches t.cursor) (houtside : t.cursor.split = false)
    {id : TermId} (h : t.Missing id) : t.tree.Lacks tokens id := by
  refine ⟨h.term, t.cursor.token, token_mem hreach, ?_, ?_⟩
  · rw [← Cursor.kind_of_not_split houtside]
    exact h.starts
  · rw [h.span]
    simp [Cursor.span, houtside]

section Passes

variable (h : Covered tokens items s) (hpasses : s.Passes t item)

include h hpasses

theorem itemSpan_of_passes {old : Item TermId} (hold : old ∈ items) :
    t.tree.itemSpan old = s.tree.itemSpan old :=
  hpasses.tree.itemSpan (h.mem old hold)

theorem ordered_of_passes :
    (items ++ [item]).Pairwise fun a b => (t.tree.itemSpan a).stop ≤ (t.tree.itemSpan b).start := by
  refine List.pairwise_append.mpr ⟨?_, List.pairwise_singleton _ _, fun old hold new hnew => ?_⟩
  · refine h.ordered.imp_of_mem fun ha hb hle => ?_
    rwa [h.itemSpan_of_passes hpasses ha, h.itemSpan_of_passes hpasses hb]
  · rw [List.mem_singleton.mp hnew, h.itemSpan_of_passes hpasses hold]
    exact Nat.le_trans (h.behind old hold) (Nat.le_of_eq hpasses.start.symm)

theorem roots_of_passes (hreach : (Cursor.start tokens).Reaches t.cursor) :
    ∀ old ∈ items ++ [item], ∀ id ∈ old.roots,
      (t.tree.itemSpan old).contains (t.tree.span id) = true ∨ t.tree.Lacks tokens id := by
  intro old hold id hid
  rcases List.mem_append.mp hold with hold | hnew
  · have hmem := h.mem old hold id hid
    rw [h.itemSpan_of_passes hpasses hold, hpasses.tree.span hmem, Tree.Lacks,
      hpasses.tree.term? hmem, hpasses.tree.span hmem]
    exact h.roots old hold id hid
  · obtain rfl := List.mem_singleton.mp hnew
    exact (hpasses.roots id hid).imp_right (lacks hreach hpasses.outside)

/-- What lies in an item or is dropped stays so. -/
theorem spans_of_passes {x : Token} (hx : (⟨s.tree, items⟩ : Program).Spans x) :
    (⟨t.tree, items ++ [item]⟩ : Program).Spans x := by
  obtain ⟨old, hold, hcontains⟩ := hx
  refine ⟨old, List.mem_append_left _ hold, ?_⟩
  change (t.tree.itemSpan old).contains x.span = true
  rw [h.itemSpan_of_passes hpasses hold]
  exact hcontains

theorem drops_of_passes {x : Token} (hx : (⟨s.tree, items⟩ : Program).Drops x)
    (hstop : x.span.stop ≤ s.cursor.span.start) :
    (⟨t.tree, items ++ [item]⟩ : Program).Drops x := by
  obtain ⟨before, region, after, hitems, hempty, hstart, hafter⟩ := hx
  have hitems : items = before ++ .error region :: after := hitems
  refine ⟨before, region, after ++ [item], by simp [hitems], hempty, hstart, fun later hlater => ?_⟩
  change x.span.stop ≤ (t.tree.itemSpan later).start
  rcases List.mem_append.mp hlater with hlater | hnew
  · rw [h.itemSpan_of_passes hpasses (by simp [hitems, hlater])]
    exact hafter later hlater
  · exact List.mem_singleton.mp hnew ▸ Nat.le_trans hstop (Nat.le_of_eq hpasses.start.symm)

/-- One more item. -/
theorem passes (hst : s.cursor.Reaches t.cursor) : Covered tokens (items ++ [item]) t := by
  have hfront := h.sound.cursor.start_le_of_reaches h.outside hpasses.outside hst
  refine {
    sound := hpasses.sound
    outside := hpasses.outside
    reach := h.reach.trans hst
    mem := ?_
    ordered := h.ordered_of_passes hpasses
    behind := ?_
    roots := h.roots_of_passes hpasses (h.reach.trans hst)
    tokens := fun x hx => ?_ }
  · intro old hold id hid
    rcases List.mem_append.mp hold with hold | hnew
    · exact Nat.lt_of_lt_of_le (h.mem old hold id hid) hpasses.tree.size_terms
    · exact hpasses.mem id (List.mem_singleton.mp hnew ▸ hid)
  · intro old hold
    rcases List.mem_append.mp hold with hold | hnew
    · rw [h.itemSpan_of_passes hpasses hold]
      exact Nat.le_trans (h.behind old hold) hfront
    · exact List.mem_singleton.mp hnew ▸ hpasses.stop
  · rcases h.tokens x hx with hrest | hsemicolon | hspans | ⟨hdrops, hstop⟩
    · rcases hpasses.tokens x hrest with hrest | hsemicolon | hcontains | ⟨rfl, hstop⟩
      · exact .inl hrest
      · exact .inr (.inl hsemicolon)
      · exact .inr (.inr (.inl ⟨item, by simp, hcontains⟩))
      · refine .inr (.inr (.inr ⟨⟨items, s.cursor.span.opening, [], rfl, ?_, ?_, nofun⟩, hstop⟩))
        · simp [Span.isEmpty, Span.opening]
        · exact h.sound.cursor.start_le_of_mem h.outside hrest
    · exact .inr (.inl hsemicolon)
    · exact .inr (.inr (.inl (h.spans_of_passes hpasses hspans)))
    · exact .inr (.inr (.inr ⟨h.drops_of_passes hpasses hdrops hstop, Nat.le_trans hstop hfront⟩))

end Passes

/-- A semicolon that is accepted is in no item. -/
theorem accept (h : Covered tokens items s) {setting : Setting} {b : Bool}
    (ht : (accept (.mark .semicolon)).run setting s = .ok b t) : Covered tokens items t := by
  have hpassed := passed_semicolon h.sound.cursor.toAhead ht
  obtain ⟨hsound, hgrows, -⟩ := ht ▸ quiet_accept _ setting s h.sound (Nat.le_refl _) trivial
  have htree := tree_accept ht
  have hfront := hgrows.cursor.front
  exact {
    sound := hsound
    outside := hsound.cursor.split_of_outside
      (StaysOutside.accept _ _ _ _ _ (.of_split h.outside) ht)
    reach := h.reach.trans (onward_of_ok ht).cursor
    mem := htree ▸ h.mem
    ordered := htree ▸ h.ordered
    behind := fun item hitem => Nat.le_trans (htree ▸ h.behind item hitem) hfront
    roots := htree ▸ h.roots
    tokens := fun x hx => by
      rw [htree]
      rcases h.tokens x hx with hrest | hsemicolon | hspans | ⟨hdrops, hstop⟩
      · exact (hpassed x hrest).imp_right .inl
      · exact .inr (.inl hsemicolon)
      · exact .inr (.inr (.inl hspans))
      · exact .inr (.inr (.inr ⟨hdrops, Nat.le_trans hstop hfront⟩)) }

theorem semicolons (h : Covered tokens items s) {setting : Setting}
    (ht : semicolons.run setting s = .ok () t) : Covered tokens items t := by
  let step : Unit → Reading (Round Unit) := fun _ => do
    if ← Reading.accept (.mark .semicolon) then return .more () else return .done ()
  have hround {s u : Session} {x : Round Unit} (h : Covered tokens items s)
      (hu : (step ()).run setting s = .ok x u) : Covered tokens items u := by
    obtain ⟨b, v, hv, hu⟩ := ok_of_bind hu
    cases b <;> cases hu <;> exact h.accept hv
  suffices hloop : ∀ a b, runLoop step setting a s = .ok b t → Covered tokens items t from
    hloop () () ht
  clear ht
  intro a b hab
  fun_induction runLoop with
  | case1 a s c now hstep =>
      cases hab
      exact hround h hstep
  | case2 a s c now hstep hlt ih => exact ih (hround h hstep) hab
  | case3 a s c now hstep hge =>
      cases hab
      exact hround h hstep
  | case4 a s e now hstep => cases hab

section Rounds

variable {setting : Setting} {read : Array (Item TermId)} (hrecover : setting.config.recover = true)

include hrecover

/-- Behind an item that was read or skipped and the semicolons behind it. -/
theorem round {d : Nat} {items : List (Item TermId)} (h : Covered tokens items s)
    (hkind : s.cursor.kind ≠ .eof) {u : Session}
    (hu : (recovering id (skipItem s.cursor) (Grammar.item (nested d))).run setting s = .ok item u)
    (ht : Grammar.semicolons.run setting u = .ok () t) :
    s.tree.Prefix t.tree ∧ Covered tokens (items ++ [item]) t := by
  have hpasses := passes_recovering h.sound h.outside hkind hrecover hu
  obtain ⟨-, hgrows, -⟩ := ht ▸ quiet_semicolons setting u hpasses.sound (Nat.le_refl _) trivial
  exact ⟨hpasses.tree.trans hgrows.treePrefix,
    (h.passes hpasses (onward_of_ok hu).cursor).semicolons ht⟩

/-- With recovery, a round adds an item unless no token is left. -/
theorem of_itemRound {d : Nat} (h : Covered tokens read.toList s)
    {x : Round (Array (Item TermId))} (hx : (itemRound (nested d) read).run setting s = .ok x t) :
    (x = .done read ∧ t = s ∧ s.cursor.rest = []) ∨
      ∃ item, x = .more (read.push item) ∧ t.cursor.remaining < s.cursor.remaining ∧
        s.tree.Prefix t.tree ∧ Covered tokens (read.push item).toList t := by
  obtain hdone | ⟨hkind, hlt, item, u, hx, hsemicolons, hitem⟩ :=
    itemRound_cases h.sound hrecover hx
  · exact .inl hdone
  · exact .inr ⟨item, hx, hlt, Array.toList_push ▸ h.round hrecover hkind hitem hsemicolons⟩

/-- A round behind which another one follows has added an item. -/
theorem of_more {d : Nat} {items : Array (Item TermId)} (h : Covered tokens read.toList s)
    (ht : (itemRound (nested d) read).run setting s = .ok (.more items) t) :
    t.cursor.remaining < s.cursor.remaining ∧ s.tree.Prefix t.tree ∧ read.toList <+: items.toList ∧
      Covered tokens items.toList t := by
  rcases h.of_itemRound hrecover ht with ⟨hx, -⟩ | ⟨item, hx, hlt, htree, hcovered⟩ <;> cases hx
  exact ⟨hlt, htree, by simp, hcovered⟩

/-- When all items have been read, no token is left. -/
theorem runLoop {d : Nat} (h : Covered tokens read.toList s) {items : Array (Item TermId)}
    (ht : Reading.runLoop (itemRound (nested d)) setting read s = .ok items t) :
    Covered tokens items.toList t ∧ t.cursor.rest = [] :=
  runLoop_items hrecover (fun _ _ h => h.sound)
    (fun _ _ _ _ _ h hkind hitem hsemicolons =>
      (h.round hrecover hkind hitem hsemicolons).2) h ht

end Rounds

theorem initial (source : String) :
    Covered (Lexing.ofText source).tokens [] (initial (Lexing.ofText source)) where
  sound := Session.sound_initial source
  outside := rfl
  reach := .refl _
  mem := nofun
  ordered := .nil
  behind := nofun
  roots := nofun
  tokens := fun _ hx => .inl hx

end Covered

/-- With recovery, the items of a text lie one behind the other and hold its tokens and their
roots, except for missing bodies and for what stands in front of an error behind which nothing is
skipped. -/
theorem text_kept (source : String) {config : Config} (hrecover : config.recover = true) :
    (Program.ofText source config).program.KeepsText (Lexing.ofText source).tokens := by
  obtain ⟨items, s, hloop, hread⟩ := Program.read_runLoop config true source
  rw [Program.ofText, hread]
  obtain ⟨hcovered, hrest⟩ := (Covered.initial source).runLoop hrecover hloop
  refine ⟨hcovered.ordered, hcovered.roots, fun x hx hsemicolon => ?_⟩
  rcases hcovered.tokens x hx with hleft | hkind | hspans | ⟨hdrops, -⟩
  · rw [hrest] at hleft
    cases hleft
  · exact absurd hkind hsemicolon
  · exact .inl hspans
  · exact .inr hdrops

set_option maxRecDepth 100000 in
/-- A damaged body, a missing one and a token in front of the first item. -/
theorem text_kept_broken :
    Config.standard.recover = true ∧
      (Program.ofText ") def a : def b : ) 1n" .standard).diagnostics.length = 3 ∧
      (Program.ofText ") def a : def b : ) 1n" .standard).program.KeepsText
        (Lexing.ofText ") def a : def b : ) 1n").tokens :=
  ⟨rfl, by decide +kernel, text_kept _ rfl⟩

set_option maxRecDepth 100000 in
/-- A parenthesis that is passed because it begins no item is in no item when an item follows it at
once, and the node for a body that is missing is not in its definition. -/
theorem text_kept_leaves_out :
    (∃ x ∈ (Lexing.ofText ") def a : 1n").tokens.body, x.kind ≠ .mark .semicolon ∧
      ¬ (Program.ofText ") def a : 1n" .standard).program.Spans x) ∧
    ∃ item ∈ (Program.ofText "def a : def b : 1n" .standard).program.items, ∃ id ∈ item.roots,
      ((Program.ofText "def a : def b : 1n" .standard).program.itemSpan item).contains
        ((Program.ofText "def a : def b : 1n" .standard).program.tree.span id) = false := by
  decide +kernel

end BendSyntax
