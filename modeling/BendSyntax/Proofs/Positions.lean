import BendSyntax.Proofs.Lexing.Tiling
import BendSyntax.Proofs.Lexing.Names
import BendSyntax.Proofs.Triple

/-! Spans of the source. Every span that comes up while a text is read begins and ends between two
of its characters and knows the line and the column of the first of them. Behind the first token
the span of the last token that was read is such a span; in front of it there is none. -/

namespace BendSyntax

open Reading

/-! ## Spans -/

namespace Span

variable {source : List Char} {s t : Span}

/-- A span of the source that is not empty. -/
structure Proper (source : List Char) (s : Span) : Prop where
  within : s.Within source
  nonempty : s.start < s.stop

/-- Of two beginnings of a text that are as long as each other in bytes neither is longer. -/
theorem eq_of_utf8ByteSize_eq {before before' : List Char} (h : before <+: before')
    (hsize : (String.ofList before).utf8ByteSize = (String.ofList before').utf8ByteSize) :
    before = before' := by
  obtain ⟨more, rfl⟩ := h
  rw [utf8ByteSize_append] at hsize
  cases more with
  | nil => simp
  | cons c cs =>
      have := c.utf8Size_pos
      rw [utf8ByteSize_cons] at hsize
      omega

/-- Where a span of the source begins and where one ends are places between characters, whatever
the two spans are. -/
theorem Within.join (h : s.Within source) (k : t.Within source) (hle : s.start ≤ t.stop) :
    (⟨s.start, t.stop, s.line, s.column⟩ : Span).Within source := by
  obtain ⟨before, covered, rest, hsource, hs⟩ := h
  obtain ⟨before', covered', rest', hsource', ht⟩ := k
  have hprefix : before <+: source := ⟨covered ++ rest, by rw [hsource, List.append_assoc]⟩
  have hprefix' : before' ++ covered' <+: source := ⟨rest', by rw [hsource']⟩
  have hbefore : before <+: before' ++ covered' := by
    rcases List.prefix_or_prefix_of_prefix hprefix hprefix' with hbefore | hbehind
    · exact hbefore
    · obtain ⟨more, hmore⟩ := hbehind
      have hsize := congrArg (fun cs => (String.ofList cs).utf8ByteSize) hmore
      simp only [utf8ByteSize_append] at hsize
      rw [hs.start, ht.stop] at hle
      have heq : before' ++ covered' = before :=
        eq_of_utf8ByteSize_eq ⟨more, hmore⟩ (by rw [utf8ByteSize_append] at hle ⊢; omega)
      exact heq ▸ List.prefix_refl _
  obtain ⟨middle, hmiddle⟩ := hbefore
  exact ⟨before, middle, rest', by rw [hmiddle, hsource'], hs.start, hmiddle ▸ ht.stop, hs.line,
    hs.column⟩

/-- Lines are counted from one. -/
theorem Within.ne_zero (h : s.Within source) : s ≠ zero := by
  obtain ⟨before, covered, rest, -, hs⟩ := h
  rintro rfl
  have hline := hs.line
  simp only [zero] at hline
  omega

theorem Within.start_le_stop (h : s.Within source) : s.start ≤ s.stop := by
  obtain ⟨before, covered, rest, -, hs⟩ := h
  rw [hs.start, hs.stop, utf8ByteSize_append]
  exact Nat.le_add_right _ _

theorem Within.hull (h : s.Within source) (k : t.Within source) : (s.hull t).Within source := by
  have hs := h.start_le_stop
  have ht := k.start_le_stop
  unfold Span.hull
  by_cases hle : s.start ≤ t.start <;> by_cases hstop : s.stop ≤ t.stop <;>
    simp only [hle, if_true, if_false]
  · rw [Nat.max_eq_right hstop]
    exact h.join k (Nat.le_trans hs hstop)
  · rw [Nat.max_eq_left (Nat.le_of_not_le hstop)]
    exact h
  · rw [Nat.max_eq_right hstop]
    exact k
  · rw [Nat.max_eq_left (Nat.le_of_not_le hstop)]
    exact k.join h (Nat.le_trans (Nat.le_of_lt (Nat.lt_of_not_le hle)) hs)

theorem Within.opening (h : s.Within source) : s.opening.Within source := by
  obtain ⟨before, covered, rest, hsource, hs⟩ := h
  refine ⟨before, [], covered ++ rest, by simp [hsource], hs.start, ?_, hs.line, hs.column⟩
  rw [List.append_nil]
  exact hs.start

theorem Proper.hull (h : s.Proper source) (k : t.Within source) : (s.hull t).Proper source := by
  refine ⟨h.within.hull k, ?_⟩
  have := h.nonempty
  rw [hull_start, hull_stop]
  omega

end Span

/-! ## Cursors -/

/-- A token with a span of the source. Half of a `>>` has one, too. -/
structure Token.Accurate (source : List Char) (t : Token) : Prop where
  kind : t.kind ≠ .eof
  span : t.span.Proper source
  first : t.kind = .mark .shiftRight →
    (⟨t.span.start, t.span.start + 1, t.span.line, t.span.column⟩ : Span).Within source
  second : t.kind = .mark .shiftRight →
    (⟨t.span.start + 1, t.span.stop, t.span.line, t.span.column + 1⟩ : Span).Proper source

structure Cursor.Accurate (source : List Char) (c : Cursor) : Prop where
  tokens : ∀ t ∈ c.rest, t.Accurate source
  eof : c.eof.kind = .eof ∧ c.eof.span.Within source
  split : c.split = true → c.token.kind = .mark .shiftRight
  last : 0 < c.index → c.last.Within source

/-- The two halves of a `>>` are spans of the source. -/
theorem Token.halves_accurate {source : List Char} {t : Token}
    (hwithin : t.span.Within source) (htext : t.span.text? source = some ['>', '>']) :
    (⟨t.span.start, t.span.start + 1, t.span.line, t.span.column⟩ : Span).Within source ∧
      (⟨t.span.start + 1, t.span.stop, t.span.line, t.span.column + 1⟩ : Span).Proper source := by
  obtain ⟨before, covered, rest, rfl, hs⟩ := hwithin
  obtain rfl : covered = ['>', '>'] := by
    rw [hs.text? rest] at htext
    exact Option.some.inj htext
  have hsize : (String.ofList ['>']).utf8ByteSize = 1 := by decide
  have hstart : (String.ofList (before ++ ['>'])).utf8ByteSize = t.span.start + 1 := by
    rw [Span.utf8ByteSize_append, hs.start, hsize]
  have hstop : t.span.stop = t.span.start + 2 := by
    have hboth : (String.ofList ['>', '>']).utf8ByteSize = 2 := by decide
    rw [hs.stop, Span.utf8ByteSize_append, hs.start, hboth]
  refine ⟨⟨before, ['>'], '>' :: rest, by simp, hs.start, hstart.symm, hs.line, hs.column⟩,
    ⟨before ++ ['>'], ['>'], rest, by simp, hstart.symm, ?_, ?_, ?_⟩, ?_⟩
  · rw [List.append_assoc]
    exact hs.stop
  · rw [hs.line]
    simp
  · rw [hs.column]
    simp [Nat.add_assoc]
  · change t.span.start + 1 < t.span.stop
    omega

theorem Lexing.accurate_of_mem {source : String} {t : Token}
    (ht : t ∈ (ofText source).tokens.body) : t.Accurate source.toList := by
  have htiles := tiles_ofText source
  have hmem : t ∈ (ofText source).tokens.toList := List.mem_append_left _ ht
  have hhalves (hkind : t.kind = .mark .shiftRight) := by
    refine Token.halves_accurate (htiles.within t hmem) ?_
    obtain ⟨signed, cs, hscanned, htext⟩ := exists_scanned_of_mem none .start source.toList hmem
    rw [htiles.lexeme t hmem, htext]
    cases cs with
    | nil => simp [hkind, Scanned.next, Scanned.valid] at hscanned
    | cons c cs =>
        rw [(Scanned.Spelled.next signed c cs).mark .shiftRight (hscanned ▸ hkind)]
        rfl
  exact ⟨(htiles.body t ht).1, ⟨htiles.within t hmem, (htiles.body t ht).2⟩,
    fun hkind => (hhalves hkind).1, fun hkind => (hhalves hkind).2⟩

namespace Cursor.Accurate

variable {source : List Char} {c : Cursor}

theorem start (source : String) : (start (Lexing.ofText source).tokens).Accurate source.toList where
  tokens _ ht := Lexing.accurate_of_mem ht
  eof := ⟨(Lexing.tiles_ofText source).eof.1,
    (Lexing.tiles_ofText source).within _
      (List.mem_append_right _ (List.mem_singleton.mpr rfl))⟩
  split := nofun
  last := nofun

/-- In front of the end of the text stands a token. -/
theorem token_mem (h : c.Accurate source) (hkind : c.kind ≠ .eof) : c.token ∈ c.rest := by
  unfold token
  split
  · simp_all
  · rename_i hrest
    have htoken : c.token = c.eof := by simp [token, hrest]
    refine absurd ?_ hkind
    rw [kind, htoken, h.eof.1]
    simp

theorem span_proper (h : c.Accurate source) (hkind : c.kind ≠ .eof) : c.span.Proper source := by
  have htoken := h.tokens _ (h.token_mem hkind)
  unfold Cursor.span
  split
  · exact htoken.second (h.split ‹_›)
  · exact htoken.span

theorem span_within (h : c.Accurate source) : c.span.Within source := by
  by_cases hkind : c.kind = .eof
  · have hsplit : c.split ≠ true := fun hsplit => by simp [kind, hsplit, h.split hsplit] at hkind
    rw [Cursor.span, if_neg hsplit]
    unfold token
    split
    · rename_i t ts hrest
      have ht : t ∈ c.rest := hrest ▸ List.mem_cons_self
      exact (h.tokens t ht).span.within
    · exact h.eof.2
  · exact (h.span_proper hkind).within

theorem advance (h : c.Accurate source) : c.advance.Accurate source := by
  have hspan := h.span_within
  unfold Cursor.advance
  split
  · rename_i t ts hrest
    exact ⟨fun u hu => h.tokens u (hrest ▸ List.mem_cons_of_mem t hu), h.eof, nofun, fun _ => hspan⟩
  · exact ⟨h.tokens, h.eof, h.split, fun _ => hspan⟩

theorem halve (h : c.Accurate source) (hkind : c.kind = .mark .shiftRight) :
    c.halve.Accurate source := by
  have htoken : c.token.kind = .mark .shiftRight := by
    unfold kind at hkind
    split at hkind
    · cases hkind
    · exact hkind
  have hmem : c.token ∈ c.rest := h.token_mem (by rw [hkind]; nofun)
  exact ⟨h.tokens, h.eof, fun _ => htoken, fun _ => (h.tokens _ hmem).first htoken⟩

theorem whole (h : c.Accurate source) : c.whole.Accurate source :=
  ⟨h.tokens, h.eof, nofun, h.last⟩

end Cursor.Accurate

/-! ## Trees -/

section Spans

variable {τ π : Type}

def Param.spans : Param τ π → List Span
  | name _ span => [span]
  | typed binder => [binder.span]
  | patterns _ => []

def CaseBlock.spans (b : CaseBlock τ) : List Span := b.cases.map (·.span)

/-- The spans of binders, clauses and cases in a layer of a term. -/
def Term.spans : Term τ π → List Span
  | all binders _ => binders.map (·.span)
  | any binder _ => [binder.span]
  | lam params _ => params.flatMap (·.spans)
  | lamMatch block => block.spans
  | tildeMatch _ block => block.spans
  | matchOn _ withs cases => withs.map (·.span) ++ cases.map (·.span)
  | _ => []

def DefForm.spans : DefForm τ → List Span
  | full params _ _ => params.map (·.span)
  | _ => []

/-- The spans in an item that are not in its terms. -/
def Item.spans : Item τ → List Span
  | definition d => d.span :: (d.typeParams.map (·.span) ++ d.form.spans)
  | typeDef d => d.span :: (d.typeParams.map (·.span) ++ d.params.map (·.span) ++
      d.cases.flatMap fun c => c.span :: c.fields.map (·.span))
  | assertion _ _ span => [span]
  | proof _ _ _ span => [span]
  | expr _ => []
  | error span => [span]

end Spans

/-- A term with a span of the source, which is empty only if the term stands for text that could not
be read. -/
structure TermNode.Accurate (source : List Char) (node : TermNode) : Prop where
  span : node.span.Within source
  nonempty : node.term ≠ .error → node.span.start < node.span.stop
  inner : ∀ s ∈ node.term.spans, s.Within source

structure Tree.Accurate (source : List Char) (t : Tree) : Prop where
  terms : ∀ node ∈ t.terms, node.Accurate source
  patterns : ∀ node ∈ t.patterns, node.span.Proper source

def Item.Accurate (source : List Char) (item : Item TermId) : Prop :=
  ∀ s ∈ item.spans, s.Within source

namespace Tree

variable {source : List Char} {t : Tree}

theorem mem_of_mem_take {α : Type} {a : α} {as : Array α} {n : Nat} (h : a ∈ as.take n) :
    a ∈ as := by
  have htake : a ∈ as.toList.take n := by simpa using Array.mem_toList_iff.mpr h
  exact Array.mem_toList_iff.mp (List.mem_of_mem_take htake)

theorem Accurate.rewind (h : t.Accurate source) (m : Mark) : (t.rewind m).Accurate source :=
  ⟨fun node hnode => h.terms node (mem_of_mem_take hnode),
    fun node hnode => h.patterns node (mem_of_mem_take hnode)⟩

theorem Accurate.span (h : t.Accurate source) {id : TermId} (hid : id.index < t.terms.size) :
    (t.span id).Within source := by
  unfold Tree.span
  simp only [Array.getElem?_eq_getElem hid]
  exact (h.terms _ (Array.getElem_mem hid)).span

theorem Accurate.widen (h : t.Accurate source) {span : Span} (hspan : span.Within source)
    (id : TermId) : (t.widen id span).Accurate source := by
  refine ⟨fun node hnode => ?_, h.patterns⟩
  obtain ⟨i, hi, rfl⟩ := Array.mem_iff_getElem.mp hnode
  have hi' : i < t.terms.size := by simpa [Tree.widen] using hi
  have hold := h.terms _ (Array.getElem_mem hi')
  simp only [Tree.widen, Array.getElem_modify]
  split
  · refine ⟨hold.span.hull hspan, fun hterm => ?_, hold.inner⟩
    have := hold.nonempty hterm
    rw [Span.hull_start, Span.hull_stop]
    omega
  · exact hold

end Tree

/-! ## Sessions -/

/-- A session whose spans are all spans of the source. -/
structure Session.Accurate (source : List Char) (s : Session) : Prop where
  cursor : s.cursor.Accurate source
  tree : s.tree.Accurate source
  diagnostics : ∀ d ∈ s.diagnostics, d.span.Within source

/-- Such a session behind the first token. -/
structure Session.Begun (source : List Char) (s : Session) : Prop extends s.Accurate source where
  begun : 0 < s.cursor.index

namespace Session.Accurate

variable {source : List Char} {s t : Session}

theorem report (h : s.Accurate source) {e : SyntaxError} (he : e.span.Within source) :
    (s.report e).Accurate source := by
  refine ⟨h.cursor, h.tree, fun d hd => ?_⟩
  rcases Array.mem_push.mp hd with hd | rfl
  · exact h.diagnostics d hd
  · exact he

theorem of_report {e : SyntaxError} (h : (s.report e).Accurate source) :
    s.Accurate source ∧ e.span.Within source :=
  ⟨⟨h.cursor, h.tree, fun d hd => h.diagnostics d (Array.mem_push.mpr (.inl hd))⟩,
    h.diagnostics e.toDiagnostic (Array.mem_push.mpr (.inr rfl))⟩

theorem rewind (hs : s.Accurate source) (ht : t.Accurate source) : (t.rewind s).Accurate source :=
  ⟨hs.cursor, ht.tree.rewind _, fun d hd => ht.diagnostics d (Tree.mem_of_mem_take hd)⟩

theorem discard (ht : t.Accurate source) : (t.discard s).Accurate source :=
  ⟨ht.cursor, ht.tree.rewind _, ht.diagnostics⟩

end Session.Accurate

instance {source : List Char} : Invariant (Session.Accurate source) where
  complain hs he := hs.report (he ▸ hs.cursor.span_within)
  restate hs hf := hs.of_report.1.report (hf ▸ hs.of_report.2)
  remember _ hs := ⟨hs.cursor, hs.tree, hs.diagnostics⟩
  rewind hs ht _ := hs.rewind ht
  discard _ ht _ := ht.discard
  advance hs := ⟨hs.cursor.advance, hs.tree, hs.diagnostics⟩
  halve hs hkind := ⟨hs.cursor.halve hkind, hs.tree, hs.diagnostics⟩
  whole hs := ⟨hs.cursor.whole, hs.tree, hs.diagnostics⟩

instance {source : List Char} : Invariant (Session.Begun source) where
  complain hs he := ⟨Steady.complain hs.toAccurate he, hs.begun⟩
  restate hs hf := ⟨Steady.restate hs.toAccurate hf, hs.begun⟩
  remember failure hs := ⟨Steady.remember failure hs.toAccurate, hs.begun⟩
  rewind hs ht honward := ⟨Steady.rewind hs.toAccurate ht.toAccurate honward, hs.begun⟩
  discard hs ht honward := ⟨Steady.discard hs.toAccurate ht.toAccurate honward, ht.begun⟩
  advance {s} hs := by
    refine ⟨Invariant.advance hs.toAccurate, ?_⟩
    exact Nat.lt_of_lt_of_le hs.begun (Cursor.Reaches.advance s.cursor).index_le
  halve hs hkind := ⟨Invariant.halve hs.toAccurate hkind, hs.begun⟩
  whole hs := ⟨Invariant.whole hs.toAccurate, hs.begun⟩

/-! ## Readings -/

/-- A term that has been added to the tree. -/
def Session.Has (id : TermId) (s : Session) : Prop := id.index < s.tree.terms.size

theorem lasting_has (id : TermId) : Lasting (Session.Has id) :=
  fun _ _ honward hid => Nat.lt_of_lt_of_le hid honward.tree.size_terms

variable {α β : Type} {source : List Char} {c : Cursor}

/-- At some cursor, a reading keeps all spans right, and if it succeeds it has taken a token. -/
def Reading.EntersAt (source : List Char) (c : Cursor) (r : Reading α) (Q : α → Session → Prop) :
    Prop :=
  Triple (Session.Accurate source) (fun s => s.cursor = c) r fun a s =>
    Q a s ∧ c.span.Proper source ∧ 0 < s.cursor.index

/-- A reading keeps all spans right, and if it succeeds it has taken a token. -/
def Reading.Enters (source : List Char) (r : Reading α) (Q : α → Session → Prop) : Prop :=
  ∀ c, r.EntersAt source c Q

section Rules

variable {r : Reading α} {f : α → Reading β} {P : Session → Prop} {Q : α → Session → Prop}
  {R : β → Session → Prop}

namespace Triple

/-- Behind the first token all is as in front of it. -/
theorem begun (h : Triple (Session.Accurate source) P r Q) :
    Triple (Session.Begun source) P r Q := by
  intro setting s hs hP
  obtain ⟨haccurate, hanswer⟩ := h setting s hs.toAccurate hP
  refine ⟨⟨haccurate, Nat.lt_of_lt_of_le hs.begun ?_⟩, hanswer⟩
  have hreach := (r.onward setting s).cursor.index_le
  cases hr : r.run setting s with
  | ok a t => rwa [hr] at hreach
  | error e t => rwa [hr] at hreach

theorem of_begun (h : Triple (Session.Begun source) P r Q) :
    Triple (Session.Accurate source) (fun s => P s ∧ 0 < s.cursor.index) r
      fun a s => Q a s ∧ 0 < s.cursor.index := by
  intro setting s hs hP
  obtain ⟨hbegun, hanswer⟩ := h setting s ⟨hs, hP.2⟩ hP.1
  refine ⟨hbegun.toAccurate, fun a t ht => ⟨hanswer a t ht, ?_⟩⟩
  rw [ht] at hbegun
  exact hbegun.begun

theorem at_cursor {inv : Session → Prop}
    (h : ∀ c, Triple inv (fun s => s.cursor = c ∧ P s) r Q) : Triple inv P r Q :=
  fun setting s hs hP => h s.cursor setting s hs ⟨rfl, hP⟩

theorem cursor_accurate : Triple (Session.Accurate source) P Reading.cursor fun c s =>
    c.Accurate source ∧ s.cursor = c ∧ P s :=
  asks fun _ _ hs hP => ⟨hs.cursor, rfl, hP⟩

theorem here_within : Triple (Session.Accurate source) P Reading.here fun span _ => span.Within source :=
  cursor_accurate.bind fun _ => .pure fun _ h => h.1.span_within

theorem advance_within :
    Triple (Session.Accurate source) P Reading.advance fun span _ => span.Within source := by
  intro setting s hs _
  refine ⟨Invariant.advance hs, ?_⟩
  rintro span t ⟨⟩
  exact hs.cursor.span_within

theorem expect_within (k : TokenKind) :
    Triple (Session.Accurate source) P (Reading.expect k) fun span _ => span.Within source :=
  (sees k).bind fun _ => .ite (fun _ => advance_within) fun _ => .unexpected _

theorem identifier_within :
    Triple (Session.Accurate source) P Reading.identifier fun x _ => x.2.Within source :=
  cursor.bind fun _ => .ite (fun _ => advance_within.given fun _ hspan => .pure fun _ _ => hspan)
    fun _ => .unexpected _

/-! ### Nodes -/

variable {start span : Span} {term : Term TermId PatternId}

theorem since_within (hstart : start.Within source) : Triple (Session.Begun source) P (Reading.since start)
    fun span _ => span.Within source :=
  fun _ _ hs _ => ⟨hs, fun _ _ h => by
    cases h
    exact hstart.hull (hs.cursor.last hs.begun)⟩

theorem since_proper (hstart : start.Proper source) : Triple (Session.Begun source) P (Reading.since start)
    fun span _ => span.Proper source :=
  fun _ _ hs _ => ⟨hs, fun _ _ h => by
    cases h
    exact hstart.hull (hs.cursor.last hs.begun)⟩

theorem addTerm_accurate (h : ∀ usage, (⟨term, span, usage⟩ : TermNode).Accurate source) :
    Triple (Session.Accurate source) P (Reading.addTerm term span) Session.Has := by
  intro setting s hs _
  refine ⟨⟨hs.cursor, ⟨fun node hnode => ?_, hs.tree.patterns⟩, hs.diagnostics⟩, ?_⟩
  · rcases Array.mem_push.mp hnode with hnode | rfl
    · exact hs.tree.terms node hnode
    · exact h _
  · rintro id t ⟨⟩
    simp [Session.Has]

theorem addTerm_proper (hspan : span.Proper source)
    (hinner : ∀ s ∈ term.spans, s.Within source) :
    Triple (Session.Accurate source) P (Reading.addTerm term span) Session.Has :=
  addTerm_accurate fun _ => ⟨hspan.within, fun _ => hspan.nonempty, hinner⟩

theorem close_proper (hstart : start.Proper source)
    (hinner : ∀ s ∈ term.spans, s.Within source) :
    Triple (Session.Begun source) P (Reading.close start term) Session.Has :=
  (since_proper hstart).given fun _ hspan => (addTerm_proper hspan hinner).begun

theorem closePattern_proper {pattern : Pattern PatternId} (hstart : start.Proper source) :
    Triple (Session.Begun source) P (Reading.closePattern start pattern) fun _ _ => True := by
  refine (since_proper hstart).given fun span hspan setting s hs _ => ?_
  refine ⟨⟨⟨hs.cursor, ⟨hs.tree.terms, fun node hnode => ?_⟩, hs.diagnostics⟩, hs.begun⟩,
    fun _ _ _ => trivial⟩
  rcases Array.mem_push.mp hnode with hnode | rfl
  · exact hs.tree.patterns node hnode
  · exact hspan

theorem widen_within (id : TermId) (hspan : span.Within source) :
    Triple (Session.Accurate source) P (Reading.widen id span) fun _ _ => True :=
  fun _ _ hs _ => ⟨⟨hs.cursor, hs.tree.widen hspan id, hs.diagnostics⟩, fun _ _ _ => trivial⟩

theorem spanOf_within {id : TermId} (hP : ∀ s, P s → s.Has id) :
    Triple (Session.Accurate source) P (Reading.spanOf id) fun span _ => span.Within source :=
  asks fun _ s hs h => hs.tree.span (hP s h)

end Triple

namespace Reading

/-! ### The first token -/

namespace EntersAt

theorem bind (h : r.EntersAt source c Q)
    (hf : ∀ a, c.span.Proper source → Triple (Session.Begun source) (Q a) (f a) R) :
    (r >>= f).EntersAt source c R :=
  Triple.bind h fun a => .extract (fun _ hs => hs.2.1) fun hproper =>
    (Triple.of_begun (hf a hproper)).weaken (fun _ hs => ⟨hs.1, hs.2.2⟩)
      fun _ _ hs => ⟨hs.1, hproper, hs.2⟩

theorem weaken {Q' : α → Session → Prop} (h : r.EntersAt source c Q)
    (hQ : ∀ a s, Q a s → Q' a s) : r.EntersAt source c Q' :=
  Triple.weaken h (fun _ hP => hP) fun a s hs => ⟨hQ a s hs.1, hs.2⟩

theorem map {g : α → β} (h : r.EntersAt source c fun a => R (g a)) : (g <$> r).EntersAt source c R :=
  h.bind fun _ _ => .pure fun _ hR => hR

/-- What is asked first does not take a token. -/
theorem stay {p : α → Prop} (h : Triple (Session.Accurate source) (fun s => s.cursor = c) r
      fun a s => p a ∧ s.cursor = c) (hf : ∀ a, p a → (f a).EntersAt source c R) :
    (r >>= f).EntersAt source c R :=
  Triple.bind h fun a => .extract (fun _ hs => hs.1) fun ha =>
    Triple.mono (hf a ha) fun _ hs => hs.2

theorem ask {g : Setting → Session → α} (hf : ∀ a, (f a).EntersAt source c R) :
    (asks g >>= f).EntersAt source c R :=
  stay (p := fun _ => True) (.asks fun _ _ _ hc => ⟨trivial, hc⟩) fun a _ => hf a

theorem cursor {f : Cursor → Reading β} (hf : (f c).EntersAt source c R) :
    (Reading.cursor >>= f).EntersAt source c R :=
  stay (p := fun d => d = c) (.asks fun _ _ _ hc => ⟨hc, hc⟩) fun _ hd => hd ▸ hf

theorem here {f : Span → Reading β} (hf : (f c.span).EntersAt source c R) :
    (Reading.here >>= f).EntersAt source c R :=
  stay (p := fun span => span = c.span)
    (.weaken .here_eq (fun _ hc => hc) fun _ _ hs => ⟨hs.2 ▸ hs.1.symm, hs.2⟩)
    fun _ hspan => hspan ▸ hf

theorem ite {p : Prop} [Decidable p] {r' : Reading α} (h : p → r.EntersAt source c Q)
    (h' : ¬p → r'.EntersAt source c Q) : (if p then r else r').EntersAt source c Q :=
  Triple.ite h h'

theorem unexpected (what : String) : (Reading.unexpected what : Reading α).EntersAt source c Q :=
  Triple.unexpected what

theorem within {g : Slot → Slot} (h : r.EntersAt source c Q) :
    (Reading.within g r).EntersAt source c Q :=
  Triple.within h

/-- The span of the first token is the one that the production begins with. -/
theorem advance {f : Span → Reading β} (hkind : c.kind ≠ .eof)
    (hf : c.span.Proper source → Triple (Session.Begun source) (fun _ => True) (f c.span) R) :
    (Reading.advance >>= f).EntersAt source c R := by
  have hadvance : Reading.advance.EntersAt source c fun span _ => span = c.span := by
    rintro setting s hs rfl
    refine ⟨Invariant.advance hs, ?_⟩
    rintro span t ⟨⟩
    refine ⟨rfl, hs.cursor.span_proper hkind, ?_⟩
    change 0 < s.cursor.advance.index
    have hrest : s.cursor.rest ≠ [] := fun hrest => by
      have := hs.cursor.token_mem hkind
      simp [hrest] at this
    simp [Cursor.index_advance hrest]
  refine hadvance.bind fun span hproper => .extract (fun _ h => h) fun hspan => ?_
  subst hspan
  exact (hf hproper).anywhere

theorem identifier {f : String × Span → Reading β}
    (hf : c.span.Proper source → ∀ name, Triple (Session.Begun source) (fun _ => True)
      (f (name, c.span)) R) : (Reading.identifier >>= f).EntersAt source c R := by
  have hname : Reading.identifier.EntersAt source c fun x _ => x.2 = c.span := by
    refine .cursor (.ite (fun hkind => ?_) fun _ => .unexpected _)
    exact .advance (by rw [hkind]; nofun) fun _ => .pure fun _ _ => rfl
  refine hname.bind fun x hproper => .extract (fun _ h => h) fun hspan => ?_
  obtain ⟨name, span⟩ := x
  subst hspan
  exact (hf hproper name).anywhere

end EntersAt

namespace Enters

/-- Behind the first token a reading need not be the first one. -/
theorem begun (h : r.Enters source Q) : Triple (Session.Begun source) P r Q :=
  .at_cursor fun c => (Triple.begun (h c)).weaken (fun _ hs => hs.1) fun _ _ hs => hs.1

theorem within {g : Slot → Slot} (h : r.Enters source Q) :
    (Reading.within g r).Enters source Q :=
  fun c => (h c).within

theorem withUsage {usage : Usage} (h : r.Enters source Q) :
    (Reading.withUsage usage r).Enters source Q := h.within

theorem cursor {f : Cursor → Reading β} (h : ∀ c, (f c).EntersAt source c R) :
    (Reading.cursor >>= f).Enters source R :=
  fun c => .cursor (h c)

theorem refuse : (Grammar.refuse : Reading α).Enters source Q := fun _ => Triple.refuse

end Enters

end Reading

end Rules

end BendSyntax
