import BendSyntax.Proofs.Layout.Placement
import BendSyntax.Proofs.Lexing.Tiling
import BendSyntax.Proofs.Steps
import BendSyntax.Proofs.Triple

/-! What a tree says about brackets that touch. A bracket behind a term stands next to it in the
source, and where the tree says that the two touch they do. While a text is read, the last token
that was read ends where the gap in front of the next one begins; a term that was just added ends
there, too, and no reading changes the span of a term that it did not add. -/

namespace BendSyntax

open Reading

/-! ## Tokens behind a place -/

/-- A token is the next one behind a place of the source: only a gap, which is skipped, stands
between. -/
structure Token.Behind (source : String) (place : Nat) (gap : List Char) (t : Token) : Prop where
  mem : t ∈ (Lexing.ofText source).tokens.body
  split : ∃ before rest, source.toList = before ++ gap ++ t.lexeme.toList ++ rest ∧
    place = (String.ofList before).utf8ByteSize ∧ Gap.Trivia gap (t.lexeme.toList ++ rest) ∧
    t.span.Covers (before ++ gap) t.lexeme.toList

/-- A bracket is the next token behind a place. It begins there if it is tight, and otherwise behind
a gap. -/
def OpensBehind (source : String) (bracket : Symbol) (place : Nat) (tight : Bool) : Prop :=
  ∃ (t : Token) (gap : List Char), t.Behind source place gap ∧ t.kind = .mark bracket ∧
    (tight = true ↔ t.span.start = place) ∧ (tight = false → gap ≠ [])

/-- Type arguments whose last one ends at a place are closed by the next token behind it, a `>`, or
by the second half of a `>>` whose first half ends there. -/
inductive ClosesAngle (source : String) (place stop : Nat) : Prop
  | whole {t : Token} {gap : List Char} (h : t.Behind source place gap) (hkind : t.kind = .mark .greater)
      (hstop : t.span.stop = stop)
  | half {t : Token} (hmem : t ∈ (Lexing.ofText source).tokens.body) (hkind : t.kind = .mark .shiftRight)
      (hplace : t.span.start + 1 = place) (hstop : t.span.stop = stop)

namespace Token.Behind

variable {source : String} {place : Nat} {gap : List Char} {t : Token}

theorem start (h : t.Behind source place gap) :
    t.span.start = place + (String.ofList gap).utf8ByteSize := by
  obtain ⟨before, rest, -, rfl, -, hspan⟩ := h.split
  rw [hspan.start, Span.utf8ByteSize_append]

theorem start_eq_iff (h : t.Behind source place gap) : t.span.start = place ↔ gap = [] := by
  rw [h.start]
  cases gap with
  | nil => simp
  | cons c cs =>
      have := c.utf8Size_pos
      simp only [Span.utf8ByteSize_cons, reduceCtorEq, iff_false]
      omega

theorem opens (h : t.Behind source place gap) {bracket : Symbol} (hkind : t.kind = .mark bracket)
    {tight : Bool} (htight : tight = true ↔ gap = []) : OpensBehind source bracket place tight := by
  refine ⟨t, gap, h, hkind, htight.trans h.start_eq_iff.symm, fun hloose hgap => ?_⟩
  rw [htight.mpr hgap] at hloose
  cases hloose

end Token.Behind

/-! ## Trees -/

/-- A term is a name that is as long as its span. -/
def Tree.IsBare (t : Tree) (id : TermId) : Prop :=
  (∃ x, t.term? id = some (.var x) ∧ (t.span id).length = x.utf8ByteSize) ∨
    ∃ path, t.term? id = some (.qualified path) ∧
      (t.span id).length = ("/".intercalate path).utf8ByteSize

/-- What stands behind the head of a term that is written with brackets. -/
def Tree.Adjoins (source : String) (t : Tree) : Term TermId PatternId → Prop
  | .call head _ tight => OpensBehind source .leftParen (t.span head).stop tight ∧
      (tight = false → t.IsBare head)
  | .tyApp head _ => OpensBehind source .less (t.span head).stop true ∧ t.IsBare head
  | .genericCall head args _ => (OpensBehind source .less (t.span head).stop true ∧ t.IsBare head) ∧
      ∃ last ∈ args.getLast?, ∃ stop, ClosesAngle source (t.span last).stop stop ∧
        OpensBehind source .leftParen stop true
  | .listType head => OpensBehind source .leftBracket (t.span head).stop true
  | .implicit head _ tight => OpensBehind source .leftBrace (t.span head).stop tight
  | _ => True

/-- In all its terms a tree says truly which brackets touch what stands in front of them. -/
def Tree.Adjacent (source : String) (t : Tree) : Prop := ∀ node ∈ t.terms, t.Adjoins source node.term

/-- The subterms of a term behind which one of its brackets stands. -/
def Term.anchors : Term TermId PatternId → List TermId
  | .call head _ _ | .tyApp head _ | .listType head | .implicit head _ _ => [head]
  | .genericCall head args _ => head :: args.getLast?.toList
  | _ => []

namespace Tree

variable {source : String} {t u : Tree} {term : Term TermId PatternId}

theorem isBare_of_isBareName {id : TermId} (h : t.isBareName id = true) : t.IsBare id := by
  unfold isBareName at h
  split at h
  · rename_i term hterm
    have hlength : term.nameLength? = some (t.span id).length := by simpa using h
    cases term <;> simp only [Term.nameLength?, reduceCtorEq, Option.some.injEq] at hlength
    · exact .inl ⟨_, hterm, hlength.symm⟩
    · exact .inr ⟨_, hterm, hlength.symm⟩
  · cases h

theorem adjoins_of_anchors (h : term.anchors = []) : t.Adjoins source term := by
  cases term <;> trivial

/-- Only the anchors of a term matter to what stands behind them. -/
theorem Adjoins.congr (h : t.Adjoins source term)
    (hspan : ∀ id ∈ term.anchors, u.span id = t.span id)
    (hterm : ∀ id ∈ term.anchors, u.term? id = t.term? id) : u.Adjoins source term := by
  have hbare {id : TermId} (hid : id ∈ term.anchors) (hbare : t.IsBare id) : u.IsBare id := by
    rwa [IsBare, hspan id hid, hterm id hid]
  cases term <;> try exact h
  case call head args tight =>
    have hhead : head ∈ (Term.call head args tight).anchors := List.mem_singleton_self _
    exact ⟨(hspan head hhead).symm ▸ h.1, fun htight => hbare hhead (h.2 htight)⟩
  case tyApp head args =>
    have hhead : head ∈ (Term.tyApp head args).anchors := List.mem_singleton_self _
    exact ⟨(hspan head hhead).symm ▸ h.1, hbare hhead h.2⟩
  case genericCall head args values =>
    have hhead : head ∈ (Term.genericCall head args values).anchors := List.mem_cons_self
    obtain ⟨⟨hopens, hname⟩, last, hlast, stop, hcloses, hcall⟩ := h
    have hmem : last ∈ (Term.genericCall head args values).anchors :=
      List.mem_cons_of_mem _ (Option.mem_toList.mpr hlast)
    exact ⟨⟨(hspan head hhead).symm ▸ hopens, hbare hhead hname⟩, last, hlast, stop,
      (hspan last hmem).symm ▸ hcloses, hcall⟩
  case listType head =>
    have hhead : head ∈ (Term.listType head).anchors := List.mem_singleton_self _
    rwa [Adjoins, hspan head hhead]
  case implicit head args tight =>
    have hhead : head ∈ (Term.implicit head args tight).anchors := List.mem_singleton_self _
    rwa [Adjoins, hspan head hhead]

/-- A tree that says truly which brackets touch, and whose anchors come before what stands behind
them. -/
structure Joined (source : String) (t : Tree) : Prop where
  precedes : ∀ (i : Nat) (node : TermNode), t.terms[i]? = some node →
    ∀ id ∈ node.term.anchors, id.index < i
  adjoins : ∀ (i : Nat) (node : TermNode), t.terms[i]? = some node → t.Adjoins source node.term

theorem Adjoins.grow (h : t.Adjoins source term) (hgrown : t.Prefix u)
    (hanchors : ∀ id ∈ term.anchors, id.index < t.terms.size) : u.Adjoins source term :=
  h.congr (fun id hid => hgrown.span (hanchors id hid)) fun id hid => hgrown.term? (hanchors id hid)

/-- A term can be added to a tree: its anchors are there, and what stands behind them is right. -/
structure Attaches (source : String) (t : Tree) (term : Term TermId PatternId) : Prop where
  known : ∀ id ∈ term.anchors, id.index < t.terms.size
  adjoins : t.Adjoins source term

theorem Attaches.grow (h : t.Attaches source term) (hgrown : t.Prefix u) : u.Attaches source term :=
  ⟨fun id hid => Nat.lt_of_lt_of_le (h.known id hid) hgrown.size_terms, h.adjoins.grow hgrown h.known⟩

theorem attaches_of_anchors (h : term.anchors = []) : t.Attaches source term :=
  ⟨by simp [h], adjoins_of_anchors h⟩

namespace Joined

theorem adjacent (h : t.Joined source) : t.Adjacent source := by
  intro node hnode
  obtain ⟨i, hi, rfl⟩ := Array.mem_iff_getElem.mp hnode
  exact h.adjoins i _ (Array.getElem?_eq_getElem hi)

theorem empty : Tree.empty.Joined source := ⟨nofun, nofun⟩

/-- What a tree had when it was smaller is joined as it is now. -/
theorem shrink (h : u.Joined source) (hgrown : t.Prefix u) : t.Joined source := by
  have hold {i : Nat} {node : TermNode} (hnode : t.terms[i]? = some node) :
      i < t.terms.size ∧ u.terms[i]? = some node := by
    obtain ⟨hi, -⟩ := Array.getElem?_eq_some_iff.mp hnode
    exact ⟨hi, (hgrown.getElem?_terms hi).trans hnode⟩
  refine ⟨fun i node hnode => h.precedes i node (hold hnode).2, fun i node hnode => ?_⟩
  obtain ⟨hi, hnode⟩ := hold hnode
  have hlt {id : TermId} (hid : id ∈ node.term.anchors) : id.index < t.terms.size :=
    Nat.lt_trans (h.precedes i node hnode id hid) hi
  exact (h.adjoins i node hnode).congr (fun id hid => (hgrown.span (hlt hid)).symm)
    fun id hid => (hgrown.term? (hlt hid)).symm

theorem addTerm (h : t.Joined source) {node : TermNode} (hnode : t.Attaches source node.term) :
    (t.addTerm node).2.Joined source := by
  have hgrown := Prefix.addTerm t node
  have hnodes {i : Nat} {other : TermNode} (hother : (t.addTerm node).2.terms[i]? = some other) :
      i = t.terms.size ∧ other = node ∨ t.terms[i]? = some other := by
    simp only [Tree.addTerm, Array.getElem?_push] at hother
    split at hother
    · exact .inl ⟨‹_›, (Option.some.inj hother).symm⟩
    · exact .inr hother
  constructor
  · intro i other hother
    rcases hnodes hother with ⟨rfl, rfl⟩ | hold
    · exact hnode.known
    · exact h.precedes i other hold
  · intro i other hother
    rcases hnodes hother with ⟨-, rfl⟩ | hold
    · exact (hnode.grow hgrown).adjoins
    · have hi := (Array.getElem?_eq_some_iff.mp hold).1
      exact (h.adjoins i other hold).grow hgrown fun id hid =>
        Nat.lt_trans (h.precedes i other hold id hid) hi

theorem addPattern (h : t.Joined source) (node : PatternNode) : (t.addPattern node).2.Joined source :=
  ⟨h.precedes, fun i other hother => (h.adjoins i other hother).congr (fun _ _ => rfl) fun _ _ => rfl⟩

/-- Nothing stands behind the last term yet. -/
theorem widen (h : t.Joined source) {id : TermId} (hlast : id.index + 1 = t.terms.size) (span : Span) :
    (t.widen id span).Joined source := by
  have hnodes {i : Nat} {node : TermNode} (hnode : (t.widen id span).terms[i]? = some node) :
      ∃ old, t.terms[i]? = some old ∧ node.term = old.term := by
    rw [getElem?_widen] at hnode
    split at hnode
    · obtain ⟨old, hold, rfl⟩ := Option.map_eq_some_iff.mp hnode
      exact ⟨old, hold, rfl⟩
    · exact ⟨node, hnode, rfl⟩
  refine ⟨fun i node hnode => ?_, fun i node hnode => ?_⟩ <;>
    obtain ⟨old, hold, hterm⟩ := hnodes hnode <;> rw [hterm]
  · exact h.precedes i old hold
  · refine (h.adjoins i old hold).congr (fun other hother => span_widen_of_ne t span ?_) fun _ _ =>
      term?_widen t _ _ span
    have hi := (Array.getElem?_eq_some_iff.mp hold).1
    have hlt := h.precedes i old hold other hother
    omega

end Joined

theorem prefix_rewind (t : Tree) (m : Mark) : (t.rewind m).Prefix t := by
  constructor
  · simpa [Tree.rewind] using List.take_prefix _ _
  · simpa [Tree.rewind] using List.take_prefix _ _

/-- A tree that has grown from another one still has when it is cut back to one in between. -/
theorem Prefix.cut {v : Tree} (h : t.Prefix u) (k : t.Prefix v) : t.Prefix (v.rewind u.mark) := by
  have htake {α : Type} {a b c : List α} (hab : a <+: b) (hac : a <+: c) : a <+: c.take b.length := by
    rw [List.prefix_take_iff]
    exact ⟨hac, hab.length_le⟩
  constructor
  · simpa [Tree.rewind, mark] using htake h.terms k.terms
  · simpa [Tree.rewind, mark] using htake h.patterns k.patterns

end Tree

/-! ## Cursors -/

/-- A `>>` has two bytes. -/
theorem Token.InOrder.stop_of_shiftRight {place : Nat} {ts : List Token} {t eof : Token}
    (h : InOrder place ts eof) (ht : t ∈ ts) (hkind : t.kind = .mark .shiftRight) :
    t.span.stop = t.span.start + 2 := by
  induction ts generalizing place with
  | nil => cases ht
  | cons u us ih =>
      rcases List.mem_cons.mp ht with rfl | ht
      · exact h.2.2.1 hkind
      · exact ih h.2.2.2.2 ht

/-- The first of the tokens that tile a text stands behind a gap at its front. -/
theorem Token.Tile.head {before cs : List Char} {t : Token} {ts : List Token}
    (h : Tile before cs (t :: ts)) :
    ∃ gap rest, cs = gap ++ t.lexeme.toList ++ rest ∧ t.At before gap rest := by
  cases h with
  | @eof _ _ gap _ text place kind lexeme => exact ⟨gap, [], by simp [text, lexeme], place⟩
  | cons text place kind lexeme more => exact ⟨_, _, text, place⟩

/-- Behind the first of the tokens that tile a text the others tile what is left. -/
theorem Token.Tile.tail {before cs : List Char} {t u : Token} {ts : List Token}
    (h : Tile before cs (t :: u :: ts)) : ∃ gap rest, cs = gap ++ t.lexeme.toList ++ rest ∧
      t.At before gap rest ∧ Tile (before ++ gap ++ t.lexeme.toList) rest (u :: ts) := by
  cases h with
  | cons text place kind lexeme more => exact ⟨_, _, text, place, more⟩

theorem Token.At.start_le {before gap rest : List Char} {t : Token} (h : t.At before gap rest) :
    (String.ofList before).utf8ByteSize ≤ t.span.start ∧ t.span.start ≤ t.span.stop := by
  rw [h.span.start, h.span.stop, Span.utf8ByteSize_append (before ++ gap), Span.utf8ByteSize_append]
  exact ⟨Nat.le_add_right _ _, Nat.le_add_right _ _⟩

/-- A cursor in front of the tokens that are left of a source. The text from which they are cut begins
where the last token that was read ends, unless a `>>` comes next, of which half may have been read. -/
structure Cursor.Stands (source : String) (c : Cursor) : Prop where
  mem : ∀ t ∈ c.rest, t ∈ (Lexing.ofText source).tokens.body
  tile : ∃ before cs, source.toList = before ++ cs ∧ Token.Tile before cs (c.rest ++ [c.eof]) ∧
    (c.split = false → c.token.kind ≠ .mark .shiftRight → c.rest ≠ [] →
      c.last.stop = (String.ofList before).utf8ByteSize)
  split : c.split = true → c.token.kind = .mark .shiftRight ∧ c.token.span.start + 1 = c.last.stop
  stop : c.last.stop ≤ c.token.span.stop
  half : c.token.kind = .mark .shiftRight → c.last.stop ≤ c.token.span.start + 1

namespace Cursor

theorem exists_tokens (c : Cursor) : ∃ ts, c.rest ++ [c.eof] = c.token :: ts := by
  unfold token
  split
  · rename_i t ts hrest
    exact ⟨ts ++ [c.eof], by rw [hrest, List.cons_append]⟩
  · rename_i hrest
    exact ⟨[], by rw [hrest, List.nil_append]⟩

namespace Stands

variable {source : String} {c : Cursor}

theorem start (source : String) : (start (Lexing.ofText source).tokens).Stands source where
  mem _ ht := ht
  tile := ⟨[], source.toList, rfl, (Lexing.tiles_ofText source).tile, fun _ _ _ => rfl⟩
  split := nofun
  stop := Nat.zero_le _
  half _ := Nat.zero_le _

theorem eof_kind (h : c.Stands source) : c.eof.kind = .eof := by
  obtain ⟨before, cs, -, htile, -⟩ := h.tile
  exact htile.kind_lexeme.2.1

theorem rest_ne_nil (h : c.Stands source) (hkind : c.token.kind ≠ .eof) : c.rest ≠ [] := fun hrest =>
  hkind (by rw [token_of_nil hrest, h.eof_kind])

theorem token_mem (h : c.Stands source) (hkind : c.token.kind ≠ .eof) :
    c.token ∈ (Lexing.ofText source).tokens.body := by
  obtain ⟨t, ts, hrest⟩ := List.exists_cons_of_ne_nil (h.rest_ne_nil hkind)
  rw [token_of_cons hrest]
  exact h.mem t (hrest ▸ List.mem_cons_self)

theorem stop_of_shiftRight (h : c.Stands source) (hkind : c.token.kind = .mark .shiftRight) :
    c.token.span.stop = c.token.span.start + 2 :=
  (Lexing.inOrder_onward none .start source.toList).stop_of_shiftRight
    (h.token_mem (by rw [hkind]; nofun)) hkind

theorem kind_of_split (h : c.Stands source) (hsplit : c.split = true) : c.kind = .mark .greater := by
  simp [Cursor.kind, hsplit, (h.split hsplit).1]

/-- Where the next token is not half of a `>>`, it is of the kind that is seen. -/
theorem token_kind (h : c.Stands source) (hkind : c.kind ≠ .mark .greater) :
    c.split = false ∧ c.token.kind = c.kind := by
  cases hsplit : c.split with
  | false => exact ⟨rfl, (kind_of_not_split hsplit).symm⟩
  | true => exact absurd (h.kind_of_split hsplit) hkind

theorem advance (h : c.Stands source) : c.advance.Stands source := by
  obtain ⟨before, cs, hsource, htile, -⟩ := h.tile
  cases hrest : c.rest with
  | nil =>
      have hkind : c.token.kind = .eof := by rw [token_of_nil hrest, h.eof_kind]
      have hadvance : c.advance = { c with last := c.span } := by simp [Cursor.advance, hrest]
      have htoken : c.advance.token = c.token := by rw [hadvance]; rfl
      rw [hadvance]
      refine ⟨h.mem, ⟨before, cs, hsource, htile, fun _ _ hne => absurd hrest hne⟩, fun hsplit => ?_,
        Nat.le_of_eq c.stop_span, fun hshift => ?_⟩
      · have hshift := (h.split hsplit).1
        rw [hkind] at hshift
        cases hshift
      · have hshift : c.token.kind = .mark .shiftRight := hshift
        rw [hkind] at hshift
        cases hshift
  | cons t ts =>
      have hadvance : c.advance = ⟨ts, c.eof, c.index + 1, false, c.span⟩ := by
        simp [Cursor.advance, hrest]
      have hstop : c.span.stop = t.span.stop := by rw [stop_span, token_of_cons hrest]
      obtain ⟨us, hus⟩ := exists_tokens c.advance
      have hmore : ts ++ [c.eof] = c.advance.token :: us := by rw [← hus, hadvance]
      rw [hrest, List.cons_append, hmore] at htile
      obtain ⟨gap, rest, text, place, more⟩ := htile.tail
      obtain ⟨gap', rest', -, hnext⟩ := more.head
      have hsize : (String.ofList (before ++ gap ++ t.lexeme.toList)).utf8ByteSize = c.span.stop := by
        rw [hstop, place.span.stop]
      have hle := hnext.start_le
      rw [hsize] at hle
      have hlast : c.advance.last.stop = c.span.stop := by rw [hadvance]
      refine ⟨fun u hu => h.mem u ?_, ⟨before ++ gap ++ t.lexeme.toList, rest, ?_, ?_, fun _ _ _ => ?_⟩,
        fun hsplit => ?_, ?_, fun _ => ?_⟩
      · rw [hadvance] at hu
        exact hrest ▸ List.mem_cons_of_mem t hu
      · rw [hsource, text]
        simp only [List.append_assoc]
      · rwa [hus]
      · rw [hlast, hsize]
      · rw [hadvance] at hsplit
        cases hsplit
      · rw [hlast]
        exact Nat.le_trans hle.1 hle.2
      · rw [hlast]
        exact Nat.le_succ_of_le hle.1

theorem halve (h : c.Stands source) (hkind : c.kind = .mark .shiftRight) : c.halve.Stands source := by
  have hshift : c.token.kind = .mark .shiftRight :=
    (h.token_kind (by rw [hkind]; nofun)).2.trans hkind
  obtain ⟨before, cs, hsource, htile, -⟩ := h.tile
  refine ⟨h.mem, ⟨before, cs, hsource, htile, nofun⟩, fun _ => ⟨hshift, rfl⟩, ?_,
    fun _ => Nat.le_refl _⟩
  have hstop := h.stop_of_shiftRight hshift
  change c.token.span.start + 1 ≤ c.token.span.stop
  omega

theorem whole (h : c.Stands source) : c.whole.Stands source := by
  obtain ⟨before, cs, hsource, htile, hlast⟩ := h.tile
  refine ⟨h.mem, ⟨before, cs, hsource, htile, fun _ hkind => ?_⟩, nofun, h.stop, h.half⟩
  refine hlast (Bool.eq_false_iff.mpr fun hsplit => hkind (h.split hsplit).1) hkind

/-- Behind the first token, the next one is behind the place where the last one ends, and it knows
whether it touches it. -/
theorem behind (h : c.Stands source) (hsplit : c.split = false)
    (hshift : c.token.kind ≠ .mark .shiftRight) (hkind : c.token.kind ≠ .eof)
    (hbegun : 0 < c.last.stop) :
    ∃ gap, c.token.Behind source c.last.stop gap ∧ (c.isTight = true ↔ gap = []) := by
  obtain ⟨before, cs, hsource, htile, hlast⟩ := h.tile
  obtain ⟨ts, hts⟩ := c.exists_tokens
  rw [hts] at htile
  obtain ⟨gap, rest, text, place⟩ := htile.head
  have hlast := hlast hsplit hshift (h.rest_ne_nil hkind)
  have hbefore : before ≠ [] := by
    rintro rfl
    rw [hlast] at hbegun
    exact Nat.lt_irrefl 0 hbegun
  refine ⟨gap, ⟨h.token_mem hkind, before, rest, ?_, hlast, place.skipped, place.span⟩, ?_⟩
  · rw [hsource, text]
    simp only [List.append_assoc]
  · have hspaced : c.token.spaced = true ↔ gap ≠ [] := by simpa [hbefore] using place.spaced
    rw [isTight, hsplit, Bool.false_or, Token.isTight, Bool.not_eq_true', Bool.eq_false_iff, ne_eq, hspaced,
      not_not]

/-- A bracket that comes next. -/
theorem opens (h : c.Stands source) {bracket : Symbol} (hkind : c.kind = .mark bracket)
    (hgreater : bracket ≠ .greater) (hshift : bracket ≠ .shiftRight) (hbegun : 0 < c.last.stop) :
    OpensBehind source bracket c.last.stop c.isTight := by
  obtain ⟨hsplit, htoken⟩ := h.token_kind (by rw [hkind]; simpa using hgreater)
  rw [hkind] at htoken
  obtain ⟨gap, hbehind, htight⟩ := h.behind hsplit (by rw [htoken]; simpa using hshift)
    (by rw [htoken]; nofun) hbegun
  exact hbehind.opens htoken htight

/-- What closes type arguments that the last token has ended. -/
theorem closesAngle (h : c.Stands source) (hkind : c.kind = .mark .greater) (hbegun : 0 < c.last.stop) :
    ClosesAngle source c.last.stop c.span.stop := by
  cases hsplit : c.split with
  | true =>
      obtain ⟨htoken, hplace⟩ := h.split hsplit
      exact .half (h.token_mem (by rw [htoken]; nofun)) htoken hplace c.stop_span.symm
  | false =>
      have htoken : c.token.kind = .mark .greater := (kind_of_not_split hsplit).symm.trans hkind
      obtain ⟨gap, hbehind, -⟩ := h.behind hsplit (by rw [htoken]; nofun) (by rw [htoken]; nofun) hbegun
      exact .whole hbehind htoken c.stop_span.symm

/-- The last token that was read never ends earlier than the one before. -/
theorem stop_le_advance (h : c.Stands source) : c.last.stop ≤ c.advance.last.stop := by
  rw [last_advance, stop_span]
  exact h.stop

theorem stop_le_halve (h : c.Stands source) (hkind : c.kind = .mark .shiftRight) :
    c.last.stop ≤ c.halve.last.stop :=
  h.half ((h.token_kind (by rw [hkind]; nofun)).2.trans hkind)

theorem span_pos (h : c.Stands source) (hkind : c.kind ≠ .eof) : 0 < c.span.stop := by
  have htoken : c.token.kind ≠ .eof := fun heof => by
    by_cases hgreater : c.kind = .mark .greater
    · cases hsplit : c.split with
      | true => simp [(h.split hsplit).1] at heof
      | false => exact hkind ((kind_of_not_split hsplit).trans heof)
    · exact hkind ((h.token_kind hgreater).2 ▸ heof)
  have hbody := (Lexing.tiles_ofText source).body _ (h.token_mem htoken)
  rw [stop_span]
  exact Nat.zero_lt_of_lt hbody.2

end Stands

end Cursor

/-! ## Sessions -/

/-- A session whose tree is joined and has grown from `old`, with the terms of `old` as they were,
and which has come at least as far as a place of the source. -/
structure Session.Adjacent (source : String) (place : Nat) (old : Tree) (s : Session) : Prop where
  cursor : s.cursor.Stands source
  reached : place ≤ s.cursor.last.stop
  grown : old.Prefix s.tree
  tree : s.tree.Joined source

/-- A term is the last one that was added since `old`, and ends where the last token ends. -/
structure Session.Ends (old : Tree) (id : TermId) (s : Session) : Prop where
  added : old.terms.size ≤ id.index
  last : id.index + 1 = s.tree.terms.size
  stop : (s.tree.span id).stop = s.cursor.last.stop
  begun : 0 < s.cursor.last.stop

/-- The first token of a construct lies in front of a place. -/
structure Span.Passed (start : Span) (place : Nat) : Prop where
  pos : 0 < start.stop
  le : start.stop ≤ place

theorem Span.Passed.mono {start : Span} {place place' : Nat} (h : start.Passed place)
    (hplace : place ≤ place') : start.Passed place' :=
  ⟨h.pos, Nat.le_trans h.le hplace⟩

section Sessions

variable {source : String} {place place' : Nat} {old old' : Tree} {s t : Session} {id : TermId}

theorem Session.Adjacent.mono (h : s.Adjacent source place' old') (hplace : place ≤ place')
    (hold : old.Prefix old') : s.Adjacent source place old :=
  ⟨h.cursor, Nat.le_trans hplace h.reached, hold.trans h.grown, h.tree⟩

/-- Where a session has come to, nothing of it is lost by going on. -/
theorem Session.Adjacent.here (h : s.Adjacent source place old) :
    s.Adjacent source s.cursor.last.stop s.tree :=
  ⟨h.cursor, Nat.le_refl _, .refl _, h.tree⟩

theorem Session.Ends.mono (h : s.Ends old' id) (hold : old.Prefix old') : s.Ends old id :=
  ⟨Nat.le_trans hold.size_terms h.added, h.last, h.stop, h.begun⟩

theorem Session.Ends.lt (h : s.Ends old id) : id.index < s.tree.terms.size :=
  Nat.lt_of_succ_le (Nat.le_of_eq h.last)

/-- A bracket that comes next behind the last term. -/
theorem Session.Ends.opens (h : s.Ends old id) (hs : s.cursor.Stands source) {bracket : Symbol}
    (hkind : s.cursor.kind = .mark bracket) (hgreater : bracket ≠ .greater)
    (hshift : bracket ≠ .shiftRight) :
    OpensBehind source bracket (s.tree.span id).stop s.cursor.isTight :=
  h.stop ▸ hs.opens hkind hgreater hshift h.begun

/-- What has come to nothing leaves the last term as it is. -/
theorem Session.Ends.stays (h : s.Ends old id) (hgrown : s.tree.Prefix t.tree)
    (hstays : t.cursor = s.cursor ∧ t.tree.terms.size = s.tree.terms.size) : t.Ends old id := by
  obtain ⟨hcursor, hsize⟩ := hstays
  refine ⟨h.added, h.last.trans hsize.symm, ?_, hcursor ▸ h.begun⟩
  rw [hgrown.span h.lt, h.stop, hcursor]

instance : Invariant (Session.Adjacent source place old) where
  complain hs _ := ⟨hs.cursor, hs.reached, hs.grown, hs.tree⟩
  restate hs _ := ⟨hs.cursor, hs.reached, hs.grown, hs.tree⟩
  remember _ hs := ⟨hs.cursor, hs.reached, hs.grown, hs.tree⟩
  rewind hs ht _ :=
    ⟨hs.cursor, hs.reached, hs.grown.cut ht.grown, ht.tree.shrink (Tree.prefix_rewind _ _)⟩
  discard hs ht _ :=
    ⟨ht.cursor, ht.reached, hs.grown.cut ht.grown, ht.tree.shrink (Tree.prefix_rewind _ _)⟩
  advance hs := ⟨hs.cursor.advance, Nat.le_trans hs.reached hs.cursor.stop_le_advance, hs.grown, hs.tree⟩
  halve hs hkind :=
    ⟨hs.cursor.halve hkind, Nat.le_trans hs.reached (hs.cursor.stop_le_halve hkind), hs.grown, hs.tree⟩
  whole hs := ⟨hs.cursor.whole, hs.reached, hs.grown, hs.tree⟩

end Sessions

/-! ## Readings -/

/-- A reading keeps the tree joined. -/
abbrev Reading.Joins (source : String) (place : Nat) (old : Tree) {α : Type} (r : Reading α) : Prop :=
  Maintains (Session.Adjacent source place old) r

/-- At some cursor, a reading keeps the tree joined, and if it succeeds it has passed the first token
there. -/
def Reading.JoinsAt (source : String) (place : Nat) (old : Tree) (c : Cursor) {α : Type} (r : Reading α)
    (Q : α → Session → Prop) : Prop :=
  Triple (Session.Adjacent source place old) (fun s => s.cursor = c) r fun a s =>
    Q a s ∧ c.span.Passed s.cursor.last.stop

section Rules

variable {source : String} {place place' : Nat} {old old' : Tree} {α β : Type} {c : Cursor}
  {start span : Span} {r : Reading α} {f : α → Reading β} {P P' : Session → Prop} {Q : α → Session → Prop}
  {R : β → Session → Prop} {id : TermId} {term : Term TermId PatternId}

namespace Triple

/-- Goes on from where a session has come to, with its tree. -/
theorem onward (hle : ∀ s, s.Adjacent source place old → P s → Triple
      (Session.Adjacent source s.cursor.last.stop s.tree) (fun t => t = s) r Q) :
    Triple (Session.Adjacent source place old) P r Q := by
  intro setting s hs hP
  obtain ⟨hinv, hanswer⟩ := hle s hs hP setting s hs.here rfl
  exact ⟨hinv.mono hs.reached hs.grown, hanswer⟩

/-- What is known in front of a reading may rest on the invariant. -/
theorem standing (hP : ∀ s, s.Adjacent source place old → P' s → P s)
    (h : Triple (Session.Adjacent source place old) P r Q) :
    Triple (Session.Adjacent source place old) P' r Q :=
  fun setting s hs hP' => h setting s hs (hP s hs hP')

/-- It is known at the end that the place has been reached and the tree has grown. -/
theorem reached (h : Triple (Session.Adjacent source place old) P r Q) :
    Triple (Session.Adjacent source place old) P r fun a s => Q a s ∧ s.Adjacent source place old := by
  intro setting s hs hP
  obtain ⟨hinv, hanswer⟩ := h setting s hs hP
  refine ⟨hinv, fun a t ht => ⟨hanswer a t ht, ?_⟩⟩
  rw [ht] at hinv
  exact hinv

/-- What does not change as the tree grows is known behind a reading if it was known in front. -/
theorem keeping {K : Tree → Prop} (hK : ∀ {t u : Tree}, t.Prefix u → K t → K u)
    (hr : ∀ place old, Triple (Session.Adjacent source place old) (fun _ => True) r Q) :
    Triple (Session.Adjacent source place old) (fun s => K s.tree) r fun a s => Q a s ∧ K s.tree :=
  onward fun s _ hs => (hr _ s.tree).reached.weaken (fun _ _ => trivial) fun _ _ ht =>
    ⟨ht.1, hK ht.2.grown hs⟩

/-- Reads on while there are terms that can be added. -/
theorem attaching {γ : Type} {node : γ → Term TermId PatternId}
    (hr : ∀ place old, r.Joins source place old)
    (hf : ∀ a, Triple (Session.Adjacent source place old)
      (fun s => ∀ x, s.tree.Attaches source (node x)) (f a) R) :
    Triple (Session.Adjacent source place old) (fun s => ∀ x, s.tree.Attaches source (node x))
      (r >>= f) R :=
  (keeping (K := fun t => ∀ x, t.Attaches source (node x)) (fun hgrown h x => (h x).grow hgrown) hr).bind
    fun a => (hf a).mono fun _ hs => hs.2

/-- What is tried behind a term leaves the term as it is if it comes to nothing. -/
theorem attempt_ends {Q : Option α → Session → Prop} {r : Reading (Option α)} (what : Attempt)
    (hr : ∀ place old, r.Joins source place old)
    (h : Triple (Session.Adjacent source place old) P r fun found s => ∀ a ∈ found, Q (some a) s)
    (hP : ∀ s, P s → s.Ends old id) (hnone : ∀ s, s.Ends old id → Q none s) :
    Triple (Session.Adjacent source place old) P (Reading.attempt what r) Q := by
  intro setting s hs hPs
  obtain ⟨hinv, hanswer⟩ := attempt_of what (Q := fun found t => ∀ a, found = some a → Q (some a) t)
    (h.weaken (fun _ h => h) fun found t ht a ha b hb => by cases hb; exact ht a ha)
    (fun _ _ _ _ _ => nofun) setting s hs hPs
  refine ⟨hinv, fun found t ht => ?_⟩
  cases found with
  | some a => exact hanswer _ _ ht a rfl
  | none =>
      have hgrown : s.tree.Prefix t.tree := by
        have hkeeps : (Reading.attempt what r).Joins source s.cursor.last.stop s.tree :=
          attempt what (p := fun _ => True) (hr _ _) trivial
        obtain ⟨htree, -⟩ := hkeeps setting s hs.here trivial
        rw [ht] at htree
        exact htree.grown
      exact hnone t ((hP s hPs).stays hgrown (stays_of_attempt ht))

/-! ### Nodes -/

theorem addTerm_joined (hterm : ∀ s, P s → s.tree.Attaches source term) :
    Triple (Session.Adjacent source place old) P (Reading.addTerm term span) fun id s =>
      (span.stop = s.cursor.last.stop → 0 < span.stop → s.Ends old id) := by
  intro setting s hs hP
  have hgrown := Tree.Prefix.addTerm s.tree ⟨term, span, setting.slot.usage⟩
  refine ⟨⟨hs.cursor, hs.reached, hs.grown.trans hgrown, hs.tree.addTerm (hterm s hP)⟩, ?_⟩
  rintro id t ⟨⟩ hstop hpos
  refine ⟨hs.grown.size_terms, by simp, ?_, hstop ▸ hpos⟩
  simpa [Tree.span] using hstop

/-- A term that stands behind nothing of its own. -/
theorem addTerm_free (hterm : term.anchors = []) :
    Triple (Session.Adjacent source place old) P (Reading.addTerm term span) fun id s =>
      (span.stop = s.cursor.last.stop → 0 < span.stop → s.Ends old id) :=
  addTerm_joined fun _ _ => Tree.attaches_of_anchors hterm

/-- A term that reaches to the last token ends there. -/
theorem close_joined (hstart : start.Passed place) (hterm : ∀ s, P s → s.tree.Attaches source term) :
    Triple (Session.Adjacent source place old) P (Reading.close start term) (Session.Ends old) := by
  intro setting s hs hP
  have hstop : (start.hull s.cursor.last).stop = s.cursor.last.stop := by
    rw [Span.hull_stop, Nat.max_eq_right (Nat.le_trans hstart.le hs.reached)]
  have hadd : Triple (Session.Adjacent source place old) (fun t => t = s)
      (Reading.addTerm term (start.hull s.cursor.last)) _ :=
    addTerm_joined fun _ ht => ht ▸ hterm s hP
  obtain ⟨hinv, hanswer⟩ := hadd setting s hs rfl
  refine ⟨hinv, ?_⟩
  rintro id t ⟨⟩
  refine hanswer _ _ rfl hstop ?_
  rw [hstop]
  exact Nat.lt_of_lt_of_le hstart.pos (Nat.le_trans hstart.le hs.reached)

theorem close_free (hstart : start.Passed place) (hterm : term.anchors = []) :
    Triple (Session.Adjacent source place old) P (Reading.close start term) (Session.Ends old) :=
  close_joined hstart fun _ _ => Tree.attaches_of_anchors hterm

theorem closePattern_joined {pattern : Pattern PatternId} :
    Triple (Session.Adjacent source place old) P (Reading.closePattern start pattern) fun _ _ => True :=
  (since start).bind fun _ _ _ hs _ => ⟨⟨hs.cursor, hs.reached,
    hs.grown.trans (.addPattern _ _), hs.tree.addPattern _⟩, fun _ _ _ => trivial⟩

/-! ### Lists -/

/-- A loop that goes on only behind a token ends with a round that does not go on. -/
theorem loop_done {I D : α → Session → Prop} {step : α → Reading (Round α)}
    (hgoes : ∀ a, (step a).Goes)
    (h : ∀ a, Triple (Session.Adjacent source place old) (I a) (step a) fun round s =>
      (∀ b, round = .more b → I b s) ∧ ∀ b, round = .done b → D b s) (a : α) :
    Triple (Session.Adjacent source place old) (I a) (Reading.loop step a) D := by
  intro setting s hs hI
  change (runLoop step setting a s).settled.Adjacent source place old ∧
    ∀ b t, runLoop step setting a s = .ok b t → D b t
  fun_induction runLoop with
  | case1 a s b now hstep =>
      obtain ⟨hinv, hanswer⟩ := h a setting s hs hI
      rw [hstep] at hinv
      refine ⟨hinv, ?_⟩
      rintro _ _ ⟨⟩
      exact (hanswer _ _ hstep).2 _ rfl
  | case2 a s b now hstep hlt ih =>
      obtain ⟨hinv, hanswer⟩ := h a setting s hs hI
      rw [hstep] at hinv
      exact ih hinv ((hanswer _ _ hstep).1 _ rfl)
  | case3 a s b now hstep hge =>
      have hindex := hgoes a s.cursor setting s b now rfl hs.cursor.eof_kind hstep
      exact absurd ((onward_of_ok hstep).cursor.remaining_lt hindex) hge
  | case4 a s e now hstep =>
      obtain ⟨hinv, -⟩ := h a setting s hs hI
      rw [hstep] at hinv
      exact ⟨hinv, fun b t ht => by cases ht⟩

/-- A list ends with its last item, behind which there is no comma. -/
theorem commaList_last (h : Triple (Session.Adjacent source place old) (fun _ => True) r Q) :
    Triple (Session.Adjacent source place old) P (Reading.commaList r)
      fun as s => ∃ a ∈ as.getLast?, Q a s := by
  refine (loop_done (I := fun _ _ => True) (D := fun as s => ∃ a ∈ as.back?, Q a s)
    (fun as => ?_) (fun as => ?_) #[]).anywhere.bind fun as => .pure fun s hs => by simpa using hs
  · exact .behind fun a c => .accept nofun (.done _)
  · refine h.bind fun a => (accept_else _).bind fun found => .ite (fun _ => ?_) fun hfound => ?_
    · exact .pure fun _ _ => ⟨fun _ _ => trivial, nofun⟩
    · refine .pure fun s hs => ⟨nofun, ?_⟩
      rintro _ ⟨⟩
      exact ⟨a, by simp, (hs (Bool.eq_false_iff.mpr hfound)).2⟩

end Triple

/-- The first token stays passed. -/
theorem Triple.passing
    (h : ∀ place', start.Passed place' → Triple (Session.Adjacent source place' old) P r Q) :
    Triple (Session.Adjacent source place old) (fun s => P s ∧ start.Passed s.cursor.last.stop) r
      fun a s => Q a s ∧ start.Passed s.cursor.last.stop := by
  intro setting s hs hP
  obtain ⟨hinv, hanswer⟩ :=
    (h s.cursor.last.stop hP.2).reached setting s ⟨hs.cursor, Nat.le_refl _, hs.grown, hs.tree⟩ hP.1
  refine ⟨hinv.mono hs.reached (.refl _), fun a t ht => ?_⟩
  obtain ⟨hQ, ht⟩ := hanswer a t ht
  exact ⟨hQ, hP.2.pos, Nat.le_trans hP.2.le ht.reached⟩

namespace Reading.JoinsAt

/-- Behind the first token the place is where it ends. -/
theorem bind (h : r.JoinsAt source place old c Q)
    (hf : ∀ a place', c.span.Passed place' →
      Triple (Session.Adjacent source place' old) (Q a) (f a) R) :
    (r >>= f).JoinsAt source place old c R :=
  Triple.bind h fun a => .passing (hf a)

/-- What is asked first does not take a token. -/
theorem stay {p : α → Prop} (h : Triple (Session.Adjacent source place old) (fun s => s.cursor = c) r
      fun a s => p a ∧ s.cursor = c) (hf : ∀ a, p a → (f a).JoinsAt source place old c R) :
    (r >>= f).JoinsAt source place old c R :=
  Triple.bind h fun a => .extract (fun _ hs => hs.1) fun ha => Triple.mono (hf a ha) fun _ hs => hs.2

theorem ask {g : Setting → Session → α} (hf : ∀ a, (f a).JoinsAt source place old c R) :
    (asks g >>= f).JoinsAt source place old c R :=
  stay (p := fun _ => True) (.asks fun _ _ _ hc => ⟨trivial, hc⟩) fun a _ => hf a

theorem cursor {f : Cursor → Reading β} (hf : (f c).JoinsAt source place old c R) :
    (Reading.cursor >>= f).JoinsAt source place old c R :=
  stay (p := fun d => d = c) (.asks fun _ _ _ hc => ⟨hc, hc⟩) fun _ hd => hd ▸ hf

theorem here {f : Span → Reading β} (hf : (f c.span).JoinsAt source place old c R) :
    (Reading.here >>= f).JoinsAt source place old c R :=
  stay (p := fun span => span = c.span)
    (.weaken .here_eq (fun _ hc => hc) fun _ _ hs => ⟨hs.2 ▸ hs.1.symm, hs.2⟩)
    fun _ hspan => hspan ▸ hf

theorem ite {p : Prop} [Decidable p] {r' : Reading α} (h : p → r.JoinsAt source place old c Q)
    (h' : ¬p → r'.JoinsAt source place old c Q) :
    (if p then r else r').JoinsAt source place old c Q :=
  Triple.ite h h'

theorem unexpected (what : String) : (Reading.unexpected what : Reading α).JoinsAt source place old c Q :=
  Triple.unexpected what

theorem advance {f : Span → Reading β} (hkind : c.kind ≠ .eof)
    (hf : ∀ place', c.span.Passed place' → Triple (Session.Adjacent source place' old)
      (fun s => s.cursor.last = c.span) (f c.span) R) :
    (Reading.advance >>= f).JoinsAt source place old c R := by
  have hadvance : Reading.advance.JoinsAt source place old c
      fun span s => span = c.span ∧ s.cursor.last = c.span := by
    rintro setting s hs rfl
    refine ⟨Invariant.advance hs, ?_⟩
    rintro span t ⟨⟩
    have hlast : s.cursor.advance.last = s.cursor.span := s.cursor.last_advance
    exact ⟨⟨rfl, hlast⟩, hs.cursor.span_pos hkind, Nat.le_of_eq (by rw [hlast])⟩
  refine hadvance.bind fun span place' hplace => .extract (fun _ h => h.1) fun hspan => ?_
  subst hspan
  exact (hf place' hplace).mono fun _ h => h.2

/-- A term over the first token. -/
theorem leaf (hkind : c.kind ≠ .eof) (hterm : term.anchors = []) :
    (Reading.advance >>= fun _ => addTerm term c.span).JoinsAt source place old c (Session.Ends old) :=
  advance hkind fun place' hplace setting s hs hlast => by
    have hadd : Triple (Session.Adjacent source place' old) (fun t => t = s) (addTerm term c.span) _ :=
      .addTerm_free hterm
    obtain ⟨hinv, hanswer⟩ := hadd setting s hs rfl
    refine ⟨hinv, ?_⟩
    rintro id t ⟨⟩
    exact hanswer _ _ rfl (congrArg Span.stop hlast.symm) hplace.pos

/-- A construct begins with its first token. -/
theorem opening {f : Span → Reading β} (hkind : c.kind ≠ .eof)
    (hf : ∀ place', c.span.Passed place' →
      Triple (Session.Adjacent source place' old) (fun _ => True) (f c.span) R) :
    (Reading.advance >>= f).JoinsAt source place old c R :=
  advance hkind fun place' hplace => (hf place' hplace).anywhere

theorem joins (h : ∀ c, r.JoinsAt source place old c Q) :
    Triple (Session.Adjacent source place old) P r Q :=
  fun setting s hs _ => (Triple.weaken (h s.cursor) (fun _ hs => hs) fun _ _ h => h.1) setting s hs rfl

end Reading.JoinsAt

end Rules

end BendSyntax
