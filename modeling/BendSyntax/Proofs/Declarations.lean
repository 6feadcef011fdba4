import BendSyntax.Proofs.Brackets.Items
import BendSyntax.Proofs.Coverage

/-! Where items begin in a text that is read with recovery. Every keyword that begins an item begins
one of the items, however broken the text in front of it is: it is that kind of item, or an error
item if it could not be read. -/

namespace BendSyntax

open Reading Grammar Owner

/-- The keywords that begin an item. -/
def TokenKind.declares (k : TokenKind) : Bool :=
  k ∈ [.word .def_, .word .type, .word .assert, .word .try_]

/-- The tokens of a text that begin an item, wherever they stand. -/
def Tokens.declarators (ts : Tokens) : List Token := ts.body.filter (·.kind.declares)

/-- An item that begins at a token is the item that the token begins or an error item. -/
def Program.Opens (p : Program) (x : Token) (item : Item TermId) : Prop :=
  (p.itemSpan item).start = x.span.start ∧
    (Declares x.kind item ∨ ∃ region, item = .error region)

/-- The items that begin where one of some tokens begins. -/
def Program.itemsAt (p : Program) (tokens : List Token) : List (Item TermId) :=
  p.items.filter fun item => tokens.any fun x => (p.itemSpan item).start = x.span.start

theorem TokenKind.startsItem_of_ne {k : TokenKind} (hk : k ≠ .eof) : k.startsItem = k.declares := by
  unfold startsItem Keyword.startsItem
  split
  · split <;> simp_all [declares]
  · exact absurd rfl hk
  · simp_all [declares]

/-- No two tokens begin at one place. -/
theorem Token.InOrder.eq_of_start_eq {place : Nat} {ts : List Token} {eof x y : Token}
    (h : InOrder place ts eof) (hx : x ∈ ts) (hy : y ∈ ts) (hstart : x.span.start = y.span.start) :
    x = y := by
  obtain ⟨i, hi⟩ := List.mem_iff_getElem?.mp hx
  obtain ⟨j, hj⟩ := List.mem_iff_getElem?.mp hy
  have hxlt := (h.place_le_of_mem hx).2
  have hylt := (h.place_le_of_mem hy).2
  rcases Nat.lt_trichotomy i j with hij | rfl | hij
  · have := h.stop_le hij hi hj
    omega
  · exact Option.some.inj (hi.symm.trans hj)
  · have := h.stop_le hij hj hi
    omega

/-! ## Rounds -/

section Round

variable {ts : List Token} {setting : Setting} {s t : Session}

/-- What cannot be read is skipped up to the next keyword. A first token is skipped only if it is
none. -/
theorem clear_skipItem (setting : Setting) {s : Session} {first : Cursor} (hs : s.Clear ts)
    (hfirst : s.cursor.index = first.index → s.cursor.kind.startsItem = false) :
    ((skipItem first).run setting s).settled.Clear ts ∧
      ∀ item t, (skipItem first).run setting s = .ok item t → ∃ region, item = .error region := by
  have hskipFirst : Triple (Session.Clear ts)
      (fun s => s.cursor.index = first.index → s.cursor.kind.startsItem = false)
      (skipFirst first) fun _ _ => True := by
    refine Triple.cursor.bind fun c => .ite (fun hc => ?_) fun _ => .pure fun _ _ => trivial
    refine (clear_advance fun s hs => ?_).bind fun _ => .pure fun _ _ => trivial
    exact hs.2 (hs.1 ▸ hc)
  have hskip : Triple (Session.Clear ts)
      (fun s => s.cursor.index = first.index → s.cursor.kind.startsItem = false)
      (do skipFirst first; return .error (← skipToItem first.span) : Reading (Item TermId))
      fun item _ => ∃ region, item = .error region :=
    hskipFirst.bind fun _ => clear_skipToItem.bind fun _ => .pure fun _ _ => ⟨_, rfl⟩
  refine hskip setting { s with cursor := s.cursor.whole } ⟨hs.passed, hs.eof⟩ fun hindex => ?_
  calc s.cursor.whole.kind.startsItem = s.cursor.whole.token.kind.startsItem :=
        (Cursor.startsItem_kind _).symm
    _ = s.cursor.kind.startsItem := Cursor.startsItem_kind s.cursor
    _ = false := hfirst hindex

/-- An item is read, or else skipped; the error came up at its first token or behind it. -/
theorem clear_recovering {r : Reading (Item TermId)} {item : Item TermId}
    (hr : (r.run setting s).settled.Clear ts) (hrecover : setting.config.recover = true)
    (hfirst : ∀ u : Session, u.Clear ts → s.cursor.Reaches u.cursor →
      u.cursor.index = s.cursor.index → u.cursor.kind.startsItem = false)
    (h : (recovering id (skipItem s.cursor) r).run setting s = .ok item t) :
    t.Clear ts ∧ (r.run setting s = .ok item t ∨ ∃ region, item = .error region) := by
  change (r.run setting s).recovered setting.config.recover id s
    ((skipItem s.cursor).run setting) = _ at h
  have honward := r.onward setting s
  cases hrun : r.run setting s with
  | ok read u =>
      rw [hrun] at h hr
      cases h
      exact ⟨hr, .inl rfl⟩
  | error e u =>
      rw [hrun] at h hr honward
      simp only [Outcome.recovered, hrecover, if_true] at h
      rw [show id e = e from rfl] at h
      have hresumed : ((u.discard s).report e).Clear ts := ⟨hr.passed, hr.eof⟩
      obtain ⟨hskipped, herror⟩ := clear_skipItem setting hresumed
        (hfirst _ hresumed honward.cursor)
      rw [h] at hskipped
      exact ⟨hskipped, .inr (herror _ _ h)⟩

theorem rest_of_index_eq {c d : Cursor} (h : c.Reaches d) (hindex : d.index = c.index) :
    d.rest = c.rest ∧ d.token = c.token := by
  obtain ⟨n, -, hrest, hn, heof⟩ := h
  obtain rfl : n = 0 := by omega
  rw [List.drop_zero] at hrest
  exact ⟨hrest, by rw [Cursor.token_eq, Cursor.token_eq, hrest, heof]⟩

/-- A round leaves all keywords for later that begin an item, except for its first token. If this is
one, it begins the item. -/
theorem declares_recovering {d : Nat} {item : Item TermId} (hs : s.Sound)
    (hkind : s.cursor.kind ≠ .eof) (hrecover : setting.config.recover = true)
    (h : (recovering id (skipItem s.cursor) (Grammar.item (nested d))).run setting s = .ok item t) :
    (s.cursor.kind.startsItem = true → t.Clear s.cursor.advance.rest ∧
      (Declares s.cursor.kind item ∨ ∃ region, item = .error region)) ∧
    (s.cursor.kind.startsItem = false → t.Clear s.cursor.rest) := by
  have hrest := hs.cursor.rest_ne_nil hkind
  refine ⟨fun hstarts => ?_, fun hstarts => ?_⟩
  · obtain ⟨hclear, hdeclares⟩ :=
      opening_item (nested d) hstarts hkind setting s rfl hrest hs.cursor.eof_kind
    -- Behind the keyword there are fewer tokens than in front of it.
    have hbehind (u : Session) (hu : u.Clear s.cursor.advance.rest)
        (hreach : s.cursor.Reaches u.cursor) : u.cursor.index ≠ s.cursor.index := by
      intro hindex
      obtain ⟨w, hw, -⟩ := hu.passed
      have hlength := congrArg List.length (Cursor.rest_eq_cons hrest)
      rw [(rest_of_index_eq hreach hindex).1] at hw
      rw [hw, List.length_cons, List.length_append] at hlength
      omega
    obtain ⟨ht, hitem⟩ := clear_recovering hclear hrecover
      (fun u hu hreach hindex => absurd hindex (hbehind u hu hreach)) h
    exact ⟨ht, hitem.imp_left (hdeclares item t)⟩
  · have hclear := clear_item (nested d) setting hstarts hs.cursor.eof_kind
    refine (clear_recovering hclear hrecover (fun u hu hreach hindex => ?_) h).1
    rwa [← Cursor.startsItem_kind, (rest_of_index_eq hreach hindex).2, Cursor.startsItem_kind]

end Round

/-! ## Runs -/

/-- An item that begins at a token of the text; if the token is a keyword that begins an item, it
begins this one. -/
structure Tree.Begins (t : Tree) (tokens : Tokens) (x : Token) (item : Item TermId) : Prop where
  mem : x ∈ tokens.body
  roots : ∀ id ∈ item.roots, id.index < t.terms.size
  start : (t.itemSpan item).start = x.span.start
  declares : x.kind.startsItem = true → Declares x.kind item ∨ ∃ region, item = .error region

theorem Tree.Begins.mono {t u : Tree} {tokens : Tokens} {x : Token} {item : Item TermId}
    (h : t.Begins tokens x item) (hsub : t.Prefix u) : u.Begins tokens x item where
  mem := h.mem
  roots id hid := Nat.lt_of_lt_of_le (h.roots id hid) hsub.size_terms
  start := by rw [hsub.itemSpan h.roots, h.start]
  declares := h.declares

/-- The items that were read so far, each with its first token. No keyword in front of the cursor
is missing among them. -/
structure Declared (tokens : Tokens) (items : List (Item TermId)) (s : Session) : Prop where
  covered : Covered tokens items s
  first : ∃ passed firsts, tokens.body = passed ++ s.cursor.rest ∧
    firsts.filter (·.kind.startsItem) = passed.filter (·.kind.startsItem) ∧
    List.Forall₂ (s.tree.Begins tokens) firsts items

theorem filter_of_clear {w : List Token} (h : ∀ x ∈ w, x.kind.startsItem = false) :
    w.filter (·.kind.startsItem) = [] :=
  List.filter_eq_nil_iff.mpr fun x hx => by simp [h x hx]

namespace Declared

variable {tokens : Tokens} {items : List (Item TermId)} {item : Item TermId} {setting : Setting}
  {s t u : Session} {d : Nat}

/-- One more item has the next token as its first one. -/
theorem round (h : Declared tokens items s) (hrecover : setting.config.recover = true)
    (hkind : s.cursor.kind ≠ .eof)
    (ht : (recovering id (skipItem s.cursor) (Grammar.item (nested d))).run setting s = .ok item t)
    (hu : Grammar.semicolons.run setting t = .ok () u) : Declared tokens (items ++ [item]) u := by
  have hs := h.covered.sound
  obtain ⟨htree, hcovered⟩ := h.covered.round hrecover hkind ht hu
  have hpasses := passes_recovering hs h.covered.outside hkind hrecover ht
  obtain ⟨-, hgrows, -⟩ := hu ▸ quiet_semicolons setting t hpasses.sound (Nat.le_refl _) trivial
  have hrest := hs.cursor.rest_ne_nil hkind
  have htoken : s.cursor.token.kind = s.cursor.kind :=
    (Cursor.kind_of_not_split h.covered.outside).symm
  obtain ⟨passed, firsts, hbody, hfirsts, hbegins⟩ := h.first
  obtain ⟨hkeyword, hother⟩ := declares_recovering hs hkind hrecover ht
  have hpassed : ∃ w, s.cursor.rest = w ++ u.cursor.rest ∧
      [s.cursor.token].filter (·.kind.startsItem) = w.filter (·.kind.startsItem) := by
    cases hstarts : s.cursor.kind.startsItem with
    | true =>
        have hclear := (hkeyword hstarts).1
        obtain ⟨hend, -⟩ := hu ▸ clear_semicolons setting t hclear trivial
        obtain ⟨w, hw, hw'⟩ := hend.passed
        refine ⟨s.cursor.token :: w, by rw [Cursor.rest_eq_cons hrest, hw]; rfl, ?_⟩
        simp [htoken, hstarts, filter_of_clear hw']
    | false =>
        have hclear := hother hstarts
        obtain ⟨hend, -⟩ := hu ▸ clear_semicolons setting t hclear trivial
        obtain ⟨w, hw, hw'⟩ := hend.passed
        exact ⟨w, hw, by simp [htoken, hstarts, filter_of_clear hw']⟩
  obtain ⟨w, hw, hfilter⟩ := hpassed
  have hbegin : t.tree.Begins tokens s.cursor.token item := {
    mem := by
      rw [hbody, Cursor.rest_eq_cons hrest]
      simp
    roots := hpasses.mem
    start := by
      rw [hpasses.start]
      simp [Cursor.span, h.covered.outside]
    declares := fun hstarts => (hkeyword (htoken ▸ hstarts)).2.imp_left (htoken.symm ▸ ·) }
  refine ⟨hcovered, passed ++ w, firsts ++ [s.cursor.token], ?_, ?_, ?_⟩
  · rw [hbody, hw, List.append_assoc]
  · rw [List.filter_append, List.filter_append, hfirsts, hfilter]
  · exact List.rel_append (hbegins.imp fun _ _ hold => hold.mono htree)
      (.cons (hbegin.mono hgrows.treePrefix) .nil)

theorem initial (source : String) :
    Declared (Lexing.ofText source).tokens [] (initial (Lexing.ofText source)) where
  covered := .initial source
  first := ⟨[], [], rfl, rfl, .nil⟩

end Declared

/-- An item begins where a keyword does that begins an item only if this is its first token. -/
theorem Tree.Begins.startsItem_iff {t : Tree} {tokens : Tokens} {x : Token} {item : Item TermId}
    (h : t.Begins tokens x item) (hinOrder : Token.InOrder 0 tokens.body tokens.eof) :
    x.kind.startsItem = true ↔ ∃ y ∈ tokens.body, y.kind.startsItem = true ∧
      (t.itemSpan item).start = y.span.start := by
  constructor
  · exact fun hstarts => ⟨x, h.mem, hstarts, h.start⟩
  · rintro ⟨y, hy, hstarts, hstart⟩
    rwa [hinOrder.eq_of_start_eq h.mem hy (h.start.symm.trans hstart)]

/-- With recovery, the keywords that begin an item correspond one to one and in order to the items
that begin where such a keyword does, and each of them is the item that its keyword begins or an
error item. -/
theorem keywords_open_items (source : String) {config : Config} (hrecover : config.recover = true) :
    List.Forall₂ (Program.ofText source config).program.Opens
      (Lexing.ofText source).tokens.declarators
      ((Program.ofText source config).program.itemsAt
        (Lexing.ofText source).tokens.declarators) := by
  obtain ⟨items, s, hloop, hread⟩ := Program.read_runLoop config true source
  obtain ⟨hdeclared, hrest⟩ := runLoop_items hrecover (fun _ _ h => h.covered.sound)
    (fun _ _ _ _ _ h => h.round hrecover) (Declared.initial source) hloop
  obtain ⟨passed, firsts, hbody, hfirsts, hbegins⟩ := hdeclared.first
  rw [hrest, List.append_nil] at hbody
  have hdeclarators : (Lexing.ofText source).tokens.declarators =
      (Lexing.ofText source).tokens.body.filter (·.kind.startsItem) :=
    List.filter_congr fun x hx => (TokenKind.startsItem_of_ne (Lexing.kind_of_mem_body hx)).symm
  have hinOrder := (Session.sound_initial source).cursor.inOrder
  have hfilter : List.Forall₂ (s.tree.Begins (Lexing.ofText source).tokens)
      (Lexing.ofText source).tokens.declarators
      ((⟨s.tree, items.toList⟩ : Program).itemsAt (Lexing.ofText source).tokens.declarators) := by
    have hiff {x : Token} {item : Item TermId}
        (h : s.tree.Begins (Lexing.ofText source).tokens x item) := h.startsItem_iff hinOrder
    have hrel := List.rel_filter (p := fun x => x.kind.startsItem)
      (q := fun item => (Lexing.ofText source).tokens.declarators.any fun x =>
        (s.tree.itemSpan item).start = x.span.start)
      (fun x item h => by simpa [hdeclarators, and_assoc] using hiff h) hbegins
    rwa [hfirsts, ← hbody, ← hdeclarators] at hrel
  rw [Program.ofText, hread]
  have hstarts : ∀ x ∈ (Lexing.ofText source).tokens.declarators, x.kind.startsItem = true := by
    rw [hdeclarators]
    exact fun x hx => (List.mem_filter.mp hx).2
  exact ((List.forall₂_and_left _ _).mpr ⟨hstarts, hfilter⟩).imp fun x item h =>
    ⟨h.2.start, h.2.declares h.1⟩

set_option maxRecDepth 100000 in
/-- Keywords in brackets that are not closed, and an expression and a type that cannot be read. -/
theorem keywords_open_items_broken :
    Config.standard.recover = true ∧
      ((Lexing.ofText "f (def a : [x type T : try p : (N) \x7b assert y : A").tokens.declarators.map
        (·.lexeme)) = ["def", "type", "try", "assert"] ∧
      (Program.ofText "f (def a : [x type T : try p : (N) \x7b assert y : A"
        .standard).diagnostics.length = 4 ∧
      List.Forall₂ (Program.ofText "f (def a : [x type T : try p : (N) \x7b assert y : A"
          .standard).program.Opens
        (Lexing.ofText "f (def a : [x type T : try p : (N) \x7b assert y : A").tokens.declarators
        ((Program.ofText "f (def a : [x type T : try p : (N) \x7b assert y : A"
          .standard).program.itemsAt
          (Lexing.ofText "f (def a : [x type T : try p : (N) \x7b assert y : A").tokens.declarators) :=
  ⟨rfl, by decide +kernel, by decide +kernel, keywords_open_items _ rfl⟩

end BendSyntax
