import BendSyntax.Proofs.DepthLimit
import BendSyntax.Proofs.Enclosed
import BendSyntax.Proofs.Lexing.Excerpts
import BendSyntax.Proofs.Plain.Expressions
import BendSyntax.Proofs.Respaced

/-! Plain expressions reparse to themselves: the text of every term of one is read as this term.
What the term was read with in front of it and behind it does not matter to it. -/

namespace BendSyntax

open Reading Grammar Pieces

/-! ## Pieces of an excerpt -/

/-- Tokens that make the same pieces. -/
theorem Token.Shifted.pieces {k : Nat} {t u : Token} (h : t.Shifted k u) : u.pieces = t.pieces := by
  simp only [Token.pieces, Token.isTight, h.kind, h.lexeme, h.spaced]

theorem Token.forall_kind_of_shifted {k : Nat} {ts us : List Token} {P : TokenKind → Prop}
    (h : List.Forall₂ (Token.Shifted k) ts us) (hus : ∀ u ∈ us, P u.kind) : ∀ t ∈ ts, P t.kind := by
  induction h with
  | nil => exact hus
  | cons h _ ih =>
      obtain ⟨hu, hus⟩ := List.forall_mem_cons.mp hus
      exact List.forall_mem_cons.mpr ⟨h.kind ▸ hu, ih hus⟩

theorem Pieces.ofTokens_shifted {k : Nat} {ts us : List Token}
    (h : List.Forall₂ (Token.Shifted k) ts us) : ofTokens us = ofTokens ts := by
  induction h with
  | nil => rfl
  | cons h _ ih => rw [ofTokens_cons, ofTokens_cons, h.pieces, ih]

namespace Plain

/-- An expression begins with a token that is one piece, and not with a plus. -/
theorem kind_of_run_expr {min : Level} {ps : List Piece} {y : Part × List Piece}
    (h : (expr min).run ps = some y) :
    isWhole (Pieces.kind ps) = true ∧ Pieces.kind ps ≠ .mark .plus := by
  rw [run_expr] at h
  obtain ⟨_, _, hleading, -⟩ := Parser.run_bind_eq_some.mp h
  refine ⟨isWhole_of_leading hleading, fun hplus => ?_⟩
  simp [leading, operand, Parser.kind, Parser.run_bind, hplus, Grammar.isLiteral] at hleading

namespace Source

variable {x : Source} {tree : Tree} {id : TermId} {c d : Cursor} {b : Part}

/-- The tokens of a term, the last of them perhaps half of a token of the text. -/
structure Excerpt (x : Source) (c d : Cursor) (t : Token) (us ws : List Token) : Prop where
  tokens : x.tokens = x.tokens.take c.index ++ t :: (us ++ x.tokens.drop d.index)
  excerpted : Lexing.Excerpted us (x.tokens.drop d.index) ws
  pieces : c.pieces = ofTokens (t :: ws) ++ d.pieces
  kind : c.kind = t.kind
  start : c.span.start = t.span.start
  stop : Lexing.endOf t.span.stop ws = d.last.stop

theorem before?_eq {index : Nat} (h : index ≤ x.tokens.length) :
    x.before? index = (x.tokens.take index).getLast? := by
  cases index with
  | zero => rfl
  | succ n =>
      have hlt : n < x.tokens.length := h
      rw [List.getLast?_take, before?, if_neg (Nat.succ_ne_zero n), if_neg (Nat.succ_ne_zero n),
        Nat.add_sub_cancel, List.getElem?_eq_getElem hlt]
      rfl

/-- The pieces between two cursors are those of the tokens between them, the last of them perhaps
half of a token. -/
theorem Faces.between {n : Nat} (hc : x.Faces c) (hd : x.Faces d) (hsplit : c.split = false)
    (hrest : d.rest = c.rest.drop n) (hindex : d.index = c.index + n) (hn : n ≤ c.rest.length) :
    ∃ ws, Lexing.Excerpted (c.rest.take n) d.rest ws ∧ c.pieces = ofTokens ws ++ d.pieces ∧
      ∀ place, ws ≠ [] → Lexing.endOf place ws = d.last.stop := by
  have hpieces : c.pieces = ofTokens (c.rest.take n) ++ ofTokens d.rest := by
    rw [Cursor.pieces_of_not_split hsplit, ← ofTokens_append, hrest, List.take_append_drop]
  cases hhalf : d.split with
  | false =>
      refine ⟨c.rest.take n, .inl rfl, by rw [hpieces, Cursor.pieces_of_not_split hhalf], ?_⟩
      intro place hne
      have hle : d.index ≤ x.tokens.length := by
        have hpos := List.length_pos_iff.mpr hne
        rw [List.length_take] at hpos
        rw [hc.rest, List.length_drop] at hn hpos
        omega
      have hlast : x.before? d.index = (c.rest.take n).getLast? := by
        rw [before?_eq hle, hindex, List.take_add, ← hc.rest, List.getLast?_append_of_ne_nil _ hne]
      have hsome := List.getLast?_eq_some_getLast hne
      rw [Lexing.endOf_eq, hsome, hd.whole hhalf _ (hlast.trans hsome)]
      rfl
  | true =>
      have hne : d.rest ≠ [] := by
        intro hnil
        rw [hd.split_of_nil hnil] at hhalf
        cases hhalf
      obtain ⟨v, vs, hvs⟩ := List.exists_cons_of_ne_nil hne
      obtain ⟨hkind, hleft⟩ := hd.pieces_of_split hvs hhalf
      refine ⟨c.rest.take n ++ [Lexing.firstHalf v], .inr ⟨v, vs, hvs, hkind, rfl⟩, ?_, fun place _ => ?_⟩
      · rw [hpieces, hleft, hvs, ofTokens_shiftRight hkind, ofTokens_append, List.append_assoc]
        rfl
      · rw [Lexing.endOf, List.foldl_append, hd.half hhalf, Cursor.span, hhalf, Cursor.token_of_cons hvs]
        rfl

theorem Spells.excerpt (h : x.Spells tree id c d b) : ∃ t us ws, x.Excerpt c d t us ws := by
  obtain ⟨n, hn, hrest, hindex, -⟩ := h.reaches
  obtain ⟨ws, hws, hpieces, hstop⟩ := h.front.between h.back h.outside hrest hindex hn
  have hrun : (expr .assignment).run (ofTokens ws) = some (b, []) := (hpieces ▸ h.grown).run_expr
  have hwhole := (kind_of_run_expr hrun).1
  have htokens : x.tokens = x.tokens.take c.index ++ (c.rest.take n ++ d.rest) := by
    rw [hrest, List.take_append_drop, h.front.rest, List.take_append_drop]
  cases hmid : c.rest.take n with
  | nil =>
      rcases hws with rfl | ⟨v, vs, -, -, rfl⟩
      · rw [hmid] at hwhole
        cases hwhole
      · rw [hmid] at hwhole
        cases hwhole
  | cons t us =>
      rw [hmid, h.back.rest] at hws htokens
      obtain ⟨ws, rfl, hexcerpted⟩ : ∃ ws', ws = t :: ws' ∧ Lexing.Excerpted us (x.tokens.drop d.index) ws' := by
        rcases hws with rfl | ⟨v, vs, hvs, hkind, rfl⟩
        · exact ⟨us, rfl, .inl rfl⟩
        · exact ⟨_, rfl, .inr ⟨v, vs, hvs, hkind, rfl⟩⟩
      have hcons : c.rest = t :: (us ++ d.rest) := by
        rw [← List.take_append_drop n c.rest, hmid, hrest]
        rfl
      refine ⟨t, us, ws, htokens, hexcerpted, hpieces, ?_, ?_, hstop t.span.start (List.cons_ne_nil t ws)⟩
      · rw [Cursor.kind_of_not_split h.outside, Cursor.token_of_cons hcons]
      · rw [Cursor.span, h.outside, Cursor.token_of_cons hcons]
        rfl

namespace Excerpt

variable {t u u' : Token} {us us' ws : List Token} (h : x.Excerpt c d t us ws)
include h

theorem isElementary (hu : u ∈ t :: ws) : u.kind.isElementary = true := by
  have hplain : ∀ u ∈ t :: us, u.kind.isElementary = true := by
    refine fun u hu => x.plain u ?_
    rw [h.tokens, ← List.cons_append]
    exact List.mem_append_right _ (List.mem_append_left _ hu)
  rcases h.excerpted with rfl | ⟨v, vs, -, -, rfl⟩
  · exact hplain u hu
  · rw [← List.cons_append, List.mem_append, List.mem_singleton] at hu
    rcases hu with hu | rfl
    · exact hplain u hu
    · rfl

/-- In front of a sign stands nothing that ends an operand. -/
theorem lastKind_of_fresh (hfresh : x.Fresh c) (hkind : t.kind = .mark .minus) :
    (Lexing.lastKind none (x.tokens.take c.index)).any TokenKind.endsOperand = false := by
  have hle : c.index ≤ x.tokens.length := by
    by_contra hlt
    have hlength := congrArg List.length h.tokens
    rw [List.length_append, List.length_take, Nat.min_eq_right (by omega), List.length_cons] at hlength
    omega
  rw [Lexing.lastKind_none, ← before?_eq hle]
  cases hbefore : x.before? c.index with
  | none => rfl
  | some u => exact hfresh (h.kind.trans hkind) u hbefore

/-- The parser takes the excerpt, too, where it stands alone. -/
theorem run_expr (hgrown : Grown c.pieces b d.pieces) {k : Nat}
    (hu : Token.Shifted k { u' with spaced := t.spaced } t)
    (hus : List.Forall₂ (Token.Shifted k) us' ws) :
    (expr .assignment).run (ofTokens (u' :: us')) = some (b, []) := by
  have hrun : (expr .assignment).run (ofTokens (t :: ws)) = some (b, []) := (h.pieces ▸ hgrown).run_expr
  have hwhole := (kind_of_run_expr hrun).1
  rw [kind_ofTokens_cons] at hwhole
  have hkind : t.kind = u'.kind := hu.kind
  have hlexeme : t.lexeme = u'.lexeme := hu.lexeme
  have hne : t.kind ≠ .mark .shiftRight := by
    rintro hshift
    rw [hshift] at hwhole
    cases hwhole
  rw [ofTokens_whole hne] at hrun
  rw [ofTokens_whole (hkind ▸ hne), ← ofTokens_shifted hus, ← hkind, ← hlexeme, ← hrun]
  exact overlooks_expr .assignment ⟨t.kind, t.lexeme, t.isTight, false⟩ _ u'.isTight false

end Excerpt

/-! ## Whole texts -/

/-- A text of tokens that plain expressions are made of. -/
def ofText (source : String)
    (hplain : ∀ t ∈ (Lexing.ofText source).tokens.body, t.kind.isElementary = true) : Source where
  tokens := (Lexing.ofText source).tokens.body
  eof := (Lexing.ofText source).tokens.eof
  inOrder := Lexing.inOrder_onward none .start source.toList
  plain := hplain
  named t ht _ := (Lexing.measured_ofText source).length t ht

theorem faces_ofText {source : String}
    (hplain : ∀ t ∈ (Lexing.ofText source).tokens.body, t.kind.isElementary = true) :
    (ofText source hplain).Faces (.start (Lexing.ofText source).tokens) where
  toOrderly := Cursor.orderly_start source
  eof := rfl
  rest := rfl
  whole _ := nofun
  half := nofun

theorem fresh_ofText {source : String}
    (hplain : ∀ t ∈ (Lexing.ofText source).tokens.body, t.kind.isElementary = true) :
    (ofText source hplain).Fresh (.start (Lexing.ofText source).tokens) := fun _ _ h => by cases h

theorem follows_ofText {source : String}
    (hplain : ∀ t ∈ (Lexing.ofText source).tokens.body, t.kind.isElementary = true)
    (hclean : (Lexing.ofText source).diagnostics = []) :
    (ofText source hplain).Follows (initial (Lexing.ofText source)) where
  faces := faces_ofText hplain
  failures := nofun
  patterns := rfl
  diagnostics := by rw [initial, hclean]
  reads := nofun

/-- Every token that stands further on is one that plain expressions are made of, or the end. -/
theorem Faces.kindAt_succ_ne (h : x.Faces c) (n : Nat) {k : TokenKind} (hk : k.isElementary = false)
    (heof : k ≠ .eof) : c.kindAt (n + 1) ≠ k := by
  rintro rfl
  change (c.tokenAt (n + 1)).kind.isElementary = false at hk
  change (c.tokenAt (n + 1)).kind ≠ .eof at heof
  rw [Cursor.tokenAt] at hk heof
  cases hget : c.rest[n + 1]? with
  | some t =>
      have hmem : t ∈ x.tokens := List.mem_of_mem_drop (h.rest ▸ List.mem_of_getElem? hget)
      rw [hget] at hk
      exact Bool.false_ne_true (hk.symm.trans (x.plain t hmem))
  | none =>
      rw [hget] at heof
      exact heof h.eof_kind

end Source

/-- A statement of such tokens is an expression. -/
theorem simulates_statement (x : Source) (d : Nat) {setting : Setting} {s : Session}
    (hslot : setting.slot = .free .term) (hs : x.Follows s) (hfresh : x.Fresh s.cursor) :
    Simulates x setting s (Grammar.nested d).statement (expr .assignment) fun id b t =>
      x.Follows t ∧ x.Answers s.cursor t id b := by
  cases d with
  | zero =>
      intro he
      cases he
  | succ d =>
      have hsame : { setting with slot := setting.slot.withUsage .term } = setting := by
        obtain ⟨config, remembers, slot⟩ := setting
        obtain rfl : slot = .free .term := hslot
        rfl
      refine .congr ?_ rfl (guided_nested x d .assignment setting s (by rw [hslot]; rfl) hs hfresh)
      change (Grammar.statement (Grammar.nested d)).run
        { setting with slot := setting.slot.withUsage .term } s = _
      rw [hsame]
      have hequals := hs.faces.kindAt_succ_ne 0 (k := .mark .equals) (by decide) (by decide)
      have hcolon := hs.faces.kindAt_succ_ne 0 (k := .mark .colon) (by decide) (by decide)
      simp only [Grammar.statement, Reading.cursor, Reading.asks, Reading.run_bind, Outcome.andThen_ok]
      split
      · exact absurd ‹_› hequals
      · exact absurd ‹_› hcolon
      · rfl

end Plain

namespace Expression

variable {source : String} {config : Config} {b : Part}

/-- A text that the parser of plain expressions takes as a whole is an expression with this dump. -/
theorem ofText_of_run
    (hplain : ∀ t ∈ (Lexing.ofText source).tokens.body, t.kind.isElementary = true)
    (hclean : (Lexing.ofText source).diagnostics = [])
    (hrun : (Plain.expr .assignment).run (ofTokens (Lexing.ofText source).tokens.body) = some (b, []))
    (hdeep : ∀ ds, ofText source config = .error ds → ¬tooDeeplyNested ds) :
    ∃ e, ofText source config = .ok e ∧ e.dump = b.dump := by
  have hs := Plain.Source.follows_ofText hplain hclean
  have hfresh := Plain.Source.fresh_ofText hplain
  have hsim := @Plain.simulates_statement (Plain.Source.ofText source hplain) config.maxDepth
    (Reading.setting config true) _ rfl hs hfresh
  rw [ofText, read_eq, onText] at hdeep
  have hpieces : (initial (Lexing.ofText source)).cursor.pieces =
      ofTokens (Lexing.ofText source).tokens.body := rfl
  unfold Plain.Simulates Plain.Mirrors at hsim
  rw [hpieces, hrun] at hsim
  cases hstatement : (nested config.maxDepth).statement.run (Reading.setting config true)
      (initial (Lexing.ofText source)) with
  | ok id t =>
      rw [hstatement] at hsim
      obtain ⟨-, b', hb, ht, hanswers⟩ := hsim
      obtain ⟨rfl, hend⟩ := Prod.mk.inj (Option.some.inj hb)
      have heof : t.cursor.kind = .eof := by
        rw [← ht.faces.kind_pieces, ← hend]
        rfl
      exact ⟨_, ofText_of_statement hstatement heof ht.diagnostics, hanswers.dump⟩
  | error e t =>
      rw [hstatement] at hsim
      have hfatal : e.kind = .tooDeep := by
        rw [← SyntaxError.isFatal_iff_kind]
        by_contra hno
        cases (hsim (Bool.eq_false_iff.mpr hno)).answer
      have hwhole : (wholeStatement (nested config.maxDepth)).run (Reading.setting config true)
          (initial (Lexing.ofText source)) = .error e t := by
        rw [wholeStatement, Reading.run_bind, hstatement]
        rfl
      rw [hwhole] at hdeep
      exact absurd ⟨e.toDiagnostic, by simp, hfatal⟩ (hdeep _ rfl)

/-- Every term of a plain expression is what stands somewhere in its text. -/
theorem reads_ofText {e : Expression}
    (hplain : ∀ t ∈ (Lexing.ofText source).tokens.body, t.kind.isElementary = true)
    (h : ofText source config = .ok e) : (Lexing.ofText source).diagnostics = [] ∧
      ∀ id : TermId, id.index < e.tree.terms.size → (Plain.Source.ofText source hplain).Reads e.tree id := by
  unfold ofText at h
  rw [read_eq, onText] at h
  obtain ⟨s, hrun, htree, hclean⟩ := Outcome.ok_of_expression h
  obtain ⟨hstatement, -⟩ := run_wholeStatement.mp hrun
  have hlexical : (Lexing.ofText source).diagnostics = [] := by
    have hprefix := (onward_of_ok hstatement).diagnostics
    rw [hclean] at hprefix
    exact List.prefix_nil.mp hprefix
  refine ⟨hlexical, fun id hid => ?_⟩
  have hsim := @Plain.simulates_statement (Plain.Source.ofText source hplain) config.maxDepth
    (Reading.setting config true) _ rfl (Plain.Source.follows_ofText hplain hlexical)
    (Plain.Source.fresh_ofText hplain)
  unfold Plain.Simulates Plain.Mirrors at hsim
  rw [hstatement] at hsim
  obtain ⟨-, -, -, hfollows, -⟩ := hsim
  exact htree ▸ hfollows.reads id (htree ▸ hid)

/-- Every term of a plain expression is what is read of its own text, as far as this is not nested
too deeply. -/
theorem reparses {e : Expression}
    (h : ofText source config = .ok e)
    (hplain : ∀ t ∈ (Lexing.ofText source).tokens.body, t.kind.isElementary = true)
    {id : TermId} (hid : id.index < e.tree.terms.size) {config' : Config}
    (hdeep : ∀ ds, ofText ((e.tree.span id).text source) config' = .error ds → ¬tooDeeplyNested ds) :
    ∃ e', ofText ((e.tree.span id).text source) config' = .ok e' ∧ e'.dump = e.tree.dump id := by
  obtain ⟨hclean, hreads⟩ := reads_ofText hplain h
  obtain ⟨c, d, b, hspells⟩ := hreads id hid
  obtain ⟨t, us, ws, hexcerpt⟩ := hspells.excerpt
  have hrun := (hexcerpt.pieces ▸ hspells.grown : Plain.Grown (ofTokens (t :: ws) ++ d.pieces) b d.pieces).run_expr
  have hplus := (Plain.kind_of_run_expr hrun).2
  rw [kind_ofTokens_cons] at hplus
  obtain ⟨before, text, rest, u, us', hsource, hbefore, hstop, hbody, hclean', hu, hus⟩ :=
    Lexing.ofText_excerpt hexcerpt.tokens hclean hexcerpt.excerpted hplus
      (hexcerpt.lastKind_of_fresh hspells.fresh)
  have htext : (e.tree.span id).text source = String.ofList text := by
    have hspan : (e.tree.span id).text? source.toList = some text := by
      rw [hsource]
      refine Span.text?_append ?_ ?_ rest
      · rw [hspells.start, hexcerpt.start, hbefore]
      · rw [hspells.stop, ← hexcerpt.stop, hstop]
    rw [Span.text, hspan]
  rw [htext] at hdeep ⊢
  rw [hspells.dump]
  refine ofText_of_run ?_ hclean' ?_ hdeep
  · rw [hbody]
    have hkind : t.kind = u.kind := hu.kind
    exact List.forall_mem_cons.mpr ⟨hkind ▸ hexcerpt.isElementary List.mem_cons_self,
      Token.forall_kind_of_shifted (P := (·.isElementary = true)) hus fun v hv => hexcerpt.isElementary (List.mem_cons_of_mem t hv)⟩
  · rw [hbody]
    exact hexcerpt.run_expr hspells.grown hu hus

set_option maxRecDepth 100000 in
/-- A type argument that ends in the middle of a `>>`. -/
theorem reparses_half_token : ∃ e, ofText "f<a, g<b>>(-1)" .standard = .ok e ∧
    (e.tree.span ⟨4⟩).text "f<a, g<b>>(-1)" = "g<b>" ∧
      ∃ e', ofText "g<b>" .standard = .ok e' ∧ e'.dump = e.tree.dump ⟨4⟩ := by
  have hread : (ofText "f<a, g<b>>(-1)" .standard).toOption.any (fun e =>
      4 < e.tree.terms.size && (e.tree.span ⟨4⟩).text "f<a, g<b>>(-1)" == "g<b>") = true := by
    decide +kernel
  have hpart : (ofText "g<b>" .standard).toOption.isSome = true := by decide +kernel
  have hplain : ∀ t ∈ (Lexing.ofText "f<a, g<b>>(-1)").tokens.body, t.kind.isElementary = true := by
    decide +kernel
  cases h : ofText "f<a, g<b>>(-1)" .standard with
  | ok e =>
      rw [h] at hread
      obtain ⟨hid, htext⟩ : (⟨4⟩ : TermId).index < e.tree.terms.size ∧
          (e.tree.span ⟨4⟩).text "f<a, g<b>>(-1)" = "g<b>" := by
        simpa [Except.toOption] using hread
      have hdeep : ∀ ds, ofText ((e.tree.span ⟨4⟩).text "f<a, g<b>>(-1)") .standard = .error ds →
          ¬tooDeeplyNested ds := by
        intro ds hds
        rw [htext] at hds
        rw [hds] at hpart
        cases hpart
      obtain ⟨e', he', hdump⟩ := reparses h hplain hid hdeep
      rw [htext] at he'
      exact ⟨e, rfl, htext, e', he', hdump⟩
  | error ds =>
      rw [h] at hread
      cases hread

end Expression

end BendSyntax
