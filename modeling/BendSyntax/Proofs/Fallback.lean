import BendSyntax.Proofs.Containment
import BendSyntax.Proofs.Fields
import BendSyntax.Proofs.Lexing.Reported
import BendSyntax.Proofs.Memory

/-! Definitions that are no equations. Behind `def name :` a type with `=` behind it is tried; where
there is none, the same tokens are read once more, as a body. Nothing is left of the first reading but
what it remembers, so without memory the body is what its text is as an expression. With memory this
holds as long as no attempt is passed over under other restrictions than it failed under. -/

namespace BendSyntax

open Reading Grammar

/-! ## The text of a definition -/

namespace Gap

theorem atFront_blank (cs : List Char) : atFront (' ' :: cs) = scan .blanks 1 cs :=
  scan_blank 0 rfl

end Gap

namespace Lexing

variable {previous : Option TokenKind} {p q : Position} {cs : List Char} {k : Nat}

theorem behindGap_blank (q : Position) (cs : List Char) :
    behindGap q (' ' :: cs) = behindGap (q.after [' ']) cs := by
  have hrest : (Gap.scan .blanks 1 cs).rest = (Gap.scan .blanks 0 cs).rest :=
    Gap.rest_scan_congr .blanks 0 1 cs
  have hlength := Gap.scan_length .blanks 1 cs
  have hlength' := Gap.scan_length .blanks 0 cs
  have hsucc : (Gap.atFront (' ' :: cs)).length = (Gap.atFront cs).length + 1 := by
    rw [Gap.atFront_blank, Gap.atFront]
    rw [hrest] at hlength
    omega
  rw [behindGap, behindGap, hsucc, List.take_succ_cons]
  exact Position.after_append q [' '] _

/-- Behind a blank the tokens of a text are those that it has alone. -/
theorem shifted_onward_blank (hprevious : previous.any TokenKind.endsOperand = false)
    (h : (q.after [' ']).offset = p.offset + k) :
    List.Forall₂ (Token.Shifted k) (onward none p cs).tokens.body
      (onward previous q (' ' :: cs)).tokens.body := by
  have hsame : (Gap.atFront (' ' :: cs)).rest = (Gap.atFront cs).rest :=
    Gap.atFront_blank cs ▸ Gap.rest_scan_congr .blanks 0 1 cs
  cases hrest : (Gap.atFront cs).rest with
  | nil =>
      rw [(onward_of_nil hrest).1, (onward_of_nil (hsame.trans hrest)).1]
      exact .nil
  | cons c rest =>
      have hfirst : first previous (' ' :: cs) = first none cs := by
        rw [first, first, hsame, hprevious]
        rfl
      have hspaced : (previous.isNone || (Gap.atFront (' ' :: cs)).length != 0) = true := by
        have hlength := Gap.scan_length .blanks 1 cs
        have hle := Gap.rest_length_le cs
        rw [← Gap.atFront_blank, hsame] at hlength
        simp only [Bool.or_eq_true, bne_iff_ne]
        exact .inr (by omega)
      have hgap : (behindGap q (' ' :: cs)).offset = (behindGap p cs).offset + k := by
        rw [behindGap_blank]
        exact Position.offset_after h _
      rw [(onward_of_cons hrest).1, (onward_of_cons (hsame.trans hrest)).1, hfirst, hspaced]
      exact .cons (Scanned.shifted_toToken _ hgap _) (shifted_onward (Position.offset_after hgap _))

theorem clean_onward_blank (hprevious : previous.any TokenKind.endsOperand = false)
    (hclean : (onward none p cs).diagnostics = []) : (onward previous q (' ' :: cs)).diagnostics = [] := by
  have hsame : (Gap.atFront (' ' :: cs)).rest = (Gap.atFront cs).rest :=
    Gap.atFront_blank cs ▸ Gap.rest_scan_congr .blanks 0 1 cs
  cases hrest : (Gap.atFront cs).rest with
  | nil =>
      have hopen : (Gap.atFront (' ' :: cs)).unclosed.isSome = (Gap.atFront cs).unclosed.isSome :=
        Gap.atFront_blank cs ▸ (Gap.scan_congr .blanks 0 1 cs).2
      rw [(onward_of_nil hrest).2] at hclean
      rw [(onward_of_nil (hsame.trans hrest)).2]
      unfold gapDiagnostics at hclean ⊢
      split at hclean
      · cases hclean
      · simp_all
  | cons c rest =>
      have hfirst : first previous (' ' :: cs) = first none cs := by
        rw [first, first, hsame, hprevious]
        rfl
      rw [(onward_of_cons hrest).2, List.append_eq_nil_iff, List.append_eq_nil_iff,
        List.map_eq_nil_iff] at hclean
      obtain ⟨⟨-, hflaws⟩, hclean⟩ := hclean
      rw [(onward_of_cons (hsame.trans hrest)).2, hfirst, gapDiagnostics,
        Gap.unclosed_atFront (hsame.trans hrest), hflaws, clean_onward rfl hclean]
      rfl

/-- Behind `def f : ` a text has the tokens that it has alone. -/
theorem ofText_definition {source : String} (hclean : (ofText source).diagnostics = []) :
    ∃ t u v us k, (initial (ofText ("def f : " ++ source))).Before (t :: u :: v :: us) ∧
      t.kind = .word .def_ ∧ u.kind = .ident ∧ u.lexeme = "f" ∧ v.kind = .mark .colon ∧
      List.Forall₂ (Token.Shifted k) (ofText source).tokens.body us := by
  have hkeyword : (⟨.word .def_, "def"⟩ : Word).Solid := @Word.solid_word "def" (by decide) (by decide)
  have hname : (⟨.ident, "f"⟩ : Word).Solid := @Word.solid_word "f" (by decide) (by decide)
  have hcolon : (Word.mark .colon).Solid := Word.solid_symbol nofun
  have hends (cs : List Char) : Scanned.Ends (' ' :: cs) := Scanned.ends_cons rfl _
  have hfirst : Cuts none .start "def".toList (" f".toList ++ " :".toList ++ ' ' :: source.toList) _ _ :=
    .word false hkeyword (hkeyword.whole _ (hends _))
  have hsecond : Cuts (some (.word .def_)) (Position.start.after "def".toList) " f".toList
      (" :".toList ++ ' ' :: source.toList) _ _ := .word true hname (hname.whole _ (hends _))
  have hthird : Cuts (some .ident) ((Position.start.after "def".toList).after " f".toList) " :".toList
      (' ' :: source.toList) _ _ := .word true hcolon (hcolon.whole _ (hends _))
  have hfront := hfirst.append (hsecond.append hthird)
  have htext : ("def f : " ++ source).toList =
      "def".toList ++ (" f".toList ++ " :".toList) ++ ' ' :: source.toList := by simp
  unfold ofText at hclean ⊢
  rw [htext]
  refine ⟨_, _, _, _, ((Position.start.after "def : f".toList).after [' ']).offset,
    ⟨⟨⟨[], .nil, hfront.body⟩, eof_kind_onward _ _ _, rfl⟩, ?_⟩, rfl, rfl, rfl, rfl, ?_⟩
  · exact congrArg List.toArray (hfront.diagnostics.trans (clean_onward_blank rfl hclean))
  · exact shifted_onward_blank rfl rfl

end Lexing

/-! ## Runs without memory -/

namespace Comparison

variable {C : Comparison}

/-- The same comparison of runs that remember nothing. -/
def forgetting (C : Comparison) : Comparison :=
  { C with
    left := { C.left with remembers := false }
    right := { C.right with remembers := false }
    failures := fun _ _ => True }

instance [h : C.Lawful] : C.forgetting.Lawful := { h with }

instance [h : C.Retractable] : C.forgetting.Retractable := ⟨h.left, h.right⟩

instance : C.forgetting.Recalling := ⟨fun _ _ _ => rfl, fun _ _ _ _ _ => trivial⟩

/-- Sessions of runs that remember nothing correspond if all that is remembered is dropped. -/
theorem sessions_of_forgetting {s t : Session} (h : C.forgetting.Sessions s t) (hnone : C.failures [] []) :
    C.Sessions { s with failures := [] } { t with failures := [] } where
  cursor := h.cursor
  terms := by
    obtain ⟨nodes, nodes', hs, ht, hnodes⟩ := h.terms
    exact ⟨nodes, nodes', hs, ht, hnodes.imp fun _ _ hn => ⟨hn.term, hn.span, hn.usage, hn.name⟩⟩
  patterns := by
    obtain ⟨nodes, nodes', hs, ht, hnodes⟩ := h.patterns
    exact ⟨nodes, nodes', hs, ht, hnodes.imp fun _ _ hn => ⟨hn.pattern, hn.span⟩⟩
  diagnostics := h.diagnostics
  failures := hnone

theorem forgetting_levels [C.Lawful] [C.Retractable]
    (h : ∀ {c d}, C.cursors c d → C.errors (.tooDeep C.left.config.maxDepth c.span)
      (.tooDeep C.right.config.maxDepth d.span)) (d : Nat) :
    C.forgetting.Levels (nested d) (nested d) := by
  induction d with
  | zero => exact fun g => agrees_refuse h
  | succ d ih => exact agrees_produce ih.supports

end Comparison

/-! ## The reading of a definition -/

section Definitions

variable {d : Nat} {deep : Deeper} {setting : Setting} {s t : Session} {a b c : Token}
  {ts : List Token} {x : String} {e : SyntaxError} {type : TermId}

/-- Behind the colon of a definition without parameters its last forms are tried. -/
theorem run_item_definition (hs : s.Before (a :: b :: c :: ts)) (ha : a.kind = .word .def_)
    (hb : b.kind = .ident) (hx : b.lexeme = x) (hc : c.kind = .mark .colon) :
    (item deep).run setting s =
      ((definitionTail deep).run setting s.next.next.next).andThen fun form t =>
        .ok (.definition ⟨x, [], form, s.cursor.span.hull t.cursor.last⟩) t := by
  have hcolon := hs.next.next.kind.trans hc
  have htypeParams : (typeParams deep).run setting s.next.next = .ok [] s.next.next := by
    rw [typeParams, run_bind, Session.Before.run_accept_of_ne (by simp [hcolon])]
    rfl
  have hform : (definitionForm deep).run setting s.next.next =
      (definitionTail deep).run setting s.next.next.next := by
    rw [definitionForm, run_bind, Session.Before.run_accept_of_ne (by simp [hcolon]), Outcome.andThen_ok]
    change ((expect (.mark .colon)).run setting s.next.next).andThen _ = _
    rw [hs.next.next.run_expect hc]
    rfl
  rw [item, run_bind]
  change Outcome.andThen (.ok s.cursor.kind s) _ = _
  rw [Outcome.andThen_ok, hs.kind.trans ha]
  change ((identifier).run setting s.next).andThen _ = _
  rw [hs.next.run_identifier hb hx, Outcome.andThen_ok, run_bind, htypeParams, Outcome.andThen_ok, run_bind,
    hform]
  rfl

/-- What is tried first is a type with `=` behind it. -/
theorem run_speculate_equationType :
    (speculate (some <$> equationType deep)).run setting s =
      (((equationType deep).run setting s).andThen fun type t => .ok (some type) t).retracted s := rfl

/-- An error node is always added. -/
theorem sure_body {config : Config} (hrecover : config.recover = true) : Sure config (body deep) :=
  ((Sure.asks _).bind fun _ => .pure _).bind fun start =>
    ((Sure.skipToItem start).bind fun _ _ _ _ => ⟨_, _, rfl⟩).recovering hrecover

/-- Only a type with `=` behind it is accepted. -/
theorem kind_of_equationType (h : (equationType deep).run setting s = .ok type t) :
    t.cursor.kind = .mark .equals := by
  obtain ⟨id, u, -, h⟩ := ok_of_bind h
  obtain ⟨sees, v, hsees, h⟩ := ok_of_bind h
  cases hsees
  split at h
  · rename_i hequals
    cases h
    simpa using hequals
  · cases h

theorem run_definitionTail_equation (hrecover : setting.config.recover = true)
    (h : (equationType deep).run setting s = .ok type t) :
    ∃ value u, (definitionTail deep).run setting s = .ok (.equation type value) u := by
  have hequals := kind_of_equationType h
  have hbody : Sure setting.config (body deep) := sure_body hrecover
  obtain ⟨value, u, hvalue⟩ := hbody setting.remembers setting.slot t.next
  refine ⟨value, u, ?_⟩
  rw [definitionTail]
  change ((speculate (some <$> equationType deep)).run setting s).andThen _ = _
  rw [run_speculate_equationType, h]
  change ((expect (.mark .equals)).run setting t).andThen _ = _
  rw [Session.run_expect hequals]
  change ((body deep).run setting t.next).andThen _ = _
  rw [hvalue]
  rfl

theorem run_definitionTail_fatal (h : (equationType deep).run setting s = .error e t)
    (he : e.isFatal = true) : (definitionTail deep).run setting s = .error e t := by
  rw [definitionTail]
  change ((speculate (some <$> equationType deep)).run setting s).andThen _ = _
  rw [run_speculate_equationType, h]
  simp only [Outcome.andThen_error, Outcome.retracted, he, if_true]

/-- Of a type that is given up nothing is left but what it remembers. -/
theorem run_definitionTail_nullary (hs : s.Sound)
    (h : (equationType (nested d)).run setting s = .error e t) (he : e.isFatal = false) :
    (definitionTail (nested d)).run setting s =
      ((statementOrError (nested d) noDefinition s.cursor.span).run setting
        { s with failures := t.failures }).andThen fun root u => .ok (.nullary root) u := by
  have hlaid := places_equationType (laysOut_nested d) setting s hs (Nat.le_refl _) trivial
  rw [h] at hlaid
  obtain ⟨-, hgrows, -⟩ := hlaid
  rw [definitionTail]
  change ((speculate (some <$> equationType (nested d))).run setting s).andThen _ = _
  rw [run_speculate_equationType, h]
  simp only [Outcome.andThen_error, Outcome.retracted, he, Bool.false_eq_true, if_false, hgrows.rewind]
  rfl

end Definitions

/-! ## The first item of a text -/

/-- Whether the first item of a program is an equation. -/
def Program.opensWithEquation (p : Program) : Bool :=
  match p.items with
  | .definition ⟨_, _, .equation _ _, _⟩ :: _ => true
  | _ => false

/-- A program that is one definition without parameters, of which the body is an expression and which
holds nothing else. -/
structure Program.Defines (p : Program) (x : String) (e : Expression) : Prop where
  item : ∃ root span, p.items = [.definition ⟨x, [], .nullary root, span⟩] ∧ p.tree.dump root = e.dump
  terms : p.tree.terms.size = e.tree.terms.size
  patterns : p.tree.patterns.size = e.tree.patterns.size

theorem Program.opensWithEquation_of_head? {p : Program} {x : String} {params : List (TypeParam TermId)}
    {type value : TermId} {span : Span}
    (h : p.items.head? = some (.definition ⟨x, params, .equation type value, span⟩)) :
    p.opensWithEquation = true := by
  obtain ⟨rest, hitems⟩ := List.head?_eq_some_iff.mp h
  rw [opensWithEquation, hitems]

theorem Outcome.reports_andThen_ok {α β : Type} (o : Outcome α) (f : α → Session → β) :
    (o.andThen fun a t => .ok (f a t) t).reports = o.reports := by
  cases o <;> rfl

/-- A failure that is dealt with is reported. -/
theorem mem_reports_of_recovering {α : Type} {r handler : Reading α}
    {describe : SyntaxError → SyntaxError}
    {setting : Setting} {s t : Session} {e : SyntaxError} (h : r.run setting s = .error e t) :
    (describe e).toDiagnostic ∈ ((recovering describe handler r).run setting s).reports := by
  change _ ∈ ((r.run setting s).recovered _ describe s (handler.run setting)).reports
  rw [h, Outcome.recovered]
  split
  · have honward := handler.onward setting ((t.discard s).report (describe e))
    have hmem := honward.diagnostics.subset (Array.mem_toList_iff.mpr Array.mem_push_self)
    generalize handler.run setting ((t.discard s).report (describe e)) = o at hmem
    cases o with
    | ok a u => exact Array.mem_toList_iff.mp hmem
    | error f u => exact Array.mem_push_of_mem _ (Array.mem_toList_iff.mp hmem)
  · exact Array.mem_push_self


/-- A failure is reported whether or not it is dealt with. -/
theorem mem_diagnostics_of_reports {α : Type} {r handler : Reading α} {setting : Setting} {s : Session}
    {x : Diagnostic} (hx : x ∈ (r.run setting s).reports) :
    x ∈ ((reported (recovering id handler r)).run setting s).session.diagnostics.toList := by
  change x ∈ ((r.run setting s).recovered _ id s (handler.run setting)).reported.session.diagnostics.toList
  cases hr : r.run setting s with
  | ok a t =>
      rw [hr] at hx
      exact Array.mem_toList_iff.mpr hx
  | error e t =>
      rw [hr] at hx
      simp only [Outcome.recovered]
      split
      · have honward := (handler.onward setting ((t.discard s).report e)).trans
          (Outcome.reported_onward (handler.run setting ((t.discard s).report e)))
        exact honward.diagnostics.subset (Array.mem_toList_iff.mpr hx)
      · exact Array.mem_toList_iff.mpr hx

namespace Program

variable {config : Config} {remembers : Bool} {source : String} {it : Item TermId} {t : Session}

/-- With recovery, what is read as the first item is the first item of the program. -/
theorem head?_of_item (hrecover : config.recover = true)
    (hstart : (initial (Lexing.ofText source)).cursor.kind ≠ .eof)
    (h : (item (nested config.maxDepth)).run (setting config remembers) (initial (Lexing.ofText source)) =
      .ok it t) : (Program.read config remembers source).program.items.head? = some it := by
  obtain ⟨⟨⟩, u, hu⟩ := (Sure.semicolons : Sure config semicolons) remembers (.free .term) t
  have hrecovering : (recovering id (skipItem (initial (Lexing.ofText source)).cursor)
      (item (nested config.maxDepth))).run (setting config remembers) (initial (Lexing.ofText source)) =
        .ok it t := by
    change ((item (nested config.maxDepth)).run _ _).recovered _ _ _ _ = _
    rw [h]
    rfl
  have hround : (itemRound (nested config.maxDepth) #[]).run (setting config remembers)
      (initial (Lexing.ofText source)) = .ok (.more #[it]) u := itemRound_of_ok hstart hrecovering hu
  obtain ⟨items, v, hrun, hread⟩ := Program.read_runLoop config remembers source
  obtain ⟨hlt, -, -, hcovered⟩ := (Covered.initial source).of_more hrecover hround
  rw [runLoop_more hround hlt] at hrun
  obtain ⟨more, hmore⟩ := (hcovered.extends_runLoop hrecover hrun).1
  rw [hread, ← hmore]
  rfl

/-- What is reported while the first item is read is reported about the program. -/
theorem mem_diagnostics_of_item {x : Diagnostic}
    (hstart : (initial (Lexing.ofText source)).cursor.kind ≠ .eof)
    (hx : x ∈ ((item (nested config.maxDepth)).run (setting config remembers)
      (initial (Lexing.ofText source))).reports) :
    x ∈ (Program.read config remembers source).diagnostics := by
  obtain ⟨items, u, hrun, hread⟩ := Program.read_runLoop config remembers source
  have hround := step_onward_runLoop (itemRound (nested config.maxDepth)) (setting config remembers) #[]
    (initial (Lexing.ofText source))
  rw [hrun, run_itemRound, if_neg hstart] at hround
  have hreported := (bind_onward _ _ _ _).trans hround
  rw [hread]
  exact hreported.diagnostics.subset (mem_diagnostics_of_reports hx)

end Program

/-! ## The second reading -/

/-- Runs that remember nothing on a text and on the same tokens `k` bytes and `n` tokens further on, where
they end the text. -/
abbrev Comparison.behind (ts : Tokens) (config : Config) (k n : Nat) : Comparison :=
  (further ts config config #[] k n [] .empty #[]).forgetting

theorem Session.Before.index_next {s : Session} {t : Token} {ts : List Token} (h : s.Before (t :: ts)) :
    s.next.cursor.index = s.cursor.index + 1 := by
  rw [Session.next, Cursor.advance_of_rest_ne_nil (by simp [h.faces.rest_nil])]

section Behind

variable {source : String} {config : Config} {k n : Nat} {s t : Session} {root root' : TermId}

/-- What has the same tokens further on is read alike, whatever is remembered there. -/
theorem agree_statement_behind {us : List Token} (hs : s.Before us) (hindex : s.cursor.index = n)
    (htree : s.tree = .empty)
    (hus : List.Forall₂ (Token.Shifted k) (Lexing.ofText source).tokens.body us)
    (hclean : (Lexing.ofText source).diagnostics = []) (config : Config) (failures : List Failure) :
    (Comparison.behind (Lexing.ofText source).tokens config k n).Outcomes
      (Comparison.behind (Lexing.ofText source).tokens config k n).terms
      ((nested config.maxDepth).statement.onText config false source)
      ((nested config.maxDepth).statement.run (setting config false) { s with failures }) := by
  have hlawful : (Comparison.further (Lexing.ofText source).tokens config config #[] k n [] .empty
    #[]).Lawful := Comparison.further_lawful (Tokens.endsBefore_nil _)
  have hstart : (Comparison.behind (Lexing.ofText source).tokens config k n).Sessions
      (initial (Lexing.ofText source)) { s with failures } :=
    { cursor := ⟨.start (Lexing.eof_kind_onward _ _ _), ⟨us, by simp [hs.faces.rest_nil], hus⟩,
        by simp [initial, Cursor.start, hindex], hs.faces.split, hs.faces.eof⟩
      terms := htree ▸ .start _ _ _
      patterns := htree ▸ .start _ _ _
      diagnostics := by
        rw [initial, hclean, hs.clean]
        exact .start _ _ _
      failures := trivial }
  have hlevels : (Comparison.behind (Lexing.ofText source).tokens config k n).Levels
      (nested config.maxDepth) (nested config.maxDepth) := Comparison.forgetting_levels (fun _ => rfl) _
  exact hlevels.statement _ _ hstart.cursor (.free .term) (.free .term) _ _ ⟨rfl, rfl⟩ hstart rfl rfl

variable {ts : Tokens} (h : (Comparison.behind ts config k n).Sessions s t)

include h

/-- Where the one text ends, the other one ends, too. -/
theorem before_nil_of_behind (hkinds : ∀ u ∈ ts.body, u.kind ≠ .eof) (hend : s.cursor.kind = .eof)
    (hclean : s.diagnostics = #[]) : t.Before [] := by
  obtain ⟨hon, hfurther⟩ := h.cursor
  obtain ⟨vs, hvs, hshifted⟩ := hfurther.rest
  obtain ⟨reports, hs, ht⟩ := h.diagnostics.size
  have hrest : s.cursor.rest = [] := hon.rest_eq_nil hkinds hend
  rw [hrest, List.forall₂_nil_left_iff] at hshifted
  rw [hclean] at hs
  refine ⟨⟨⟨[], .nil, ?_⟩, hfurther.eof, ?_⟩, ?_⟩
  · rw [hvs, hshifted]
  · rw [hfurther.split, hon.split_of_rest hrest]
  · exact Array.eq_empty_of_size_eq_zero (ht.trans hs.symm)

/-- Both trees hold the same, and corresponding terms have the same dump. -/
theorem defines_of_behind (hroot : (Comparison.behind ts config k n).terms root root')
    (hforest : s.tree.Forest ([root].map .term : List Ref)) (x : String) (span : Span) :
    Program.Defines ⟨t.tree, [.definition ⟨x, [], .nullary root', span⟩]⟩ x ⟨s.tree, root⟩ := by
  have hwithin : s.tree.Within t.tree 0 0 := Comparison.further_within
    (Comparison.sessions_of_forgetting h ⟨fun _ _ _ _ => rfl, nofun⟩)
  have hindex : root'.index = 0 + root.index := by
    have hterms : (Comparison.further ts config config #[] k n [] .empty #[]).terms root root' := hroot
    rwa [Comparison.further_terms] at hterms
  have hlt : root.index < s.tree.terms.size :=
    Tree.mem_nodes_term.mp (hforest.mem_nodes_of_root (by simp))
  obtain ⟨i, hs, ht⟩ := h.terms.size
  obtain ⟨j, hs', ht'⟩ := h.patterns.size
  refine ⟨⟨root', span, rfl, ?_⟩, ht.trans hs.symm, ht'.trans hs'.symm⟩
  simp only [Expression.dump, Tree.dump, hindex]
  exact hwithin.termDumps hforest hlt

end Behind

/-! ## Texts -/

section Texts

variable {config : Config} {source : String}

/-- A definition that is no equation and does not meet the depth limit is read as a statement behind its
colon, where nothing is left of the type but what it remembers. -/
theorem run_item_of_no_equation (hrecover : config.recover = true) {start : Session} {a b c : Token}
    {ts : List Token} {x : String} (hstart : initial (Lexing.ofText source) = start)
    (hs : start.Before (a :: b :: c :: ts)) (ha : a.kind = .word .def_) (hb : b.kind = .ident)
    (hx : b.lexeme = x) (hc : c.kind = .mark .colon)
    (hform : (Program.read config false source).program.opensWithEquation = false)
    (hdeep : ∀ r ∈ (Program.read config false source).diagnostics, r.kind ≠ .tooDeep) :
    ∃ failures, (item (nested config.maxDepth)).run (setting config false) start =
      ((statementOrError (nested config.maxDepth) noDefinition start.next.next.next.cursor.span).run
        (setting config false) { start.next.next.next with failures }).andThen fun root t =>
          .ok (.definition ⟨x, [], .nullary root, start.cursor.span.hull t.cursor.last⟩) t := by
  subst hstart
  have hkind : (initial (Lexing.ofText source)).cursor.kind ≠ .eof := by
    rw [hs.kind, ha]
    decide
  have hitem : (item (nested config.maxDepth)).run (setting config false)
      (initial (Lexing.ofText source)) = _ :=
    run_item_definition hs ha hb hx hc
  have hsound : (initial (Lexing.ofText source)).next.next.next.Sound :=
    sound_advance (sound_advance (sound_advance (Session.sound_initial source)))
  cases htype : (equationType (nested config.maxDepth)).run (setting config false)
      (initial (Lexing.ofText source)).next.next.next with
  | ok type t =>
      obtain ⟨value, u, htail⟩ := run_definitionTail_equation hrecover htype
      rw [htail] at hitem
      rw [Program.opensWithEquation_of_head? (Program.head?_of_item hrecover hkind hitem)] at hform
      cases hform
  | error e t =>
      cases he : e.isFatal with
      | true =>
          rw [run_definitionTail_fatal htype he] at hitem
          refine absurd ((SyntaxError.isFatal_iff_kind e).mp he)
            (hdeep e.toDiagnostic (Program.mem_diagnostics_of_item hkind ?_))
          rw [hitem]
          simp [Outcome.reports]
      | false =>
          rw [run_definitionTail_nullary hsound htype he] at hitem
          refine ⟨t.failures, hitem.trans ?_⟩
          cases (statementOrError (nested config.maxDepth) noDefinition _).run (setting config false) _ <;>
            rfl

/-- What is read as a text when its statement is not read, or something stands behind it. -/
theorem Expression.read_of_error {e : SyntaxError} {t : Session}
    (h : (wholeStatement (nested config.maxDepth)).onText config false source = .error e t)
    (hclean : t.diagnostics = #[]) : Expression.read config false source = .error [e.toDiagnostic] := by
  rw [read_eq, h]
  simp [Outcome.expression, hclean]

/-- Without memory a definition that is no equation and does not meet the depth limit has its text as
its body, if that is an expression. -/
theorem Program.read_definition (hrecover : config.recover = true)
    (hclean : (Lexing.ofText source).diagnostics = [])
    (hform : (Program.read config false ("def f : " ++ source)).program.opensWithEquation = false)
    (hdeep : ∀ r ∈ (Program.read config false ("def f : " ++ source)).diagnostics, r.kind ≠ .tooDeep) :
    (∃ e : SyntaxError, e.isFatal = false ∧
        Expression.read config false source = .error [e.toDiagnostic]) ∨
      ∃ e, Expression.read config false source = .ok e ∧
        (Program.read config false ("def f : " ++ source)).diagnostics = [] ∧
        (Program.read config false ("def f : " ++ source)).program.Defines "f" e := by
  obtain ⟨a, b, c, us, k, hs, ha, hb, hx, hc, hus⟩ := Lexing.ofText_definition hclean
  obtain ⟨start, hstart⟩ : ∃ start, initial (Lexing.ofText ("def f : " ++ source)) = start := ⟨_, rfl⟩
  have htree : start.next.next.next.tree = .empty := hstart ▸ rfl
  have hkind : (initial (Lexing.ofText ("def f : " ++ source))).cursor.kind ≠ .eof := by
    rw [hs.kind, ha]
    decide
  have hlt {t : Session} (ht : t.Before []) : t.cursor.remaining <
      (initial (Lexing.ofText ("def f : " ++ source))).cursor.remaining :=
    hs.remaining_lt ht (Nat.succ_pos _)
  have hindex : start.cursor.index = 0 := hstart ▸ rfl
  rw [hstart] at hs
  obtain ⟨failures, hitem⟩ := run_item_of_no_equation hrecover hstart hs ha hb hx hc hform hdeep
  have hagree := agree_statement_behind (n := 3) hs.next.next.next
    (by rw [hs.next.next.index_next, hs.next.index_next, hs.index_next, hindex]) htree hus hclean config
    failures
  have hlaid := (laysOut_nested config.maxDepth).statement (setting config false)
    (initial (Lexing.ofText source)) (Session.sound_initial source) (Nat.le_refl _) trivial
  rw [← onText] at hlaid
  generalize hright : (nested config.maxDepth).statement.run (setting config false)
    { start.next.next.next with failures } = o at hagree
  cases hstatement : (nested config.maxDepth).statement.onText config false source with
  | error e t =>
      rw [hstatement] at hlaid hagree
      obtain ⟨-, hgrows, -⟩ := hlaid
      have hempty : t.diagnostics = #[] := hgrows.diagnostics.trans (congrArg List.toArray hclean)
      have hwhole : (wholeStatement (nested config.maxDepth)).onText config false source = .error e t :=
        congrArg (Outcome.andThen · _) hstatement
      refine .inl ⟨e, ?_, Expression.read_of_error hwhole hempty⟩
      by_contra hfatal
      cases hagree with
      | @error _ f _ u hef _ =>
          have hf : f.isFatal = true := hef ▸ eq_true_of_ne_false hfatal
          have hreported : (noDefinition f).toDiagnostic ∈ ((statementOrError (nested config.maxDepth)
              noDefinition start.next.next.next.cursor.span).run (setting config false)
                { start.next.next.next with failures }).reports := mem_reports_of_recovering hright
          refine hdeep f.toDiagnostic (Program.mem_diagnostics_of_item hkind ?_)
            ((SyntaxError.isFatal_iff_kind f).mp hf)
          rw [hstart, hitem, Outcome.reports_andThen_ok]
          rwa [noDefinition, if_pos hf] at hreported
      | leftTooDeep hx => exact hx.elim
      | rightTooDeep hx => exact hx.elim
      | void hv => exact hv.elim
  | ok root t =>
      rw [hstatement] at hlaid hagree
      obtain ⟨-, hgrows, -⟩ := hlaid
      have hempty : t.diagnostics = #[] := hgrows.diagnostics.trans (congrArg List.toArray hclean)
      by_cases hend : t.cursor.kind = .eof
      · have hread : Expression.read config false source = .ok ⟨t.tree, root⟩ := by
          rw [Expression.read_eq, onText, run_wholeStatement.mpr ⟨hstatement, hend⟩, Outcome.expression,
            hempty]
          rfl
        refine .inr ⟨_, hread, ?_⟩
        cases hagree with
        | @ok _ root' _ u hroot hnow =>
            have hu := before_nil_of_behind hnow (fun _ => Lexing.kind_of_mem_body) hend hempty
            have hbody : (statementOrError (nested config.maxDepth) noDefinition
                start.next.next.next.cursor.span).run (setting config false)
                  { start.next.next.next with failures } = .ok root' u :=
              congrArg (Outcome.recovered _ _ _ _) hright
            rw [hbody, Outcome.andThen_ok, ← hstart] at hitem
            rw [Program.read_of_item hitem hkind hu (hlt hu)]
            exact ⟨rfl, defines_of_behind hnow hroot (Expression.read_forest hread) _ _⟩
        | rightTooDeep hx => exact hx.elim
        | void hv => exact hv.elim
      · have hwhole : (wholeStatement (nested config.maxDepth)).onText config false source =
            .error (.expected "end of input" t.cursor.described t.cursor.span) t := by
          change ((nested config.maxDepth).statement.onText config false source).andThen _ = _
          rw [hstatement]
          simp [sees, Reading.kind, Reading.cursor, asks, run_bind, run_pure, hend, unexpected, fail]
        exact .inl ⟨_, rfl, Expression.read_of_error hwhole hempty⟩

/-- Nothing is wrong with the tokens of a text that is an expression. -/
theorem Expression.clean_of_ofText {e : Expression} (h : Expression.ofText source config = .ok e) :
    (Lexing.ofText source).diagnostics = [] := by
  rw [ofText, read_eq] at h
  obtain ⟨s, hrun, -, hclean⟩ := Outcome.ok_of_expression h
  have hprefix := (onward_of_ok hrun).diagnostics
  rw [hclean] at hprefix
  exact List.prefix_nil.mp hprefix

/-- An expression behind `def f : ` is the body of a definition without parameters unless the definition
is an equation. Nothing is left of the type that was tried first, as long as no attempt is passed over
under other restrictions than it failed under and no repeated attempt meets the depth limit. -/
theorem body_read_afresh (hrecover : config.recover = true) {e : Expression}
    (h : Expression.ofText source config = .ok e)
    (hform : (Program.ofText ("def f : " ++ source) config).program.opensWithEquation = false)
    (hexpression : Failure.Coherent (Expression.failures config source))
    (hprogram : Failure.Coherent (Program.failures config ("def f : " ++ source)))
    (hdeep : ∀ r ∈ (Program.read config false ("def f : " ++ source)).diagnostics, r.kind ≠ .tooDeep) :
    (Program.ofText ("def f : " ++ source) config).diagnostics = [] ∧
      (Program.ofText ("def f : " ++ source) config).program.Defines "f" e := by
  have hsame : Program.ofText ("def f : " ++ source) config =
      Program.read config false ("def f : " ++ source) :=
    Program.read_of_coherent config _ hprogram hdeep
  rw [hsame] at hform ⊢
  rcases Program.read_definition hrecover (Expression.clean_of_ofText h) hform hdeep with
    ⟨f, hf, hread⟩ | ⟨e', hread, hclean, hdefines⟩
  · have hread' := Expression.read_of_coherent config source hexpression fun ds hds d hd => by
      obtain rfl : [f.toDiagnostic] = ds := Except.error.inj (hread.symm.trans hds)
      rw [List.mem_singleton] at hd
      rw [hd]
      exact fun hkind => by simp [(SyntaxError.isFatal_iff_kind f).mpr hkind] at hf
    cases h.symm.trans (hread'.trans hread)
  · have hread' := Expression.read_of_coherent config source hexpression fun ds hds => by
      cases hread.symm.trans hds
    cases h.symm.trans (hread'.trans hread)
    exact ⟨hclean, hdefines⟩

set_option maxRecDepth 100000 in
/-- The generic arguments and the equality that fail in the type are remembered when the body is read. -/
theorem body_read_afresh_braces : ∃ e,
    Expression.ofText "f\x7ba<b c, d\x7d" .standard = .ok e ∧
      (Program.failures .standard ("def f : " ++ "f\x7ba<b c, d\x7d")).length = 5 ∧
      (Program.ofText ("def f : " ++ "f\x7ba<b c, d\x7d") .standard).diagnostics = [] ∧
      (Program.ofText ("def f : " ++ "f\x7ba<b c, d\x7d") .standard).program.Defines "f" e := by
  have hsome : (Expression.ofText "f\x7ba<b c, d\x7d" .standard).toOption.isSome = true := by
    decide +kernel
  cases h : Expression.ofText "f\x7ba<b c, d\x7d" .standard with
  | ok e => exact ⟨e, rfl, by decide +kernel, body_read_afresh rfl h (by decide +kernel) (by decide +kernel)
      (by decide +kernel) (by decide +kernel)⟩
  | error ds =>
      rw [h] at hsome
      cases hsome

set_option maxRecDepth 100000 in
/-- When the type is read, the look-ahead of the outer block ends at the inner block, which is read once
more there and remembers that a typed binding fails. When the body is read, that is known, and the
look-ahead gets as far as `g<A>`: there `True` is one more operand, so the generic arguments are given
up, and in the block, where `True` begins a case, they are passed over. -/
theorem body_not_read_afresh :
    let source := "λ\x7b& λq. match (λ\x7b& if λz. y: ∀w: if f True: A else: B. C = v else: E \x7b,\x7d: d\x7d) " ++
      "g<A> True: case p: b \x7bl, r\x7d\x7d"
    ¬Failure.Coherent (Program.failures .standard ("def f : " ++ source)) ∧
    (Expression.ofText source .standard).toOption.map Expression.dump =
      some ("(lam (enum-match (_ (sup (lam (q) (match ((lam (sup-match (&(if (lam (z) y) (= (all (w (if (app f True)" ++
        " A B)) C) v) E)\x7b,\x7d d))) (tyapp g A) True) (case p => b))) l r))))") ∧
    (Program.ofText ("def f : " ++ source) .standard).program.opensWithEquation = false ∧
    (Program.ofText ("def f : " ++ source) .standard).diagnostics = [] ∧
    (Program.ofText ("def f : " ++ source) .standard).program.itemDumps =
      ["(def f (lam (enum-match (_ (sup (lam (q) (match ((lam (sup-match (&(if (lam (z) y) (= (all (w (if (app f" ++
        " True) A B)) C) v) E)\x7b,\x7d d))) (> (< g A) True)) (case p => b))) l r)))))"] := by
  decide +kernel

end Texts

end BendSyntax
