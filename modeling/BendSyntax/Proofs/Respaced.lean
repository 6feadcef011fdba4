import BendSyntax.Proofs.Layout.Texts
import BendSyntax.Proofs.Lexing.Tiling

/-! A run on a text is compared with a run on the same tokens in other places. There is one look
at places in the grammar: an operand is a name without parentheses around it if its span is as long
as the name. So spans that belong together are followed in both runs as far as they are looked at. -/

namespace BendSyntax

open Reading Grammar

namespace Token

/-- A token without the place where it stands. -/
def unplaced (t : Token) : Token := { t with span := .zero }

/-- Tokens that differ only in where they stand. -/
structure Alike (t u : Token) : Prop where
  kind : t.kind = u.kind
  lexeme : t.lexeme = u.lexeme
  spaced : t.spaced = u.spaced

theorem forall₂_alike {ts us : List Token} (h : ts.map unplaced = us.map unplaced) :
    List.Forall₂ Alike ts us := by
  have hsame : List.Forall₂ Eq (ts.map unplaced) (us.map unplaced) := by
    rw [h, List.forall₂_eq_eq_eq]
  rw [List.forall₂_map_left_iff, List.forall₂_map_right_iff] at hsame
  refine hsame.imp fun t u htu => ?_
  obtain ⟨hkind, -, hlexeme, hspaced⟩ := Token.mk.inj htu
  exact ⟨hkind, hlexeme, hspaced⟩

end Token

/-! ## Spans of tokens -/

namespace Tokens

/-- Tokens that stand in order, each of which is as long as its text. -/
structure Measured (ts : Tokens) : Prop where
  inOrder : Token.InOrder 0 ts.body ts.eof
  length : ∀ t ∈ ts.body, t.span.length = t.lexeme.utf8ByteSize

/-- A span that begins inside of one token and ends inside of another. -/
structure Spans (ts : Tokens) (i j : Nat) (s : Span) : Prop where
  first : ∃ t, ts.body[i]? = some t ∧ t.span.start ≤ s.start ∧ s.start < t.span.stop
  last : ∃ t, ts.body[j]? = some t ∧ t.span.start < s.stop ∧ s.stop ≤ t.span.stop

/-- A span that covers one token and no more. -/
def Fills (ts : Tokens) (i : Nat) (s : Span) : Prop :=
  ∃ t, ts.body[i]? = some t ∧ s.start = t.span.start ∧ s.stop = t.span.stop

variable {ts : Tokens} {i j i' j' k : Nat} {s s' : Span}

theorem Spans.hull (hts : ts.Measured) (h : ts.Spans i j s) (h' : ts.Spans i' j' s') :
    ts.Spans (min i i') (max j j') (s.hull s') := by
  obtain ⟨⟨t, ht, htlow, hthigh⟩, u, hu, hulow, huhigh⟩ := h
  obtain ⟨⟨t', ht', htlow', hthigh'⟩, u', hu', hulow', huhigh'⟩ := h'
  have hstop {m n : Nat} {x y : Token} (hmn : m < n) (hx : ts.body[m]? = some x)
      (hy : ts.body[n]? = some y) : x.span.stop ≤ y.span.start := hts.inOrder.stop_le hmn hx hy
  constructor
  · rw [Span.hull_start]
    rcases Nat.lt_trichotomy i i' with hlt | rfl | hlt
    · have := hstop hlt ht ht'
      exact ⟨t, by rwa [Nat.min_eq_left (Nat.le_of_lt hlt)], by omega, by omega⟩
    · obtain rfl : t = t' := Option.some.inj (ht.symm.trans ht')
      exact ⟨t, by rwa [Nat.min_self], by omega, by omega⟩
    · have := hstop hlt ht' ht
      exact ⟨t', by rwa [Nat.min_eq_right (Nat.le_of_lt hlt)], by omega, by omega⟩
  · rw [Span.hull_stop]
    rcases Nat.lt_trichotomy j j' with hlt | rfl | hlt
    · have := hstop hlt hu hu'
      exact ⟨u', by rwa [Nat.max_eq_right (Nat.le_of_lt hlt)], by omega, by omega⟩
    · obtain rfl : u = u' := Option.some.inj (hu.symm.trans hu')
      exact ⟨u, by rwa [Nat.max_self], by omega, by omega⟩
    · have := hstop hlt hu' hu
      exact ⟨u, by rwa [Nat.max_eq_left (Nat.le_of_lt hlt)], by omega, by omega⟩

/-- A span of one token stays the same where nothing is added but a part of that token. -/
theorem Fills.hull_self (h : ts.Fills i s) (h' : ts.Spans i i s') : ts.Fills i (s.hull s') := by
  obtain ⟨t, ht, hstart, hstop⟩ := h
  obtain ⟨⟨u, hu, hlow, -⟩, v, hv, -, hhigh⟩ := h'
  obtain rfl : t = u := Option.some.inj (ht.symm.trans hu)
  obtain rfl : t = v := Option.some.inj (ht.symm.trans hv)
  refine ⟨t, ht, ?_, ?_⟩
  · rw [Span.hull_start]
    omega
  · rw [Span.hull_stop]
    omega

/-- It grows where a part of another token is added. -/
theorem Fills.length_lt_hull (hts : ts.Measured) (h : ts.Fills i s) (h' : ts.Spans i' j' s')
    (hother : i' < i ∨ i < j') : s.length < (s.hull s').length := by
  obtain ⟨t, ht, hstart, hstop⟩ := h
  obtain ⟨⟨u, hu, -, hhigh⟩, v, hv, hlow, -⟩ := h'
  have hlt := (hts.inOrder.place_le_of_mem (List.mem_of_getElem? ht)).2
  rw [Span.length, Span.length, Span.hull_start, Span.hull_stop]
  rcases hother with hi | hj
  · have := hts.inOrder.stop_le hi hu ht
    omega
  · have := hts.inOrder.stop_le hj ht hv
    omega

end Tokens

/-- The tokens of a text stand in order, and each is as long as its text. -/
theorem Lexing.measured_ofText (source : String) : (ofText source).tokens.Measured where
  inOrder := inOrder_onward none .start source.toList
  length t ht := by
    have htile : Token.Tile [] source.toList (ofText source).tokens.toList :=
      tile_onward none .start _ [] rfl (by simp)
    obtain ⟨front, -, -, hspan⟩ := htile.covers (List.mem_append_left _ ht)
    rw [Span.length, hspan.start, hspan.stop, Span.utf8ByteSize_append _ t.lexeme.toList,
      String.ofList_toList, Nat.add_sub_cancel_left]

/-- Spans of the same tokens in two texts. -/
def Tokens.Marks (ts us : Tokens) (s t : Span) : Prop :=
  ∃ i j, i ≤ j ∧ ts.Spans i j s ∧ us.Spans i j t

/-- Spans of a name that takes `k` bytes in two texts: the name alone, or more than the name. -/
inductive Tokens.Named (ts us : Tokens) (k : Nat) (s t : Span) : Prop
  | bare {i} : ts.Fills i s → us.Fills i t → s.length = k → t.length = k → Named ts us k s t
  | wider : k < s.length → k < t.length → Named ts us k s t

theorem Span.length_le_hull (s t : Span) : s.length ≤ (s.hull t).length := by
  rw [length, length, hull_start, hull_stop]
  omega

namespace Tokens

variable {ts us : Tokens} {s t s' t' : Span} {k : Nat}

theorem Marks.hull (hts : ts.Measured) (hus : us.Measured) (h : ts.Marks us s t)
    (h' : ts.Marks us s' t') : ts.Marks us (s.hull s') (t.hull t') := by
  obtain ⟨i, j, hij, hs, ht⟩ := h
  obtain ⟨i', j', hij', hs', ht'⟩ := h'
  exact ⟨min i i', max j j', by omega, hs.hull hts hs', ht.hull hus ht'⟩

theorem Named.hull (hts : ts.Measured) (hus : us.Measured) (h : ts.Named us k s t)
    (h' : ts.Marks us s' t') : ts.Named us k (s.hull s') (t.hull t') := by
  obtain ⟨i', j', hij, hs', ht'⟩ := h'
  cases h with
  | @bare i hs ht hslength htlength =>
      by_cases hother : i' < i ∨ i < j'
      · exact .wider (hslength ▸ hs.length_lt_hull hts hs' hother)
          (htlength ▸ ht.length_lt_hull hus ht' hother)
      · obtain rfl : i' = i := by omega
        obtain rfl : j' = i' := by omega
        have hsfill := hs.hull_self hs'
        have htfill := ht.hull_self ht'
        have hlength {vs : Tokens} {x y : Span} (hx : vs.Fills j' x) (hy : vs.Fills j' y) :
            y.length = x.length := by
          obtain ⟨v, hv, hstart, hstop⟩ := hx
          obtain ⟨w, hw, hstart', hstop'⟩ := hy
          obtain rfl : v = w := Option.some.inj (hv.symm.trans hw)
          rw [Span.length, Span.length, hstart, hstop, hstart', hstop']
        exact .bare hsfill htfill ((hlength hs hsfill).trans hslength)
          ((hlength ht htfill).trans htlength)
  | wider hs ht =>
      exact .wider (Nat.lt_of_lt_of_le hs (Span.length_le_hull _ _))
        (Nat.lt_of_lt_of_le ht (Span.length_le_hull _ _))

theorem Named.length (h : ts.Named us k s t) : s.length = k ↔ t.length = k := by
  cases h with
  | bare _ _ hs ht => simp [hs, ht]
  | wider hs ht => omega

end Tokens

/-! ## Cursors -/

namespace Cursor

namespace On

variable {ts : Tokens} {c : Cursor}

theorem ahead (h : c.On ts) (hts : ts.Measured) : c.Ahead :=
  ⟨h.rest ▸ h.eof ▸ hts.inOrder.drop c.index, h.split⟩

theorem getElem?_index (h : c.On ts) (hrest : c.rest ≠ []) :
    ts.body[c.index]? = some c.token := by
  obtain ⟨t, us, hts⟩ := List.exists_cons_of_ne_nil hrest
  rw [token_of_cons hts, ← List.head?_drop, ← h.rest, hts]
  rfl

/-- The next token, or the half of it that is left, is a part of that token. -/
theorem spans (h : c.On ts) (hts : ts.Measured) (hrest : c.rest ≠ []) :
    ts.Spans c.index c.index c.span := by
  have hindex := h.getElem?_index hrest
  have hlt := (h.ahead hts).span_lt hrest
  have hle := c.start_token_le
  have hstop := c.stop_span
  exact ⟨⟨c.token, hindex, hle, by omega⟩, c.token, hindex, by omega, Nat.le_of_eq hstop⟩

end On

/-- Cursors in front of the same tokens of two texts. -/
structure Beside (ts us : Tokens) (c d : Cursor) : Prop where
  left : c.On ts
  right : d.On us
  index : c.index = d.index
  split : c.split = d.split

namespace Beside

variable {ts us : Tokens} {c d : Cursor} (h : c.Beside ts us d)
  (halike : List.Forall₂ Token.Alike ts.body us.body)

include h halike

theorem rest : List.Forall₂ Token.Alike c.rest d.rest := by
  rw [h.left.rest, h.right.rest, h.index]
  exact List.forall₂_drop _ halike

theorem tokenAt {i : Nat} (hi : i < c.rest.length) : (c.tokenAt i).Alike (d.tokenAt i) := by
  have hrest := h.rest halike
  have hi' : i < d.rest.length := hrest.length_eq ▸ hi
  have hc : c.tokenAt i = c.rest[i] := by simp [Cursor.tokenAt, hi]
  have hd : d.tokenAt i = d.rest[i] := by simp [Cursor.tokenAt, hi']
  rw [hc, hd]
  exact (List.forall₂_iff_get.mp hrest).2 i hi hi'

theorem token (hc : c.rest ≠ []) : c.token.Alike d.token := by
  rw [← tokenAt_zero, ← tokenAt_zero]
  exact h.tokenAt halike (List.length_pos_iff.mpr hc)

theorem kind_tokenAt (i : Nat) : (d.tokenAt i).kind = (c.tokenAt i).kind := by
  by_cases hi : i < c.rest.length
  · exact (h.tokenAt halike hi).kind.symm
  · have hlength := (h.rest halike).length_eq
    have hc : c.rest[i]? = none := List.getElem?_eq_none (Nat.le_of_not_lt hi)
    have hd : d.rest[i]? = none := List.getElem?_eq_none (by omega)
    simp only [Cursor.tokenAt, hc, hd, h.left.kind, h.right.kind]

theorem kind : d.kind = c.kind := by
  have htoken := h.kind_tokenAt halike 0
  rw [tokenAt_zero, tokenAt_zero] at htoken
  simp only [Cursor.kind, ← h.split, htoken]

theorem kindAt (i : Nat) : d.kindAt i = c.kindAt i := by
  cases i with
  | zero => exact h.kind halike
  | succ i => exact h.kind_tokenAt halike (i + 1)

theorem rest_ne_nil (hc : c.kind ≠ .eof) : d.rest ≠ [] :=
  h.right.rest_ne_nil (h.kind halike ▸ hc)

theorem isTight (hc : c.rest ≠ []) : d.isTight = c.isTight := by
  simp only [Cursor.isTight, Token.isTight, h.split, (h.token halike hc).spaced]

theorem tightAt {i : Nat} (hi : i < c.rest.length) : d.tightAt i = c.tightAt i := by
  simp only [Cursor.tightAt, Token.isTight, (h.tokenAt halike hi).spaced]

theorem isNat (hc : c.rest ≠ []) (n : Nat) : d.isNat n = c.isNat n := by
  simp only [Cursor.isNat, lexeme, (h.token halike hc).lexeme]

theorem described : d.described = c.described := by
  have hlexeme : c.kind ≠ .eof → d.lexeme = c.lexeme := fun hc =>
    (h.token halike (h.left.rest_ne_nil hc)).lexeme.symm
  unfold Cursor.described
  rw [h.kind halike, ← h.split]
  split <;> simp_all

theorem caseHead? : d.caseHead? = c.caseHead? := by
  have hnat (n : Nat) : c.kind = .nat → d.isNat n = c.isNat n := fun hc =>
    h.isNat halike (h.left.rest_ne_nil (by simp [hc])) n
  have htight : c.kindAt 1 = .mark .plus → d.tightAt 1 = c.tightAt 1 := fun hplus => by
    refine h.tightAt halike (Nat.lt_of_not_le fun hle => ?_)
    rw [h.left.kindAt_of_length_le hle] at hplus
    cases hplus
  unfold Cursor.caseHead?
  simp only [h.kind halike, h.kindAt halike]
  split <;> simp_all

theorem advance (hc : c.kind ≠ .eof) : c.advance.Beside ts us d.advance := by
  refine ⟨h.left.advance, h.right.advance, ?_, ?_⟩ <;>
    rw [advance_of_rest_ne_nil (h.left.rest_ne_nil hc),
      advance_of_rest_ne_nil (h.rest_ne_nil halike hc)]
  exact congrArg (· + 1) h.index

theorem halve (hc : c.kind = .mark .shiftRight) : c.halve.Beside ts us d.halve :=
  ⟨h.left.halve hc, h.right.halve ((h.kind halike).trans hc), h.index, rfl⟩

omit halike in
theorem whole : c.whole.Beside ts us d.whole := ⟨h.left.whole, h.right.whole, h.index, rfl⟩

theorem remaining : d.remaining = c.remaining := by
  simp only [Cursor.remaining, (h.rest halike).length_eq, h.split]

theorem marks (hts : ts.Measured) (hus : us.Measured) (hc : c.kind ≠ .eof) :
    ts.Marks us c.span d.span :=
  ⟨c.index, c.index, Nat.le_refl _, h.left.spans hts (h.left.rest_ne_nil hc),
    h.index ▸ h.right.spans hus (h.rest_ne_nil halike hc)⟩

theorem named (hts : ts.Measured) (hus : us.Measured) (hc : c.kind = .ident) :
    ts.Named us c.lexeme.utf8ByteSize c.span d.span := by
  have hne : c.kind ≠ .eof := by simp [hc]
  have hsplit : c.split = false := h.left.split_eq_false (by simp [hc])
  have hrest := h.left.rest_ne_nil hne
  have hcindex := h.left.getElem?_index hrest
  have hdindex := h.index ▸ h.right.getElem?_index (h.rest_ne_nil halike hne)
  have hcspan : c.span = c.token.span := by simp [Cursor.span, hsplit]
  have hdspan : d.span = d.token.span := by simp [Cursor.span, ← h.split, hsplit]
  rw [hcspan, hdspan]
  refine .bare ⟨c.token, hcindex, rfl, rfl⟩ ⟨d.token, hdindex, rfl, rfl⟩
    (hts.length _ (List.mem_of_getElem? hcindex)) ?_
  rw [hus.length _ (List.mem_of_getElem? hdindex), lexeme, (h.token halike hrest).lexeme]

end Beside

end Cursor

/-! ## Errors -/

namespace SyntaxError

/-- An error without the places that it is about. -/
def unplaced : SyntaxError → SyntaxError
  | expected what found _ => expected what found .zero
  | invalid message _ => invalid message .zero
  | ambiguous construct attempts last _ => ambiguous construct attempts last.unplaced .zero
  | tooDeep limit _ => tooDeep limit .zero

variable (e : SyntaxError)

@[simp] theorem isFatal_unplaced : e.unplaced.isFatal = e.isFatal := by
  cases e <;> rfl

@[simp] theorem kind_unplaced : e.unplaced.kind = e.kind := by
  cases e <;> rfl

@[simp] theorem message_unplaced : e.unplaced.message = e.message := by
  induction e with
  | ambiguous construct attempts last span ih =>
      exact congrArg (fun text => s!"{construct} matches none of its forms ({attempts}): {text}") ih
  | _ => rfl

@[simp] theorem expected?_unplaced : e.unplaced.expected? = e.expected? := by
  cases e <;> rfl

@[simp] theorem found?_unplaced : e.unplaced.found? = e.found? := by
  cases e with
  | ambiguous construct attempts last span => cases last <;> rfl
  | _ => rfl

theorem noDefinition_unplaced {e f : SyntaxError} (h : e.unplaced = f.unplaced) :
    (noDefinition e).unplaced = (noDefinition f).unplaced := by
  have hfatal : e.isFatal = f.isFatal := by rw [← e.isFatal_unplaced, h, isFatal_unplaced]
  unfold noDefinition
  rw [hfatal]
  split
  · exact h
  · simp only [unplaced, h]

end SyntaxError

/-- A diagnostic without the place that it is about. -/
def Diagnostic.unplaced (d : Diagnostic) : Diagnostic := { d with span := .zero }

theorem SyntaxError.unplaced_toDiagnostic (e : SyntaxError) :
    e.toDiagnostic.unplaced = e.unplaced.toDiagnostic := by
  have hspan : e.unplaced.span = .zero := by cases e <;> rfl
  simp only [toDiagnostic, Diagnostic.unplaced, hspan, kind_unplaced, message_unplaced,
    expected?_unplaced, found?_unplaced]

/-! ## The comparison -/

namespace Comparison

/-- Runs on two texts that have the same tokens. -/
def respaced (l l' : Lexing) (config : Config) : Comparison where
  left := ⟨config, true, .empty, l.diagnostics.toArray⟩
  right := ⟨config, true, .empty, l'.diagnostics.toArray⟩
  cursors := Cursor.Beside l.tokens l'.tokens
  spans _ _ := True
  marks := l.tokens.Marks l'.tokens
  named := l.tokens.Named l'.tokens
  usages := Eq
  errors e f := e.unplaced = f.unplaced
  failures := Eq
  leftExcused := False
  rightExcused := False
  void _ _ := False

section Respaced

variable {l l' : Lexing} {config : Config}

theorem respaced_lawful (hl : l.tokens.Measured) (hl' : l'.tokens.Measured)
    (halike : List.Forall₂ Token.Alike l.tokens.body l'.tokens.body) :
    (respaced l l' config).Lawful where
  kind h := h.kind halike ▸ .same _
  eof h := h.left.kind
  inside _ _ _ _ h _ := by rw [h.kind halike]
  rest h hc := ⟨h.left.rest_ne_nil hc, h.rest_ne_nil halike hc⟩
  token h hc := by
    have hrest := h.left.rest_ne_nil hc
    have htoken := h.token halike hrest
    exact ⟨htoken.kind, htoken.lexeme, (h.isTight halike hrest).symm⟩
  caseHead h := (h.caseHead? halike).symm
  advance h hc := h.advance halike hc
  halve h hc := h.halve halike hc
  whole h := h.whole
  mark h hc := h.marks halike hl hl' hc
  span _ := trivial
  last _ := trivial
  index h h' := by rw [h.index, h'.index]
  index_kind h h' hindex hc := h'.left.whole_kind_ne_eof h.left hindex hc
  remaining h h' := by rw [h.remaining halike, h'.remaining halike]
  marks_spans _ := trivial
  marks_hull h h' := h.hull hl hl' h'
  named_ident h hc := h.named halike hl hl' hc
  named_hull h h' := h.hull hl hl' h'
  named_length h := h.length
  spans_zero := trivial
  spans_hull _ _ := trivial
  spans_opening _ := trivial
  usages_refl _ := rfl
  errors_fatal {e f} h := by
    have h : e.unplaced = f.unplaced := h
    rw [← e.isFatal_unplaced, h, f.isFatal_unplaced]
  expected what h := by
    show SyntaxError.expected _ _ _ = .expected _ _ _
    rw [h.described halike]
  invalid _ _ _ _ := rfl
  noDefinition h := SyntaxError.noDefinition_unplaced h
  void_onward h _ _ := h.elim

instance : (respaced l l' config).Retractable := ⟨fun h _ => h.elim, fun h _ => h.elim⟩

theorem respaced_slots {s t : Slot} (h : (respaced l l' config).Slots s t) : s = t := by
  have hflags := h.flags
  have husage : s.usage = t.usage := h.usage
  cases s
  cases t
  simp_all [Slot.withUsage]

instance : (respaced l l' config).Recalling where
  known {c d slot slot' log log'} what hcd hl := by
    have hl : log = log' := hl
    rw [hl, hcd.index]
    rfl
  remember {c d slot slot' log log'} what hcd _ hslot hl := by
    have hl : log = log' := hl
    rw [hl, hcd.index, respaced_slots hslot]
    rfl

theorem respaced_levels [(respaced l l' config).Lawful] (d : Nat) :
    (respaced l l' config).Levels (nested d) (nested d) := by
  induction d with
  | zero => exact fun g => agrees_refuse fun _ => rfl
  | succ d ih => exact agrees_produce ih.supports

theorem respaced_reporting (halike : List.Forall₂ Token.Alike l.tokens.body l'.tokens.body) :
    (respaced l l' config).Reporting fun _ _ => False where
  recover := rfl
  startsItem h := by rw [h.kind halike]
  of_void h := h
  onward h _ _ := h
  leftDiscard _ h := h
  rightDiscard _ h := h
  leftReport _ _ hx _ := hx
  rightReport _ _ hx _ := hx

end Respaced

end Comparison

end BendSyntax
