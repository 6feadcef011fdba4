import BendSyntax.Proofs.Agreement.Nesting
import BendSyntax.Token.Lexing

/-! Two runs on the same text, whose cursors stand at the same tokens. The runs may differ in
the tree that they add to, in the usages that they read for and in what they remember. -/

namespace BendSyntax

open Reading Grammar

namespace Cursor

/-- A cursor that stands in a text. Only a token `>>` is read in halves. -/
structure On (ts : Tokens) (c : Cursor) : Prop where
  rest : c.rest = ts.body.drop c.index
  eof : c.eof = ts.eof
  kind : c.eof.kind = .eof
  split : c.split = true → c.token.kind = .mark .shiftRight

namespace On

variable {ts : Tokens} {c : Cursor}

theorem start {ts : Tokens} (h : ts.eof.kind = .eof) : (Cursor.start ts).On ts :=
  ⟨rfl, rfl, h, nofun⟩

theorem rest_ne_nil (h : c.On ts) (hc : c.kind ≠ .eof) : c.rest ≠ [] := by
  intro hrest
  have htoken : c.token = c.eof := by simp [token, hrest]
  apply hc
  simp [Cursor.kind, htoken, h.kind]

/-- Behind the last token of a text is its end. -/
theorem kindAt_of_length_le (hc : c.On ts) {i : Nat} (hi : c.rest.length ≤ i) :
    c.kindAt i = .eof := by
  cases i with
  | zero =>
      by_contra hkind
      exact hc.rest_ne_nil hkind (List.eq_nil_of_length_eq_zero (Nat.le_zero.mp hi))
  | succ i => simp [kindAt, tokenAt, List.getElem?_eq_none hi, hc.kind]

theorem advance (h : c.On ts) : c.advance.On ts := by
  by_cases hrest : c.rest = []
  · have hadv : c.advance = { c with last := c.span } := by simp [Cursor.advance, hrest]
    rw [hadv]
    exact ⟨h.rest, h.eof, h.kind, h.split⟩
  · rw [advance_of_rest_ne_nil hrest]
    refine ⟨?_, h.eof, h.kind, nofun⟩
    simp [h.rest, List.tail_drop]

theorem halve (h : c.On ts) (hc : c.kind = .mark .shiftRight) : c.halve.On ts := by
  refine ⟨h.rest, h.eof, h.kind, fun _ => ?_⟩
  have htoken : c.halve.token = c.token := rfl
  rw [htoken]
  by_cases hsplit : c.split = true
  · exact h.split hsplit
  · rwa [kind_of_not_split (by simpa using hsplit)] at hc

theorem whole (h : c.On ts) : c.whole.On ts := ⟨h.rest, h.eof, h.kind, nofun⟩

theorem split_eq_false (h : c.On ts) (hc : c.kind ≠ .mark .greater) : c.split = false := by
  by_contra hsplit
  have hsplit : c.split = true := by simpa using hsplit
  apply hc
  simp [Cursor.kind, hsplit, h.split hsplit]

/-- Cursors at the same index stand in front of the same token. -/
theorem whole_kind_ne_eof {d : Cursor} (hd : d.On ts) (hc : c.On ts) (h : d.index = c.index)
    (hne : c.kind ≠ .eof) : d.whole.kind ≠ .eof := by
  have htoken : d.token = c.token := by simp [token, hd.rest, hc.rest, h, hd.eof, hc.eof]
  have hwhole : d.whole.kind = c.token.kind := by
    rw [kind_of_not_split rfl, ← htoken]
    rfl
  rw [hwhole]
  intro heof
  exact hne (by simp [Cursor.kind, heof])

end On

/-- Cursors at the same place, whatever was read last. -/
structure SamePlace (c d : Cursor) : Prop where
  rest : c.rest = d.rest
  eof : c.eof = d.eof
  index : c.index = d.index
  split : c.split = d.split

namespace SamePlace

variable {c d : Cursor} (h : c.SamePlace d)

include h

theorem eq_setLast : d = { c with last := d.last } := by
  cases c
  cases d
  cases h
  simp_all

theorem token : c.token = d.token := by rw [h.eq_setLast]; rfl

theorem kind : c.kind = d.kind := by rw [h.eq_setLast]; rfl

theorem span : c.span = d.span := by rw [h.eq_setLast]; rfl

theorem isTight : c.isTight = d.isTight := by rw [h.eq_setLast]; rfl

theorem described : c.described = d.described := by rw [h.eq_setLast]; rfl

theorem caseHead? : c.caseHead? = d.caseHead? := by rw [h.eq_setLast]; rfl

theorem remaining : c.remaining = d.remaining := by rw [h.eq_setLast]; rfl

theorem advance : c.advance.SamePlace d.advance := by
  rw [h.eq_setLast]
  unfold Cursor.advance
  cases c.rest <;> exact ⟨rfl, rfl, rfl, rfl⟩

end SamePlace

end Cursor

/-- The runs on a text `ts`. -/
def Comparison.sameText (ts : Tokens) (left right : Side) (spans : Span → Span → Prop)
    (usages : Usage → Usage → Prop) (failures : List Failure → List Failure → Prop)
    (leftExcused rightExcused : Prop) (void : Session → Session → Prop) : Comparison where
  left := left
  right := right
  cursors c d := c.On ts ∧ c.SamePlace d ∧ spans c.last d.last
  spans := spans
  marks := Eq
  named _ := Eq
  usages := usages
  errors := Eq
  failures := failures
  leftExcused := leftExcused
  rightExcused := rightExcused
  void := void

namespace Comparison

variable {ts : Tokens} {left right : Side} {spans : Span → Span → Prop}
  {usages : Usage → Usage → Prop} {failures : List Failure → List Failure → Prop}
  {leftExcused rightExcused : Prop} {void : Session → Session → Prop}

theorem sameText_lawful (hspans : ∀ s, spans s s)
    (hhull : ∀ {s t s' t' : Span}, spans s t → spans s' t' → spans (s.hull s') (t.hull t'))
    (hopening : ∀ {s t : Span}, spans s t → spans s.opening t.opening) (husages : ∀ u, usages u u)
    (honward : ∀ {s t s' t' : Session}, void s t → s.Onward s' → t.Onward t' → void s' t') :
    (sameText ts left right spans usages failures leftExcused rightExcused void).Lawful where
  kind h := h.2.1.kind ▸ .same _
  eof h := h.1.kind
  inside _ _ _ _ h _ := by rw [h.2.1.kind]
  rest h hc := ⟨h.1.rest_ne_nil hc, h.2.1.rest ▸ h.1.rest_ne_nil hc⟩
  token h _ := by
    simp only [Cursor.lexeme, h.2.1.token, h.2.1.isTight]
    exact ⟨trivial, trivial, trivial⟩
  caseHead h := h.2.1.caseHead?
  advance {c d} h hc := by
    have hrest := h.1.rest_ne_nil hc
    refine ⟨h.1.advance, h.2.1.advance, ?_⟩
    rw [Cursor.advance_of_rest_ne_nil hrest, Cursor.advance_of_rest_ne_nil (h.2.1.rest ▸ hrest)]
    exact h.2.1.span ▸ hspans _
  halve {c d} h hc := by
    refine ⟨h.1.halve hc, ⟨h.2.1.rest, h.2.1.eof, h.2.1.index, rfl⟩, ?_⟩
    simp only [Cursor.halve, h.2.1.token]
    exact hspans _
  whole h := ⟨h.1.whole, ⟨h.2.1.rest, h.2.1.eof, h.2.1.index, rfl⟩, h.2.2⟩
  mark h _ := h.2.1.span
  span h := h.2.1.span ▸ hspans _
  last h := h.2.2
  index h h' := by rw [h.2.1.index, h'.2.1.index]
  index_kind h h' hindex hc := h'.1.whole_kind_ne_eof h.1 hindex hc
  remaining h h' := by rw [h.2.1.remaining, h'.2.1.remaining]
  marks_spans h := h ▸ hspans _
  marks_hull h h' := by
    cases h
    cases h'
    rfl
  named_ident h _ := h.2.1.span
  named_hull h h' := by
    cases h
    cases h'
    rfl
  named_length h := by rw [h]
  spans_zero := hspans _
  spans_hull := hhull
  spans_opening := hopening
  usages_refl := husages
  errors_fatal h := by rw [h]
  expected what h := by
    show SyntaxError.expected _ _ _ = .expected _ _ _
    rw [h.2.1.described, h.2.1.span]
  invalid message h _ _ := by
    show SyntaxError.invalid _ _ = .invalid _ _
    rw [h.2.1.span]
  noDefinition h := congrArg _ h
  void_onward := honward

/-! ## Equal trees

Runs that begin with nothing and read for the same usages with the same spans. -/

section EqualTrees

theorem sameText_slots {s t : Slot}
    (h : (sameText ts left right spans Eq failures leftExcused rightExcused void).Slots s t) :
    s = t := by
  have hflags := h.flags
  have husage : s.usage = t.usage := h.usage
  cases s
  cases t
  simp_all [Slot.withUsage]

theorem sameText_reports {d e : Diagnostic}
    (h : (sameText ts left right spans usages failures leftExcused rightExcused void).reports d e) :
    d = e := by
  obtain ⟨a, b, hab, hd, he⟩ := h
  obtain rfl : a = b := hab
  rw [hd, he]

theorem sameText_recalling (h : left.remembers = right.remembers) :
    (sameText ts left right spans Eq Eq leftExcused rightExcused void).Recalling where
  known {c d slot slot' log log'} what hcd hl := by
    have hl : log = log' := hl
    rw [hl, hcd.2.1.index]
    exact congrArg (· && _) h
  remember {c d slot slot' log log'} what hcd _ hslot hl := by
    have hl : log = log' := hl
    have hslot := sameText_slots hslot
    rw [hl, hcd.2.1.index, hslot]
    rfl

variable (hleft : left.tree = .empty) (hright : right.tree = .empty)

include hleft hright

theorem sameText_terms :
    (sameText ts left right spans usages failures leftExcused rightExcused void).terms = Eq :=
  Correspondence.terms_eq hleft hright

theorem sameText_patterns :
    (sameText ts left right spans usages failures leftExcused rightExcused void).patterns = Eq :=
  Correspondence.patterns_eq hleft hright

theorem sameText_termNodes {m n : TermNode}
    (h : (sameText ts left right Eq Eq failures leftExcused rightExcused void).TermNodes m n) :
    m = n := by
  have hterm := h.term
  rw [sameText_terms hleft hright, sameText_patterns hleft hright] at hterm
  have hterm := Term.Alike.eq hterm
  have hspan : m.span = n.span := h.span
  have husage : m.usage = n.usage := h.usage
  cases m
  cases n
  simp_all

theorem sameText_patternNodes {m n : PatternNode}
    (h : (sameText ts left right Eq usages failures leftExcused rightExcused void).PatternNodes m n) :
    m = n := by
  have hpattern := h.pattern
  rw [sameText_patterns hleft hright] at hpattern
  have hpattern := hpattern.eq
  have hspan : m.span = n.span := h.span
  cases m
  cases n
  simp_all

omit hleft hright in
/-- Corresponding sessions have the same tree and the same reports. -/
theorem sameText_sessions {s t : Session}
    (h : (sameText ts left right Eq Eq failures leftExcused rightExcused void).Sessions s t)
    (hleft : left.tree = .empty) (hright : right.tree = .empty)
    (hdiagnostics : left.diagnostics = right.diagnostics) :
    s.tree = t.tree ∧ s.diagnostics = t.diagnostics := by
  obtain ⟨-, hterms, hpatterns, hreports, -⟩ := h
  have hsame : (sameText ts left right Eq Eq failures leftExcused rightExcused void).right.tree =
      (sameText ts left right Eq Eq failures leftExcused rightExcused void).left.tree :=
    hright.trans hleft.symm
  have hstart : (sameText ts left right Eq Eq failures leftExcused rightExcused void).right.diagnostics =
      (sameText ts left right Eq Eq failures leftExcused rightExcused void).left.diagnostics :=
    hdiagnostics.symm
  rw [hsame] at hterms hpatterns
  rw [hstart] at hreports
  exact ⟨congrArg₂ Tree.mk (hterms.eq (sameText_termNodes hleft hright))
    (hpatterns.eq (sameText_patternNodes hleft hright)), hreports.eq sameText_reports⟩

end EqualTrees

end Comparison

end BendSyntax
