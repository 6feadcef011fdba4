import BendSyntax.Proofs.Comparison

/-! The rules of a comparison: what agrees before and behind each operation of a reading.
They hold for every lawful comparison. -/

namespace BendSyntax

/-! ## Growth -/

namespace Grown

variable {α β : Type} {R : α → β → Prop} {a : Array α} {b : Array β} {x : Array α} {y : Array β}

theorem start (R : α → β → Prop) (a : Array α) (b : Array β) : Grown R a b a b :=
  ⟨[], [], by simp, by simp, .nil⟩

theorem push (h : Grown R a b x y) {m : α} {n : β} (hmn : R m n) :
    Grown R a b (x.push m) (y.push n) := by
  obtain ⟨k, l, hx, hy, hkl⟩ := h
  refine ⟨k ++ [m], l ++ [n], by simp [hx], by simp [hy], ?_⟩
  exact List.rel_append hkl (.cons hmn .nil)

theorem eq {a x y : Array α} {R : α → α → Prop} (h : Grown R a a x y)
    (hR : ∀ {m n}, R m n → m = n) : x = y := by
  obtain ⟨k, l, hx, hy, hkl⟩ := h
  apply Array.toList_inj.mp
  rw [hx, hy, forall₂_eq hR hkl]

/-- Both arrays have grown by the same number of elements. -/
theorem size (h : Grown R a b x y) : ∃ n, x.size = a.size + n ∧ y.size = b.size + n := by
  obtain ⟨k, l, hx, hy, hkl⟩ := h
  have hx := congrArg List.length hx
  have hy := congrArg List.length hy
  simp only [Array.length_toList, List.length_append] at hx hy
  exact ⟨k.length, hx, by rw [hy, hkl.length_eq]⟩

/-- Arrays cut back to what they were earlier have still grown alike. -/
theorem take (h : Grown R a b x y) {x' : Array α} {y' : Array β} (h' : Grown R a b x' y') :
    Grown R a b (x'.take x.size) (y'.take y.size) := by
  obtain ⟨n, hx, hy⟩ := h.size
  obtain ⟨k, l, hx', hy', hkl⟩ := h'
  refine ⟨k.take n, l.take n, ?_, ?_, List.forall₂_take n hkl⟩
  · simp [hx, hx', List.take_append, List.take_of_length_le]
  · simp [hy, hy', List.take_append, List.take_of_length_le]

theorem getElem? (h : Grown R a b x y) (n : Nat) :
    Option.Rel R x[a.size + n]? y[b.size + n]? := by
  obtain ⟨k, l, hx, hy, hkl⟩ := h
  rw [← Array.getElem?_toList, ← Array.getElem?_toList, hx, hy, ← Array.length_toList,
    ← Array.length_toList, List.getElem?_append_right (by simp),
    List.getElem?_append_right (by simp)]
  simp only [Nat.add_sub_cancel_left]
  clear hx hy
  induction hkl generalizing n with
  | nil => simp
  | cons hmn _ ih =>
      cases n with
      | zero => simpa using hmn
      | succ n => simpa using ih n

theorem modify (h : Grown R a b x y) (n : Nat) {f : α → α} {g : β → β}
    (hfg : ∀ m m', R m m' → R (f m) (g m')) :
    Grown R a b (x.modify (a.size + n) f) (y.modify (b.size + n) g) := by
  obtain ⟨k, l, hx, hy, hkl⟩ := h
  refine ⟨k.modify n f, l.modify n g, ?_, ?_, ?_⟩
  · simp [hx, List.modify_eq_take_drop, List.take_append, List.drop_append,
      List.take_of_length_le, List.drop_of_length_le]
  · simp [hy, List.modify_eq_take_drop, List.take_append, List.drop_append,
      List.take_of_length_le, List.drop_of_length_le]
  · clear hx hy
    induction hkl generalizing n with
    | nil => simp
    | cons hmn hkl ih =>
        cases n with
        | zero => simpa using ⟨hfg _ _ hmn, hkl⟩
        | succ n => simpa using ⟨hmn, ih n⟩

end Grown

namespace Reading

/-- How the ends of two rounds may compare. -/
inductive Round.Rel {α : Type} (Q : α → α → Prop) : Round α → Round α → Prop
  | more {a b} : Q a b → Rel Q (.more a) (.more b)
  | done {a b} : Q a b → Rel Q (.done a) (.done b)

end Reading

namespace Correspondence

/-- In runs that begin with empty trees corresponding terms have the same number. -/
theorem terms_eq {C : Correspondence} (hleft : C.left.tree = .empty)
    (hright : C.right.tree = .empty) : C.terms = Eq := by
  funext ⟨i⟩ ⟨j⟩
  refine propext ⟨fun ⟨n, hi, hj⟩ => ?_, fun h => ⟨i, ?_⟩⟩
  · simp_all [Tree.empty]
  · cases h
    simp [hleft, hright, Tree.empty]

theorem patterns_eq {C : Correspondence} (hleft : C.left.tree = .empty)
    (hright : C.right.tree = .empty) : C.patterns = Eq := by
  funext ⟨i⟩ ⟨j⟩
  refine propext ⟨fun ⟨n, hi, hj⟩ => ?_, fun h => ⟨i, ?_⟩⟩
  · simp_all [Tree.empty]
  · cases h
    simp [hleft, hright, Tree.empty]

end Correspondence

namespace Correspondence.Sessions

variable {C : Correspondence}

theorem setTree {s t : Session} (h : C.Sessions s t) {u v : Tree}
    (hterms : Grown C.TermNodes C.left.tree.terms C.right.tree.terms u.terms v.terms)
    (hpatterns : Grown C.PatternNodes C.left.tree.patterns C.right.tree.patterns
      u.patterns v.patterns) :
    C.Sessions { s with tree := u } { t with tree := v } :=
  ⟨h.cursor, hterms, hpatterns, h.diagnostics, h.failures⟩

/-- What stands at corresponding places of two trees, if anything stands there. -/
theorem nodes {s t : Session} (h : C.Sessions s t) {a b : TermId} (hab : C.terms a b) :
    Option.Rel C.TermNodes s.tree.terms[a.index]? t.tree.terms[b.index]? := by
  obtain ⟨n, ha, hb⟩ := hab
  rw [ha, hb]
  exact h.terms.getElem? n

/-- Corresponding sessions that are taken back correspond. -/
theorem rewind {s t s' t' : Session} (h : C.Sessions s t) (h' : C.Sessions s' t') :
    C.Sessions (s'.rewind s) (t'.rewind t) :=
  ⟨h.cursor, h.terms.take h'.terms, h.patterns.take h'.patterns,
    h.diagnostics.take h'.diagnostics, h'.failures⟩

end Correspondence.Sessions

namespace Comparison

open Reading

variable {C : Comparison} {α β : Type} {P Q : α → α → Prop} {c d : Cursor}

theorem Outcomes.weaken {o p : Outcome α} (h : C.Outcomes P o p) (hPQ : ∀ a b, P a b → Q a b) :
    C.Outcomes Q o p := by
  cases h with
  | ok hab hst => exact .ok (hPQ _ _ hab) hst
  | error he hst => exact .error he hst
  | leftTooDeep hx he => exact .leftTooDeep hx he
  | rightTooDeep hx he => exact .rightTooDeep hx he
  | void hv => exact .void hv

theorem Agree.weaken {r q : Reading α} (h : C.Agree c d r q P) (hPQ : ∀ a b, P a b → Q a b) :
    C.Agree c d r q Q :=
  fun slot slot' s t hslot hst hs ht => (h slot slot' s t hslot hst hs ht).weaken hPQ

theorem Agrees.of_run {r q : Reading α}
    (h : ∀ slot slot' s t, C.Slots slot slot' → C.Sessions s t →
      C.Outcomes Q (r.run (C.left.setting slot) s) (q.run (C.right.setting slot') t)) :
    C.Agrees r q Q :=
  fun _ _ _ slot slot' s t hslot hst _ _ => h slot slot' s t hslot hst

theorem Agrees.run {r q : Reading α} (h : C.Agrees r q Q) {slot slot' : Slot} {s t : Session}
    (hslot : C.Slots slot slot') (hst : C.Sessions s t) :
    C.Outcomes Q (r.run (C.left.setting slot) s) (q.run (C.right.setting slot') t) :=
  h _ _ hst.cursor slot slot' s t hslot hst rfl rfl

theorem agree_ite {p q : Prop} [Decidable p] [Decidable q] (hpq : p ↔ q) {r r' s s' : Reading α}
    (hyes : p → C.Agree c d r s Q) (hno : ¬p → C.Agree c d r' s' Q) :
    C.Agree c d (if p then r else r') (if q then s else s') Q := by
  by_cases h : p
  · rw [if_pos h, if_pos (hpq.mp h)]
    exact hyes h
  · rw [if_neg h, if_neg (mt hpq.mpr h)]
    exact hno h

theorem agree_pure {a b : α} (h : Q a b) : C.Agree c d (pure a) (pure b) Q :=
  fun _ _ _ _ _ hst _ _ => .ok h hst

theorem agrees_pure {a b : α} (h : Q a b) : C.Agrees (pure a) (pure b) Q :=
  fun _ _ _ => agree_pure h

theorem agree_fail {e f : SyntaxError} (h : C.errors e f) : C.Agree c d (fail e) (fail f) Q :=
  fun _ _ _ _ _ hst _ _ => .error h hst

theorem agree_cursor_bind {f g : Cursor → Reading β} {Q : β → β → Prop}
    (h : C.Agree c d (f c) (g d) Q) : C.Agree c d (cursor >>= f) (cursor >>= g) Q := by
  intro slot slot' s t hslot hst hs ht
  subst hs ht
  exact h slot slot' s t hslot hst rfl rfl

theorem agrees_cursor_bind {f g : Cursor → Reading β} {Q : β → β → Prop}
    (h : ∀ c d, C.cursors c d → C.Agree c d (f c) (g d) Q) :
    C.Agrees (cursor >>= f) (cursor >>= g) Q :=
  fun c d hcd => agree_cursor_bind (h c d hcd)

theorem agree_slot_bind {f g : Slot → Reading β} {Q : β → β → Prop}
    (h : ∀ slot slot', C.Slots slot slot' → C.Agree c d (f slot) (g slot') Q) :
    C.Agree c d (slot >>= f) (slot >>= g) Q :=
  fun slot slot' s t hslot hst hs ht => h slot slot' hslot slot slot' s t hslot hst hs ht

section Lawful

variable [C.Lawful]

/-- Runs that go on alike from where corresponding ends of their first parts are. -/
theorem Outcomes.andThen {o p : Outcome α} (h : C.Outcomes P o p)
    {f g : α → Session → Outcome β} {Q : β → β → Prop}
    (hleft : o.session.Onward (o.andThen f).session)
    (hright : p.session.Onward (p.andThen g).session)
    (hfg : ∀ a b s t, P a b → C.Sessions s t → o = .ok a s → C.Outcomes Q (f a s) (g b t)) :
    C.Outcomes Q (o.andThen f) (p.andThen g) := by
  cases h with
  | ok hab hst => exact hfg _ _ _ _ hab hst rfl
  | error he hst => exact .error he hst
  | leftTooDeep hx he => exact .leftTooDeep hx he
  | rightTooDeep hx he => exact .rightTooDeep hx he
  | void hv => exact .void (Lawful.void_onward hv hleft hright)

theorem agree_bind {r q : Reading α} {f g : α → Reading β} {Q : β → β → Prop}
    (h : C.Agree c d r q P) (hfg : ∀ a b, P a b → C.Agrees (f a) (g b) Q) :
    C.Agree c d (r >>= f) (q >>= g) Q := by
  intro slot slot' s t hslot hst hs ht
  exact (h slot slot' s t hslot hst hs ht).andThen (bind_onward r f _ s) (bind_onward q g _ t)
    fun a b s t hab hst _ => (hfg a b hab).run hslot hst

theorem agrees_bind {r q : Reading α} {f g : α → Reading β} {Q : β → β → Prop}
    (h : C.Agrees r q P) (hfg : ∀ a b, P a b → C.Agrees (f a) (g b) Q) :
    C.Agrees (r >>= f) (q >>= g) Q :=
  fun c d hcd => agree_bind (h c d hcd) hfg

theorem agree_map {r q : Reading α} {f g : α → β} {Q : β → β → Prop}
    (h : C.Agree c d r q P) (hfg : ∀ a b, P a b → Q (f a) (g b)) :
    C.Agree c d (f <$> r) (g <$> q) Q :=
  agree_bind h fun _ _ hab => agrees_pure (hfg _ _ hab)

theorem agrees_map {r q : Reading α} {f g : α → β} {Q : β → β → Prop}
    (h : C.Agrees r q P) (hfg : ∀ a b, P a b → Q (f a) (g b)) : C.Agrees (f <$> r) (g <$> q) Q :=
  agrees_bind h fun _ _ hab => agrees_pure (hfg _ _ hab)

/-! ## Tokens -/

omit [C.Lawful] in
theorem startsItem_of_endsText {k : TokenKind} (hk : k.endsText = false) : k.startsItem = false := by
  unfold TokenKind.endsText at hk
  split at hk
  · cases hk
  · exact hk

/-- The kinds of corresponding tokens are told apart from each other alike, unless they end a
text. -/
theorem kind_iff (hcd : C.cursors c d) {k : TokenKind} (hk : k.endsText = false) :
    c.kind = k ↔ d.kind = k := by
  have h := Lawful.kind hcd
  generalize c.kind = m at h
  generalize d.kind = n at h
  cases h with
  | same => rfl
  | _ => constructor <;> (rintro rfl; cases hk)

/-- Cursors that also correspond behind the next tokens. -/
structure Moves (C : Comparison) (c d : Cursor) : Prop where
  marks : C.marks c.span d.span
  cursors : C.cursors c.advance d.advance

theorem moves_of_kind (hcd : C.cursors c d) (hc : c.kind ≠ .eof) : C.Moves c d :=
  ⟨Lawful.mark hcd hc, Lawful.advance hcd hc⟩

omit [C.Lawful] in
/-- Reads the next token, with a continuation that may depend on what stands behind it. -/
theorem Moves.agree_bind (hmoves : C.Moves c d) {f g : Span → Reading β} {Q : β → β → Prop}
    (h : ∀ s t, C.marks s t → C.Agree c.advance d.advance (f s) (g t) Q) :
    C.Agree c d (advance >>= f) (advance >>= g) Q := by
  intro slot slot' s t hslot hst hs ht
  subst hs ht
  refine h _ _ hmoves.marks slot slot' _ _ hslot ?_ rfl rfl
  exact ⟨hmoves.cursors, hst.terms, hst.patterns, hst.diagnostics, hst.failures⟩

theorem agree_advance_at (hcd : C.cursors c d) (hc : c.kind ≠ .eof) {f g : Span → Reading β}
    {Q : β → β → Prop}
    (h : ∀ s t, C.marks s t → C.Agree c.advance d.advance (f s) (g t) Q) :
    C.Agree c d (advance >>= f) (advance >>= g) Q :=
  (moves_of_kind hcd hc).agree_bind h

theorem agree_advance_bind (hcd : C.cursors c d) (hc : c.kind ≠ .eof) {f g : Span → Reading β}
    {Q : β → β → Prop} (h : ∀ s t, C.marks s t → C.Agrees (f s) (g t) Q) :
    C.Agree c d (advance >>= f) (advance >>= g) Q :=
  agree_advance_at hcd hc fun s t hst => h s t hst _ _ (Lawful.advance hcd hc)

omit [C.Lawful] in
theorem agree_here_bind {f g : Span → Reading β} {Q : β → β → Prop}
    (h : C.Agree c d (f c.span) (g d.span) Q) : C.Agree c d (here >>= f) (here >>= g) Q := by
  intro slot slot' s t hslot hst hs ht
  subst hs ht
  exact h slot slot' s t hslot hst rfl rfl

theorem agrees_here : C.Agrees here here C.spans :=
  agrees_cursor_bind fun _ _ hcd => agree_pure (Lawful.span hcd)

theorem agree_advance (hcd : C.cursors c d) (hc : c.kind ≠ .eof) :
    C.Agree c d advance advance C.marks := by
  intro slot slot' s t hslot hst hs ht
  subst hs ht
  refine .ok (Lawful.mark hcd hc) ?_
  exact ⟨Lawful.advance hcd hc, hst.terms, hst.patterns, hst.diagnostics, hst.failures⟩

theorem agree_halve (hcd : C.cursors c d) (hc : c.kind = .mark .shiftRight) :
    C.Agree c d halve halve fun _ _ => True := by
  intro slot slot' s t hslot hst hs ht
  subst hs ht
  refine .ok trivial ?_
  exact ⟨Lawful.halve hcd hc, hst.terms, hst.patterns, hst.diagnostics, hst.failures⟩

theorem agree_unexpected (hcd : C.cursors c d) (what : String) :
    C.Agree c d (unexpected what) (unexpected what) Q :=
  agree_cursor_bind (agree_fail (Lawful.expected what hcd))

theorem agrees_require {b b' : Bool} (h : b = b') (what : String) :
    C.Agrees (require b what) (require b' what) fun _ _ => True := by
  intro c d hcd
  exact agree_ite (by rw [h]) (fun _ => agree_pure trivial) fun _ => agree_unexpected hcd _

theorem agree_sees_bind (hcd : C.cursors c d) {k : TokenKind} (hk : k.endsText = false)
    {f g : Bool → Reading β} {Q : β → β → Prop}
    (h : C.Agree c d (f (c.kind = k)) (g (c.kind = k)) Q) :
    C.Agree c d (sees k >>= f) (sees k >>= g) Q := by
  intro slot slot' s t hslot hst hs ht
  subst hs ht
  have hd : decide (t.cursor.kind = k) = decide (s.cursor.kind = k) := by
    simp [kind_iff hcd hk]
  have := h slot slot' s t hslot hst rfl rfl
  simp only [sees, kind, cursor, asks, run_bind, run_pure, Outcome.andThen_ok, hd]
  exact this

theorem agrees_sees {k : TokenKind} (hk : k.endsText = false) :
    C.Agrees (sees k) (sees k) Eq := by
  intro c d hcd slot slot' s t hslot hst hs ht
  subst hs ht
  have hd : decide (s.cursor.kind = k) = decide (t.cursor.kind = k) := by
    simp [kind_iff hcd hk]
  exact .ok hd hst

theorem agrees_sees_bind {k : TokenKind} (hk : k.endsText = false) {f g : Bool → Reading β}
    {Q : β → β → Prop} (hyes : C.Agrees (f true) (g true) Q)
    (hno : C.Agrees (f false) (g false) Q) : C.Agrees (sees k >>= f) (sees k >>= g) Q := by
  refine agrees_bind (agrees_sees hk) fun a b hab => ?_
  subst hab
  cases a with
  | true => exact hyes
  | false => exact hno

theorem ne_eof_of_kind {k : TokenKind} (hk : k.startsItem = false) (hc : c.kind = k) :
    c.kind ≠ .eof := by
  rintro h
  rw [← hc, h] at hk
  cases hk

theorem agrees_accept {k : TokenKind} (hk : k.endsText = false) :
    C.Agrees (accept k) (accept k) Eq := by
  intro c d hcd
  refine agree_sees_bind hcd hk (agree_ite .rfl (fun hc => ?_) fun _ => agree_pure rfl)
  exact agree_advance_bind hcd (ne_eof_of_kind (startsItem_of_endsText hk) (of_decide_eq_true hc)) fun _ _ _ =>
    agrees_pure rfl

theorem agrees_accept_bind {k : TokenKind} (hk : k.endsText = false) {f g : Bool → Reading β}
    {Q : β → β → Prop} (hyes : C.Agrees (f true) (g true) Q)
    (hno : C.Agrees (f false) (g false) Q) : C.Agrees (accept k >>= f) (accept k >>= g) Q := by
  refine agrees_bind (agrees_accept hk) fun a b hab => ?_
  subst hab
  cases a with
  | true => exact hyes
  | false => exact hno

theorem agrees_expect {k : TokenKind} (hk : k.endsText = false) :
    C.Agrees (expect k) (expect k) C.marks := by
  intro c d hcd
  refine agree_sees_bind hcd hk (agree_ite .rfl (fun hc => ?_) fun _ => agree_unexpected hcd _)
  exact agree_advance hcd (ne_eof_of_kind (startsItem_of_endsText hk) (of_decide_eq_true hc))

/-- Corresponding names with their spans. -/
structure Names (C : Comparison) (a b : String × Span) : Prop where
  name : a.1 = b.1
  marks : C.marks a.2 b.2
  named : C.named a.1.utf8ByteSize a.2 b.2

theorem agrees_identifier : C.Agrees identifier identifier C.Names := by
  refine agrees_cursor_bind fun c d hcd => ?_
  refine agree_ite (kind_iff hcd rfl) (fun hc => ?_) fun _ => agree_unexpected hcd _
  have hne := ne_eof_of_kind rfl hc
  have hnames : C.Names (c.lexeme, c.span) (d.lexeme, d.span) :=
    ⟨(Lawful.token hcd hne).2.1, Lawful.mark hcd hne, Lawful.named_ident hcd hc⟩
  intro slot slot' s t hslot hst hs ht
  subst hs ht
  refine .ok hnames ?_
  exact ⟨Lawful.advance hcd hne, hst.terms, hst.patterns, hst.diagnostics, hst.failures⟩

theorem agrees_name_bind {f g : String × Span → Reading β} {Q : β → β → Prop}
    (h : ∀ name s t, C.Names (name, s) (name, t) → C.Agrees (f (name, s)) (g (name, t)) Q) :
    C.Agrees (identifier >>= f) (identifier >>= g) Q := by
  refine agrees_bind agrees_identifier fun a b hab => ?_
  obtain ⟨name, s⟩ := a
  obtain ⟨name', t⟩ := b
  obtain rfl : name = name' := hab.name
  exact h name s t hab

theorem agrees_identifier_bind {f g : String × Span → Reading β} {Q : β → β → Prop}
    (h : ∀ name s t, C.marks s t → C.Agrees (f (name, s)) (g (name, t)) Q) :
    C.Agrees (identifier >>= f) (identifier >>= g) Q :=
  agrees_name_bind fun name s t hst => h name s t hst.marks

omit [C.Lawful] in
theorem agree_kind_bind {f g : TokenKind → Reading β} {Q : β → β → Prop}
    (h : C.Agree c d (f c.kind) (g d.kind) Q) : C.Agree c d (kind >>= f) (kind >>= g) Q := by
  intro slot slot' s t hslot hst hs ht
  subst hs ht
  exact h slot slot' s t hslot hst rfl rfl

theorem agrees_closeAngle : C.Agrees closeAngle closeAngle fun _ _ => True := by
  intro c d hcd
  refine agree_kind_bind ?_
  have hk := Lawful.kind hcd
  generalize hc : c.kind = k at hk
  generalize d.kind = l at hk
  cases hk with
  | same =>
      cases k with
      | mark s =>
          cases s with
          | greater =>
              exact agree_advance_bind hcd (ne_eof_of_kind rfl hc) fun _ _ _ => agrees_pure trivial
          | shiftRight => exact agree_halve hcd hc
          | _ => exact agree_unexpected hcd _
      | _ => exact agree_unexpected hcd _
  | _ => exact agree_unexpected hcd _

/-! ## Nodes -/

omit [C.Lawful] in
theorem agrees_addTerm {t u : Term TermId PatternId} {s₁ s₂ : Span}
    (h : t.Alike C.spans C.terms C.patterns u) (hs : C.spans s₁ s₂)
    (hname : ∀ k ∈ t.nameLength?, C.named k s₁ s₂) :
    C.Agrees (addTerm t s₁) (addTerm u s₂) C.terms := by
  refine .of_run fun slot slot' s t hslot hst => ?_
  obtain ⟨n, hn, hn'⟩ := hst.terms.size
  exact .ok ⟨n, hn, hn'⟩
    (hst.setTree (hst.terms.push ⟨h, hs, hslot.usage, hname⟩) hst.patterns)

omit [C.Lawful] in
theorem agrees_addPattern {p q : Pattern PatternId} {s₁ s₂ : Span} (h : p.Alike C.patterns q)
    (hs : C.spans s₁ s₂) : C.Agrees (addPattern p s₁) (addPattern q s₂) C.patterns := by
  refine .of_run fun slot slot' s t hslot hst => ?_
  obtain ⟨n, hn, hn'⟩ := hst.patterns.size
  exact .ok ⟨n, hn, hn'⟩ (hst.setTree hst.terms (hst.patterns.push ⟨h, hs⟩))

theorem agrees_since {s₁ s₂ : Span} (hs : C.spans s₁ s₂) :
    C.Agrees (since s₁) (since s₂) C.spans :=
  agrees_cursor_bind fun _ _ hcd => agree_pure (Lawful.spans_hull hs (Lawful.last hcd))

/-- A finished term that is not a name. -/
theorem agrees_close {t u : Term TermId PatternId} {s₁ s₂ : Span}
    (h : t.Alike C.spans C.terms C.patterns u) (hs : C.spans s₁ s₂)
    (hname : t.nameLength? = none) : C.Agrees (close s₁ t) (close s₂ u) C.terms :=
  agrees_bind (agrees_since hs) fun _ _ hs => agrees_addTerm h hs (by simp [hname])

theorem agrees_closePattern {p q : Pattern PatternId} {s₁ s₂ : Span} (h : p.Alike C.patterns q)
    (hs : C.spans s₁ s₂) : C.Agrees (closePattern s₁ p) (closePattern s₂ q) C.patterns :=
  agrees_bind (agrees_since hs) fun _ _ hs => agrees_addPattern h hs

theorem agrees_widen {a b : TermId} {s₁ s₂ : Span} (h : C.terms a b) (hs : C.marks s₁ s₂) :
    C.Agrees (widen a s₁) (widen b s₂) fun _ _ => True := by
  refine .of_run fun slot slot' s t hslot hst => .ok trivial (hst.setTree ?_ hst.patterns)
  obtain ⟨n, ha, hb⟩ := h
  simp only [Tree.widen, ha, hb]
  refine hst.terms.modify n fun m m' hm => ⟨hm.term, ?_, hm.usage, fun k hk => ?_⟩
  · exact Lawful.spans_hull hm.span (Lawful.marks_spans hs)
  · exact Lawful.named_hull (hm.name k hk) hs

theorem agrees_spanOf {a b : TermId} (h : C.terms a b) :
    C.Agrees (spanOf a) (spanOf b) C.spans := by
  refine .of_run fun slot slot' s t hslot hst => .ok ?_ hst
  have hnodes := hst.nodes h
  simp only [Tree.span]
  generalize s.tree.terms[a.index]? = m at hnodes
  generalize t.tree.terms[b.index]? = m' at hnodes
  cases hnodes with
  | none => exact Lawful.spans_zero
  | some hm => exact hm.span

omit [C.Lawful] in
theorem nameLength?_eq {t u : Term TermId PatternId} (h : t.Alike C.spans C.terms C.patterns u) :
    t.nameLength? = u.nameLength? := by
  cases h <;> rfl

theorem isBareName_eq {s t : Session} (hst : C.Sessions s t) {a b : TermId}
    (h : C.terms a b) : s.tree.isBareName a = t.tree.isBareName b := by
  have hnodes := hst.nodes h
  simp only [Tree.isBareName, Tree.term?, Tree.span]
  generalize s.tree.terms[a.index]? = m at hnodes
  generalize t.tree.terms[b.index]? = m' at hnodes
  cases hnodes with
  | none => rfl
  | @some m m' hm =>
      simp only [Option.map_some, ← nameLength?_eq hm.term]
      cases hname : m.term.nameLength? with
      | none => rfl
      | some n =>
          have hlength := Lawful.named_length (hm.name n hname)
          rw [Bool.eq_iff_iff, beq_iff_eq, beq_iff_eq, Option.some.injEq, Option.some.injEq]
          exact ⟨fun h => (hlength.mp h.symm).symm, fun h => (hlength.mpr h.symm).symm⟩

theorem agree_bareName_bind {a b : TermId} (hab : C.terms a b) {f g : Bool → Reading β}
    {Q : β → β → Prop} (h : ∀ bare, C.Agree c d (f bare) (g bare) Q) :
    C.Agree c d (bareName a >>= f) (bareName b >>= g) Q := by
  intro slot slot' s t hslot hst hs ht
  simp only [bareName, asksTerm, asks, run_bind, Outcome.andThen_ok, isBareName_eq hst hab]
  exact h _ slot slot' s t hslot hst hs ht

/-! ## Slots -/

omit [C.Lawful] in
theorem agrees_within {r q : Reading α} {f g : Slot → Slot} (h : C.Agrees r q Q)
    (hfg : ∀ slot slot', C.Slots slot slot' → C.Slots (f slot) (g slot')) :
    C.Agrees (within f r) (within g q) Q :=
  .of_run fun _ _ _ _ hslot hst => h.run (hfg _ _ hslot) hst

theorem agrees_withUsage {r q : Reading α} (usage : Usage) (h : C.Agrees r q Q) :
    C.Agrees (withUsage usage r) (withUsage usage q) Q :=
  agrees_within h fun _ _ hslot => ⟨hslot.flags, Lawful.usages_refl usage⟩

omit [C.Lawful] in
theorem agrees_delimited {r q : Reading α} (h : C.Agrees r q Q) :
    C.Agrees (delimited r) (delimited q) Q :=
  agrees_within h fun _ _ hslot => ⟨rfl, hslot.usage⟩

/-! ## Loops -/

/-- The rounds of loops that keep `inv` in the left run end alike if each of them does. -/
theorem outcomes_runLoop (inv : Session → Prop) {f g : α → Reading (Round α)} {slot slot' : Slot}
    (hround : ∀ a b s t, Q a b → C.Sessions s t → inv s → C.Outcomes (Round.Rel Q)
      ((f a).run (C.left.setting slot) s) ((g b).run (C.right.setting slot') t))
    (hkeep : ∀ a s x t, inv s → (f a).run (C.left.setting slot) s = .ok x t → inv t)
    {a b : α} {s t : Session} (hab : Q a b) (hst : C.Sessions s t) (hs : inv s) :
    C.Outcomes Q (runLoop f (C.left.setting slot) a s) (runLoop g (C.right.setting slot') b t) := by
  induction hn : s.cursor.remaining using Nat.strongRecOn generalizing a b s t with
  | _ n ih =>
      have hagree := hround a b s t hab hst hs
      have hkeep := hkeep a s
      have hleft := step_onward_runLoop f (C.left.setting slot) a s
      have hright := step_onward_runLoop g (C.right.setting slot') b t
      rw [runLoop, runLoop] at *
      generalize (f a).run (C.left.setting slot) s = o at *
      generalize (g b).run (C.right.setting slot') t = p at *
      cases hagree with
      | @ok x y now now' hxy hnow =>
          cases hxy with
          | done hxy => exact .ok hxy hnow
          | more hxy =>
              dsimp only
              by_cases hlt : now.cursor.remaining < s.cursor.remaining
              · rw [if_pos hlt, if_pos ((Lawful.remaining hst.cursor hnow.cursor).mp hlt)]
                exact ih now.cursor.remaining (hn ▸ hlt) hxy hnow (hkeep _ now hs rfl) rfl
              · rw [if_neg hlt, if_neg (mt (Lawful.remaining hst.cursor hnow.cursor).mpr hlt)]
                exact .ok hxy hnow
      | error he hnow => exact .error he hnow
      | leftTooDeep hx he => exact .leftTooDeep hx he
      | rightTooDeep hx he => exact .rightTooDeep hx he
      | void hv => exact .void (Lawful.void_onward hv hleft hright)

theorem agrees_loop {f g : α → Reading (Round α)}
    (h : ∀ a b, Q a b → C.Agrees (f a) (g b) (Round.Rel Q)) {a b : α} (hab : Q a b) :
    C.Agrees (loop f a) (loop g b) Q :=
  .of_run fun _ _ _ _ hslot hst => outcomes_runLoop (fun _ => True)
    (fun a b _ _ hab hst _ => (h a b hab).run hslot hst) (fun _ _ _ _ hs _ => hs) hab hst trivial

theorem isEmpty_eq {R : α → α → Prop} {as bs : List α} (h : List.Forall₂ R as bs) :
    as.isEmpty = bs.isEmpty := by
  cases h <;> rfl

/-- Arrays of items that correspond in order. -/
def Lists (R : α → α → Prop) (a b : Array α) : Prop := List.Forall₂ R a.toList b.toList

omit [C.Lawful] in
theorem Lists.push {R : α → α → Prop} {as bs : Array α} (h : Lists R as bs) {a b : α}
    (hab : R a b) : Lists R (as.push a) (bs.push b) := by
  simpa [Lists] using List.rel_append h (.cons hab .nil)

theorem agrees_collectWhile {more more' : Reading Bool} {r q : Reading α}
    (hmore : C.Agrees more more' Eq) (h : C.Agrees r q Q) :
    C.Agrees (collectWhile more r) (collectWhile more' q) (List.Forall₂ Q) := by
  refine agrees_bind (agrees_loop (Q := Lists Q) (fun as bs has => ?_) .nil)
    fun _ _ has => agrees_pure has
  refine agrees_bind hmore fun x y hxy => ?_
  subst hxy
  cases x with
  | true => exact agrees_bind h fun a b hab => agrees_pure (.more (has.push hab))
  | false => exact agrees_pure (.done has)

theorem agrees_collectThrough {more more' : Reading Bool} {r q : Reading α}
    (h : C.Agrees r q Q) (hmore : C.Agrees more more' Eq) :
    C.Agrees (collectThrough r more) (collectThrough q more') (List.Forall₂ Q) := by
  refine agrees_bind (agrees_loop (Q := Lists Q) (fun as bs has => ?_) .nil)
    fun _ _ has => agrees_pure has
  refine agrees_bind h fun a b hab => agrees_bind hmore fun x y hxy => ?_
  subst hxy
  cases x with
  | true => exact agrees_pure (.more (has.push hab))
  | false => exact agrees_pure (.done (has.push hab))

theorem agrees_commaList {r q : Reading α} (h : C.Agrees r q Q) :
    C.Agrees (commaList r) (commaList q) (List.Forall₂ Q) :=
  agrees_collectThrough h (agrees_accept rfl)

theorem agrees_oneUpTo {k : TokenKind} (hk : k.endsText = false) {r q : Reading α}
    (h : C.Agrees r q Q) : C.Agrees (oneUpTo k r) (oneUpTo k q) (List.Forall₂ Q) :=
  agrees_collectThrough h
    (agrees_bind (agrees_sees hk) fun _ _ hxy => agrees_pure (congrArg _ hxy))

theorem agrees_separated {k : TokenKind} (hk : k.endsText = false) {r q : Reading α}
    (h : C.Agrees r q Q) : C.Agrees (separated k r) (separated k q) (List.Forall₂ Q) := by
  refine agrees_bind (agrees_loop (Q := Lists Q) (fun as bs has => ?_) .nil)
    fun _ _ has => agrees_pure has
  refine agrees_sees_bind hk (agrees_pure (.done has)) ?_
  refine agrees_bind h fun a b hab => agrees_accept_bind rfl ?_ ?_
  · exact agrees_pure (.more (has.push hab))
  · exact agrees_pure (.done (has.push hab))

/-! ## Attempts -/

/-- Comparisons in which void sessions stay void when one of them is taken back. -/
class Retractable (C : Comparison) : Prop where
  left {s s' t : Session} : C.void s' t → s.Onward s' → C.void (s'.rewind s) t
  right {s t t' : Session} : C.void s t' → t.Onward t' → C.void s (t'.rewind t)

section Retractable

variable [C.Retractable]

omit [C.Lawful] in
/-- Void sessions stay void when they are taken back or left as they are. -/
theorem void_of_retracted {s t s' t' u v : Session} (h : C.void s' t') (hs : s.Onward s')
    (ht : t.Onward t') (hu : u = s' ∨ u = s'.rewind s) (hv : v = t' ∨ v = t'.rewind t) :
    C.void u v := by
  rcases hu with rfl | rfl <;> rcases hv with rfl | rfl
  · exact h
  · exact Retractable.right h ht
  · exact Retractable.left h hs
  · exact Retractable.left (Retractable.right h ht) hs

theorem agree_speculate {r q : Reading (Option α)} (h : C.Agree c d r q (Option.Rel Q)) :
    C.Agree c d (speculate r) (speculate q) (Option.Rel Q) := by
  intro slot slot' s t hslot hst hs ht
  have hrq := h slot slot' s t hslot hst hs ht
  have hleft := r.onward (C.left.setting slot) s
  have hright := q.onward (C.right.setting slot') t
  simp only [speculate]
  generalize r.run (C.left.setting slot) s = o at *
  generalize q.run (C.right.setting slot') t = p at *
  cases hrq with
  | ok hab hnow =>
      cases hab with
      | none => exact .ok .none (hst.rewind hnow)
      | some hab => exact .ok (.some hab) hnow
  | @error e f now now' he hnow =>
      have hfatal := Lawful.errors_fatal he
      simp only [Outcome.retracted, hfatal]
      split
      · exact .error he hnow
      · exact .ok .none (hst.rewind hnow)
  | leftTooDeep hx he =>
      simp only [Outcome.retracted, he, if_true]
      exact .leftTooDeep hx he
  | rightTooDeep hx he =>
      simp only [Outcome.retracted, he, if_true]
      exact .rightTooDeep hx he
  | void hv =>
      exact .void (void_of_retracted hv hleft hright (Outcome.session_retracted s o)
        (Outcome.session_retracted t p))

theorem agree_succeeds {r q : Reading α} (h : C.Agree c d r q P) :
    C.Agree c d (succeeds r) (succeeds q) Eq := by
  intro slot slot' s t hslot hst hs ht
  have hrq := h slot slot' s t hslot hst hs ht
  have hleft := r.onward (C.left.setting slot) s
  have hright := q.onward (C.right.setting slot') t
  change C.Outcomes Eq (Outcome.tested s _) (Outcome.tested t _)
  generalize r.run (C.left.setting slot) s = o at *
  generalize q.run (C.right.setting slot') t = p at *
  cases hrq with
  | ok hab hnow => exact .ok rfl (hst.rewind hnow)
  | @error e f now now' he hnow =>
      have hfatal := Lawful.errors_fatal he
      simp only [Outcome.tested, hfatal]
      split
      · exact .error he hnow
      · exact .ok rfl (hst.rewind hnow)
  | leftTooDeep hx he =>
      simp only [Outcome.tested, he, if_true]
      exact .leftTooDeep hx he
  | rightTooDeep hx he =>
      simp only [Outcome.tested, he, if_true]
      exact .rightTooDeep hx he
  | void hv =>
      exact .void (void_of_retracted hv hleft hright (Outcome.session_tested s o)
        (Outcome.session_tested t p))

/-- An attempt agrees if both runs know the same about it. -/
theorem agree_attempt {what : Attempt} {r q : Reading (Option α)}
    (hknown : ∀ slot slot' s t, C.Slots slot slot' → C.Sessions s t → s.cursor = c →
      t.cursor = d → (C.left.remembers && s.failures.any (⟨c.index, what, slot⟩ : Failure).matches) =
        (C.right.remembers && t.failures.any (⟨d.index, what, slot'⟩ : Failure).matches))
    (hremember : ∀ slot slot' l l', C.Slots slot slot' → C.failures l l' →
      C.failures (⟨c.index, what, slot⟩ :: l) (⟨d.index, what, slot'⟩ :: l'))
    (h : C.Agree c d r q (Option.Rel Q)) :
    C.Agree c d (attempt what r) (attempt what q) (Option.Rel Q) := by
  intro slot slot' s t hslot hst hs ht
  have hknown := hknown slot slot' s t hslot hst hs ht
  have hspeculate := agree_speculate h slot slot' s t hslot hst hs ht
  subst hs ht
  simp only [run_attempt, Side.setting] at *
  rw [hknown]
  split
  · exact .ok .none ⟨hst.cursor, hst.terms, hst.patterns, hst.diagnostics,
      hremember slot slot' _ _ hslot hst.failures⟩
  · simp only [speculate] at hspeculate
    generalize (r.run _ s).retracted s = o at *
    generalize (q.run _ t).retracted t = p at *
    cases hspeculate with
    | ok hab hnow =>
        cases hab with
        | none => exact .ok .none ⟨hnow.cursor, hnow.terms, hnow.patterns, hnow.diagnostics,
            hremember slot slot' _ _ hslot hnow.failures⟩
        | some hab => exact .ok (.some hab) hnow
    | error he hnow => exact .error he hnow
    | leftTooDeep hx he => exact .leftTooDeep hx he
    | rightTooDeep hx he => exact .rightTooDeep hx he
    | void hv =>
        refine .void (Lawful.void_onward hv (Outcome.andThen_onward _ ?_)
          (Outcome.andThen_onward _ ?_)) <;> intro answer now
        · cases answer with
          | none => exact .remember now _
          | some answer => exact .refl now
        · cases answer with
          | none => exact .remember now _
          | some answer => exact .refl now

end Retractable

end Lawful

end Comparison

end BendSyntax
