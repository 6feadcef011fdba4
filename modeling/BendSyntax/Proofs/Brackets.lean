import BendSyntax.Proofs.Triple

/-! Which tokens readings take. Every parenthesis that a reading closes it has opened, and if it
succeeds it has closed all that it opened. Whether it succeeds or not, it passes no keyword that
begins an item. -/

namespace BendSyntax

open Reading

/-! ## Open parentheses -/

/-- How many parentheses are open behind a token if `n` are open in front of it; none can be closed
if none is open. -/
def TokenKind.opened : TokenKind → Nat → Option Nat
  | .mark .leftParen, n => some (n + 1)
  | .mark .rightParen, 0 => none
  | .mark .rightParen, n + 1 => some n
  | _, n => some n

/-- How many parentheses are open behind some tokens. -/
def opened (n : Nat) (ts : List Token) : Option Nat := ts.foldlM (fun n t => t.kind.opened n) n

/-- Tokens that are neither parentheses nor the beginning of an item. -/
def TokenKind.isPlain : TokenKind → Bool
  | .mark .leftParen | .mark .rightParen => false
  | k => !k.startsItem

section Opened

variable {n m : Nat} {ts us : List Token} {t : Token}

@[simp] theorem opened_nil : opened n [] = some n := rfl

@[simp] theorem opened_cons : opened n (t :: ts) = t.kind.opened n >>= fun m => opened m ts := rfl

theorem opened_append : opened n (ts ++ us) = opened n ts >>= fun m => opened m us := by
  simp [opened]

theorem TokenKind.opened_of_isPlain {k : TokenKind} (h : k.isPlain = true) :
    k.opened n = some n := by
  unfold opened
  split <;> simp_all [isPlain]

theorem TokenKind.startsItem_of_isPlain {k : TokenKind} (h : k.isPlain = true) :
    k.startsItem = false := by
  unfold isPlain at h
  split at h <;> simp_all

theorem TokenKind.opened_of_ne {k : TokenKind} (hleft : k ≠ .mark .leftParen)
    (hright : k ≠ .mark .rightParen) : k.opened n = some n := by
  unfold opened
  split <;> simp_all

theorem TokenKind.opened_add {k : TokenKind} (h : k.opened n = some m) (j : Nat) :
    k.opened (n + j) = some (m + j) := by
  by_cases hleft : k = .mark .leftParen
  · subst hleft
    cases h
    simp only [opened, Option.some.injEq]
    omega
  · by_cases hright : k = .mark .rightParen
    · subst hright
      cases n with
      | zero => cases h
      | succ n =>
          cases h
          rw [Nat.add_right_comm]
          rfl
    · rw [opened_of_ne hleft hright] at h ⊢
      cases h
      rfl

/-- More parentheses that are open in front of some tokens are open behind them, too. -/
theorem opened_add (h : opened n ts = some m) (j : Nat) : opened (n + j) ts = some (m + j) := by
  induction ts generalizing n with
  | nil =>
      cases h
      rfl
  | cons t ts ih =>
      rw [opened_cons] at h ⊢
      cases hk : t.kind.opened n with
      | none => simp [hk] at h
      | some i =>
          rw [hk] at h
          rw [TokenKind.opened_add hk]
          exact ih h

end Opened

/-- In front of the cursor as many tokens of `ts` have been read as leave `n` parentheses open. -/
def Cursor.Open (ts : List Token) (n : Nat) (c : Cursor) : Prop :=
  ∃ w, ts = w ++ c.rest ∧ opened 0 w = some n

/-- In front of the cursor tokens of `ts` have been read of which none begins an item. -/
structure Session.Clear (ts : List Token) (s : Session) : Prop where
  passed : ∃ w, ts = w ++ s.cursor.rest ∧ ∀ t ∈ w, t.kind.startsItem = false
  eof : s.cursor.eof.kind = .eof

namespace Cursor

variable {c : Cursor} {ts : List Token} {n m : Nat}

theorem kind_eq_or (c : Cursor) : c.token.kind = c.kind ∨
    c.token.kind = .mark .shiftRight ∧ c.kind = .mark .greater := by
  unfold kind
  split <;> simp_all

theorem opened_kind (c : Cursor) : c.token.kind.opened n = c.kind.opened n := by
  rcases c.kind_eq_or with h | ⟨h, h'⟩
  · rw [h]
  · rw [h, h']
    rfl

theorem startsItem_kind (c : Cursor) : c.token.kind.startsItem = c.kind.startsItem := by
  rcases c.kind_eq_or with h | ⟨h, h'⟩
  · rw [h]
  · rw [h, h']
    rfl

/-- What begins no item is not the end of the text. -/
theorem rest_ne_nil (heof : c.eof.kind = .eof) (hkind : c.kind.startsItem = false) :
    c.rest ≠ [] := by
  intro hrest
  have htoken : c.token = c.eof := by simp [token, hrest]
  rw [← startsItem_kind, htoken, heof] at hkind
  cases hkind

theorem rest_eq_cons (h : c.rest ≠ []) : c.rest = c.token :: c.advance.rest := by
  rw [advance_of_rest_ne_nil h]
  unfold token
  split <;> simp_all

theorem Open.start (c : Cursor) : c.Open c.rest 0 := ⟨[], rfl, rfl⟩

theorem Open.advance (heof : c.eof.kind = .eof) (h : c.Open ts n)
    (hkind : c.kind.startsItem = false) (hopened : c.kind.opened n = some m) :
    c.advance.Open ts m := by
  obtain ⟨w, hw, hn⟩ := h
  refine ⟨w ++ [c.token], ?_, ?_⟩
  · rw [hw, rest_eq_cons (rest_ne_nil heof hkind), List.append_assoc]
    rfl
  · rw [opened_append, hn]
    simp [opened_kind, hopened]

/-- What is read from here leaves no parenthesis open. -/
theorem Open.matched {d : Cursor} {k : Nat} (h : d.Open c.rest 0) (hc : opened k c.rest = some 0) :
    opened k d.rest = some 0 := by
  obtain ⟨w, hw, hopened⟩ := h
  rw [hw, opened_append] at hc
  have hk : opened k w = some k := by simpa using opened_add hopened k
  rwa [hk] at hc

end Cursor

namespace Session.Clear

variable {ts us : List Token} {s t : Session}

theorem start (heof : s.cursor.eof.kind = .eof) : s.Clear s.cursor.rest :=
  ⟨⟨[], rfl, nofun⟩, heof⟩

theorem trans (h : s.Clear ts) (k : t.Clear s.cursor.rest) : t.Clear ts := by
  obtain ⟨w, hw, hclear⟩ := h.passed
  obtain ⟨v, hv, hclear'⟩ := k.passed
  refine ⟨⟨w ++ v, by rw [hw, hv, List.append_assoc], fun u hu => ?_⟩, k.eof⟩
  exact (List.mem_append.mp hu).elim (hclear u) (hclear' u)

theorem advance (h : s.Clear ts) (hkind : s.cursor.kind.startsItem = false) :
    { s with cursor := s.cursor.advance }.Clear ts := by
  have hrest := Cursor.rest_ne_nil h.eof hkind
  obtain ⟨w, hw, hclear⟩ := h.passed
  refine ⟨⟨w ++ [s.cursor.token], ?_, fun u hu => ?_⟩, ?_⟩
  · rw [hw, Cursor.rest_eq_cons hrest, List.append_assoc]
    rfl
  · rcases List.mem_append.mp hu with hu | hu
    · exact hclear u hu
    · rw [List.mem_singleton.mp hu, Cursor.startsItem_kind, hkind]
  · simpa [Cursor.advance_of_rest_ne_nil hrest] using h.eof

end Session.Clear

instance {ts : List Token} : Steady (Session.Clear ts) where
  complain hs _ := ⟨hs.passed, hs.eof⟩
  restate hs _ := ⟨hs.passed, hs.eof⟩
  remember _ hs := ⟨hs.passed, hs.eof⟩
  rewind hs _ _ := ⟨hs.passed, hs.eof⟩
  discard _ ht _ := ⟨ht.passed, ht.eof⟩

/-! ## Readings -/

/-- A reading passes no beginning of an item, and if it succeeds it leaves as many parentheses open
as were open. -/
def Reading.Balances {α : Type} (r : Reading α) : Prop :=
  ∀ ts n, Preserves (Session.Clear ts) (fun s => s.cursor.Open ts n) r

/-- A reading balances where it begins at some cursor. -/
def Reading.BalancesAt (c : Cursor) {α : Type} (r : Reading α) : Prop :=
  ∀ ts n, Triple (Session.Clear ts) (fun s => s.cursor = c ∧ s.cursor.Open ts n) r
    fun _ s => s.cursor.Open ts n

/-- A reading leaves the cursor where it is. -/
def Reading.StaysAt (c : Cursor) {α : Type} (r : Reading α) : Prop :=
  ∀ ts n, Preserves (Session.Clear ts) (fun s => s.cursor = c ∧ s.cursor.Open ts n) r

/-- A reading that closes one more parenthesis than it opens. -/
def Reading.Closes {α : Type} (r : Reading α) : Prop :=
  ∀ ts n, Triple (Session.Clear ts) (fun s => s.cursor.Open ts (n + 1)) r
    fun _ s => s.cursor.Open ts n

section Rules

variable {α β : Type} {ts : List Token} {n m : Nat} {c : Cursor} {k : TokenKind}

/-! ### Tokens -/

namespace Triple

theorem advance_at (hkind : c.kind.startsItem = false) (hopened : c.kind.opened n = some m) :
    Triple (Session.Clear ts) (fun s => s.cursor = c ∧ s.cursor.Open ts n) Reading.advance
      fun _ s => s.cursor = c.advance ∧ s.cursor.Open ts m := by
  rintro setting s hs ⟨rfl, hopen⟩
  refine ⟨hs.advance hkind, ?_⟩
  rintro span t ⟨⟩
  exact ⟨rfl, hopen.advance hs.eof hkind hopened⟩

theorem advance_of_kind (hk : k.startsItem = false) (hopened : k.opened n = some m) :
    Triple (Session.Clear ts) (fun s => s.cursor.kind = k ∧ s.cursor.Open ts n) Reading.advance
      fun _ s => s.cursor.Open ts m := by
  rintro setting s hs ⟨rfl, hopen⟩
  obtain ⟨hinv, hanswer⟩ := advance_at hk hopened setting s hs ⟨rfl, hopen⟩
  exact ⟨hinv, fun a t ht => (hanswer a t ht).2⟩

theorem accept_opened (hk : k.startsItem = false) (hopened : k.opened n = some m) :
    Triple (Session.Clear ts) (fun s => s.cursor.Open ts n) (Reading.accept k)
      fun found s => s.cursor.Open ts (if found then m else n) := by
  refine (sees_iff k).bind fun seen => .ite (fun hseen => ?_) fun _ => .pure fun s hs => hs.2
  refine ((advance_of_kind hk hopened).mono fun s hs => ⟨hs.1.mp hseen, hs.2⟩).bind fun _ => ?_
  exact .pure fun s hs => hs

theorem expect_opened (hk : k.startsItem = false) (hopened : k.opened n = some m) :
    Triple (Session.Clear ts) (fun s => s.cursor.Open ts n) (Reading.expect k)
      fun _ s => s.cursor.Open ts m := by
  refine (sees_iff k).bind fun seen => .ite (fun hseen => ?_) fun _ => .unexpected _
  exact (advance_of_kind hk hopened).mono fun s hs => ⟨hs.1.mp hseen, hs.2⟩

end Triple

namespace Reading

variable {r : Reading α} {f : α → Reading β}

theorem balances_asks (g : Setting → Session → α) : (asks g).Balances :=
  fun _ _ => Preserves.asks

theorem balances_pure (a : α) : (pure a : Reading α).Balances := balances_asks _

/-! ### Composition -/

namespace Balances

theorem atCursor (h : r.Balances) (c : Cursor) : r.BalancesAt c :=
  fun ts n => (h ts n).mono fun _ hs => hs.2

/-- Nothing that a reading passes begins an item. -/
theorem maintains (h : r.Balances) (ts : List Token) : Maintains (Session.Clear ts) r := by
  intro setting s hs _
  have hclear := (h s.cursor.rest 0 setting s (.start hs.eof) (.start s.cursor)).1
  exact ⟨hs.trans hclear, fun _ _ _ => trivial⟩

theorem bind (h : r.Balances) (hf : ∀ a, (f a).Balances) : (r >>= f).Balances :=
  fun ts n => (h ts n).bind fun a => hf a ts n

theorem map {g : α → β} (h : r.Balances) : (g <$> r).Balances := h.bind fun _ => balances_pure _

theorem ite {p : Prop} [Decidable p] {r' : Reading α} (h : p → r.Balances) (h' : ¬p → r'.Balances) :
    (if p then r else r').Balances :=
  fun ts n => .ite (fun hp => h hp ts n) fun hp => h' hp ts n

theorem within {g : Slot → Slot} (h : r.Balances) : (Reading.within g r).Balances :=
  fun ts n => (h ts n).within

theorem withUsage {usage : Usage} (h : r.Balances) : (Reading.withUsage usage r).Balances := h.within

theorem delimited (h : r.Balances) : (Reading.delimited r).Balances := h.within

theorem cursor {f : Cursor → Reading β} (hf : ∀ c, (f c).BalancesAt c) :
    (Reading.cursor >>= f).Balances :=
  fun ts n => Triple.cursor.bind fun c => hf c ts n

theorem thenCloses (h : r.Balances) (hf : ∀ a, (f a).Closes) : (r >>= f).Closes :=
  fun ts n => Triple.bind (h ts (n + 1)) fun a => hf a ts n

end Balances

namespace BalancesAt

theorem bind (h : r.BalancesAt c) (hf : ∀ a, (f a).Balances) : (r >>= f).BalancesAt c :=
  fun ts n => (h ts n).bind fun a => hf a ts n

theorem map {g : α → β} (h : r.BalancesAt c) : (g <$> r).BalancesAt c :=
  h.bind fun _ => balances_pure _

theorem ite {p : Prop} [Decidable p] {r' : Reading α} (h : p → r.BalancesAt c)
    (h' : ¬p → r'.BalancesAt c) : (if p then r else r').BalancesAt c :=
  fun ts n => .ite (fun hp => h hp ts n) fun hp => h' hp ts n

theorem stay (h : r.StaysAt c) (hf : ∀ a, (f a).BalancesAt c) : (r >>= f).BalancesAt c :=
  fun ts n => Triple.bind (h ts n) fun a => hf a ts n

theorem ask {g : Setting → Session → α} (h : ∀ a, (f a).BalancesAt c) :
    (asks g >>= f).BalancesAt c :=
  stay (fun _ _ => Preserves.asks) h

theorem cursor {f : Cursor → Reading β} (h : (f c).BalancesAt c) :
    (Reading.cursor >>= f).BalancesAt c := by
  rintro ts n setting s hs ⟨rfl, hopen⟩
  exact h ts n setting s hs ⟨rfl, hopen⟩

theorem advance {f : Span → Reading β} (hc : c.kind = k) (hk : k.isPlain = true)
    (hf : ∀ span, (f span).Balances) : (Reading.advance >>= f).BalancesAt c := by
  subst hc
  exact fun ts n => (Triple.advance_at (TokenKind.startsItem_of_isPlain hk)
    (TokenKind.opened_of_isPlain hk)).bind fun span => (hf span).atCursor _ ts n

/-- Goes on with what stands second in front of the cursor. -/
theorem advanceAt {f : Span → Reading β} (hc : c.kind = k) (hk : k.isPlain = true)
    (hf : ∀ span, (∀ i, c.advance.kindAt i = c.kindAt (i + 1)) → (f span).BalancesAt c.advance) : (Reading.advance >>= f).BalancesAt c := by
  subst hc
  rintro ts n setting s hs ⟨rfl, hopen⟩
  have hkind := TokenKind.startsItem_of_isPlain hk
  have hnext := Cursor.kindAt_advance (Cursor.rest_ne_nil hs.eof hkind)
  have hadvance : Triple (Session.Clear ts) _ Reading.advance _ :=
    .advance_at hkind (TokenKind.opened_of_isPlain (n := n) hk)
  exact (hadvance.bind fun span => hf span hnext ts n) setting s hs ⟨rfl, hopen⟩

/-- Behind an opening parenthesis it is closed. -/
theorem opens {f : Span → Reading β} (hc : c.kind = .mark .leftParen)
    (hf : ∀ span, (f span).Closes) : (Reading.advance >>= f).BalancesAt c := by
  intro ts n
  have hadvance : Triple (Session.Clear ts) (fun s => s.cursor = c ∧ s.cursor.Open ts n)
      Reading.advance fun _ s => s.cursor = c.advance ∧ s.cursor.Open ts (n + 1) :=
    .advance_at (by rw [hc]; rfl) (by rw [hc]; rfl)
  exact hadvance.bind fun span => (hf span ts n).mono fun _ hs => hs.2

end BalancesAt

namespace Closes

theorem ite {p : Prop} [Decidable p] {r' : Reading α} (h : p → r.Closes) (h' : ¬p → r'.Closes) :
    (if p then r else r').Closes :=
  fun ts n => .ite (fun hp => h hp ts n) fun hp => h' hp ts n

theorem within {g : Slot → Slot} (h : r.Closes) : (Reading.within g r).Closes :=
  fun ts n => (h ts n).within

theorem bind (h : r.Closes) (hf : ∀ a, (f a).Balances) : (r >>= f).Closes :=
  fun ts n => (h ts n).bind fun a => hf a ts n

theorem expect {f : Span → Reading β} (hf : ∀ span, (f span).Balances) :
    (Reading.expect (.mark .rightParen) >>= f).Closes :=
  fun ts n => (Triple.expect_opened rfl rfl).bind fun span => hf span ts n

theorem accept {f : Bool → Reading β} (hyes : (f true).Balances) (hno : (f false).Closes) :
    (Reading.accept (.mark .rightParen) >>= f).Closes := by
  intro ts n
  refine (Triple.accept_opened rfl rfl).bind fun found => ?_
  cases found with
  | true => exact hyes ts n
  | false => exact hno ts n

end Closes

/-! ### Tokens that are no parentheses -/

theorem balances_accept (hk : k.isPlain = true) : (accept k).Balances := by
  intro ts n
  refine (Triple.accept_opened (TokenKind.startsItem_of_isPlain hk)
    (TokenKind.opened_of_isPlain hk)).weaken (fun _ hs => hs) fun found s hs => ?_
  cases found <;> exact hs

theorem balances_expect (hk : k.isPlain = true) : (expect k).Balances :=
  fun _ _ => .expect_opened (TokenKind.startsItem_of_isPlain hk) (TokenKind.opened_of_isPlain hk)

theorem balances_unexpected (what : String) : (unexpected what : Reading α).Balances :=
  fun _ _ => .unexpected what

theorem balances_require (condition : Bool) (what : String) : (require condition what).Balances :=
  .ite (fun _ => balances_pure _) fun _ => balances_unexpected what

theorem balances_identifier : identifier.Balances :=
  .cursor fun _ => .ite (fun hc => .advance hc rfl fun _ => balances_pure _) fun _ =>
    (balances_unexpected _).atCursor _

theorem balances_kind {f : TokenKind → Reading β}
    (hf : ∀ c : Cursor, (f c.kind).BalancesAt c) : (kind >>= f).Balances :=
  .cursor fun c => hf c

theorem balances_halve : (halve : Reading Unit).Balances := by
  intro ts n setting s hs hopen
  refine ⟨⟨hs.passed, hs.eof⟩, ?_⟩
  rintro _ t ⟨⟩
  exact hopen

theorem balances_closeAngle : closeAngle.Balances := by
  refine balances_kind fun c => ?_
  split
  · exact .advance ‹_› rfl fun _ => balances_pure _
  · exact balances_halve.atCursor c
  · exact (balances_unexpected _).atCursor c

theorem balances_sees (k : TokenKind) : (sees k).Balances := fun _ _ => Preserves.sees k

/-! ### Nodes -/

theorem balances_addTerm (term : Term TermId PatternId) (span : Span) :
    (addTerm term span).Balances := by
  intro ts n setting s hs hopen
  refine ⟨⟨hs.passed, hs.eof⟩, ?_⟩
  rintro id t ⟨⟩
  exact hopen

theorem balances_addPattern (pattern : Pattern PatternId) (span : Span) :
    (addPattern pattern span).Balances := by
  intro ts n setting s hs hopen
  refine ⟨⟨hs.passed, hs.eof⟩, ?_⟩
  rintro id t ⟨⟩
  exact hopen

theorem balances_widen (id : TermId) (span : Span) : (widen id span).Balances := by
  intro ts n setting s hs hopen
  refine ⟨⟨hs.passed, hs.eof⟩, ?_⟩
  rintro _ t ⟨⟩
  exact hopen

theorem balances_here : here.Balances := (balances_asks _).bind fun _ => balances_pure _

theorem staysAt_here : here.StaysAt c := fun _ _ => Preserves.bind Preserves.asks fun _ => Preserves.pure

theorem balances_since (start : Span) : (since start).Balances :=
  (balances_asks _).bind fun _ => balances_pure _

theorem balances_close (start : Span) (term : Term TermId PatternId) :
    (close start term).Balances :=
  (balances_since start).bind fun _ => balances_addTerm _ _

theorem balances_closePattern (start : Span) (pattern : Pattern PatternId) :
    (closePattern start pattern).Balances :=
  (balances_since start).bind fun _ => balances_addPattern _ _

theorem balances_spanOf (id : TermId) : (spanOf id).Balances := balances_asks fun _ s => s.tree.span id

theorem balances_bareName (id : TermId) : (bareName id).Balances :=
  balances_asks fun _ s => s.tree.isBareName id

/-! ### Loops and attempts -/

theorem balances_loop {step : α → Reading (Round α)} (h : ∀ a, (step a).Balances) (a : α) :
    (loop step a).Balances :=
  fun ts n => Preserves.loop (fun a => h a ts n) a

theorem balances_collectWhile {more : Reading Bool} (hmore : more.Balances) (h : r.Balances) :
    (collectWhile more r).Balances :=
  fun ts n => Preserves.collectWhile (hmore ts n) (h ts n)

theorem balances_collectThrough {more : Reading Bool} (h : r.Balances) (hmore : more.Balances) :
    (collectThrough r more).Balances :=
  fun ts n => Preserves.collectThrough (h ts n) (hmore ts n)

theorem balances_oneUpTo (stop : TokenKind) (h : r.Balances) : (oneUpTo stop r).Balances :=
  fun ts n => Preserves.oneUpTo stop (h ts n)

theorem balances_commaList (h : r.Balances) : (commaList r).Balances :=
  fun ts n => Preserves.commaList (h ts n) (balances_accept rfl ts n)

theorem balances_separated (bracket : TokenKind) (h : r.Balances) :
    (separated bracket r).Balances :=
  fun ts n => Preserves.separated bracket (h ts n) (balances_accept rfl ts n)

theorem balancesAt_attempt {r : Reading (Option α)} (what : Attempt) (h : r.BalancesAt c) :
    (attempt what r).BalancesAt c := by
  intro ts n
  refine .attempt_of what ((h ts n).weaken (fun _ hs => hs) fun _ _ hs _ _ => hs)
    fun s t hs _ hplace => ?_
  rw [hplace]
  exact hs.2

theorem staysAt_succeeds {r : Reading α} (h : r.Balances) : (succeeds r).StaysAt c := by
  intro ts n
  refine .succeeds (fun s t _ hplace hs => ?_) (h.atCursor c ts n).forget
  rwa [hplace]

end Reading

end Rules

end BendSyntax
