import BendSyntax.Proofs.Chain.Sessions
import BendSyntax.Proofs.Plain.Following

/-! Rules for following parsers. What a reading does at a session is compared with what a parser
does on the pieces that are left there: step by step, round by round, and through attempts, of which
only those are passed over that would fail. -/

namespace BendSyntax

open Reading Pieces
open Reading (Round)

namespace Plain

variable {α β γ δ : Type} {x : Source} {setting : Setting} {s t u : Session}

/-! ## Cursors and sessions -/

namespace Source

theorem Faces.advance {c : Cursor} (h : x.Faces c) (hkind : c.kind ≠ .eof) : x.Faces c.advance := by
  have hrest := h.rest_ne_nil hkind
  obtain ⟨t, ts, hts⟩ := List.exists_cons_of_ne_nil hrest
  have hadvance : c.advance = ⟨ts, c.eof, c.index + 1, false, c.span⟩ := by
    simp [Cursor.advance, hts]
  have hdrop : x.tokens.drop c.index = t :: ts := h.rest.symm.trans hts
  refine ⟨h.toOrderly.advance, ?_, ?_, ?_, ?_⟩
  · rw [hadvance]
    exact h.eof
  · rw [hadvance, ← List.drop_drop, hdrop]
    rfl
  · intro _ u hu
    obtain rfl : t = u := by
      have hget : x.tokens[c.index]? = some t := by
        rw [← List.head?_drop, hdrop]
        rfl
      rw [hadvance] at hu
      exact Option.some.inj (hget.symm.trans hu)
    rw [Cursor.last_advance, Cursor.stop_span, Cursor.token_of_cons hts]
  · rw [hadvance]
    intro hsplit
    cases hsplit

theorem Faces.halve {c : Cursor} (h : x.Faces c) (hkind : c.kind = .mark .shiftRight) :
    x.Faces c.halve where
  toOrderly := h.toOrderly.halve hkind
  eof := h.eof
  rest := h.rest
  whole hsplit := by cases hsplit
  half _ := rfl

theorem Fresh.of_kind {c : Cursor} (h : c.kind ≠ .mark .minus) : x.Fresh c := fun hkind => absurd hkind h

/-- Behind what does not end an operand, a sign is the sign of a number. -/
theorem Fresh.advance {c : Cursor} (h : x.Faces c) (hkind : c.kind ≠ .eof)
    (hends : c.kind.endsOperand = false) : x.Fresh c.advance := by
  obtain ⟨t, ts, hts⟩ := List.exists_cons_of_ne_nil (h.rest_ne_nil hkind)
  intro _ u hu
  have hadvance : c.advance.index = c.index + 1 := by simp [Cursor.advance, hts]
  rw [hadvance] at hu
  have hget : x.tokens[c.index]? = some t := by
    rw [← List.head?_drop, ← h.rest, hts]
    rfl
  obtain rfl : t = u := Option.some.inj (hget.symm.trans hu)
  cases hsplit : c.split with
  | true =>
      have hshift := h.split hsplit
      rw [Cursor.token_of_cons hts] at hshift
      rw [hshift]
      rfl
  | false => rwa [Cursor.kind_of_not_split hsplit, Cursor.token_of_cons hts] at hends

/-- The kind of the next token, if it is not the end. -/
theorem Faces.isElementary {c : Cursor} (h : x.Faces c) (hkind : c.kind ≠ .eof) :
    c.kind.isElementary = true := by
  obtain ⟨t, ts, hts⟩ := List.exists_cons_of_ne_nil (h.rest_ne_nil hkind)
  have hmem : t ∈ x.tokens := by
    refine List.mem_of_mem_drop (i := c.index) ?_
    rw [← h.rest, hts]
    exact List.mem_cons_self ..
  unfold Cursor.kind
  split
  · rfl
  · rw [Cursor.token_of_cons hts]
    exact x.plain t hmem

/-- A name at a cursor takes the room of its text. -/
theorem Faces.length_of_ident {c : Cursor} (h : x.Faces c) (hkind : c.kind = .ident) :
    c.span.length = c.lexeme.utf8ByteSize := by
  obtain ⟨t, ts, hts, hsplit, -⟩ := h.pieces_of_isWhole (by rw [hkind]; rfl)
  have hmem : t ∈ x.tokens := by
    refine List.mem_of_mem_drop (i := c.index) ?_
    rw [← h.rest, hts]
    exact List.mem_cons_self ..
  rw [Cursor.kind_of_not_split hsplit, Cursor.token_of_cons hts] at hkind
  have hspan : c.span = t.span := by simp [Cursor.span, hsplit, Cursor.token_of_cons hts]
  rw [hspan, Cursor.lexeme, Cursor.token_of_cons hts]
  exact x.named t hmem hkind

/-- In front of a token that is one piece no half has been read. -/
theorem Faces.outside {c : Cursor} (h : x.Faces c) (hwhole : isWhole c.kind = true) :
    c.split = false := by
  obtain ⟨-, -, -, hsplit, -⟩ := h.pieces_of_isWhole hwhole
  exact hsplit

/-- Where a cursor does not stand inside of a token, it has the pieces of the tokens that are
left. -/
theorem Faces.pieces {c : Cursor} (h : x.Faces c) (hsplit : c.split = false) :
    c.pieces = x.piecesFrom c.index := by
  rw [Cursor.pieces_of_not_split hsplit, h.rest]
  rfl

theorem Sound.next (h : x.Sound s) (hkind : s.cursor.kind ≠ .eof) : x.Sound s.next :=
  ⟨h.faces.advance hkind, h.failures, h.patterns, h.diagnostics⟩

theorem Follows.next (h : x.Follows s) (hkind : s.cursor.kind ≠ .eof) : x.Follows s.next :=
  ⟨h.toSound.next hkind, h.reads⟩

end Source

theorem leads_next (h : x.Sound s) : s.Leads s.next :=
  ⟨.refl _, h.faces.before_advance, .advance _⟩

/-! ## Following a parser -/

/-- Where a reading came to nothing, the parser fails, and no attempt that might succeed is
remembered as a failure. -/
structure Declines (x : Source) (s t : Session) (answer : Option (β × List Piece)) : Prop where
  tree : s.tree.Prefix t.tree
  failures : ∀ f ∈ t.failures, x.Vain f
  answer : answer = none

/-- An outcome with an answer leaves the pieces that the parser leaves; an error means that the
parser fails, unless it is fatal. -/
def Mirrors (x : Source) (s : Session) (o : Outcome α) (answer : Option (β × List Piece))
    (Q : α → β → Session → Prop) : Prop :=
  match o with
  | .ok a t => s.Leads t ∧ ∃ b, answer = some (b, t.cursor.pieces) ∧ Q a b t
  | .error e t => e.isFatal = false → Declines x s t answer

/-- At a session a reading does what a parser does. -/
def Simulates (x : Source) (setting : Setting) (s : Session) (r : Reading α) (p : Parser β)
    (Q : α → β → Session → Prop) : Prop :=
  Mirrors x s (r.run setting s) (p.run s.cursor.pieces) Q

/-- At a session a reading does what a parser does; it declines where the parser fails. -/
def Tries (x : Source) (setting : Setting) (s : Session) (r : Reading (Option α)) (p : Parser β)
    (Q : α → β → Session → Prop) : Prop :=
  match r.run setting s with
  | .ok (some a) t => s.Leads t ∧ ∃ b, p.run s.cursor.pieces = some (b, t.cursor.pieces) ∧ Q a b t
  | .ok none t => Declines x s t (p.run s.cursor.pieces)
  | .error e t => e.isFatal = false → Declines x s t (p.run s.cursor.pieces)

theorem Declines.bind {p : Parser β} {ps : List Piece} (h : Declines x s t (p.run ps))
    (g : β → Parser δ) : Declines x s t ((p >>= g).run ps) :=
  ⟨h.tree, h.failures, by rw [Parser.run_bind, h.answer]; rfl⟩

theorem Declines.behind {p : Parser β} {g : β → Parser δ} {b : β} {ps qs : List Piece}
    (hst : s.Leads t) (hp : p.run ps = some (b, qs)) (h : Declines x t u ((g b).run qs)) :
    Declines x s u ((p >>= g).run ps) :=
  ⟨hst.tree.trans h.tree, h.failures, by rw [Parser.run_bind, hp]; exact h.answer⟩

namespace Simulates

variable {r : Reading α} {f : α → Reading γ} {p : Parser β} {g : β → Parser δ}
  {Q : α → β → Session → Prop} {R : γ → δ → Session → Prop}

/-- A reading that does what another one does. -/
theorem congr {o : Reading α} {q : Parser β} (hr : r.run setting s = o.run setting s)
    (hp : p.run s.cursor.pieces = q.run s.cursor.pieces) (h : Simulates x setting s o q Q) :
    Simulates x setting s r p Q := by
  unfold Simulates
  rw [hr, hp]
  exact h

theorem pure {a : α} {b : β} (h : Q a b s) :
    Simulates x setting s (Pure.pure a) (Pure.pure b) Q :=
  ⟨.refl s, b, rfl, h⟩

theorem weaken {T : α → β → Session → Prop} (h : Simulates x setting s r p Q)
    (hQ : ∀ a b t, s.Leads t → p.run s.cursor.pieces = some (b, t.cursor.pieces) → Q a b t →
      T a b t) : Simulates x setting s r p T := by
  unfold Simulates Mirrors at *
  split at h
  · obtain ⟨hleads, b, hb, hab⟩ := h
    exact ⟨hleads, b, hb, hQ _ b _ hleads hb hab⟩
  · exact h

theorem bind (h : Simulates x setting s r p Q)
    (hf : ∀ a b t, s.Leads t → Q a b t → Simulates x setting t (f a) (g b) R) :
    Simulates x setting s (r >>= f) (p >>= g) R := by
  unfold Simulates Mirrors at h
  cases hr : r.run setting s with
  | error e t =>
      rw [hr] at h
      simp only [Simulates, run_bind, hr, Outcome.andThen_error]
      exact fun he => (h he).bind g
  | ok a t =>
      rw [hr] at h
      obtain ⟨hleads, b, hb, hab⟩ := h
      have hnext := hf a b t hleads hab
      simp only [Simulates, run_bind, hr, Outcome.andThen_ok]
      unfold Simulates at hnext
      cases hu : (f a).run setting t with
      | error e u =>
          rw [hu] at hnext
          exact fun he => (hnext he).behind hleads hb
      | ok c u =>
          rw [hu] at hnext
          obtain ⟨hleads', d, hd, hcd⟩ := hnext
          refine ⟨hleads.trans hleads', d, ?_, hcd⟩
          rw [Parser.run_bind, hb]
          exact hd

theorem map {F : α → γ} {G : β → δ} (h : Simulates x setting s r p fun a b => R (F a) (G b)) :
    Simulates x setting s (F <$> r) (G <$> p) R :=
  h.bind fun _ _ _ _ hab => .pure hab

/-- A reading of which the answer is put in another form. -/
theorem pure_left {F : α → γ} {R : γ → β → Session → Prop}
    (h : Simulates x setting s r p fun a b => R (F a) b) :
    Simulates x setting s (r >>= fun a => Pure.pure (F a)) p R := by
  unfold Simulates Mirrors at *
  rw [run_bind]
  cases hr : r.run setting s with
  | ok a t =>
      rw [hr] at h
      exact h
  | error e t =>
      rw [hr] at h
      exact h

/-- What is done with an answer of which the parser makes nothing more. -/
theorem bind_left {R : γ → β → Session → Prop} (h : Simulates x setting s r p Q)
    (hf : ∀ a b t, s.Leads t → Q a b t → Simulates x setting t (f a) (Pure.pure b) R) :
    Simulates x setting s (r >>= f) p R := by
  refine congr (q := p >>= Pure.pure) rfl ?_ (h.bind hf)
  rw [Parser.run_bind]
  cases p.run s.cursor.pieces <;> rfl

theorem pure_right {G : β → δ} {R : α → δ → Session → Prop}
    (h : Simulates x setting s r p fun a b => R a (G b)) :
    Simulates x setting s r (p >>= fun b => Pure.pure (G b)) R := by
  unfold Simulates Mirrors at *
  cases hr : r.run setting s with
  | ok a t =>
      rw [hr] at h
      obtain ⟨hleads, b, hb, hab⟩ := h
      exact ⟨hleads, G b, by rw [Parser.run_bind, hb]; rfl, hab⟩
  | error e t =>
      rw [hr] at h
      exact fun he => (h he).bind _

/-- A question changes nothing. -/
theorem asks_left {g : Setting → Session → γ} {f : γ → Reading α}
    (h : Simulates x setting s (f (g setting s)) p Q) :
    Simulates x setting s (Reading.asks g >>= f) p Q := h

theorem cursor {f : Cursor → Reading α} (h : Simulates x setting s (f s.cursor) p Q) :
    Simulates x setting s (Reading.cursor >>= f) p Q := h

theorem slot {f : Slot → Reading α} (h : Simulates x setting s (f setting.slot) p Q) :
    Simulates x setting s (Reading.slot >>= f) p Q := h

theorem kind_left {f : TokenKind → Reading α} (h : Simulates x setting s (f s.cursor.kind) p Q) :
    Simulates x setting s (Reading.kind >>= f) p Q := h

theorem here {f : Span → Reading α} (h : Simulates x setting s (f s.cursor.span) p Q) :
    Simulates x setting s (Reading.here >>= f) p Q := h

theorem bareName {id : TermId} {f : Bool → Reading α}
    (h : Simulates x setting s (f (s.tree.isBareName id)) p Q) :
    Simulates x setting s (Reading.bareName id >>= f) p Q := h

theorem asks_right {k : List Piece → δ} {g : δ → Parser β}
    (h : Simulates x setting s r (g (k s.cursor.pieces)) Q) :
    Simulates x setting s r (Parser.asks k >>= g) Q := h

theorem sees {k : TokenKind} {f : Bool → Reading α} {g : Bool → Parser β} (hs : x.Sound s)
    (h : Simulates x setting s (f (decide (s.cursor.kind = k))) (g (decide (s.cursor.kind = k))) Q) :
    Simulates x setting s (Reading.sees k >>= f) (Parser.sees k >>= g) Q := by
  refine asks_right (g := g) ?_
  rw [hs.faces.kind_pieces]
  exact h

theorem looks {k : List Piece → Bool} {g : Bool → Parser β}
    (h : Simulates x setting s r (g (k s.cursor.pieces)) Q) :
    Simulates x setting s r (Parser.looks k >>= g) Q := h

theorem kind_right {g : TokenKind → Parser β}
    (h : Simulates x setting s r (g (Pieces.kind s.cursor.pieces)) Q) :
    Simulates x setting s r (Parser.kind >>= g) Q := h

theorem fail {e : SyntaxError} (hs : x.Sound s) (hp : p.run s.cursor.pieces = none) :
    Simulates x setting s (Reading.fail e) p Q :=
  fun _ => ⟨.refl _, hs.failures, hp⟩

theorem unexpected {what : String} (hs : x.Sound s) (hp : p.run s.cursor.pieces = none) :
    Simulates x setting s (Reading.unexpected what) p Q :=
  fun _ => ⟨.refl _, hs.failures, hp⟩

theorem ite {c c' : Prop} [Decidable c] [Decidable c'] {r' : Reading α} {p' : Parser β}
    (hc : c ↔ c') (h : c → Simulates x setting s r p Q) (h' : ¬c → Simulates x setting s r' p' Q) :
    Simulates x setting s (if c then r else r') (if c' then p else p') Q := by
  by_cases hyes : c
  · rw [if_pos hyes, if_pos (hc.mp hyes)]
    exact h hyes
  · rw [if_neg hyes, if_neg (mt hc.mpr hyes)]
    exact h' hyes

theorem within {change : Slot → Slot}
    (h : Simulates x { setting with slot := change setting.slot } s r p Q) :
    Simulates x setting s (Reading.within change r) p Q := h

/-- The end of the text is no token. -/
theorem advance (hs : x.Sound s) (hkind : s.cursor.kind ≠ .eof) :
    Simulates x setting s Reading.advance Parser.advance fun span _ t =>
      span = s.cursor.span ∧ t = s.next :=
  ⟨leads_next hs, (), hs.faces.run_advance hkind, rfl, rfl⟩

theorem expect {k : TokenKind} (hs : x.Sound s) (hwhole : isWhole k = true) :
    Simulates x setting s (Reading.expect k) (Parser.expect k) fun span _ t =>
      s.cursor.kind = k ∧ span = s.cursor.span ∧ t = s.next := by
  refine congr (o := if s.cursor.kind = k then Reading.advance else Reading.unexpected s!"`{k.name}`")
    (q := if Pieces.kind s.cursor.pieces = k then Parser.advance else Parser.fail) ?_ ?_
    (.ite (by rw [hs.faces.kind_pieces]) (fun hkind => ?_) fun _ => .unexpected hs rfl)
  · simp only [Reading.expect, Reading.sees, Reading.kind, Reading.cursor, Reading.asks, run_bind,
      Outcome.andThen_ok, run_pure, decide_eq_true_eq]
  · simp only [Parser.expect, Parser.sees, Parser.looks, Parser.run_bind, Parser.run_asks,
      Option.bind_some, decide_eq_true_eq]
  · refine (advance hs ?_).weaken fun _ _ _ _ _ h => ⟨hkind, h⟩
    rintro heof
    rw [← hkind, heof] at hwhole
    cases hwhole

theorem accept {k : TokenKind} (hs : x.Sound s) (hwhole : isWhole k = true) :
    Simulates x setting s (Reading.accept k) (Parser.accept k) fun a b t =>
      a = b ∧ (a = true → s.cursor.kind = k ∧ t = s.next) ∧ (a = false → s.cursor.kind ≠ k ∧ t = s) := by
  refine congr
    (o := if s.cursor.kind = k then (do let _ ← Reading.advance; return true) else return false)
    (q := if Pieces.kind s.cursor.pieces = k then (do Parser.advance; return true) else return false)
    ?_ ?_ (.ite (by rw [hs.faces.kind_pieces]) (fun hkind => ?_) fun hkind => .pure ?_)
  · simp only [Reading.accept, Reading.sees, Reading.kind, Reading.cursor, Reading.asks, run_bind,
      Outcome.andThen_ok, run_pure, decide_eq_true_eq]
  · simp only [Parser.accept, Parser.sees, Parser.looks, Parser.run_bind, Parser.run_asks,
      Option.bind_some, decide_eq_true_eq]
  · refine (advance hs ?_).bind fun _ _ t _ ht => .pure ⟨rfl, fun _ => ⟨hkind, ht.2⟩, fun h => (by cases h)⟩
    rintro heof
    rw [← hkind, heof] at hwhole
    cases hwhole
  · exact ⟨rfl, fun h => (by cases h), fun _ => ⟨hkind, rfl⟩⟩

theorem closeAngle (hs : x.Sound s) :
    Simulates x setting s Reading.closeAngle Parser.closeAngle fun _ _ t =>
      x.Faces t.cursor ∧ t = { s with cursor := t.cursor } := by
  refine kind_left ?_
  split
  · rename_i hkind
    refine ⟨leads_next hs, (), ?_, hs.faces.advance (by simp [hkind]), rfl⟩
    exact hs.faces.run_closeAngle_advance hkind
  · rename_i hkind
    refine ⟨⟨.refl _, hs.faces.before_halve hkind, .halve _⟩, (), ?_, hs.faces.halve hkind, rfl⟩
    exact hs.faces.run_closeAngle_halve hkind
  · refine .unexpected hs (if_neg ?_)
    rw [hs.faces.kind_pieces]
    rintro (h | h) <;> contradiction

/-! ## Loops -/

section Loops

/-- What a round of a reading and a round of a parser come to. -/
def Meets {α β : Type} (I D : α → β → Session → Prop) : Round α → Round β → Session → Prop
  | .more a, .more b, s => I a b s
  | .done a, .done b, s => D a b s
  | _, _, _ => False

variable {I D : α → β → Session → Prop} {step : α → Reading (Round α)}
  {step' : β → Parser (Round β)}

/-- What every round hands on to the next one holds in the end. -/
theorem loop (hstep : ∀ a b s, I a b s → Simulates x setting s (step a) (step' b) (Meets I D))
    (hahead : ∀ a b s, I a b s → s.cursor.Ahead) (hdone : ∀ a b s, I a b s → D a b s)
    {a : α} {b : β} (h : I a b s) :
    Simulates x setting s (Reading.loop step a) (Parser.loop step' b) D := by
  change Mirrors x s (runLoop step setting a s) ((Parser.loop step' b).run s.cursor.pieces) D
  fun_induction runLoop generalizing b with
  | case1 a s c now hnow =>
      have hround := hstep a b s h
      unfold Simulates at hround
      rw [hnow] at hround
      obtain ⟨hleads, round, hb, hmeets⟩ := hround
      cases round with
      | more d => exact hmeets.elim
      | done d => exact ⟨hleads, d, Parser.run_loop_done hb, hmeets⟩
  | case2 a s c now hnow hlt ih =>
      have hround := hstep a b s h
      unfold Simulates at hround
      rw [hnow] at hround
      obtain ⟨hleads, round, hb, hmeets⟩ := hround
      cases round with
      | done d => exact hmeets.elim
      | more d =>
          have hless := ((hahead a b s h).pieces_length_lt_iff hleads.reaches
            (hahead c d now hmeets)).mpr hlt
          rw [Parser.run_loop_more hb hless]
          have hrest := ih hmeets
          cases hend : runLoop step setting c now with
          | error e u =>
              rw [hend] at hrest
              exact fun he => ⟨hleads.tree.trans (hrest he).tree, (hrest he).failures,
                (hrest he).answer⟩
          | ok c u =>
              rw [hend] at hrest
              exact ⟨hleads.trans hrest.1, hrest.2⟩
  | case3 a s c now hnow hge =>
      have hround := hstep a b s h
      unfold Simulates at hround
      rw [hnow] at hround
      obtain ⟨hleads, round, hb, hmeets⟩ := hround
      cases round with
      | done d => exact hmeets.elim
      | more d =>
          have hless := mt ((hahead a b s h).pieces_length_lt_iff hleads.reaches
            (hahead c d now hmeets)).mp hge
          refine ⟨hleads, d, ?_, hdone _ _ _ hmeets⟩
          rw [Parser.run_loop, hb]
          exact if_neg hless
  | case4 a s e now hnow =>
      have hround := hstep a b s h
      unfold Simulates at hround
      rw [hnow] at hround
      refine fun he => ⟨(hround he).tree, (hround he).failures, ?_⟩
      rw [Parser.run_loop, (hround he).answer]

end Loops

end Simulates

/-! ## Attempts -/

section Attempts

variable {r : Reading (Option α)} {p : Parser β} {Q : α → β → Session → Prop}

theorem Tries.bind {r : Reading γ} {f : γ → Reading (Option α)} {p : Parser δ} {g : δ → Parser β}
    {R : γ → δ → Session → Prop} (h : Simulates x setting s r p R)
    (hf : ∀ a b t, s.Leads t → R a b t → Tries x setting t (f a) (g b) Q) :
    Tries x setting s (r >>= f) (p >>= g) Q := by
  unfold Simulates Mirrors at h
  cases hr : r.run setting s with
  | error e t =>
      rw [hr] at h
      simp only [Tries, run_bind, hr, Outcome.andThen_error]
      exact fun he => (h he).bind g
  | ok a t =>
      rw [hr] at h
      obtain ⟨hleads, b, hb, hab⟩ := h
      have hnext := hf a b t hleads hab
      simp only [Tries, run_bind, hr, Outcome.andThen_ok]
      unfold Tries at hnext
      cases hu : (f a).run setting t with
      | error e u =>
          rw [hu] at hnext
          exact fun he => (hnext he).behind hleads hb
      | ok c u =>
          rw [hu] at hnext
          cases c with
          | none => exact hnext.behind hleads hb
          | some c =>
              obtain ⟨hleads', d, hd, hcd⟩ := hnext
              refine ⟨hleads.trans hleads', d, ?_, hcd⟩
              rw [Parser.run_bind, hb]
              exact hd

theorem Tries.pure {a : α} {b : β} (h : Q a b s) :
    Tries x setting s (Pure.pure (some a)) (Pure.pure b) Q :=
  ⟨.refl s, b, rfl, h⟩

theorem Tries.declines (hs : x.Sound s) (hp : p.run s.cursor.pieces = none) :
    Tries x setting s (Pure.pure none) p Q :=
  ⟨.refl _, hs.failures, hp⟩

theorem Tries.cursor {f : Cursor → Reading (Option α)} (h : Tries x setting s (f s.cursor) p Q) :
    Tries x setting s (Reading.cursor >>= f) p Q := h

theorem Tries.slot {f : Slot → Reading (Option α)} (h : Tries x setting s (f setting.slot) p Q) :
    Tries x setting s (Reading.slot >>= f) p Q := h

theorem Tries.within {change : Slot → Slot}
    (h : Tries x { setting with slot := change setting.slot } s r p Q) :
    Tries x setting s (Reading.within change r) p Q := h

theorem Tries.congr {q : Parser β} (hp : p.run s.cursor.pieces = q.run s.cursor.pieces)
    (h : Tries x setting s r q Q) : Tries x setting s r p Q := by
  unfold Tries
  rw [hp]
  exact h

/-- Goes on with what did not decline. -/
theorem Tries.kind {f : TokenKind → Reading (Option α)} {g : TokenKind → Parser β} (hs : x.Sound s)
    (h : Tries x setting s (f s.cursor.kind) (g s.cursor.kind) Q) :
    Tries x setting s (Reading.kind >>= f) (Parser.kind >>= g) Q := by
  have hkind : (Parser.kind >>= g).run s.cursor.pieces = (g s.cursor.kind).run s.cursor.pieces := by
    rw [Parser.kind, Parser.run_asks_bind, hs.faces.kind_pieces]
  unfold Tries
  rw [hkind]
  exact h

theorem Tries.behind {r : Reading (Option γ)} {f : Option γ → Reading (Option α)} {p : Parser δ}
    {g : δ → Parser β} {R : γ → δ → Session → Prop} (h : Tries x setting s r p R)
    (hnone : f none = Pure.pure none)
    (hf : ∀ a b t, s.Leads t → R a b t → Tries x setting t (f (some a)) (g b) Q) :
    Tries x setting s (r >>= f) (p >>= g) Q := by
  unfold Tries at h
  cases hr : r.run setting s with
  | error e t =>
      rw [hr] at h
      simp only [Tries, run_bind, hr, Outcome.andThen_error]
      exact fun he => (h he).bind g
  | ok a t =>
      rw [hr] at h
      simp only [Tries, run_bind, hr, Outcome.andThen_ok]
      cases a with
      | none =>
          rw [hnone]
          exact Declines.bind h g
      | some a =>
          obtain ⟨hleads, b, hb, hab⟩ := h
          have hnext := hf a b t hleads hab
          unfold Tries at hnext
          cases hu : (f (some a)).run setting t with
          | error e u =>
              rw [hu] at hnext
              exact fun he => (hnext he).behind hleads hb
          | ok c u =>
              rw [hu] at hnext
              cases c with
              | none => exact hnext.behind hleads hb
              | some c =>
                  obtain ⟨hleads', d, hd, hcd⟩ := hnext
                  refine ⟨hleads.trans hleads', d, ?_, hcd⟩
                  rw [Parser.run_bind, hb]
                  exact hd

/-- What is only taken if a token follows is declined where another one does. -/
theorem Tries.accept {k : TokenKind} {f : Reading (Option α)} {g : Parser β} (hs : x.Sound s)
    (hwhole : isWhole k = true) (h : s.cursor.kind = k → Tries x setting s.next f g Q) :
    Tries x setting s (do if ← Reading.accept k then f else return none)
      (do Parser.expect k; g) Q := by
  have hexpect : (Parser.expect k).run s.cursor.pieces =
      if s.cursor.kind = k then Parser.advance.run s.cursor.pieces else none := by
    rw [← hs.faces.kind_pieces]
    simp only [Parser.expect, Parser.sees, Parser.looks, Parser.run_bind, Parser.run_asks,
      Option.bind_some, decide_eq_true_eq]
    split <;> rfl
  by_cases hkind : s.cursor.kind = k
  · have hne : s.cursor.kind ≠ .eof := by
      rintro heof
      rw [← hkind, heof] at hwhole
      cases hwhole
    have haccept : (Reading.accept k).run setting s = .ok true s.next := by
      simp [Reading.accept, Reading.sees, Reading.kind, Reading.cursor, Reading.asks, run_bind,
        run_pure, hkind, Reading.advance, Session.next]
    rw [if_pos hkind, hs.faces.run_advance hne] at hexpect
    have hnext := h hkind
    unfold Tries at hnext ⊢
    rw [run_bind, haccept, Parser.run_bind, hexpect]
    simp only [Outcome.andThen_ok, if_true, Option.bind_some]
    cases hf : f.run setting s.next with
    | error e t =>
        rw [hf] at hnext
        exact fun he => ⟨(hnext he).tree, (hnext he).failures, (hnext he).answer⟩
    | ok a t =>
        rw [hf] at hnext
        cases a with
        | none => exact ⟨hnext.tree, hnext.failures, hnext.answer⟩
        | some a => exact ⟨(leads_next hs).trans hnext.1, hnext.2⟩
  · rw [if_neg hkind] at hexpect
    unfold Tries
    rw [run_bind, Session.Before.run_accept_of_ne hkind, Parser.run_bind, hexpect]
    exact ⟨.refl _, hs.failures, rfl⟩

/-- An attempt comes to something where the parser does not fail. -/
theorem Simulates.attempt {what : Attempt} (hs : x.Sound s)
    (hvain : ∀ f : Failure, f.index = s.cursor.index → f.what = what →
      (x.Vain f ↔ p.run s.cursor.pieces = none))
    (h : Tries x setting s r p Q) :
    Simulates x setting s (Reading.attempt what r) (Parser.attempt p) fun a b t =>
      (a = none ∧ b = none ∧ x.Sound t ∧ t.cursor = s.cursor ∧ t.tree = s.tree) ∨
        ∃ c d, a = some c ∧ b = some d ∧ Q c d t := by
  -- coming to nothing is remembered, and the session goes back
  have hnothing {t : Session} (hp : p.run s.cursor.pieces = none) (htree : t.tree = s.tree)
      (hcursor : t.cursor = s.cursor) (hdiagnostics : t.diagnostics = s.diagnostics)
      (hfailures : ∀ f ∈ t.failures, x.Vain f) :
      Mirrors x s (.ok none (t.remember ⟨s.cursor.index, what, setting.slot⟩) : Outcome (Option α))
        ((Parser.attempt p).run s.cursor.pieces) fun a b t =>
          (a = none ∧ b = none ∧ x.Sound t ∧ t.cursor = s.cursor ∧ t.tree = s.tree) ∨
            ∃ c d, a = some c ∧ b = some d ∧ Q c d t := by
    refine ⟨⟨by simp [Session.remember, htree, Tree.Prefix.refl], ?_, ?_⟩, none, ?_, .inl ?_⟩
    · simp [Session.remember, hcursor, Cursor.Before.refl]
    · simp [Session.remember, hcursor, Cursor.Reaches.refl]
    · simp [Parser.attempt, hp, Session.remember, hcursor]
    · refine ⟨rfl, rfl, ⟨?_, ?_, ?_, ?_⟩, hcursor, htree⟩
      · exact hcursor ▸ hs.faces
      · intro f hf
        rcases List.mem_cons.mp hf with rfl | hf
        · exact (hvain _ rfl rfl).mpr hp
        · exact hfailures f hf
      · exact htree ▸ hs.patterns
      · exact hdiagnostics.trans hs.diagnostics
  have honward := r.onward setting s
  unfold Simulates
  rw [run_attempt]
  dsimp only
  split
  · rename_i hknown
    obtain ⟨f, hf, hmatches⟩ := List.any_eq_true.mp (Bool.and_eq_true_iff.mp hknown).2
    simp only [Failure.matches, Bool.and_eq_true, decide_eq_true_eq] at hmatches
    have hp := (hvain f hmatches.1.symm hmatches.2.symm).mp (hs.failures f hf)
    exact hnothing hp rfl rfl rfl hs.failures
  · unfold Tries at h
    have hback {t : Session} (honward : s.Onward t) (hdeclines : Declines x s t (p.run s.cursor.pieces)) :=
      hnothing (t := t.rewind s) hdeclines.answer hdeclines.tree.rewind rfl honward.diagnostics_rewind
        hdeclines.failures
    cases hr : r.run setting s with
    | error e t =>
        rw [hr] at h honward
        simp only [Outcome.retracted]
        split
        · rename_i hfatal
          exact fun he => absurd (hfatal.symm.trans he) (by simp)
        · exact hback honward (h (Bool.eq_false_iff.mpr ‹_›))
    | ok a t =>
        rw [hr] at h honward
        cases a with
        | none => exact hback honward h
        | some a =>
            obtain ⟨hleads, b, hb, hab⟩ := h
            refine ⟨hleads, some b, ?_, .inr ⟨a, b, rfl, rfl, hab⟩⟩
            simp only [Parser.attempt, hb]
            rfl

end Attempts

end Plain

end BendSyntax
