import BendSyntax.Grammar.Items

/-! Tokens stand one behind the other, and a cursor that reads them moves onward in the text:
what was read last ends before what is read next. -/

namespace BendSyntax

/-- Tokens that stand in order behind a place in a text, with its end behind them. A token is not
empty, and a `>>` has two bytes, so that each of its halves has one. -/
def Token.InOrder : Nat → List Token → Token → Prop
  | place, [], eof => place ≤ eof.span.start ∧ eof.span.stop = eof.span.start ∧ eof.kind = .eof
  | place, t :: ts, eof => place ≤ t.span.start ∧ t.span.start < t.span.stop ∧
      (t.kind = .mark .shiftRight → t.span.stop = t.span.start + 2) ∧ t.kind ≠ .eof ∧
      InOrder t.span.stop ts eof

namespace Token.InOrder

variable {place place' : Nat} {t eof : Token} {ts : List Token}

theorem mono (h : InOrder place ts eof) (hle : place' ≤ place) : InOrder place' ts eof := by
  cases ts with
  | nil => exact ⟨Nat.le_trans hle h.1, h.2⟩
  | cons t ts => exact ⟨Nat.le_trans hle h.1, h.2⟩

/-- Whatever number of tokens is behind, the next one lies behind the place as well. -/
theorem place_le {place : Nat} {eof : Token} {ts : List Token}
    (h : InOrder place ts eof) (n : Nat) : place ≤ ((ts.drop n).head?.getD eof).span.start := by
  induction n generalizing place ts with
  | zero => cases ts <;> exact h.1
  | succ n ih =>
      cases ts with
      | nil => exact h.1
      | cons t ts => exact Nat.le_trans h.1 (Nat.le_trans (Nat.le_of_lt h.2.1) (ih h.2.2.2.2))

/-- Every token lies behind the place, and none is empty. -/
theorem place_le_of_mem (h : InOrder place ts eof) (ht : t ∈ ts) :
    place ≤ t.span.start ∧ t.span.start < t.span.stop := by
  induction ts generalizing place with
  | nil => cases ht
  | cons u us ih =>
      rcases List.mem_cons.mp ht with rfl | ht
      · exact ⟨h.1, h.2.1⟩
      · obtain ⟨hle, hlt⟩ := ih h.2.2.2.2 ht
        exact ⟨Nat.le_trans h.1 (Nat.le_trans (Nat.le_of_lt h.2.1) hle), hlt⟩

theorem drop (h : InOrder place ts eof) (n : Nat) : InOrder place (ts.drop n) eof := by
  induction n generalizing place ts with
  | zero => exact h
  | succ n ih =>
      cases ts with
      | nil => exact h
      | cons t ts => exact ih (h.2.2.2.2.mono (Nat.le_trans h.1 (Nat.le_of_lt h.2.1)))

/-- A token ends in front of the tokens behind it. -/
theorem stop_le {u : Token} {i j : Nat} (h : InOrder place ts eof) (hij : i < j)
    (hi : ts[i]? = some t) (hj : ts[j]? = some u) : t.span.stop ≤ u.span.start := by
  obtain ⟨hlt, rfl⟩ := List.getElem?_eq_some_iff.mp hi
  have hdrop := h.drop i
  rw [List.drop_eq_getElem_cons hlt] at hdrop
  refine (hdrop.2.2.2.2.place_le_of_mem ?_).1
  rw [List.mem_iff_getElem?]
  exact ⟨j - (i + 1), by rw [List.getElem?_drop, ← hj]; congr 1; omega⟩

end Token.InOrder

namespace Cursor

theorem token_of_nil {c : Cursor} (hrest : c.rest = []) : c.token = c.eof := by
  simp [token, hrest]

theorem token_of_cons {c : Cursor} {t : Token} {ts : List Token} (hrest : c.rest = t :: ts) :
    c.token = t := by
  simp [token, hrest]

theorem token_eq (c : Cursor) : c.token = c.rest.head?.getD c.eof := by
  unfold token
  split <;> simp_all

theorem start_token_le (c : Cursor) : c.token.span.start ≤ c.span.start := by
  unfold span
  split
  · exact Nat.le_succ _
  · exact Nat.le_refl _

theorem stop_span (c : Cursor) : c.span.stop = c.token.span.stop := by
  unfold span
  split <;> rfl

/-- What is read is what was read last. -/
@[simp] theorem last_advance (c : Cursor) : c.advance.last = c.span := by
  unfold advance
  split <;> rfl

/-- Only the next token is read. -/
theorem mem_advance (c : Cursor) {t : Token} (h : t ∈ c.rest) :
    t ∈ c.advance.rest ∨ t.span.stop ≤ c.span.stop := by
  unfold advance
  split
  · rename_i u us hrest
    rw [hrest, List.mem_cons] at h
    rcases h with rfl | hmem
    · exact .inr (Nat.le_of_eq (by rw [stop_span, token_of_cons hrest]))
    · exact .inl hmem
  · exact .inl h

/-- A cursor in front of tokens that stand in order. -/
structure Ahead (c : Cursor) : Prop where
  inOrder : Token.InOrder 0 c.rest c.eof
  split : c.split = true → c.token.kind = .mark .shiftRight

/-- A cursor with tokens in order behind it and in front of it. -/
structure Orderly (c : Cursor) : Prop extends Ahead c where
  last : c.last.start ≤ c.last.stop
  behind : c.last.stop ≤ c.span.start

namespace Ahead

variable {c : Cursor} (h : c.Ahead)

include h

theorem eof_kind : c.eof.kind = .eof := by
  obtain ⟨hrest, -⟩ := h
  generalize c.rest = ts at hrest
  suffices ∀ place, Token.InOrder place ts c.eof → c.eof.kind = .eof from this 0 hrest
  clear hrest
  induction ts with
  | nil => exact fun _ h => h.2.2
  | cons t ts ih => exact fun _ h => ih _ h.2.2.2.2

theorem split_of_nil (hrest : c.rest = []) : c.split = false := by
  cases hsplit : c.split with
  | false => rfl
  | true =>
      have hkind := h.split hsplit
      rw [token_of_nil hrest, h.eof_kind] at hkind
      cases hkind

theorem kind_of_nil (hrest : c.rest = []) : c.kind = .eof := by
  rw [kind_of_not_split (h.split_of_nil hrest), token_of_nil hrest, h.eof_kind]

theorem rest_ne_nil (hkind : c.kind ≠ .eof) : c.rest ≠ [] := mt h.kind_of_nil hkind

theorem kind_ne_eof (hrest : c.rest ≠ []) : c.kind ≠ .eof := by
  obtain ⟨t, ts, hts⟩ := List.exists_cons_of_ne_nil hrest
  have htoken := token_of_cons hts
  have hne := (hts ▸ h.inOrder).2.2.2.1
  unfold Cursor.kind
  split
  · nofun
  · rwa [htoken]

/-- The next token is not empty, unless it is the end of the text, and of a `>>` there is one
byte for each half. -/
theorem span_lt (hrest : c.rest ≠ []) : c.span.start < c.span.stop := by
  obtain ⟨t, ts, hts⟩ := List.exists_cons_of_ne_nil hrest
  have htoken := token_of_cons hts
  obtain ⟨-, hlt, hshift, -⟩ := hts ▸ h.inOrder
  unfold Cursor.span
  split
  · have hstop := hshift (htoken ▸ h.split ‹_›)
    dsimp only
    rw [htoken]
    omega
  · rwa [htoken]

theorem span_le : c.span.start ≤ c.span.stop := by
  by_cases hrest : c.rest = []
  · have hin := hrest ▸ h.inOrder
    have hspan : c.span = c.eof.span := by
      simp [Cursor.span, h.split_of_nil hrest, token_of_nil hrest]
    rw [hspan]
    exact Nat.le_of_eq hin.2.1.symm
  · exact Nat.le_of_lt (h.span_lt hrest)

theorem advance_split : c.advance.split = false := by
  unfold Cursor.advance
  split
  · rfl
  · exact h.split_of_nil ‹_›

theorem advance_span : c.advance.span = c.advance.token.span := by
  simp [Cursor.span, h.advance_split]

theorem advance : c.advance.Ahead where
  inOrder := by
    have hin := h.inOrder
    unfold Cursor.advance
    split
    · rename_i t ts hts
      exact (hts ▸ hin).2.2.2.2.mono (Nat.zero_le _)
    · rename_i hrest
      simpa [hrest] using hin
  split hsplit := by simp [h.advance_split] at hsplit

/-- Behind the next token the cursor stands in front of what follows it. -/
theorem stop_le_advance : c.span.stop ≤ c.advance.span.start := by
  rw [h.advance_span]
  by_cases hrest : c.rest = []
  · have hin := hrest ▸ h.inOrder
    have hspan : c.span = c.eof.span := by
      simp [Cursor.span, h.split_of_nil hrest, token_of_nil hrest]
    have hadvance : c.advance.token = c.eof := by simp [Cursor.advance, hrest, token]
    rw [hspan, hadvance]
    exact Nat.le_of_eq hin.2.1
  · obtain ⟨t, ts, hts⟩ := List.exists_cons_of_ne_nil hrest
    have htoken := token_of_cons hts
    have hstop : c.span.stop = t.span.stop := by rw [stop_span, htoken]
    have hbehind := (hts ▸ h.inOrder).2.2.2.2
    have hadvance : c.advance = ⟨ts, c.eof, c.index + 1, false, c.span⟩ := by
      simp [Cursor.advance, hts]
    rw [hstop, hadvance]
    cases ts with
    | nil => exact hbehind.1
    | cons u us => exact hbehind.1

/-- A token lies between a cursor and where it stands behind the token. -/
theorem span_lt_advance (hrest : c.rest ≠ []) : c.span.start < c.advance.span.start :=
  Nat.lt_of_lt_of_le (h.span_lt hrest) h.stop_le_advance

theorem span_le_advance : c.span.start ≤ c.advance.span.start :=
  Nat.le_trans h.span_le h.stop_le_advance

/-- Behind a token the cursor stands further on in the text. -/
theorem span_lt_of_index_lt {d : Cursor} (hreach : c.Reaches d)
    (hlt : c.index < d.index) : c.span.start < d.span.start := by
  obtain ⟨n, hn, hrest, hindex, heof⟩ := hreach
  have hne : c.rest ≠ [] := by
    rintro hnil
    simp only [hnil, List.length_nil] at hn
    omega
  obtain ⟨t, ts, hts⟩ := List.exists_cons_of_ne_nil hne
  obtain ⟨m, rfl⟩ : ∃ m, n = m + 1 := ⟨n - 1, by omega⟩
  calc c.span.start < c.span.stop := h.span_lt hne
    _ = t.span.stop := by rw [stop_span, token_of_cons hts]
    _ ≤ ((ts.drop m).head?.getD c.eof).span.start := (hts ▸ h.inOrder).2.2.2.2.place_le m
    _ = d.token.span.start := by rw [token_eq, hrest, hts, heof, List.drop_succ_cons]
    _ ≤ d.span.start := d.start_token_le

theorem whole : c.whole.Ahead := ⟨h.inOrder, nofun⟩

/-- The tokens lie behind the cursor, unless it stands inside the first. -/
theorem start_le_of_mem (hsplit : c.split = false) {t : Token} (ht : t ∈ c.rest) :
    c.span.start ≤ t.span.start := by
  obtain ⟨u, us, hrest⟩ := List.exists_cons_of_ne_nil (List.ne_nil_of_mem ht)
  have hin := hrest ▸ h.inOrder
  have hspan : c.span = u.span := by simp [Cursor.span, hsplit, token_of_cons hrest]
  rw [hspan]
  rcases List.mem_cons.mp (hrest ▸ ht) with rfl | ht
  · exact Nat.le_refl _
  · exact Nat.le_trans (Nat.le_of_lt hin.2.1) (hin.2.2.2.2.place_le_of_mem ht).1

/-- A cursor that does not stand inside a token lies in front of the tokens that it comes to. -/
theorem start_le_whole (hsplit : c.split = false) {d : Cursor} (hreach : c.Reaches d) :
    c.span.start ≤ d.whole.span.start := by
  obtain ⟨n, hn, hrest, hindex, heof⟩ := hreach
  cases n with
  | zero =>
      have htoken : d.whole.token = c.token := by simp [token_eq, Cursor.whole, hrest, heof]
      have hspan : d.whole.span = c.span := by
        simp only [Cursor.span, htoken, hsplit]
        rfl
      exact Nat.le_of_eq (by rw [hspan])
  | succ n =>
      have hwhole : c.Reaches d.whole := ⟨n + 1, hn, hrest, hindex, heof⟩
      exact Nat.le_of_lt (h.span_lt_of_index_lt hwhole (by simp only [Cursor.whole, hindex]; omega))

theorem start_le_of_reaches (hsplit : c.split = false) {d : Cursor} (hd : d.split = false)
    (hreach : c.Reaches d) : c.span.start ≤ d.span.start := by
  have hwhole : d.whole = d := by simp [Cursor.whole, ← hd]
  exact hwhole ▸ h.start_le_whole hsplit hreach

/-- Behind the next token the cursor has passed it. -/
theorem exists_passed {d : Cursor} (hreach : c.Reaches d) (hlt : c.index < d.index) :
    ∃ t ∈ c.rest, t ∉ d.rest ∧ t.span.stop = c.span.stop := by
  obtain ⟨n, hn, hrest, hindex, -⟩ := hreach
  obtain ⟨m, rfl⟩ : ∃ m, n = m + 1 := ⟨n - 1, by omega⟩
  obtain ⟨t, ts, hts⟩ : ∃ t ts, c.rest = t :: ts := by
    refine List.exists_cons_of_ne_nil fun hnil => ?_
    simp [hnil] at hn
  refine ⟨t, by simp [hts], fun ht => ?_, by rw [stop_span, token_of_cons hts]⟩
  rw [hrest, hts, List.drop_succ_cons] at ht
  obtain ⟨hstop, hne⟩ := (hts ▸ h.inOrder).2.2.2.2.place_le_of_mem (List.mem_of_mem_drop ht)
  exact Nat.lt_irrefl _ (Nat.lt_of_le_of_lt hstop hne)

/-- In front of a keyword that begins an item a cursor does not stand inside a token. -/
theorem split_of_startsItem (hstarts : c.kind.startsItem = true) : c.split = false := by
  cases hsplit : c.split with
  | false => rfl
  | true => simp [Cursor.kind, hsplit, h.split hsplit, TokenKind.startsItem] at hstarts

/-- A cursor that has passed no token when it comes to such a keyword has stayed in front of it. -/
theorem span_of_startsItem {d : Cursor} (hd : d.Ahead) (hreach : c.Reaches d)
    (hindex : d.index ≤ c.index) (hstarts : d.kind.startsItem = true) : d.span = c.span := by
  obtain ⟨n, -, hrest, hn, heof⟩ := hreach
  obtain rfl : n = 0 := by omega
  have htoken : d.token = c.token := by simp [token_eq, hrest, heof]
  have hd := hd.split_of_startsItem hstarts
  have hc : c.split = false := by
    cases hsplit : c.split with
    | false => rfl
    | true =>
        rw [kind_of_not_split hd, htoken, h.split hsplit] at hstarts
        cases hstarts
  simp [Cursor.span, hd, hc, htoken]

theorem orderly_advance : c.advance.Orderly where
  toAhead := h.advance
  last := by
    rw [last_advance]
    exact h.span_le
  behind := by
    rw [last_advance]
    exact h.stop_le_advance

end Ahead

namespace Orderly

variable {c : Cursor} (h : c.Orderly)

include h

theorem split_of_shiftRight (hkind : c.kind = .mark .shiftRight) : c.split = false := by
  cases hsplit : c.split with
  | false => rfl
  | true => simp [Cursor.kind, hsplit, h.split hsplit] at hkind

theorem span_of_shiftRight (hkind : c.kind = .mark .shiftRight) : c.span = c.token.span := by
  simp [Cursor.span, h.split_of_shiftRight hkind]

theorem advance : c.advance.Orderly := h.toAhead.orderly_advance

theorem halve (hkind : c.kind = .mark .shiftRight) : c.halve.Orderly := by
  have hsplit := h.split_of_shiftRight hkind
  have htoken : c.token.kind = .mark .shiftRight := by rwa [← kind_of_not_split hsplit]
  refine ⟨⟨h.inOrder, fun _ => htoken⟩, Nat.le_succ _, ?_⟩
  simp [Cursor.halve, Cursor.span, token]

end Orderly

end Cursor

end BendSyntax
