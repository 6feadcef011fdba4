import BendSyntax.Proofs.Agreement.Nesting
import BendSyntax.Proofs.Lexing.Joined
import BendSyntax.Proofs.SameText

/-! A run on a text is compared with a run on the same tokens further on in a longer text. Behind
these tokens the longer text ends, or the next item begins there. -/

namespace BendSyntax

open Reading Grammar

/-- What may stand behind the tokens of `ts` without being taken for a part of them: nothing, the
parenthesis that closes around them, or an item that does not begin like the label of a case
head. -/
structure Tokens.EndsBefore (ts : Tokens) (tail : List Token) : Prop where
  ends : ∀ t ∈ tail.head?, t.kind.endsText = true
  /-- If a parenthesis stands behind, the tokens close all that they open. -/
  closed : (∃ t ∈ tail.head?, t.kind = .mark .rightParen) → opened 0 ts.body = some 0
  head : ts.body.getLast?.map Token.kind = some (.mark .ampersand) →
    ((tail.map Token.kind).drop 1).take 4 ≠
      [.mark .leftBrace, .mark .comma, .mark .rightBrace, .mark .colon]

/-- The end of a text may be the end of another one. -/
theorem Tokens.endsBefore_nil (ts : Tokens) : ts.EndsBefore [] := ⟨by simp, by simp, by simp⟩

/-- What may stand behind the tokens of `ts` if items follow each other. -/
structure Tokens.EndsBeforeItem (ts : Tokens) (tail : List Token) : Prop extends
    ts.EndsBefore tail where
  item : ∀ t ∈ tail.head?, t.kind.startsItem = true

theorem TokenKind.endsText_of_startsItem {k : TokenKind} (hk : k.startsItem = true) :
    k.endsText = true := by
  unfold endsText
  split
  · rfl
  · exact hk

theorem kinds_of_endsText {k : TokenKind} (hk : k.endsText = true) : Kinds .eof k := by
  cases k with
  | eof => exact .same _
  | mark s =>
      cases s with
      | rightParen => exact .rightParen
      | _ => cases hk
  | word w =>
      cases w with
      | def_ => exact .def_
      | type => exact .type
      | assert => exact .assert
      | try_ => exact .try_
      | _ => cases hk
  | _ => cases hk

namespace Cursor

theorem rest_eq_nil {c : Cursor} (hkinds : ∀ t ∈ c.rest, t.kind ≠ .eof) (hkind : c.kind = .eof) :
    c.rest = [] := by
  cases hrest : c.rest with
  | nil => rfl
  | cons t rest =>
      have htoken : c.token = t := by simp [token, hrest]
      rw [Cursor.kind, htoken] at hkind
      split at hkind
      · cases hkind
      · exact absurd hkind (hkinds t (hrest ▸ List.mem_cons_self))

namespace On

variable {ts : Tokens} {c : Cursor}

theorem split_of_rest (hc : c.On ts) (hrest : c.rest = []) : c.split = false := by
  have htoken : c.token = c.eof := by simp [token, hrest]
  by_contra hsplit
  have hshift := hc.split (by simpa using hsplit)
  rw [htoken, hc.kind] at hshift
  cases hshift

/-- Only behind the last token of a text is its end. -/
theorem rest_eq_nil (hc : c.On ts) (hkinds : ∀ t ∈ ts.body, t.kind ≠ .eof)
    (hkind : c.kind = .eof) : c.rest = [] :=
  Cursor.rest_eq_nil (fun t ht => hkinds t (List.mem_of_mem_drop (hc.rest ▸ ht))) hkind

end On

/-- Behind the parenthesis that stands first, one is open. -/
theorem opened_take_one {c : Cursor} (hlt : 0 < c.rest.length) (hkind : c.kind = .mark .leftParen) :
    opened 0 (c.rest.take 1) = some 1 := by
  obtain ⟨t, ts, hts⟩ := List.exists_cons_of_length_pos hlt
  have htoken : t.kind.opened 0 = c.kind.opened 0 := by
    rw [← opened_kind]
    simp [token, hts]
  simp only [hts, List.take_succ_cons, List.take_zero, opened_cons, opened_nil, htoken, hkind]
  rfl

theorem opened_take_two {c : Cursor} (hlt : 1 < c.rest.length) (hkind : c.kind = .mark .leftParen)
    (hnext : c.kindAt 1 = .mark .comma) : opened 0 (c.rest.take 2) = some 1 := by
  have hone := opened_take_one (Nat.zero_lt_of_lt hlt) hkind
  have htoken : (c.rest[1]).kind = .mark .comma := by
    simpa [kindAt, tokenAt, List.getElem?_eq_getElem hlt] using hnext
  rw [List.take_succ_eq_append_getElem hlt, opened_append, hone]
  simp [htoken, TokenKind.opened]

/-- What closes all that it opens closes behind a cursor what is open in front of it. -/
theorem On.opened_rest {ts : Tokens} {c : Cursor} (hc : c.On ts) (hts : opened 0 ts.body = some 0) :
    ∃ m, opened m c.rest = some 0 := by
  rw [← List.take_append_drop c.index ts.body, opened_append, ← hc.rest] at hts
  obtain ⟨m, -, hm⟩ := Option.bind_eq_some_iff.mp hts
  exact ⟨m, hm⟩

/-- What an opening parenthesis leaves open is closed behind it. -/
theorem On.opened_advance {ts : Tokens} {c : Cursor} (hc : c.On ts)
    (hts : opened 0 ts.body = some 0) (hkind : c.kind = .mark .leftParen) :
    ∃ m, opened (m + 1) c.advance.rest = some 0 := by
  obtain ⟨m, hm⟩ := hc.opened_rest hts
  rw [rest_eq_cons (hc.rest_ne_nil (by simp [hkind])), opened_cons, opened_kind, hkind] at hm
  exact ⟨m, hm⟩

/-- A cursor that stands in front of the same tokens, `k` bytes and `n` tokens further on, with
`tail` behind them. -/
structure Further (k n : Nat) (tail : List Token) (c d : Cursor) : Prop where
  rest : ∃ rest, d.rest = rest ++ tail ∧ List.Forall₂ (Token.Shifted k) c.rest rest
  index : d.index = c.index + n
  split : d.split = c.split
  eof : d.eof.kind = .eof

namespace Further

variable {ts : Tokens} {k n : Nat} {tail : List Token} {c d : Cursor}
  (h : c.Further k n tail d)

include h

theorem tokenAt {i : Nat} (hi : i < c.rest.length) : (c.tokenAt i).Shifted k (d.tokenAt i) := by
  obtain ⟨rest, hrest, hshift⟩ := h.rest
  have hi' : i < rest.length := hshift.length_eq ▸ hi
  have hc : c.tokenAt i = c.rest[i] := by simp [Cursor.tokenAt, hi]
  have hd : d.tokenAt i = rest[i] := by
    simp [Cursor.tokenAt, hrest, List.getElem?_append_left hi', hi']
  rw [hc, hd]
  exact (List.forall₂_iff_get.mp hshift).2 i hi hi'

theorem token (hc : c.rest ≠ []) : c.token.Shifted k d.token := by
  rw [← tokenAt_zero, ← tokenAt_zero]
  exact h.tokenAt (List.length_pos_iff.mpr hc)

theorem kindAt {i : Nat} (hi : i < c.rest.length) : d.kindAt i = c.kindAt i := by
  have hkind := (h.tokenAt hi).kind
  cases i with
  | zero =>
      simp only [tokenAt_zero] at hkind
      simp only [Cursor.kindAt, Cursor.kind, h.split, hkind]
  | succ i => exact hkind

/-- Where one cursor finds the end of the text, the other one finds what stands behind. -/
theorem kindAt_length (hc : c.On ts) :
    d.kindAt c.rest.length = (tail.map Token.kind).headD .eof := by
  obtain ⟨rest, hrest, hshift⟩ := h.rest
  have htoken : (d.tokenAt c.rest.length).kind = (tail.map Token.kind).headD .eof := by
    have hget : d.rest[c.rest.length]? = tail[0]? := by
      simp [hrest, hshift.length_eq, List.getElem?_append_right]
    cases tail <;> simp_all [Cursor.tokenAt, h.eof]
  cases hlen : c.rest.length with
  | zero =>
      have hsplit : d.split = false :=
        h.split.trans (hc.split_of_rest (List.eq_nil_of_length_eq_zero hlen))
      rw [hlen, tokenAt_zero] at htoken
      rw [Cursor.kindAt, kind_of_not_split hsplit, htoken]
  | succ i => rw [← htoken, hlen, Cursor.kindAt]

theorem kindAt_of_ne_eof (hc : c.On ts) {i : Nat} (hi : c.kindAt i ≠ .eof) :
    d.kindAt i = c.kindAt i :=
  h.kindAt (Nat.lt_of_not_le (mt hc.kindAt_of_length_le hi))

variable (htail : ts.EndsBefore tail)

include htail

theorem endsText_kindAt_length (hc : c.On ts) : (d.kindAt c.rest.length).endsText = true := by
  rw [h.kindAt_length hc]
  cases tail with
  | nil => rfl
  | cons t tail => exact htail.ends t rfl

/-- Where the other token ends no text, this text goes on as well. -/
theorem lt_length_of_kindAt (hc : c.On ts) {i : Nat} (hi : i ≤ c.rest.length)
    (hk : (d.kindAt i).endsText = false) : i < c.rest.length := by
  refine Nat.lt_of_le_of_ne hi fun heq => ?_
  rw [heq, h.endsText_kindAt_length htail hc] at hk
  cases hk

theorem kinds (hc : c.On ts) : Kinds c.kind d.kind := by
  by_cases hrest : c.rest = []
  · have hkind : c.kind = .eof := hc.kindAt_of_length_le (i := 0) (by simp [hrest])
    have hends := h.endsText_kindAt_length htail hc
    rw [hrest] at hends
    rw [hkind]
    exact kinds_of_endsText hends
  · have hsame : d.kind = c.kind := h.kindAt (i := 0) (List.length_pos_iff.mpr hrest)
    rw [hsame]
    exact .same _

theorem closed_of_kindAt (hc : c.On ts) (hk : d.kindAt c.rest.length = .mark .rightParen) :
    ∃ m, opened m c.rest = some 0 := by
  rw [h.kindAt_length hc] at hk
  refine hc.opened_rest (htail.closed ?_)
  cases tail with
  | nil => cases hk
  | cons t tail => exact ⟨t, rfl, hk⟩

/-- Where a parenthesis has been opened, this text does not end before it is closed. -/
theorem lt_length_of_rightParen (hc : c.On ts) {i : Nat} (hi : i ≤ c.rest.length)
    (hk : d.kindAt i = .mark .rightParen) (hopen : opened 0 (c.rest.take i) = some 1) :
    i < c.rest.length := by
  refine Nat.lt_of_le_of_ne hi fun heq => ?_
  subst heq
  obtain ⟨m, hm⟩ := h.closed_of_kindAt htail hc hk
  rw [List.take_length] at hopen
  have hadd := opened_add hopen m
  rw [Nat.zero_add, hm] at hadd
  simp only [Option.some.injEq] at hadd
  omega

omit htail in
theorem isNat (hc : c.rest ≠ []) (m : Nat) : d.isNat m = c.isNat m := by
  simp only [Cursor.isNat, lexeme, (h.token hc).lexeme]

omit htail in
theorem tightAt {i : Nat} (hi : i < c.rest.length) : d.tightAt i = c.tightAt i := by
  simp only [Cursor.tightAt, Token.isTight, (h.tokenAt hi).spaced]

omit htail in
theorem caseHead?_of_some (hc : c.On ts) {head : CaseHead} (hhead : c.caseHead? = some head) :
    d.caseHead? = some head := by
  have hkind (i : Nat) (hi : c.kindAt i ≠ .eof) : d.kindAt i = c.kindAt i :=
    h.kindAt_of_ne_eof hc hi
  have h0 : c.kind ≠ .eof → d.kind = c.kind := hkind 0
  have hrest : c.kind ≠ .eof → c.rest ≠ [] := hc.rest_ne_nil
  have hnat (m : Nat) (hc0 : c.kind ≠ .eof) : d.isNat m = c.isNat m := h.isNat (hc.rest_ne_nil hc0) m
  have htight (hc1 : c.kindAt 1 ≠ .eof) : d.tightAt 1 = c.tightAt 1 :=
    h.tightAt (Nat.lt_of_not_le (mt hc.kindAt_of_length_le hc1))
  have h1 := hkind 1
  have h2 := hkind 2
  have h3 := hkind 3
  have h4 := hkind 4
  have h5 := hkind 5
  unfold Cursor.caseHead? at hhead ⊢
  split at hhead <;> simp_all

/-- What stands behind the text is not taken for the label of a case head. -/
theorem length_of_sup (hc : c.On ts) (hamp : d.kind = .mark .ampersand)
    (hlabel : d.kindAt 2 = .mark .leftBrace ∧ d.kindAt 3 = .mark .comma ∧
      d.kindAt 4 = .mark .rightBrace ∧ d.kindAt 5 = .mark .colon) : 5 < c.rest.length := by
  by_contra hshort
  have hstop := h.endsText_kindAt_length htail hc
  have hlen : c.rest.length = 1 := by
    have hne (i : Nat) (hi : c.rest.length = i) : (d.kindAt i).endsText = true := hi ▸ hstop
    have hzero := hne 0
    have htwo := hne 2
    have hthree := hne 3
    have hfour := hne 4
    have hfive := hne 5
    simp only [Cursor.kindAt, hamp, TokenKind.endsText, TokenKind.startsItem, Bool.false_eq_true,
      imp_false] at hzero
    simp only [hlabel, TokenKind.endsText, TokenKind.startsItem, Bool.false_eq_true,
      imp_false] at htwo hthree hfour hfive
    omega
  obtain ⟨t, ht⟩ := List.length_eq_one_iff.mp hlen
  have hkind : c.token.kind = .mark .ampersand := by
    have hsame : d.kind = c.kind := h.kindAt (i := 0) (by omega)
    rw [hsame, Cursor.kind] at hamp
    split at hamp
    · cases hamp
    · exact hamp
  have hlast : ts.body.getLast?.map Token.kind = some (.mark .ampersand) := by
    have hdrop := List.getLast?_drop (l := ts.body) (i := c.index)
    rw [← hc.rest, ht] at hdrop
    split at hdrop
    · cases hdrop
    · simpa [← hdrop, Cursor.token, ht] using hkind
  refine htail.head hlast ?_
  obtain ⟨rest, hrest, hshift⟩ := h.rest
  have hone : rest.length = 1 := by rw [← hshift.length_eq, hlen]
  obtain ⟨t', rfl⟩ := List.length_eq_one_iff.mp hone
  clear hshort
  rcases tail with _ | ⟨t0, _ | ⟨t1, _ | ⟨t2, _ | ⟨t3, _ | ⟨t4, tail⟩⟩⟩⟩⟩ <;>
    simp_all [Cursor.kindAt, Cursor.tokenAt, h.eof]

/-- A parenthesis with which a head begins is closed in this text, too. -/
theorem length_of_parenthesis (hc : c.On ts) (k0 : d.kind = .mark .leftParen) :
    (d.kindAt 1 = .mark .rightParen → d.kindAt 2 = .mark .colon → 2 < c.rest.length) ∧
      (d.kindAt 1 = .mark .comma → d.kindAt 2 = .mark .rightParen → d.kindAt 3 = .mark .colon →
        3 < c.rest.length) := by
  have hnext (i : Nat) (hi : i ≤ c.rest.length) (hk : (d.kindAt i).endsText = false) :=
    h.lt_length_of_kindAt htail hc hi hk
  have hzero : 0 < c.rest.length := hnext 0 (Nat.zero_le _) (by rw [Cursor.kindAt, k0]; rfl)
  have hc0 : c.kind = .mark .leftParen := (h.kindAt hzero).symm.trans k0
  constructor
  · intro k1 k2
    have hone := h.lt_length_of_rightParen htail hc hzero k1 (opened_take_one hzero hc0)
    exact hnext 2 hone (by rw [k2]; rfl)
  · intro k1 k2 k3
    have hone := hnext 1 hzero (by rw [k1]; rfl)
    have hc1 : c.kindAt 1 = .mark .comma := (h.kindAt hone).symm.trans k1
    have htwo := h.lt_length_of_rightParen htail hc hone k2 (opened_take_two hone hc0 hc1)
    exact hnext 3 htwo (by rw [k3]; rfl)

theorem caseHead?_of_further (hc : c.On ts) {head : CaseHead} (hhead : d.caseHead? = some head) :
    c.caseHead? = some head := by
  have hlt (i : Nat) (hi : ∀ j ≤ i, (d.kindAt j).endsText = false) : i < c.rest.length := by
    refine Nat.lt_of_not_le fun hle => ?_
    have hstop := h.endsText_kindAt_length htail hc
    rw [hi _ hle] at hstop
    cases hstop
  have h0 (k0 : d.kind.endsText = false) :
      c.kind = d.kind ∧ ∀ m, c.isNat m = d.isNat m := by
    have hlen := hlt 0 fun j hj => Nat.le_zero.mp hj ▸ k0
    exact ⟨(h.kindAt hlen).symm, fun m => (h.isNat (List.length_pos_iff.mp hlen) m).symm⟩
  have h1 (k0 : d.kind.endsText = false) (k1 : (d.kindAt 1).endsText = false) :
      c.kindAt 1 = d.kindAt 1 ∧ c.tightAt 1 = d.tightAt 1 := by
    have hlen := hlt 1 fun j hj => by
      rcases j with _ | _ | j <;> first | assumption | omega
    exact ⟨(h.kindAt hlen).symm, (h.tightAt hlen).symm⟩
  have h2 (k0 : d.kind.endsText = false) (k1 : (d.kindAt 1).endsText = false)
      (k2 : (d.kindAt 2).endsText = false) : c.kindAt 2 = d.kindAt 2 :=
    (h.kindAt (hlt 2 fun j hj => by
      rcases j with _ | _ | _ | j <;> first | assumption | omega)).symm
  have h3 (k0 : d.kind.endsText = false) (k1 : (d.kindAt 1).endsText = false)
      (k2 : (d.kindAt 2).endsText = false) (k3 : (d.kindAt 3).endsText = false) :
      c.kindAt 3 = d.kindAt 3 :=
    (h.kindAt (hlt 3 fun j hj => by
      rcases j with _ | _ | _ | _ | j <;> first | assumption | omega)).symm
  have hsup (k0 : d.kind = .mark .ampersand) (k2 : d.kindAt 2 = .mark .leftBrace)
      (k3 : d.kindAt 3 = .mark .comma) (k4 : d.kindAt 4 = .mark .rightBrace)
      (k5 : d.kindAt 5 = .mark .colon) : ∀ i ≤ 5, c.kindAt i = d.kindAt i := fun i hi =>
    (h.kindAt (Nat.lt_of_le_of_lt hi (h.length_of_sup htail hc k0 ⟨k2, k3, k4, k5⟩))).symm
  have hunit (k0 : d.kind = .mark .leftParen) (k1 : d.kindAt 1 = .mark .rightParen)
      (k2 : d.kindAt 2 = .mark .colon) : ∀ i ≤ 2, c.kindAt i = d.kindAt i := fun i hi =>
    (h.kindAt (Nat.lt_of_le_of_lt hi ((h.length_of_parenthesis htail hc k0).1 k1 k2))).symm
  have hpair (k0 : d.kind = .mark .leftParen) (k1 : d.kindAt 1 = .mark .comma)
      (k2 : d.kindAt 2 = .mark .rightParen) (k3 : d.kindAt 3 = .mark .colon) :
      ∀ i ≤ 3, c.kindAt i = d.kindAt i := fun i hi =>
    (h.kindAt (Nat.lt_of_le_of_lt hi ((h.length_of_parenthesis htail hc k0).2 k1 k2 k3))).symm
  clear hlt
  unfold Cursor.caseHead? at hhead ⊢
  split at hhead
  case h_1 =>
    rename_i k0 k1 k2
    have hall := hunit k0 k1 k2
    have hall0 : c.kind = .mark .leftParen := (hall 0 (by omega)).trans k0
    simp only [hall0, (hall 1 (by omega)).trans k1, (hall 2 (by omega)).trans k2, hhead]
  case h_2 =>
    rename_i k0 k1 k2 k3
    have hall := hpair k0 k1 k2 k3
    have hall0 : c.kind = .mark .leftParen := (hall 0 (by omega)).trans k0
    simp only [hall0, (hall 1 (by omega)).trans k1, (hall 2 (by omega)).trans k2,
      (hall 3 (by omega)).trans k3, hhead]
  case h_12 =>
    rename_i k0 k2 k3
    split at hhead
    · rename_i hcolon
      have hall := hsup k0 k2 k3 hcolon.1 hcolon.2
      have hall0 : c.kind = .mark .ampersand := (hall 0 (by omega)).trans k0
      have hall2 := (hall 2 (by omega)).trans k2
      have hall3 := (hall 3 (by omega)).trans k3
      have hall4 := (hall 4 (by omega)).trans hcolon.1
      have hall5 := (hall 5 (by omega)).trans hcolon.2
      simp only [hall0, hall2, hall3, hall4, hall5]
      split <;> simp_all
    · cases hhead
  all_goals
    clear hsup hunit hpair
    simp_all [TokenKind.endsText, TokenKind.startsItem, Keyword.startsItem]

theorem caseHead? (hc : c.On ts) : c.caseHead? = d.caseHead? := by
  cases hd : d.caseHead? with
  | some head => exact h.caseHead?_of_further htail hc hd
  | none =>
      cases hhead : c.caseHead? with
      | none => rfl
      | some head =>
          rw [h.caseHead?_of_some hc hhead] at hd
          cases hd

omit h htail in
theorem span (hs : c.Further k n tail d) (hc : c.rest ≠ []) :
    d.span.start = c.span.start + k ∧ d.span.stop = c.span.stop + k := by
  obtain ⟨-, -, -, hstart, hstop⟩ := hs.token hc
  simp only [Cursor.span, hs.split]
  split
  · refine ⟨?_, hstop⟩
    dsimp only
    omega
  · exact ⟨hstart, hstop⟩

omit htail in
theorem advance (hc : c.rest ≠ []) : c.advance.Further k n tail d.advance := by
  obtain ⟨rest, hrest, hshift⟩ := h.rest
  have hd : d.rest ≠ [] := by
    have hlen := hshift.length_eq
    have hpos := List.length_pos_iff.mpr hc
    rw [hrest]
    cases rest <;> simp_all
  rw [advance_of_rest_ne_nil hc, advance_of_rest_ne_nil hd]
  refine ⟨⟨rest.tail, ?_, ?_⟩, ?_, rfl, h.eof⟩
  · generalize c.rest = ts at hc hshift
    cases hshift <;> simp_all
  · generalize c.rest = ts at hc hshift
    cases hshift <;> simp_all
  · have := h.index
    dsimp only
    omega

omit htail in
theorem halve : c.halve.Further k n tail d.halve := ⟨h.rest, h.index, rfl, h.eof⟩

omit htail in
theorem whole : c.whole.Further k n tail d.whole := ⟨h.rest, h.index, rfl, h.eof⟩

omit htail in
/-- Where a parenthesis is open, neither text ends. -/
theorem rightParen_iff (hc : c.On ts) {us : List Token} (hopen : c.Open us 0)
    (hclosed : (∃ t ∈ tail.head?, t.kind = .mark .rightParen) → ∃ m, opened (m + 1) us = some 0) :
    c.kind = .mark .rightParen ↔ d.kind = .mark .rightParen := by
  by_cases hrest : c.rest = []
  · have hkind : c.kind = .eof := hc.kindAt_of_length_le (i := 0) (by simp [hrest])
    have hd := h.kindAt_length hc
    rw [hrest] at hd
    refine iff_of_false (by simp [hkind]) fun hright => ?_
    have hhead : ∃ t ∈ tail.head?, t.kind = .mark .rightParen := by
      rw [show d.kindAt [].length = d.kind from rfl, hright] at hd
      cases tail <;> simp_all
    obtain ⟨m, hm⟩ := hclosed hhead
    obtain ⟨w, rfl, hw⟩ := hopen
    have hadd := opened_add hw (m + 1)
    rw [hrest, List.append_nil] at hm
    simp [hm] at hadd
  · rw [show d.kind = c.kind from h.kindAt (i := 0) (List.length_pos_iff.mpr hrest)]

omit htail in
theorem startsItem_eq (hc : c.On ts)
    (hitem : ∀ t ∈ tail.head?, t.kind.startsItem = true) : c.kind.startsItem = d.kind.startsItem := by
  by_cases hrest : c.rest = []
  · have hkind : c.kind = .eof := hc.kindAt_of_length_le (i := 0) (by simp [hrest])
    have hd := h.kindAt_length hc
    rw [hrest] at hd
    rw [hkind, show d.kind = _ from hd]
    cases tail with
    | nil => rfl
    | cons t tail => exact (hitem t rfl).symm
  · rw [show d.kind = c.kind from h.kindAt (i := 0) (List.length_pos_iff.mpr hrest)]

omit htail in
theorem remaining : d.remaining = c.remaining + 2 * tail.length := by
  obtain ⟨rest, hrest, hshift⟩ := h.rest
  simp only [Cursor.remaining, hrest, h.split, List.length_append, hshift.length_eq]
  omega

end Further

end Cursor

/-- The same failures are known about the same tokens, `n` tokens further on. -/
structure Failure.Further (n size : Nat) (l l' : List Failure) : Prop where
  known (i what slot slot') : l'.any (⟨i + n, what, slot'⟩ : Failure).matches =
    l.any (⟨i, what, slot⟩ : Failure).matches
  bound : ∀ f ∈ l', f.index < n + size

theorem Failure.Further.cons {n size : Nat} {l l' : List Failure} (h : Failure.Further n size l l')
    {i : Nat} (hi : i < size) (what : Attempt) (slot slot' : Slot) :
    Failure.Further n size (⟨i, what, slot⟩ :: l) (⟨i + n, what, slot'⟩ :: l') where
  known j w s s' := by
    have hmatches : (⟨j + n, w, s'⟩ : Failure).matches ⟨i + n, what, slot'⟩ =
        (⟨j, w, s⟩ : Failure).matches ⟨i, what, slot⟩ := by
      simp [Failure.matches]
    rw [List.any_cons, List.any_cons, h.known j w s s', hmatches]
  bound f hf := by
    rcases List.mem_cons.mp hf with rfl | hf
    · dsimp only
      omega
    · exact h.bound f hf

namespace Comparison

/-- A run on the text `ts` and one that adds to a tree on the same tokens further on. -/
def further (ts : Tokens) (config config' : Config) (diagnostics : Array Diagnostic) (k n : Nat)
    (tail : List Token) (tree : Tree) (diagnostics' : Array Diagnostic) : Comparison where
  left := ⟨config, true, .empty, diagnostics⟩
  right := ⟨config', true, tree, diagnostics'⟩
  cursors c d := c.On ts ∧ c.Further k n tail d
  spans _ _ := True
  marks s t := t.start = s.start + k ∧ t.stop = s.stop + k
  named _ s t := t.start = s.start + k ∧ t.stop = s.stop + k
  usages := Eq
  errors e f := e.isFatal = f.isFatal
  failures := Failure.Further n ts.body.length
  leftExcused := False
  rightExcused := False
  void _ _ := False

section Further

variable {ts : Tokens} {config config' : Config} {diagnostics diagnostics' : Array Diagnostic} {k n : Nat}
  {tail : List Token} {tree : Tree}

theorem further_lawful (htail : ts.EndsBefore tail) :
    (further ts config config' diagnostics k n tail tree diagnostics').Lawful where
  kind h := h.2.kinds htail h.1
  eof h := h.1.kind
  inside h hc _ _ h' hopen := h'.2.rightParen_iff h'.1 hopen fun hparen =>
    h.1.opened_advance (htail.closed hparen) hc
  rest h hc := by
    have hrest := h.1.rest_ne_nil hc
    obtain ⟨rest, hd, hshift⟩ := h.2.rest
    refine ⟨hrest, ?_⟩
    have hpos := List.length_pos_iff.mpr hrest
    rw [hshift.length_eq] at hpos
    rw [hd]
    exact List.append_ne_nil_of_left_ne_nil (List.length_pos_iff.mp hpos) tail
  token h hc := by
    have htoken := h.2.token (h.1.rest_ne_nil hc)
    refine ⟨htoken.kind.symm, htoken.lexeme.symm, ?_⟩
    simp only [Cursor.isTight, Token.isTight, h.2.split, htoken.spaced]
  caseHead h := h.2.caseHead? htail h.1
  advance h hc := ⟨h.1.advance, h.2.advance (h.1.rest_ne_nil hc)⟩
  halve h hc := ⟨h.1.halve hc, h.2.halve⟩
  whole h := ⟨h.1.whole, h.2.whole⟩
  mark h hc := h.2.span (h.1.rest_ne_nil hc)
  span _ := trivial
  last _ := trivial
  index h h' := by
    have := h.2.index
    have := h'.2.index
    omega
  index_kind h h' hindex hc := h'.1.whole_kind_ne_eof h.1 hindex hc
  remaining h h' := by
    have := h.2.remaining
    have := h'.2.remaining
    omega
  marks_spans _ := trivial
  marks_hull h h' := by
    simp only [further, Span.hull_start, Span.hull_stop] at h h' ⊢
    omega
  named_ident {c d} h hc := h.2.span (h.1.rest_ne_nil (by simp [hc]))
  named_hull h h' := by
    simp only [further, Span.hull_start, Span.hull_stop] at h h' ⊢
    omega
  named_length h := by
    simp only [further, Span.length] at h ⊢
    omega
  spans_zero := trivial
  spans_hull _ _ := trivial
  spans_opening _ := trivial
  usages_refl _ := rfl
  errors_fatal h := h
  expected _ _ := rfl
  invalid _ _ _ _ := rfl
  noDefinition {e f} h := by
    show (noDefinition e).isFatal = (noDefinition f).isFatal
    have h : e.isFatal = f.isFatal := h
    unfold noDefinition
    rw [h]
    split <;> simp_all [SyntaxError.isFatal]
  void_onward h _ _ := h.elim

instance : (further ts config config' diagnostics k n tail tree diagnostics').Retractable :=
  ⟨fun h _ => h.elim, fun h _ => h.elim⟩

instance : (further ts config config' diagnostics k n tail tree diagnostics').Recalling where
  known {c d slot slot' l l'} what hcd hl := by
    have hindex : d.index = c.index + n := hcd.2.index
    show (true && _) = (true && _)
    rw [hindex, hl.known c.index what slot slot']
  remember {c d slot slot' l l'} what hcd hc _ hl := by
    have hrest := List.length_pos_iff.mpr (hcd.1.rest_ne_nil hc)
    rw [hcd.1.rest, List.length_drop] at hrest
    rw [hcd.2.index]
    exact hl.cons (by omega) what slot slot'

theorem further_levels (htail : ts.EndsBefore tail) (d : Nat) :
    (further ts config config' diagnostics k n tail tree diagnostics').Levels (nested d) (nested d) := by
  have : (further ts config config' diagnostics k n tail tree diagnostics').Lawful := further_lawful htail
  induction d with
  | zero => exact fun g => agrees_refuse fun _ => rfl
  | succ d ih => exact agrees_produce ih.supports

theorem further_reporting (hrecover : config.recover = config'.recover)
    (htail : ts.EndsBeforeItem tail) :
    (further ts config config' diagnostics k n tail tree diagnostics').Reporting fun _ _ => False where
  recover := hrecover
  startsItem h := h.2.startsItem_eq h.1 htail.item
  of_void h := h
  onward h _ _ := h
  leftDiscard _ h := h
  rightDiscard _ h := h
  leftReport _ _ hx _ := hx
  rightReport _ _ hx _ := hx

end Further

end Comparison

end BendSyntax
