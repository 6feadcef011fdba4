import BendSyntax.Proofs.Agreement.Lookahead
import BendSyntax.Proofs.Brackets.Terms

/-! One of two texts may go on with a closing parenthesis where the other one ends. So closing
parentheses are only looked for alike where one has been opened, and what is read from there on
has to be followed until it is closed. The readings between leave no parenthesis open. -/

namespace BendSyntax

open Reading

theorem Cursor.Open.trans {ts : List Token} {c d : Cursor} (h : c.Open ts 0) (k : d.Open c.rest 0) :
    d.Open ts 0 := by
  obtain ⟨w, hw, hopen⟩ := h
  obtain ⟨v, hv, hopen'⟩ := k
  exact ⟨w ++ v, by rw [hw, hv, List.append_assoc], by simp [opened_append, hopen, hopen']⟩

/-- What goes on behind a token that may be there goes on from there or from where it is not. -/
theorem Reading.run_accept_bind {α : Type} (k : TokenKind) (f : Bool → Reading α)
    (setting : Setting) (s : Session) : (accept k >>= f).run setting s =
      (sees k >>= fun found => if found then advance >>= fun _ => f true else f false).run
        setting s := by
  simp only [accept, sees, kind, cursor, asks, run_bind, run_pure, Outcome.andThen_ok]
  split <;> rfl

/-- Where a reading ends, no parenthesis is open that it has opened. -/
theorem Reading.Balances.open_of_ok {α : Type} {r : Reading α} (h : r.Balances) {ts : List Token}
    {setting : Setting} {s t : Session} {a : α} (heof : s.cursor.eof.kind = .eof)
    (hopen : s.cursor.Open ts 0) (hrun : r.run setting s = .ok a t) : t.cursor.Open ts 0 :=
  hopen.trans ((h s.cursor.rest 0 setting s (.start heof) (.start s.cursor)).2 a t hrun)

namespace Comparison

variable {C : Comparison} {α β : Type} {P Q : α → α → Prop} {R : β → β → Prop} {c d : Cursor}
  {ts : List Token} {r q : Reading α} {f g : α → Reading β}

/-- Two readings end alike from all corresponding sessions behind tokens that leave no parenthesis
open since the beginning of `ts`. -/
def AgreesIn (C : Comparison) (ts : List Token) {α : Type} (r q : Reading α) (Q : α → α → Prop) :
    Prop :=
  ∀ c d, C.cursors c d → c.Open ts 0 → C.Agree c d r q Q

theorem Agrees.within (h : C.Agrees r q Q) (ts : List Token) : C.AgreesIn ts r q Q :=
  fun c d hcd _ => h c d hcd

/-- Readings that end alike behind any tokens end alike. -/
theorem Agrees.of_within (h : ∀ ts, C.AgreesIn ts r q Q) : C.Agrees r q Q :=
  fun c d hcd => h c.rest c d hcd (.start c)

namespace AgreesIn

theorem run (h : C.AgreesIn ts r q Q) {slot slot' : Slot} {s t : Session}
    (hslot : C.Slots slot slot') (hst : C.Sessions s t) (hopen : s.cursor.Open ts 0) :
    C.Outcomes Q (r.run (C.left.setting slot) s) (q.run (C.right.setting slot') t) :=
  h _ _ hst.cursor hopen slot slot' s t hslot hst rfl rfl

theorem within {f g : Slot → Slot} (h : C.AgreesIn ts r q Q)
    (hfg : ∀ slot slot', C.Slots slot slot' → C.Slots (f slot) (g slot')) :
    C.AgreesIn ts (within f r) (within g q) Q := by
  intro c d hcd hopen slot slot' s t hslot hst hs ht
  exact h c d hcd hopen _ _ s t (hfg _ _ hslot) hst hs ht

theorem delimited (h : C.AgreesIn ts r q Q) :
    C.AgreesIn ts (delimited r) (Reading.delimited q) Q :=
  h.within fun _ _ hslot => ⟨rfl, hslot.usage⟩

theorem ite {p q : Prop} [Decidable p] [Decidable q] (hpq : p ↔ q) {r r' s s' : Reading α}
    (hyes : p → C.AgreesIn ts r s Q) (hno : ¬p → C.AgreesIn ts r' s' Q) :
    C.AgreesIn ts (if p then r else r') (if q then s else s') Q :=
  fun c d hcd hopen => agree_ite hpq (fun hp => hyes hp c d hcd hopen) fun hp => hno hp c d hcd hopen

variable [C.Lawful]

/-- Goes on with the parentheses that were open. -/
theorem bind (h : C.AgreesIn ts r q P) (hr : r.Balances)
    (hfg : ∀ a b, P a b → C.AgreesIn ts (f a) (g b) R) :
    C.AgreesIn ts (r >>= f) (q >>= g) R := by
  intro c d hcd hopen slot slot' s t hslot hst hs ht
  subst hs ht
  refine (h.run hslot hst hopen).andThen (bind_onward r f _ s) (bind_onward q g _ t)
    fun a b s' t' hab hst' hok => ?_
  exact (hfg a b hab).run hslot hst' (hr.open_of_ok (Lawful.eof hst.cursor) hopen hok)

/-- Goes on where it does not matter any more which parentheses are open. -/
theorem bind_agrees (h : C.AgreesIn ts r q P) (hfg : ∀ a b, P a b → C.Agrees (f a) (g b) R) :
    C.AgreesIn ts (r >>= f) (q >>= g) R :=
  fun c d hcd hopen => agree_bind (h c d hcd hopen) hfg

theorem loop {f g : α → Reading (Round α)}
    (h : ∀ a b, Q a b → C.AgreesIn ts (f a) (g b) (Round.Rel Q)) (hf : ∀ a, (f a).Balances)
    {a b : α} (hab : Q a b) : C.AgreesIn ts (loop f a) (Reading.loop g b) Q := by
  intro c d hcd hopen slot slot' s t hslot hst hs ht
  subst hs ht
  refine outcomes_runLoop (fun s => s.cursor.eof.kind = .eof ∧ s.cursor.Open ts 0)
    (fun a b s t hab hst hs => (h a b hab).run hslot hst hs.2) (fun a s x t hs hok => ?_)
    hab hst ⟨Lawful.eof hst.cursor, hopen⟩
  obtain ⟨-, -, -, -, heof⟩ := ((f a).onward _ s).cursor
  rw [hok] at heof
  exact ⟨heof ▸ hs.1, (hf a).open_of_ok hs.1 hs.2 hok⟩

theorem loop_bind {f g : α → Reading (Round α)} {f' g' : α → Reading β}
    (h : ∀ a b, P a b → C.AgreesIn ts (f a) (g b) (Round.Rel P)) (hf : ∀ a, (f a).Balances)
    {a b : α} (hab : P a b) (hfg : ∀ a b, P a b → C.AgreesIn ts (f' a) (g' b) R) :
    C.AgreesIn ts (Reading.loop f a >>= f') (Reading.loop g b >>= g') R :=
  (AgreesIn.loop h hf hab).bind (balances_loop hf a) hfg

end AgreesIn

/-! ## Closing parentheses -/

section Inside

variable [C.Lawful] (hin : C.Inside ts)

include hin

omit [C.Lawful] in
theorem agreesIn_sees_bind {f g : Bool → Reading α}
    (hyes : ∀ c d, C.cursors c d → c.kind = .mark .rightParen → C.Agree c d (f true) (g true) Q)
    (hno : C.AgreesIn ts (f false) (g false) Q) :
    C.AgreesIn ts (sees (.mark .rightParen) >>= f) (sees (.mark .rightParen) >>= g) Q := by
  intro c d hcd hopen slot slot' s t hslot hst hs ht
  have hd : decide (d.kind = .mark .rightParen) = decide (c.kind = .mark .rightParen) :=
    decide_eq_decide.mpr (hin c d hcd hopen).symm
  subst hs ht
  simp only [sees, kind, cursor, asks, run_bind, run_pure, Outcome.andThen_ok, hd]
  by_cases hc : s.cursor.kind = .mark .rightParen
  · rw [decide_eq_true hc]
    exact hyes _ _ hcd hc slot slot' s t hslot hst rfl rfl
  · rw [decide_eq_false hc]
    exact hno.run hslot hst hopen

/-- Either a parenthesis is closed or nothing is read. -/
theorem agreesIn_accept_bind {f g : Bool → Reading α} (hyes : C.Agrees (f true) (g true) Q)
    (hno : C.AgreesIn ts (f false) (g false) Q) :
    C.AgreesIn ts (accept (.mark .rightParen) >>= f) (accept (.mark .rightParen) >>= g) Q := by
  have hsplit : C.AgreesIn ts
      (sees (.mark .rightParen) >>= fun found => if found then advance >>= fun _ => f true else f false)
      (sees (.mark .rightParen) >>= fun found => if found then advance >>= fun _ => g true else g false)
      Q :=
    agreesIn_sees_bind hin (fun c d hcd hc => agree_advance_bind hcd (ne_eof_of_kind rfl hc)
      fun _ _ _ => hyes) hno
  intro c d hcd hopen slot slot' s t hslot hst hs ht
  rw [run_accept_bind, run_accept_bind]
  exact hsplit c d hcd hopen slot slot' s t hslot hst hs ht

theorem agreesIn_expect :
    C.AgreesIn ts (expect (.mark .rightParen)) (expect (.mark .rightParen)) C.marks :=
  agreesIn_sees_bind hin (fun _ _ hcd hc => agree_advance hcd (ne_eof_of_kind rfl hc))
    fun _ _ hcd _ => agree_unexpected hcd _

theorem agreesIn_separated (hr : r.Balances) (h : C.Agrees r q Q) :
    C.AgreesIn ts (separated (.mark .rightParen) r) (separated (.mark .rightParen) q)
      (List.Forall₂ Q) := by
  refine (AgreesIn.loop (Q := Lists Q) (fun as bs has => ?_) (fun as => ?_) .nil).bind_agrees
    fun _ _ has => agrees_pure has
  · refine agreesIn_sees_bind hin (fun _ _ _ _ => agree_pure (.done has)) (Agrees.within ?_ ts)
    refine agrees_bind h fun a b hab => agrees_accept_bind rfl ?_ ?_
    · exact agrees_pure (.more (has.push hab))
    · exact agrees_pure (.done (has.push hab))
  · refine (balances_sees _).bind fun _ => .ite (fun _ => balances_pure _) fun _ => ?_
    refine hr.bind fun _ => (balances_accept rfl).bind fun _ => ?_
    exact .ite (fun _ => balances_pure _) fun _ => balances_pure _

end Inside

/-! ## Opening parentheses -/

section Opening

variable [C.Lawful]

/-- Reads an opening parenthesis, and goes on until it is closed. -/
theorem agree_opening_bind (hcd : C.cursors c d) (hc : c.kind = .mark .leftParen)
    {f g : Span → Reading α}
    (h : ∀ ts, C.Inside ts → ∀ s t, C.marks s t → C.AgreesIn ts (f s) (g t) Q) :
    C.Agree c d (advance >>= f) (advance >>= g) Q := by
  have hne := ne_eof_of_kind rfl hc
  refine agree_advance_at hcd hne fun s t hst => ?_
  exact h _ (Lawful.inside hcd hc) s t hst _ _ (Lawful.advance hcd hne) (.start _)

theorem agrees_expect_opening_bind {f g : Span → Reading α}
    (h : ∀ ts, C.Inside ts → ∀ s t, C.marks s t → C.AgreesIn ts (f s) (g t) Q) :
    C.Agrees (expect (.mark .leftParen) >>= f) (expect (.mark .leftParen) >>= g) Q := by
  have hrun (f : Span → Reading α) (setting : Setting) (s : Session) :
      (expect (.mark .leftParen) >>= f).run setting s = (sees (.mark .leftParen) >>= fun found =>
        if found then advance >>= f else unexpected "`(`").run setting s := by
    simp only [expect, sees, kind, cursor, asks, run_bind, run_pure, Outcome.andThen_ok]
    split <;> rfl
  intro c d hcd slot slot' s t hslot hst hs ht
  rw [hrun, hrun]
  refine agree_sees_bind hcd rfl (agree_ite .rfl (fun hc => ?_) fun _ => ?_) slot slot' s t hslot hst
    hs ht
  · exact agree_opening_bind hcd (of_decide_eq_true hc) h
  · exact agree_unexpected hcd _

/-- If there is an opening parenthesis, reads it and goes on until it is closed. -/
theorem agrees_accept_opening_bind {f g : Bool → Reading α}
    (hyes : ∀ ts, C.Inside ts → C.AgreesIn ts (f true) (g true) Q)
    (hno : C.Agrees (f false) (g false) Q) :
    C.Agrees (accept (.mark .leftParen) >>= f) (accept (.mark .leftParen) >>= g) Q := by
  intro c d hcd slot slot' s t hslot hst hs ht
  rw [run_accept_bind, run_accept_bind]
  refine agree_sees_bind hcd rfl (agree_ite .rfl (fun hc => ?_) fun _ => ?_) slot slot' s t hslot hst
    hs ht
  · exact agree_opening_bind hcd (of_decide_eq_true hc) fun ts hin _ _ _ => hyes ts hin
  · exact hno c d hcd

end Opening

end Comparison

end BendSyntax
