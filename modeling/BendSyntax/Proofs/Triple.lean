import BendSyntax.Proofs.Progress

/-! What holds behind a reading, given what holds in front of it. An invariant holds in front of
every reading and behind it, whether it succeeds or not, also once its failure is reported; the
conditions of a triple come on top of it. -/

namespace BendSyntax

open Reading

/-- A condition on sessions that does not depend on remembered failures or on what an error says,
and that holds when an error at the cursor is reported. It holds again where a session goes back. -/
class Steady (inv : Session → Prop) : Prop where
  complain {s : Session} {e : SyntaxError} : inv s → e.span = s.cursor.span → inv (s.report e)
  restate {s : Session} {e f : SyntaxError} : inv (s.report e) → f.span = e.span → inv (s.report f)
  remember {s : Session} (failure : Failure) : inv s → inv (s.remember failure)
  rewind {s t : Session} : inv s → inv t → s.Onward t → inv (t.rewind s)
  discard {s t : Session} : inv s → inv t → s.Onward t → inv (t.discard s)

/-- A condition that holds on however far the tokens are read. -/
class Invariant (inv : Session → Prop) : Prop extends Steady inv where
  advance {s : Session} : inv s → inv { s with cursor := s.cursor.advance }
  halve {s : Session} : inv s → s.cursor.kind = .mark .shiftRight →
    inv { s with cursor := s.cursor.halve }
  whole {s : Session} : inv s → inv { s with cursor := s.cursor.whole }

/-- The session at the end of a reading, in which a failure has been reported. -/
def Outcome.settled {α : Type} : Outcome α → Session
  | ok _ s => s
  | error e s => s.report e

/-- From sessions where `P` holds, a reading keeps the invariant, and `Q` holds of its answer and
where it leaves off. -/
def Triple (inv P : Session → Prop) {α : Type} (r : Reading α) (Q : α → Session → Prop) : Prop :=
  ∀ setting s, inv s → P s → inv (r.run setting s).settled ∧
    ∀ a t, r.run setting s = .ok a t → Q a t

/-- A reading keeps the invariant. -/
abbrev Maintains (inv : Session → Prop) {α : Type} (r : Reading α) : Prop :=
  Triple inv (fun _ => True) r fun _ _ => True

/-- A condition that is not lost by reading on. -/
def Lasting (K : Session → Prop) : Prop := ∀ s t : Session, s.Onward t → K s → K t

/-- A condition that is not lost by going on at the same place. -/
def Local (K : Session → Prop) : Prop :=
  ∀ s t : Session, s.Onward t → t.cursor = s.cursor → K s → K t

/-- What a round comes to: where it is the last one `done` holds, and where the loop may go on
`going` holds as well. -/
def Reading.Round.Meets {α : Type} (going done : α → Session → Prop) : Round α → Session → Prop
  | .more a, s => going a s ∧ done a s
  | .done a, s => done a s

namespace Triple

variable {α β : Type} {inv P P' K : Session → Prop} {r : Reading α} {f : α → Reading β}
  {Q Q' : α → Session → Prop} {R : β → Session → Prop} {p : α → Prop}

/-! ## Composition -/

theorem weaken (h : Triple inv P r Q) (hP : ∀ s, P' s → P s) (hQ : ∀ a s, Q a s → Q' a s) :
    Triple inv P' r Q' := by
  intro setting s hs hP'
  obtain ⟨hinv, hanswer⟩ := h setting s hs (hP s hP')
  exact ⟨hinv, fun a t ht => hQ a t (hanswer a t ht)⟩

theorem mono (h : Triple inv P r Q) (hP : ∀ s, P' s → P s) : Triple inv P' r Q :=
  h.weaken hP fun _ _ hQ => hQ

theorem anywhere (h : Triple inv (fun _ => True) r Q) : Triple inv P r Q := h.mono fun _ _ => trivial

theorem forget (h : Triple inv P r Q) : Triple inv P r fun _ _ => True :=
  h.weaken (fun _ hP => hP) fun _ _ _ => trivial

/-- What holds whatever the session is need not be carried along. -/
theorem extract {φ : Prop} (hφ : ∀ s, P s → φ) (h : φ → Triple inv P r Q) : Triple inv P r Q :=
  fun setting s hs hP => h (hφ s hP) setting s hs hP

theorem bind (h : Triple inv P r Q) (hf : ∀ a, Triple inv (Q a) (f a) R) :
    Triple inv P (r >>= f) R := by
  intro setting s hs hP
  obtain ⟨hinv, hanswer⟩ := h setting s hs hP
  rw [run_bind]
  cases hr : r.run setting s with
  | ok a t =>
      rw [hr] at hinv
      exact hf a setting t hinv (hanswer a t hr)
  | error e t =>
      rw [hr] at hinv
      exact ⟨hinv, fun b u hu => by cases hu⟩

/-- Goes on with what is known of the answer itself. -/
theorem given (h : Triple inv P r fun a _ => p a)
    (hf : ∀ a, p a → Triple inv (fun _ => True) (f a) R) : Triple inv P (r >>= f) R :=
  h.bind fun a setting s hs ha => hf a ha setting s hs trivial

/-- What was known before is still known behind a reading. -/
theorem frame (hK : Lasting K) (h : Triple inv P r Q) :
    Triple inv (fun s => P s ∧ K s) r fun a s => Q a s ∧ K s := by
  intro setting s hs hP
  obtain ⟨hinv, hanswer⟩ := h setting s hs hP.1
  exact ⟨hinv, fun a t ht => ⟨hanswer a t ht, hK s t (onward_of_ok ht) hP.2⟩⟩

/-- Goes on with what was known before and with what the reading came to. -/
theorem acrossWith (hK : Lasting K) (h : Triple inv (fun _ => True) r Q)
    (hf : ∀ a, Triple inv (fun s => Q a s ∧ K s) (f a) R) : Triple inv K (r >>= f) R :=
  ((h.frame hK).mono fun _ hKs => ⟨trivial, hKs⟩).bind hf

/-- Goes on with what was known before and with what is known of the answer itself. -/
theorem acrossGiven (hK : Lasting K) (h : Triple inv (fun _ => True) r fun a _ => p a)
    (hf : ∀ a, p a → Triple inv K (f a) R) : Triple inv K (r >>= f) R :=
  acrossWith hK h fun a => extract (fun _ hs => hs.1) fun ha => (hf a ha).mono fun _ hs => hs.2

/-- Goes on with what was known before. -/
theorem across (hK : Lasting K) (h : Maintains inv r) (hf : ∀ a, Triple inv K (f a) R) :
    Triple inv K (r >>= f) R :=
  acrossGiven hK h fun a _ => hf a

theorem asks {g : Setting → Session → α} (h : ∀ setting s, inv s → P s → Q (g setting s) s) :
    Triple inv P (asks g) Q := by
  intro setting s hs hP
  refine ⟨hs, ?_⟩
  rintro a t ⟨⟩
  exact h setting s hs hP

theorem pure {a : α} (h : ∀ s, P s → Q a s) : Triple inv P (Pure.pure a) Q :=
  asks fun _ s _ hP => h s hP

theorem map {g : α → β} (h : Triple inv P r fun a => R (g a)) : Triple inv P (g <$> r) R :=
  h.bind fun _ => .pure fun _ hR => hR

theorem fail {e : SyntaxError} (h : ∀ s, inv s → P s → inv (s.report e)) :
    Triple inv P (Reading.fail e) Q := by
  intro setting s hs hP
  refine ⟨h s hs hP, ?_⟩
  rintro a t ⟨⟩

theorem ite {c : Prop} [Decidable c] {r' : Reading α} (hyes : c → Triple inv P r Q)
    (hno : ¬c → Triple inv P r' Q) : Triple inv P (if c then r else r') Q := by
  split
  · exact hyes ‹_›
  · exact hno ‹_›

theorem within {g : Slot → Slot} (h : Triple inv P r Q) : Triple inv P (Reading.within g r) Q :=
  fun setting s hs hP => h { setting with slot := g setting.slot } s hs hP

theorem withUsage {usage : Usage} (h : Triple inv P r Q) :
    Triple inv P (Reading.withUsage usage r) Q := h.within

theorem delimited (h : Triple inv P r Q) : Triple inv P (Reading.delimited r) Q := h.within

/-! ## Tokens -/

theorem ask {g : Setting → Session → α} : Triple inv P (Reading.asks g) fun _ _ => True :=
  asks fun _ _ _ _ => trivial

theorem cursor : Triple inv P cursor fun c s => s.cursor = c ∧ P s := asks fun _ _ _ hP => ⟨rfl, hP⟩

theorem kind_eq : Triple inv P kind fun k s => s.cursor.kind = k ∧ P s :=
  cursor.bind fun _ => .pure fun _ h => ⟨congrArg Cursor.kind h.1, h.2⟩

theorem kind : Triple inv P kind fun _ => P := kind_eq.weaken (fun _ h => h) fun _ _ h => h.2

theorem here_eq : Triple inv P here fun span s => s.cursor.span = span ∧ P s :=
  cursor.bind fun _ => .pure fun _ h => ⟨congrArg Cursor.span h.1, h.2⟩

theorem here : Triple inv P here fun _ => P := here_eq.weaken (fun _ h => h) fun _ _ h => h.2

theorem sees_iff (k : TokenKind) :
    Triple inv P (sees k) fun seen s => (seen = true ↔ s.cursor.kind = k) ∧ P s := by
  intro setting s hs hP
  refine ⟨hs, ?_⟩
  rintro seen t ⟨⟩
  exact ⟨decide_eq_true_iff, hP⟩

theorem sees (k : TokenKind) : Triple inv P (sees k) fun _ _ => True := (sees_iff k).forget

theorem unexpected [Steady inv] (what : String) : Triple inv P (unexpected what) Q :=
  cursor.bind fun _ => .fail fun _ hs h => Steady.complain hs (congrArg Cursor.span h.1.symm)

theorem refuse [Steady inv] : Triple inv P Grammar.refuse Q :=
  ask.bind fun _ => here_eq.bind fun _ => .fail fun _ hs h => Steady.complain hs h.1.symm

theorem require [Steady inv] (condition : Bool) (what : String) :
    Triple inv P (require condition what) fun _ _ => condition = true :=
  .ite (fun h => .pure fun _ _ => h) fun _ => .unexpected what

theorem since (start : Span) : Triple inv P (since start) fun _ => P :=
  cursor.bind fun _ => .pure fun _ h => h.2

section Tokens

variable [Invariant inv]

theorem advance : Triple inv P advance fun _ _ => True :=
  fun _ _ hs _ => ⟨Invariant.advance hs, fun _ _ _ => trivial⟩

theorem halve : Triple inv (fun s => s.cursor.kind = .mark .shiftRight) halve fun _ _ => True :=
  fun _ _ hs hkind => ⟨Invariant.halve hs hkind, fun _ _ _ => trivial⟩

/-- A token that is not read is of another kind. -/
theorem accept_else (k : TokenKind) :
    Triple inv P (accept k) fun found s => found = false → s.cursor.kind ≠ k ∧ P s := by
  refine (sees_iff k).bind fun seen => .ite (fun _ => ?_) fun hseen => .pure fun s h _ => ?_
  · exact advance.bind fun _ => .pure fun _ _ => nofun
  · exact ⟨fun hkind => hseen (h.1.mpr hkind), h.2⟩

theorem accept (k : TokenKind) : Triple inv P (accept k) fun _ _ => True := (accept_else k).forget

theorem expect (k : TokenKind) : Triple inv P (expect k) fun _ _ => True :=
  (sees k).bind fun _ => .ite (fun _ => advance) fun _ => .unexpected _

theorem identifier : Triple inv P identifier fun _ _ => True :=
  cursor.bind fun _ => .ite (fun _ => advance.bind fun _ => .pure fun _ _ => trivial) fun _ =>
    .unexpected _

theorem closeAngle : Triple inv P closeAngle fun _ _ => True := by
  refine kind_eq.bind fun k => ?_
  split
  · exact advance.bind fun _ => .pure fun _ _ => trivial
  · exact halve.mono fun _ h => h.1
  · exact .unexpected _

theorem skipTokens (n : Nat) : Triple inv P (Grammar.skipTokens n) fun _ _ => True := by
  induction n generalizing P with
  | zero => exact .pure fun _ _ => trivial
  | succ n ih => exact advance.bind fun _ => ih

theorem whole (h : Triple inv (fun _ => True) r Q) : Triple inv P (whole r) Q :=
  fun setting _ hs _ => h setting _ (Invariant.whole hs) trivial

end Tokens

/-! ## Loops -/

section Loops

variable {I D : α → Session → Prop} {step : α → Reading (Round α)}

/-- What every round hands on to the next one holds in the end. -/
theorem loop (h : ∀ a, Triple inv (I a) (step a) (Round.Meets I D)) (a : α) :
    Triple inv (I a) (loop step a) D := by
  intro setting s hs hI
  change inv (runLoop step setting a s).settled ∧
    ∀ b t, runLoop step setting a s = .ok b t → D b t
  fun_induction runLoop with
  | case1 a s b now hstep =>
      obtain ⟨hinv, hmeets⟩ := h a setting s hs hI
      rw [hstep] at hinv
      refine ⟨hinv, ?_⟩
      rintro _ _ ⟨⟩
      exact hmeets _ _ hstep
  | case2 a s b now hstep hlt ih =>
      obtain ⟨hinv, hmeets⟩ := h a setting s hs hI
      rw [hstep] at hinv
      exact ih hinv (hmeets _ _ hstep).1
  | case3 a s b now hstep hge =>
      obtain ⟨hinv, hmeets⟩ := h a setting s hs hI
      rw [hstep] at hinv
      refine ⟨hinv, ?_⟩
      rintro _ _ ⟨⟩
      exact (hmeets _ _ hstep).2
  | case4 a s e now hstep =>
      obtain ⟨hinv, -⟩ := h a setting s hs hI
      rw [hstep] at hinv
      exact ⟨hinv, fun b t ht => by cases ht⟩

theorem maintains_loop (h : ∀ a, Maintains inv (step a)) (a : α) :
    Triple inv P (Reading.loop step a) fun _ _ => True := by
  have hround (a : α) : Triple inv (fun _ => True) (step a)
      (Round.Meets (fun _ _ => True) fun _ _ => True) := by
    refine (h a).weaken (fun _ _ => trivial) fun round s _ => ?_
    cases round with
    | more b => exact ⟨trivial, trivial⟩
    | done b => trivial
  exact (loop hround a).anywhere

end Loops

section Lists

variable {more : Reading Bool}

/-- Every item that is collected is as it was read. -/
theorem collectWhile (hmore : Maintains inv more)
    (h : Triple inv (fun _ => True) r fun a _ => p a) :
    Triple inv P (collectWhile more r) fun as _ => ∀ a ∈ as, p a := by
  refine bind (.mono (loop (I := fun as _ => ∀ a ∈ as, p a) (D := fun as _ => ∀ a ∈ as, p a)
    (fun as => ?_) #[]) fun _ _ => by simp) fun as => .pure fun _ has => ?_
  · refine extract (fun _ has => has) fun has => hmore.anywhere.bind fun _ => ?_
    refine .ite (fun _ => h.given fun a ha => .pure fun _ _ => ?_) fun _ => .pure fun _ _ => has
    have hall : ∀ b ∈ as.push a, p b := by simpa [or_imp, forall_and] using ⟨has, ha⟩
    exact ⟨hall, hall⟩
  · simpa using has

/-- At least one item is collected, and every one is as it was read. -/
theorem collectThrough (h : Triple inv (fun _ => True) r fun a _ => p a)
    (hmore : Maintains inv more) :
    Triple inv P (collectThrough r more) fun as _ => as ≠ [] ∧ ∀ a ∈ as, p a := by
  refine bind (.mono (loop (I := fun as _ => ∀ a ∈ as, p a)
    (D := fun as _ => as ≠ #[] ∧ ∀ a ∈ as, p a) (fun as => ?_) #[]) fun _ _ => by simp)
    fun as => .pure fun _ has => ?_
  · refine extract (fun _ has => has) fun has => h.anywhere.given fun a ha => hmore.bind fun _ => ?_
    have hall : ∀ b ∈ as.push a, p b := by simpa [or_imp, forall_and] using ⟨has, ha⟩
    exact .ite (fun _ => .pure fun _ _ => ⟨hall, by simp, hall⟩) fun _ => .pure fun _ _ =>
      ⟨by simp, hall⟩
  · simpa using has

theorem oneUpTo (stop : TokenKind) (h : Triple inv (fun _ => True) r fun a _ => p a) :
    Triple inv P (oneUpTo stop r) fun as _ => as ≠ [] ∧ ∀ a ∈ as, p a :=
  collectThrough h ((sees stop).bind fun _ => .pure fun _ _ => trivial)

variable [Invariant inv]

theorem commaList (h : Triple inv (fun _ => True) r fun a _ => p a) :
    Triple inv P (commaList r) fun as _ => as ≠ [] ∧ ∀ a ∈ as, p a :=
  collectThrough h (accept _)

theorem separated (bracket : TokenKind) (h : Triple inv (fun _ => True) r fun a _ => p a) :
    Triple inv P (separated bracket r) fun as _ => ∀ a ∈ as, p a := by
  refine bind (.mono (loop (I := fun as _ => ∀ a ∈ as, p a) (D := fun as _ => ∀ a ∈ as, p a)
    (fun as => ?_) #[]) fun _ _ => by simp) fun as => .pure fun _ has => by simpa using has
  refine extract (fun _ has => has) fun has => (sees bracket).bind fun _ =>
    .ite (fun _ => .pure fun _ _ => has) fun _ => h.given fun a ha => (accept _).bind fun _ => ?_
  have hall : ∀ b ∈ as.push a, p b := by simpa [or_imp, forall_and] using ⟨has, ha⟩
  exact .ite (fun _ => .pure fun _ _ => ⟨hall, hall⟩) fun _ => .pure fun _ _ => hall

/-- Where the list is not over at once there is an item. -/
theorem separated_some (bracket : TokenKind) (h : Maintains inv r) :
    Triple inv (fun s => s.cursor.kind ≠ bracket) (Reading.separated bracket r)
      fun as _ => as ≠ [] := by
  refine bind (.mono (loop (I := fun as s => as = #[] → s.cursor.kind ≠ bracket)
    (D := fun as _ => as ≠ #[]) (fun as => ?_) #[]) fun _ hkind _ => hkind)
    fun as => .pure fun _ has => ?_
  · refine (sees_iff bracket).bind fun seen => .ite (fun hseen => ?_) fun _ => ?_
    · exact .pure fun s hs hempty => hs.2 hempty (hs.1.mp hseen)
    · refine h.anywhere.bind fun a => (accept _).bind fun _ => ?_
      exact .ite (fun _ => .pure fun _ _ => ⟨by simp, by simp⟩) fun _ => .pure fun _ _ =>
        by simp [Round.Meets]
  · simpa using has

end Lists

/-! ## Attempts -/

section Attempts

variable {r : Reading (Option α)} {Q : Option α → Session → Prop} {p : Option α → Prop}
  [Steady inv]

/-- Whether a failure has been reported does not matter where a session goes back. -/
theorem keeps_rewind {α : Type} {s : Session} {o : Outcome α} (hs : inv s) (ho : inv o.settled)
    (honward : s.Onward o.session) : inv (o.session.rewind s) := by
  cases o with
  | ok a t => exact Steady.rewind hs ho honward
  | error e t =>
      have hreport : s.Onward (t.report e) := honward.trans (.report t e)
      have hback : inv ((t.report e).rewind s) := Steady.rewind hs ho hreport
      have hsame : (t.report e).diagnostics.take s.diagnostics.size =
          t.diagnostics.take s.diagnostics.size :=
        hreport.diagnostics_rewind.trans honward.diagnostics_rewind.symm
      simp only [Session.rewind, hsame] at hback
      exact hback

theorem keeps_retracted {s : Session} {o : Outcome (Option α)} (hs : inv s) (ho : inv o.settled)
    (honward : s.Onward o.session) : inv (o.retracted s).settled := by
  have hback := keeps_rewind hs ho honward
  match o with
  | .ok (some a) t => exact ho
  | .ok none t => exact hback
  | .error e t =>
      simp only [Outcome.retracted]
      split
      · exact ho
      · exact hback

/-- What comes to nothing leaves nothing behind. -/
theorem speculate_of (h : Triple inv P r fun found s => ∀ a ∈ found, Q (some a) s)
    (hnone : ∀ s t, P s → s.Onward t → t.cursor = s.cursor → Q none t) :
    Triple inv P (speculate r) Q := by
  intro setting s hs hP
  obtain ⟨hinv, hanswer⟩ := h setting s hs hP
  refine ⟨keeps_retracted hs hinv (r.onward setting s), fun a t ht => ?_⟩
  cases a with
  | none => exact hnone s t hP (onward_of_ok ht) (stays_of_speculate ht).1
  | some a => exact hanswer _ _ (Outcome.eq_of_retracted ht) a rfl

theorem speculate (h : Triple inv (fun _ => True) r fun a _ => p a) (hnone : p none) :
    Triple inv P (speculate r) fun a _ => p a :=
  anywhere <| speculate_of (h.weaken (fun _ hP => hP) fun _ _ ha _ hfound => hfound ▸ ha)
    fun _ _ _ _ _ => hnone

theorem remember (failure : Failure) : Triple inv P (remember failure) fun _ _ => True :=
  fun _ _ hs _ => ⟨Steady.remember failure hs, fun _ _ _ => trivial⟩

theorem attempt_of (what : Attempt) (h : Triple inv P r fun found s => ∀ a ∈ found, Q (some a) s)
    (hnone : ∀ s t, P s → s.Onward t → t.cursor = s.cursor → Q none t) :
    Triple inv P (attempt what r) Q := by
  intro setting s hs hP
  obtain ⟨hinv, hanswer⟩ := h setting s hs hP
  have hretracted := keeps_retracted hs hinv (r.onward setting s)
  constructor
  · rw [run_attempt]
    dsimp only
    split
    · exact Steady.remember _ hs
    · cases hr : (r.run setting s).retracted s with
      | error e t =>
          rw [hr] at hretracted
          exact hretracted
      | ok answer t =>
          rw [hr] at hretracted
          cases answer with
          | none => exact Steady.remember _ hretracted
          | some a => exact hretracted
  · intro a t ht
    cases a with
    | none => exact hnone s t hP (onward_of_ok ht) (stays_of_attempt ht).1
    | some a => exact hanswer _ _ (ok_of_attempt ht) a rfl

theorem attempt (what : Attempt) (h : Triple inv (fun _ => True) r fun a _ => p a)
    (hnone : p none) : Triple inv P (attempt what r) fun a _ => p a :=
  anywhere <| attempt_of what (h.weaken (fun _ hP => hP) fun _ _ ha _ hfound => hfound ▸ ha)
    fun _ _ _ _ _ => hnone

theorem keeps_tested {α : Type} {s : Session} {o : Outcome α} (hs : inv s) (ho : inv o.settled)
    (honward : s.Onward o.session) : inv (o.tested s).settled := by
  have hback := keeps_rewind hs ho honward
  cases o with
  | ok a t => exact hback
  | error e t =>
      simp only [Outcome.tested]
      split
      · exact ho
      · exact hback

/-- A test leaves the cursor where it is. -/
theorem succeeds {r : Reading α} (hK : Local K) (h : Triple inv K r fun _ _ => True) :
    Triple inv K (succeeds r) fun _ => K := by
  intro setting s hs hKs
  have honward := r.onward setting s
  refine ⟨keeps_tested hs (h setting s hs hKs).1 honward, fun a t ht => ?_⟩
  have hback : t = (r.run setting s).session.rewind s := Outcome.eq_rewind_of_tested ht
  rw [hback]
  exact hK s _ honward.rewind rfl hKs

omit [Steady inv] in
theorem reported {r : Reading α} {p : α → Prop}
    (h : Triple inv P r fun a _ => p a) :
    Triple inv P (reported r) fun found _ => ∀ a, found = some a → p a := by
  intro setting s hs hP
  obtain ⟨hinv, hanswer⟩ := h setting s hs hP
  refine ⟨?_, fun found t ht a hfound => ?_⟩
  · change inv (r.run setting s).reported.settled
    cases hr : r.run setting s with
    | ok a t =>
        rw [hr] at hinv
        exact hinv
    | error e t =>
        rw [hr] at hinv
        exact hinv
  · subst hfound
    exact hanswer a t (ok_of_reported ht)

theorem recovering {describe : SyntaxError → SyntaxError} {handler r : Reading α} {p : α → Prop}
    (hdescribe : ∀ e, (describe e).span = e.span) (h : Triple inv P r fun a _ => p a)
    (hhandler : Triple inv (fun _ => True) handler fun a _ => p a) :
    Triple inv P (recovering describe handler r) fun a _ => p a := by
  intro setting s hs hP
  obtain ⟨hinv, hanswer⟩ := h setting s hs hP
  have honward := r.onward setting s
  have hrun : (Reading.recovering describe handler r).run setting s =
      (r.run setting s).recovered setting.config.recover describe s (handler.run setting) := rfl
  rw [hrun]
  cases hr : r.run setting s with
  | ok a t =>
      rw [hr] at hinv hanswer
      exact ⟨hinv, hanswer⟩
  | error e t =>
      rw [hr] at hinv honward
      cases setting.config.recover with
      | true =>
          have hdiscard : inv ((t.report e).discard s) :=
            Steady.discard hs hinv (honward.trans (.report t e))
          have hresumed : inv ((t.discard s).report (describe e)) :=
            Steady.restate (s := t.discard s) (e := e) hdiscard (hdescribe e)
          exact hhandler setting _ hresumed trivial
      | false => exact ⟨Steady.restate hinv (hdescribe e), fun b u hu => by cases hu⟩

end Attempts

end Triple

/-! ## Conditions that are preserved -/

/-- A reading preserves a condition along with the invariant. -/
abbrev Preserves (inv K : Session → Prop) {α : Type} (r : Reading α) : Prop :=
  Triple inv K r fun _ => K

namespace Preserves

variable {α β : Type} {inv K : Session → Prop} {r : Reading α} {more : Reading Bool}

theorem asks {g : Setting → Session → α} : Preserves inv K (Reading.asks g) :=
  Triple.asks fun _ _ _ hK => hK

theorem pure {a : α} : Preserves inv K (Pure.pure a) := asks

theorem bind {f : α → Reading β} (h : Preserves inv K r) (hf : ∀ a, Preserves inv K (f a)) :
    Preserves inv K (r >>= f) :=
  Triple.bind h hf

theorem map {g : α → β} (h : Preserves inv K r) : Preserves inv K (g <$> r) := Triple.map h

theorem sees (k : TokenKind) : Preserves inv K (sees k) :=
  (Triple.sees_iff k).weaken (fun _ hK => hK) fun _ _ h => h.2

theorem loop {step : α → Reading (Round α)} (h : ∀ a, Preserves inv K (step a)) (a : α) :
    Preserves inv K (loop step a) := by
  refine Triple.loop (I := fun _ => K) (fun a => (h a).weaken (fun _ hK => hK) fun round s hK => ?_) a
  cases round with
  | more b => exact ⟨hK, hK⟩
  | done b => exact hK

theorem collectWhile (hmore : Preserves inv K more) (h : Preserves inv K r) :
    Preserves inv K (collectWhile more r) :=
  (loop (fun _ => hmore.bind fun _ => .ite (fun _ => h.bind fun _ => pure) fun _ => pure) _).bind
    fun _ => pure

theorem collectThrough (h : Preserves inv K r) (hmore : Preserves inv K more) :
    Preserves inv K (collectThrough r more) :=
  (loop (fun _ => h.bind fun _ => hmore.bind fun _ => .ite (fun _ => pure) fun _ => pure) _).bind
    fun _ => pure

theorem oneUpTo (stop : TokenKind) (h : Preserves inv K r) : Preserves inv K (oneUpTo stop r) :=
  h.collectThrough ((sees stop).bind fun _ => pure)

theorem commaList (h : Preserves inv K r) (hcomma : Preserves inv K (accept (.mark .comma))) :
    Preserves inv K (commaList r) :=
  h.collectThrough hcomma

theorem separated (bracket : TokenKind) (h : Preserves inv K r)
    (hcomma : Preserves inv K (accept (.mark .comma))) : Preserves inv K (separated bracket r) := by
  refine (loop (fun _ => (sees bracket).bind fun _ => .ite (fun _ => pure) fun _ => ?_) _).bind
    fun _ => pure
  exact h.bind fun _ => hcomma.bind fun _ => .ite (fun _ => pure) fun _ => pure

end Preserves

/-- An error in the last form of a definition is where the error of the form is. -/
theorem span_noDefinition (e : SyntaxError) : (Grammar.noDefinition e).span = e.span := by
  unfold Grammar.noDefinition
  split <;> rfl

end BendSyntax
