import BendSyntax.Proofs.Layout.Climbing
import BendSyntax.Proofs.Layout.Terms

/-! The node of an expression is the last term that was added, and it reaches from the first token
of the expression to the last one. Its span can therefore be extended over parentheses around it:
no other node has it as a child yet. -/

namespace BendSyntax

open Reading Grammar

/-- A term is the last one that was added. -/
def Session.Top (s : Session) (id : TermId) : Prop := id.index + 1 = s.tree.terms.size

/-- The term that was added last, which reaches from a place to the last token that was read. -/
structure Session.Closes (s : Session) (start : Span) (id : TermId) : Prop where
  top : s.Top id
  start : (s.tree.span id).start ≤ start.start
  stop : s.cursor.last.stop ≤ (s.tree.span id).stop

/-- A reading from a session adds terms. The one that its answer names is the last, and reaches
from `start` on. -/
def TopsAt {α : Type} (setting : Setting) (s : Session) (start : Span) (name : α → Option TermId)
    (r : Reading α) : Prop :=
  ∀ a t, r.run setting s = .ok a t →
    ∀ id ∈ name a, s.tree.terms.size < t.tree.terms.size ∧ t.Closes start id

/-- A reading always adds terms, and its answer names the last, which reaches from `start` on. -/
abbrev Tops {α : Type} (start : Span) (name : α → Option TermId) (r : Reading α) : Prop :=
  ∀ setting s, TopsAt setting s start name r

/-- An expression is the last term, and reaches from its first token on. -/
def Deeper.Tops (deep : Deeper) : Prop :=
  ∀ min setting s, TopsAt setting s s.cursor.span some (deep.expr min)

/-- The term that a round ends with. -/
def Reading.Round.term : Round TermId → Option TermId
  | .more id => some id
  | .done id => some id

section Rules

variable {α β : Type} {setting : Setting} {s t : Session} {start : Span} {name : α → Option TermId}
  {name' : β → Option TermId} {r : Reading α}

theorem Session.Closes.addTerm {term : Term TermId PatternId} {span : Span} {usage : Usage}
    (hstart : span.start ≤ start.start) (hstop : s.cursor.last.stop ≤ span.stop) :
    (s.withTerm ⟨term, span, usage⟩).Closes start (s.tree.addTerm ⟨term, span, usage⟩).1 := by
  refine ⟨by simp [Session.Top, Session.withTerm, Tree.addTerm], ?_, ?_⟩
  · simpa [Session.withTerm, Tree.addTerm, Tree.span] using hstart
  · simpa [Session.withTerm, Tree.addTerm, Tree.span] using hstop

/-- It does not matter to the last term what is tried behind it. -/
theorem Session.Closes.stays {id : TermId} (h : s.Closes start id) (hst : s.Onward t)
    (hcursor : t.cursor = s.cursor) (hsize : t.tree.terms.size = s.tree.terms.size) :
    t.Closes start id := by
  have hmem : id.index < s.tree.terms.size := Nat.lt_of_lt_of_eq (Nat.lt_succ_self _) h.top
  obtain ⟨hlower, hupper⟩ : (t.tree.span id).start ≤ (s.tree.span id).start ∧
      (s.tree.span id).stop ≤ (t.tree.span id).stop := by
    simpa [Span.contains] using hst.tree.spans id hmem
  exact ⟨h.top.trans hsize.symm, Nat.le_trans hlower h.start,
    hcursor ▸ Nat.le_trans h.stop hupper⟩

namespace TopsAt

theorem bind {f : α → Reading β}
    (hf : ∀ a t, r.run setting s = .ok a t → TopsAt setting t start name' (f a)) :
    TopsAt setting s start name' (r >>= f) := by
  intro b t h id hid
  obtain ⟨a, u, hr, h⟩ := ok_of_bind h
  obtain ⟨hlt, hcloses⟩ := hf a u hr b t h id hid
  exact ⟨Nat.lt_of_le_of_lt (onward_of_ok hr).tree.size_terms hlt, hcloses⟩

theorem map {f : α → β} (h : TopsAt setting s start name r) (hf : ∀ a, name' (f a) = name a) :
    TopsAt setting s start name' (f <$> r) := by
  intro b t hb id hid
  obtain ⟨a, u, hr, hb⟩ := ok_of_bind (f := fun a => pure (f a)) hb
  cases hb
  exact h a _ hr id (hf a ▸ hid)

theorem ite {c : Prop} [Decidable c] {q : Reading α} (hr : c → TopsAt setting s start name r)
    (hq : ¬c → TopsAt setting s start name q) :
    TopsAt setting s start name (if c then r else q) := by
  split
  · exact hr ‹_›
  · exact hq ‹_›

/-- The cursor is known at a session. -/
theorem cursor {f : Cursor → Reading β} (h : TopsAt setting s start name' (f s.cursor)) :
    TopsAt setting s start name' (Reading.cursor >>= f) := h

theorem here {f : Span → Reading β} (h : TopsAt setting s start name' (f s.cursor.span)) :
    TopsAt setting s start name' (Reading.here >>= f) := h

/-- A term over the first token. -/
theorem leaf (term : Term TermId PatternId) :
    TopsAt setting s s.cursor.span some (advance >>= fun _ => addTerm term s.cursor.span) := by
  rintro id t ⟨⟩ _ ⟨⟩
  refine ⟨by simp, ?_⟩
  exact .addTerm (s := { s with cursor := s.cursor.advance }) (Nat.le_refl _) (by simp)

end TopsAt

namespace Tops

theorem bind {f : α → Reading β} (hf : ∀ a, Tops start name' (f a)) : Tops start name' (r >>= f) :=
  fun setting _ => .bind fun a t _ => hf a setting t

theorem map {f : α → β} (h : Tops start name r) (hf : ∀ a, name' (f a) = name a) :
    Tops start name' (f <$> r) := fun setting s => (h setting s).map hf

theorem ite {c : Prop} [Decidable c] {q : Reading α} (hr : c → Tops start name r)
    (hq : ¬c → Tops start name q) : Tops start name (if c then r else q) :=
  fun setting s => .ite (fun hc => hr hc setting s) fun hc => hq hc setting s

theorem none {a : α} (h : name a = Option.none) : Tops start name (pure a) := by
  rintro setting s _ t ⟨⟩ id hid
  rw [h] at hid
  cases hid

theorem close (term : Term TermId PatternId) : Tops start some (close start term) := by
  rintro setting s id t ⟨⟩ _ ⟨⟩
  refine ⟨by simp, .addTerm ?_ ?_⟩
  · simp
  · simp

theorem unexpected (what : String) : Tops start name (unexpected what) :=
  bind fun _ => fun _ _ _ _ h => nomatch h

end Tops

end Rules

/-- Given the last term, a round ends with the last term. -/
def RoundTops (start : Span) (head : TermId) (r : Reading (Round TermId)) : Prop :=
  ∀ setting s x t, s.Closes start head → r.run setting s = .ok x t → ∀ id ∈ x.term,
    t.Closes start id

namespace RoundTops

variable {α : Type} {start : Span} {head : TermId} {r : Reading (Round TermId)}

theorem of_tops (h : Tops start Round.term r) : RoundTops start head r :=
  fun setting s x t _ hx id hid => (h setting s x t hx id hid).2

theorem done : RoundTops start head (pure (.done head)) := by
  rintro setting s x t hs ⟨⟩ id ⟨⟩
  exact hs

theorem more {r : Reading TermId} (h : Tops start some r) : RoundTops start head (.more <$> r) :=
  of_tops (h.map fun _ => rfl)

theorem asks {g : Setting → Session → α} {f : α → Reading (Round TermId)}
    (h : ∀ a, RoundTops start head (f a)) : RoundTops start head (Reading.asks g >>= f) :=
  fun setting s x t hs hx => h _ setting s x t hs hx

theorem ite {c : Prop} [Decidable c] {q : Reading (Round TermId)} (hr : c → RoundTops start head r)
    (hq : ¬c → RoundTops start head q) : RoundTops start head (if c then r else q) := by
  split
  · exact hr ‹_›
  · exact hq ‹_›

theorem loop {step : TermId → Reading (Round TermId)} (h : ∀ id, RoundTops start id (step id))
    {setting : Setting} {s t : Session} {id : TermId} (hs : s.Closes start head)
    (ht : (Reading.loop step head).run setting s = .ok id t) : t.Closes start id := by
  change runLoop step setting head s = .ok id t at ht
  fun_induction runLoop with
  | case1 a s c now hstep =>
      cases ht
      exact h a _ s _ _ hs hstep _ rfl
  | case2 a s c now hstep hlt ih => exact ih (h a _ s _ _ hs hstep _ rfl) ht
  | case3 a s c now hstep hge =>
      cases ht
      exact h a _ s _ _ hs hstep _ rfl
  | case4 a s e now hstep => cases ht

end RoundTops

/-- Rounds behind a reading that ends with the last term. -/
theorem TopsAt.loop {setting : Setting} {s : Session} {start : Span} {r : Reading TermId}
    {step : TermId → Reading (Round TermId)} (h : TopsAt setting s start some r)
    (hstep : ∀ id, RoundTops start id (step id)) :
    TopsAt setting s start some (r >>= Reading.loop step) := by
  intro id t ht
  obtain ⟨head, u, hr, ht⟩ := ok_of_bind ht
  obtain ⟨hlt, hcloses⟩ := h head u hr head rfl
  rintro _ ⟨⟩
  exact ⟨Nat.lt_of_lt_of_le hlt (onward_of_ok ht).tree.size_terms, RoundTops.loop hstep hcloses ht⟩

section Productions

variable {deep : Deeper} {start : Span}

theorem tops_call {head : TermId} {tight : Bool} : Tops start some (call deep head start tight) :=
  .bind fun _ => .bind fun _ => .close _

theorem tops_refl (setting : Setting) (s : Session) :
    TopsAt setting s s.cursor.span some Grammar.refl := by
  have hrest : Tops s.cursor.span some (do
      let _ ← advance
      let _ ← advance
      let _ ← advance
      close s.cursor.span .refl) := .bind fun _ => .bind fun _ => .bind fun _ => .close _
  exact hrest setting s

theorem tops_braceSuffix {head : TermId} {tight : Bool} :
    Tops start some (braceSuffix deep head start tight) := by
  refine .bind fun c => .ite (fun _ => .bind fun _ => .close _) fun _ => .bind fun sides => ?_
  split
  · exact .close _
  · exact .bind fun _ => .bind fun _ => .bind fun _ => .close _

theorem tops_generic? {head : TermId} : Tops start id (generic? deep head start) := by
  refine .bind fun found => ?_
  split
  · exact (Tops.close _).map fun _ => rfl
  · exact (Tops.close _).map fun _ => rfl
  · exact .none rfl

theorem stays_of_generic? {head : TermId} {setting : Setting} {s t : Session}
    (h : (generic? deep head start).run setting s = .ok none t) :
    t.cursor = s.cursor ∧ t.tree.terms.size = s.tree.terms.size := by
  obtain ⟨args, u, hr, h⟩ := ok_of_bind h
  match args with
  | none =>
      cases h
      exact stays_of_attempt hr
  | some (args, some values) => cases h
  | some (args, none) => cases h

theorem roundTops_suffixRound {head : TermId} :
    RoundTops start head (suffixRound deep start head) := by
  refine .asks fun c => .asks fun s => .ite (fun _ => .done) fun _ => ?_
  split
  · exact .more tops_call
  · refine .asks fun _ => .ite (fun _ => ?_) fun _ => .done
    intro setting s x t hs hx
    obtain ⟨found, u, hr, hx⟩ := ok_of_bind hx
    cases found with
    | some term =>
        cases hx
        rintro id ⟨⟩
        exact (tops_generic? setting s _ _ hr _ rfl).2
    | none =>
        cases hx
        rintro id ⟨⟩
        obtain ⟨hcursor, hsize⟩ := stays_of_generic? hr
        exact hs.stays (onward_of_ok hr) hcursor hsize
  · refine .ite (fun _ => .of_tops (.bind fun _ => .bind fun _ => ?_)) fun _ => .done
    exact (Tops.close _).map fun _ => rfl
  · exact .ite (fun _ => .more tops_braceSuffix) fun _ => .done
  · exact .done

theorem roundTops_operatorRound {min : Level} {lhs : TermId} :
    RoundTops start lhs (operatorRound deep min start lhs) := by
  refine .asks fun c => .asks fun s => ?_
  split
  · exact .of_tops (.bind fun _ => .bind fun _ => (Tops.close _).map fun _ => rfl)
  · exact .done

theorem tops_juxtaposed? {func : TermId} : Tops start id (juxtaposed? deep func start) := by
  refine .bind fun c => .bind fun s => .ite (fun _ => .none rfl) fun _ => .bind fun bare => ?_
  refine .ite (fun _ => tops_call.map fun _ => rfl) fun _ => .ite (fun _ => ?_) fun _ => ?_
  · exact .ite (fun _ => .none rfl) fun _ => tops_braceSuffix.map fun _ => rfl
  · refine .ite (fun _ => ?_) fun _ => .none rfl
    exact .bind fun _ => (Tops.close _).map fun _ => rfl

theorem roundTops_climbRound {min : Level} {lhs : TermId} :
    RoundTops start lhs (climbRound deep min start lhs) := by
  intro setting s x t hs hx
  rw [run_climbRound] at hx
  split at hx
  · cases hx
    rintro id ⟨⟩
    exact hs
  · split at hx
    · obtain ⟨app?, u, hr, hround⟩ := ok_of_bind hx
      cases app? with
      | some app =>
          cases hround
          rintro id ⟨⟩
          exact (tops_juxtaposed? setting s _ _ hr _ rfl).2
      | none =>
          obtain ⟨-, rfl⟩ := juxtaposes_of_none hr
          exact roundTops_operatorRound _ _ _ _ hs hround
    · exact roundTops_operatorRound _ _ _ _ hs hx

theorem tree_accept {kind : TokenKind} {setting : Setting} {s t : Session} {b : Bool}
    (h : (accept kind).run setting s = .ok b t) : t.tree = s.tree := by
  change (if decide (s.cursor.kind = kind) = true then _ else _ : Reading Bool).run
    setting s = _ at h
  split at h <;> cases h <;> rfl

theorem tree_expect {kind : TokenKind} {setting : Setting} {s t : Session} {span : Span}
    (h : (expect kind).run setting s = .ok span t) : t.tree = s.tree := by
  change (if decide (s.cursor.kind = kind) = true then _ else _ : Reading Span).run
    setting s = _ at h
  split at h <;> cases h
  rfl

theorem last_expect {kind : TokenKind} {setting : Setting} {s t : Session} {span : Span}
    (h : (expect kind).run setting s = .ok span t) : t.cursor.last = span := by
  change (if decide (s.cursor.kind = kind) = true then _ else _ : Reading Span).run
    setting s = _ at h
  split at h
  · cases h
    exact s.cursor.last_advance
  · cases h

variable (h : deep.Tops)

include h

/-- Parentheses keep the node of what they enclose. -/
theorem tops_parentheses : Tops start some (parentheses deep start) := by
  refine .bind fun _ => .bind fun _ => .ite (fun _ => .close _) fun _ => ?_
  intro setting s id t ht
  obtain ⟨first, u, hr, ht⟩ := ok_of_bind ht
  obtain ⟨hlt, hcloses⟩ := h _ _ s first u hr first rfl
  obtain ⟨comma, v, hcomma, ht⟩ := ok_of_bind ht
  have hv := tree_accept hcomma
  cases comma with
  | true =>
      have hclose : Tops start some (do
          let rest ← delimited (separated (.mark .rightParen) deep.inner)
          let _ ← expect (.mark .rightParen)
          close start (.tuple (first :: rest))) := .bind fun _ => .bind fun _ => .close _
      rintro _ ⟨⟩
      obtain ⟨hlt', hcloses'⟩ := hclose setting v id t ht id rfl
      exact ⟨Nat.lt_trans hlt (hv ▸ hlt'), hcloses'⟩
  | false =>
      obtain ⟨stop, w, hstop, ht⟩ := ok_of_bind ht
      have hw : w.tree = u.tree := (tree_expect hstop).trans hv
      have hlast := last_expect hstop
      cases ht
      rintro _ ⟨⟩
      have htop : w.Top first := by rw [Session.Top, hw, hcloses.top]
      have hspan := Tree.span_widen w.tree (start.hull stop) (Nat.lt_of_succ_le (Nat.le_of_eq htop))
      refine ⟨by simpa [Tree.widen, hw] using hlt,
        by simpa [Session.Top, Tree.widen] using htop, ?_, ?_⟩
      · simp [hspan]
      · simp [hspan, hlast]

theorem tops_compound (setting : Setting) (s : Session) :
    TopsAt setting s s.cursor.span some (compound deep s.cursor s.cursor.span) := by
  have hother {what : String} : TopsAt setting s s.cursor.span some (unexpected what) :=
    Tops.unexpected what setting s
  unfold compound
  split
  · refine Tops.bind (fun _ => .bind fun _ => .bind fun _ => .bind fun _ => ?_) setting s
    refine .ite (fun _ => ?_) fun _ => .close _
    exact .bind fun _ => .bind fun _ => .bind fun _ => .close _
  · refine Tops.bind
      (fun _ => .bind fun _ => .bind fun _ => .ite (fun _ => ?_) fun _ => ?_) setting s
    · exact .bind fun _ => .close _
    · exact .bind fun _ => .bind fun _ => .bind fun _ => .bind fun _ => .close _
  · refine Tops.bind (fun _ => .bind fun _ => .bind fun _ => .bind fun _ => .bind fun _ =>
      .bind fun _ => .ite (fun _ => ?_) fun _ => .close _) setting s
    exact .bind fun _ => .bind fun _ => .bind fun _ => .close _
  · exact tops_parentheses h setting s
  · refine Tops.bind (fun _ => .bind fun _ => .ite (fun _ => .close _) fun _ => ?_) setting s
    exact .bind fun _ => .bind fun _ => .close _
  · exact .ite (fun _ => tops_refl setting s) fun _ => hother
  · refine Tops.bind (fun _ => .bind fun _ => .bind fun _ => .bind fun _ => ?_) setting s
    exact .close _
  · exact Tops.bind (fun _ => .bind fun _ => .close _) setting s
  · refine Tops.bind (fun _ => .bind fun _ => .bind fun _ => .bind fun _ => ?_) setting s
    exact .close _
  · exact hother

theorem tops_operand (setting : Setting) (s : Session) :
    TopsAt setting s s.cursor.span some (operand deep) := by
  refine .cursor (.ite (fun _ => .leaf _) fun _ => .ite (fun _ => ?_) fun _ => ?_)
  · refine .bind fun value t hvalue => ?_
    rw [session_literal hvalue]
    exact .leaf _
  · split
    · exact .leaf _
    · exact tops_compound h setting s

theorem tops_leading (setting : Setting) (s : Session) :
    TopsAt setting s s.cursor.span some (leading deep) := by
  have hbefore {min : Level} {term : TermId → Term TermId PatternId} :
      TopsAt setting s s.cursor.span some (before deep s.cursor.span min term) :=
    Tops.bind (fun _ => .bind fun _ => .close _) setting s
  have hbody {term : TermId → TermId → Term TermId PatternId} :
      TopsAt setting s s.cursor.span some (operandAndBody deep s.cursor.span term) :=
    Tops.bind (fun _ => .bind fun _ => .bind fun _ => .bind fun _ => .close _) setting s
  refine .cursor ?_
  dsimp only
  split
  · exact hbefore
  · exact hbefore
  · refine Tops.bind (fun _ => .bind fun _ => .bind fun _ => .bind fun _ => ?_) setting s
    exact .ite (fun _ => .bind fun _ => .close _) fun _ => .close _
  · refine Tops.bind (fun _ => .bind fun _ => .ite (fun _ => .bind fun _ => .close _) fun _ => ?_)
      setting s
    exact .bind fun _ => .bind fun _ => .bind fun _ => .close _
  · exact Tops.bind (fun _ => .bind fun _ => .bind fun _ => .bind fun _ => .close _) setting s
  · exact Tops.bind (fun _ => .bind fun _ => .bind fun _ => .close _) setting s
  · exact Tops.bind (fun _ => .bind fun _ => .bind fun _ => .close _) setting s
  · exact Tops.bind (fun _ => .bind fun _ => .close _) setting s
  · exact Tops.bind (fun _ => .bind fun _ => .bind fun _ => .close _) setting s
  · refine Tops.bind
      (fun _ => .bind fun _ => .bind fun _ => .bind fun _ => .bind fun _ => ?_) setting s
    exact .bind fun _ => .close _
  · refine Tops.bind
      (fun _ => .bind fun _ => .bind fun _ => .bind fun _ => .bind fun _ => ?_) setting s
    exact .bind fun _ => .close _
  · exact hbody
  · exact hbody
  · exact hbefore
  · exact hbefore
  · exact hbefore
  · exact hbefore
  · exact .loop (tops_operand h setting s) fun _ => roundTops_suffixRound

/-- The node of an expression is the last one. -/
theorem tops_expression (min : Level) (setting : Setting) (s : Session) :
    TopsAt setting s s.cursor.span some (expression deep min) :=
  .here (.loop (tops_leading h setting s) fun _ => roundTops_climbRound)

end Productions

theorem tops_nested (d : Nat) : (nested d).Tops := by
  induction d with
  | zero => exact fun _ _ _ => .bind fun _ _ _ => .bind fun _ _ _ => fun _ _ h => nomatch h
  | succ d ih => exact fun min => tops_expression ih min

end BendSyntax
