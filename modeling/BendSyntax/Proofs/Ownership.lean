import BendSyntax.Proofs.Forest
import BendSyntax.Grammar.Items

/-! What a reading owns. A reading takes over some roots of the forest, and if it succeeds, it
leaves a forest whose roots are those that its answer refers to; other roots stay roots. -/

namespace BendSyntax

open Reading

/-- Values that refer to nodes. -/
class Owner (α : Type) where
  refs : α → List Ref

namespace Owner

variable {α β : Type}

instance : Owner TermId := ⟨fun id => [.term id]⟩
instance : Owner PatternId := ⟨fun id => [.pattern id]⟩
instance : Owner Bool := ⟨fun _ => []⟩
instance : Owner String := ⟨fun _ => []⟩
instance : Owner Span := ⟨fun _ => []⟩
instance [Owner α] : Owner (List α) := ⟨fun as => as.flatMap refs⟩
instance [Owner α] : Owner (Array α) := ⟨fun as => refs as.toList⟩
instance [Owner α] : Owner (Option α) := ⟨fun a => refs a.toList⟩
instance [Owner α] [Owner β] : Owner (α × β) := ⟨fun a => refs a.1 ++ refs a.2⟩
instance : Owner (Binder TermId) := ⟨fun b => refs b.type⟩
instance : Owner (Param TermId PatternId) := ⟨Param.children⟩
instance : Owner (WithClause TermId) := ⟨fun w => refs w.value⟩
instance : Owner (MatchCase TermId PatternId) := ⟨MatchCase.children⟩
instance : Owner (BlockCase TermId) := ⟨fun c => refs c.terms⟩
instance : Owner (CaseBlock TermId) := ⟨fun b => refs b.terms⟩
instance : Owner (TypeParam TermId) := ⟨fun p => refs p.bound⟩
instance : Owner (DefForm TermId) := ⟨fun f => refs f.roots⟩
instance : Owner (CtorCase TermId) := ⟨fun c => refs c.fields⟩
instance : Owner (Item TermId) := ⟨fun i => refs i.roots⟩

instance : Owner (CaseTag TermId) where
  refs
    | .sup label => refs label
    | _ => []

/-- The roots that a value holds. -/
def held [Owner α] (a : α) : Multiset Ref := refs a

@[simp] theorem refs_term (id : TermId) : refs id = [.term id] := rfl

@[simp] theorem refs_pattern (id : PatternId) : refs id = [.pattern id] := rfl

@[simp] theorem refs_bool (b : Bool) : refs b = [] := rfl

@[simp] theorem refs_string (s : String) : refs s = [] := rfl

@[simp] theorem refs_span (s : Span) : refs s = [] := rfl

@[simp] theorem refs_prod [Owner α] [Owner β] (a : α) (b : β) : refs (a, b) = refs a ++ refs b := rfl

@[simp] theorem refs_none [Owner α] : refs (none : Option α) = [] := rfl

@[simp] theorem refs_some [Owner α] (a : α) : refs (some a) = refs a := List.append_nil _

@[simp] theorem refs_terms (ids : List TermId) : refs ids = ids.map .term :=
  List.flatMap_pure_eq_map _ _

@[simp] theorem refs_patterns (ids : List PatternId) : refs ids = ids.map .pattern :=
  List.flatMap_pure_eq_map _ _

@[simp] theorem refs_append [Owner α] (as bs : List α) : refs (as ++ bs) = refs as ++ refs bs :=
  List.flatMap_append

@[simp] theorem refs_binder (b : Binder TermId) : refs b = [.term b.type] := rfl

@[simp] theorem refs_binders (bs : List (Binder TermId)) : refs bs = bs.map (.term ·.type) :=
  List.flatMap_pure_eq_map _ _

@[simp] theorem refs_patternsParam (ps : List PatternId) :
    refs (.patterns ps : Param TermId PatternId) = ps.map .pattern := rfl

@[simp] theorem refs_matchCase (patterns : List PatternId) (body : TermId) (span : Span) :
    refs (⟨patterns, body, span⟩ : MatchCase TermId PatternId) =
      patterns.map .pattern ++ [.term body] := rfl

@[simp] theorem refs_params (ps : List (Param TermId PatternId)) :
    refs ps = ps.flatMap (·.children) := rfl

@[simp] theorem refs_matchCases (cs : List (MatchCase TermId PatternId)) :
    refs cs = cs.flatMap (·.children) := rfl

@[simp] theorem refs_caseBlock (b : CaseBlock TermId) : refs b = b.terms.map .term :=
  refs_terms b.terms

@[simp] theorem refs_withClauses (ws : List (WithClause TermId)) :
    refs ws = (ws.filterMap (·.value)).map .term := by
  induction ws with
  | nil => rfl
  | cons w ws ih =>
      obtain ⟨name, span, value⟩ := w
      cases value with
      | none => exact ih
      | some value => exact congrArg (Child.term value :: ·) ih

theorem refs_flatten [Owner α] (as : List (List α)) : refs as.flatten = refs as := by
  induction as with
  | nil => rfl
  | cons a as ih =>
      rw [List.flatten_cons, refs_append, ih]
      rfl

@[simp] theorem held_nil [Owner α] : held ([] : List α) = 0 := rfl

@[simp] theorem held_cons [Owner α] (a : α) (as : List α) : held (a :: as) = held a + held as := by
  simp [held, refs]

theorem held_push [Owner α] (as : Array α) (a : α) : held (as.push a) = held as + held a := by
  simp [held, refs]

end Owner

open Owner

/-- From a forest with the roots `k`, a reading leaves a forest with the roots `o` of its
answer. -/
def Owns {α : Type} (config : Config) (k : Multiset Ref) (r : Reading α)
    (o : α → Multiset Ref) : Prop :=
  ∀ (remembers : Bool) (slot : Slot) (s : Session) (roots : Multiset Ref),
    s.tree.Forest (k + roots) → ∀ a t, r.run ⟨config, remembers, slot⟩ s = .ok a t →
      t.tree.Forest (o a + roots)

/-- A reading that neither adds nor takes over nodes. -/
abbrev Idle {α : Type} (config : Config) (r : Reading α) : Prop := Owns config 0 r fun _ => 0

/-- A reading that takes over no nodes and adds those that its answer holds. -/
abbrev Yields {α : Type} [Owner α] (config : Config) (r : Reading α) : Prop :=
  Owns config 0 r held

namespace Owns

variable {α β : Type} {config : Config} {k l : Multiset Ref} {r : Reading α}
  {f : α → Reading β} {p q : α → Multiset Ref} {o : β → Multiset Ref}

/-! ## Composition -/

theorem of_eq (h : Owns config k r p) (hk : l = k) : Owns config l r p := hk ▸ h

/-- What else there is stays. -/
theorem frame (h : Owns config k r p) (l : Multiset Ref) :
    Owns config (l + k) r fun a => l + p a := by
  intro remembers slot s roots hs a t ht
  rw [add_comm l k, add_assoc] at hs
  have ht := h remembers slot s (l + roots) hs a t ht
  rwa [← add_assoc, add_comm (p a) l] at ht

theorem seq (h : Owns config k r p) (hf : ∀ a, Owns config (p a) (f a) o) :
    Owns config k (r >>= f) o := by
  intro remembers slot s roots hs b u hu
  rw [run_bind] at hu
  cases hr : r.run ⟨config, remembers, slot⟩ s with
  | ok a t =>
      rw [hr] at hu
      exact hf a remembers slot t roots (h remembers slot s roots hs a t hr) b u hu
  | error e t =>
      rw [hr] at hu
      cases hu

/-- Goes on with more roots. -/
theorem bind (h : Owns config 0 r p) (hf : ∀ a, Owns config (k + p a) (f a) o) :
    Owns config k (r >>= f) o :=
  (h.frame k).of_eq (add_zero k).symm |>.seq hf

/-- Goes on with the same roots. -/
theorem skip (h : Idle config r) (hf : ∀ a, Owns config k (f a) o) :
    Owns config k (r >>= f) o :=
  h.bind fun a => (hf a).of_eq (add_zero k)

theorem pure {a : α} (h : k = p a) : Owns config k (Pure.pure a : Reading α) p := by
  intro remembers slot s roots hs b t ht
  cases ht
  rwa [← h]

theorem map {g : α → β} (h : Owns config k r p) (hg : ∀ a, p a = o (g a)) :
    Owns config k (g <$> r) o :=
  h.seq fun a => pure (hg a)

theorem fail (e : SyntaxError) : Owns config k (Reading.fail e : Reading α) p := by
  intro remembers slot s roots hs a t ht
  cases ht

theorem ite {c : Prop} [Decidable c] {r' : Reading α} (hyes : c → Owns config k r p)
    (hno : ¬c → Owns config k r' p) : Owns config k (if c then r else r') p := by
  split
  · exact hyes ‹_›
  · exact hno ‹_›

theorem within {g : Slot → Slot} (h : Owns config k r p) : Owns config k (Reading.within g r) p :=
  fun remembers slot s roots hs a t ht => h remembers (g slot) s roots hs a t ht

theorem withUsage {usage : Usage} (h : Owns config k r p) :
    Owns config k (Reading.withUsage usage r) p := h.within

theorem delimited (h : Owns config k r p) : Owns config k (Reading.delimited r) p := h.within

end Owns

variable {α β : Type} {config : Config} {k : Multiset Ref}

/-! ## Idle readings -/

section Idle

variable {r : Reading α} {f : α → Reading β}

theorem Idle.bind (h : Idle config r) (hf : ∀ a, Idle config (f a)) : Idle config (r >>= f) :=
  h.skip hf

theorem idle_pure (a : α) : Idle config (pure a) := .pure rfl

theorem idle_asks (g : Setting → Session → α) : Idle config (asks g) := by
  intro remembers slot s roots hs a t ht
  cases ht
  exact hs

theorem idle_cursor : Idle config cursor := idle_asks _

theorem idle_slot : Idle config slot := idle_asks _

theorem idle_kind : Idle config kind := idle_cursor.bind fun _ => idle_pure _

theorem idle_here : Idle config here := idle_cursor.bind fun _ => idle_pure _

theorem idle_sees (kind : TokenKind) : Idle config (sees kind) := idle_kind.bind fun _ => idle_pure _

theorem idle_advance : Idle config advance := by
  intro remembers slot s roots hs a t ht
  cases ht
  exact hs

theorem idle_moves {g : Session → Session} {h : ∀ s : Session, s.Onward (g s)}
    (hg : ∀ s, (g s).tree = s.tree) : Idle config (moves g h) := by
  intro remembers slot s roots hs a t ht
  cases ht
  exact (hg s).symm ▸ hs

theorem idle_accept (kind : TokenKind) : Idle config (accept kind) :=
  (idle_sees kind).bind fun _ =>
    .ite (fun _ => idle_advance.bind fun _ => idle_pure _) fun _ => idle_pure _

theorem owns_unexpected {p : α → Multiset Ref} (what : String) :
    Owns config k (unexpected what) p :=
  idle_cursor.skip fun _ => .fail _

theorem idle_require (condition : Bool) (what : String) : Idle config (require condition what) :=
  .ite (fun _ => idle_pure _) fun _ => owns_unexpected _

theorem idle_expect (kind : TokenKind) : Idle config (expect kind) :=
  (idle_sees kind).bind fun _ => .ite (fun _ => idle_advance) fun _ => owns_unexpected _

theorem idle_identifier : Idle config identifier :=
  idle_cursor.bind fun _ =>
    .ite (fun _ => idle_advance.bind fun _ => idle_pure _) fun _ => owns_unexpected _

theorem idle_closeAngle : Idle config closeAngle := by
  refine idle_kind.bind fun k => ?_
  split
  · exact idle_advance.bind fun _ => idle_pure _
  · exact idle_moves fun _ => rfl
  · exact owns_unexpected _

theorem idle_since (start : Span) : Idle config (since start) :=
  idle_cursor.bind fun _ => idle_pure _

theorem idle_asksTerm (id : TermId) (g : Tree → α) : Idle config (asksTerm id g) := by
  intro remembers slot s roots hs a t ht
  cases ht
  exact hs

theorem idle_spanOf (id : TermId) : Idle config (spanOf id) := idle_asksTerm id _

theorem idle_bareName (id : TermId) : Idle config (bareName id) := idle_asksTerm id _

theorem idle_widen (id : TermId) (span : Span) : Idle config (widen id span) := by
  intro remembers slot s roots hs a t ht
  cases ht
  exact hs.widen id span

theorem idle_skipTokens (n : Nat) : Idle config (Grammar.skipTokens n) := by
  induction n with
  | zero => exact idle_pure _
  | succ n ih => exact idle_advance.bind fun _ => ih

end Idle

/-! ## Nodes -/

theorem owns_addTerm {term : Term TermId PatternId} {span : Span} (h : k = term.children) :
    Owns config k (addTerm term span) held := by
  intro remembers slot s roots hs a t ht
  subst h
  cases ht
  exact Tree.Forest.addTerm ⟨term, span, slot.usage⟩ hs

theorem owns_addPattern {pattern : Pattern PatternId} {span : Span}
    (h : k = held pattern.children) : Owns config k (addPattern pattern span) held := by
  intro remembers slot s roots hs a t ht
  rw [h, held, refs_patterns] at hs
  cases ht
  exact Tree.Forest.addPattern ⟨pattern, span⟩ hs

theorem owns_close {term : Term TermId PatternId} {start : Span} (h : k = term.children) :
    Owns config k (close start term) held :=
  (idle_since start).skip fun _ => owns_addTerm h

theorem owns_closePattern {pattern : Pattern PatternId} {start : Span}
    (h : k = held pattern.children) : Owns config k (closePattern start pattern) held :=
  (idle_since start).skip fun _ => owns_addPattern h

/-! ## Loops -/

/-- What a round holds. -/
def Reading.Round.held (o : α → Multiset Ref) : Round α → Multiset Ref
  | .more a => o a
  | .done a => o a

theorem owns_loop {step : α → Reading (Round α)} {o : α → Multiset Ref}
    (h : ∀ a, Owns config (o a) (step a) (Round.held o)) (a : α) :
    Owns config (o a) (loop step a) o := by
  intro remembers slot s roots hs b t ht
  change runLoop step _ a s = .ok b t at ht
  fun_induction runLoop with
  | case1 a s c now hstep =>
      cases ht
      exact h a remembers slot s roots hs _ _ hstep
  | case2 a s c now hstep hlt ih => exact ih (h a remembers slot s roots hs _ _ hstep) ht
  | case3 a s c now hstep hge =>
      cases ht
      exact h a remembers slot s roots hs _ _ hstep
  | case4 a s e now hstep => cases ht

section Lists

variable [Owner α] {r : Reading α} {more : Reading Bool}

theorem yields_collectWhile (hmore : Idle config more) (h : Yields config r) :
    Yields config (collectWhile more r) := by
  refine (owns_loop (o := fun as : Array α => held as) (fun as => ?_) #[]).seq fun as => .pure rfl
  refine hmore.skip fun b => .ite (fun _ => h.bind fun a => ?_) fun _ => .pure rfl
  exact .pure (held_push as a).symm

theorem yields_collectThrough (h : Yields config r) (hmore : Idle config more) :
    Yields config (collectThrough r more) := by
  refine (owns_loop (o := fun as : Array α => held as) (fun as => ?_) #[]).seq fun as => .pure rfl
  refine h.bind fun a => hmore.skip fun b => .ite (fun _ => ?_) fun _ => ?_
  · exact .pure (held_push as a).symm
  · exact .pure (held_push as a).symm

theorem yields_commaList (h : Yields config r) : Yields config (commaList r) :=
  yields_collectThrough h (idle_accept _)

theorem yields_oneUpTo (stop : TokenKind) (h : Yields config r) :
    Yields config (oneUpTo stop r) :=
  yields_collectThrough h ((idle_sees stop).bind fun _ => idle_pure _)

theorem yields_separated (bracket : TokenKind) (h : Yields config r) :
    Yields config (separated bracket r) := by
  refine (owns_loop (o := fun as : Array α => held as) (fun as => ?_) #[]).seq fun as => .pure rfl
  refine (idle_sees bracket).skip fun b => .ite (fun _ => .pure rfl) fun _ => ?_
  refine h.bind fun a => (idle_accept _).skip fun b => .ite (fun _ => ?_) fun _ => ?_
  · exact .pure (held_push as a).symm
  · exact .pure (held_push as a).symm

end Lists

/-! ## Attempts -/

/-- A session that was taken back has the forest that it had before. -/
theorem Session.forest_rewind {s t : Session} {roots : Multiset Ref} (h : s.Onward t)
    (hs : s.tree.Forest roots) : (t.rewind s).tree.Forest roots :=
  hs.congr h.tree.contents_rewind.symm h.tree.patterns_rewind.symm

/-- A reading whose answer, if it has one, holds what it adds. What it has added without an
answer is nobody's. -/
def Offers {α : Type} (config : Config) (k : Multiset Ref) (r : Reading (Option α))
    (o : α → Multiset Ref) : Prop :=
  ∀ (remembers : Bool) (slot : Slot) (s : Session) (roots : Multiset Ref),
    s.tree.Forest (k + roots) → ∀ a t, r.run ⟨config, remembers, slot⟩ s = .ok (some a) t →
      t.tree.Forest (o a + roots)

namespace Offers

variable {r : Reading (Option α)} {o : β → Multiset Ref}

theorem none {o : α → Multiset Ref} : Offers config k (pure none) o := by
  intro remembers slot s roots hs a t ht
  cases ht

theorem some {a : α} {o : α → Multiset Ref} (h : k = o a) :
    Offers config k (pure (some a)) o := by
  intro remembers slot s roots hs b t ht
  cases ht
  exact h ▸ hs

theorem ite {c : Prop} [Decidable c] {r' : Reading (Option α)} {o : α → Multiset Ref}
    (hyes : c → Offers config k r o) (hno : ¬c → Offers config k r' o) :
    Offers config k (if c then r else r') o := by
  split
  · exact hyes ‹_›
  · exact hno ‹_›

/-- Goes on if there is an answer. -/
theorem seq {p : α → Multiset Ref} {f : Option α → Reading (Option β)} (h : Offers config k r p)
    (hsome : ∀ a, Offers config (p a) (f (Option.some a)) o) (hnone : f Option.none = pure Option.none) :
    Offers config k (r >>= f) o := by
  intro remembers slot s roots hs b u hu
  rw [run_bind] at hu
  match hr : r.run ⟨config, remembers, slot⟩ s with
  | .ok (Option.some a) t =>
      rw [hr] at hu
      exact hsome a remembers slot t roots (h remembers slot s roots hs a t hr) b u hu
  | .ok Option.none t =>
      rw [hr, Outcome.andThen_ok, hnone] at hu
      cases hu
  | .error e t =>
      rw [hr] at hu
      cases hu

theorem within {g : Slot → Slot} {o : α → Multiset Ref} (h : Offers config k r o) :
    Offers config k (Reading.within g r) o :=
  fun remembers slot s roots hs a t ht => h remembers (g slot) s roots hs a t ht

end Offers

/-- Goes on to an answer that holds what was added. -/
theorem Owns.offers {r : Reading α} {f : α → Reading (Option β)} {p : α → Multiset Ref}
    {o : β → Multiset Ref} (h : Owns config 0 r p) (hf : ∀ a, Offers config (k + p a) (f a) o) :
    Offers config k (r >>= f) o := by
  intro remembers slot s roots hs b u hu
  have hr := h.frame k remembers slot s roots (by rwa [add_zero])
  rw [run_bind] at hu
  cases hrun : r.run ⟨config, remembers, slot⟩ s with
  | ok a t =>
      rw [hrun] at hu
      exact hf a remembers slot t roots (hr a t hrun) b u hu
  | error e t =>
      rw [hrun] at hu
      cases hu

theorem Owns.skipOffers {r : Reading α} {f : α → Reading (Option β)} {o : β → Multiset Ref}
    (h : Idle config r) (hf : ∀ a, Offers config k (f a) o) : Offers config k (r >>= f) o :=
  h.offers fun a => (add_zero k).symm ▸ hf a

theorem yields_speculate [Owner α] {r : Reading (Option α)} (h : Offers config 0 r held) :
    Yields config (speculate r) := by
  intro remembers slot s roots hs a t ht
  have honward := r.onward ⟨config, remembers, slot⟩ s
  have hr := h remembers slot s roots hs
  change (r.run _ s).retracted s = .ok a t at ht
  generalize r.run ⟨config, remembers, slot⟩ s = o at ht honward hr
  match o with
  | .ok (some b) u =>
      cases ht
      rw [held, refs_some]
      exact hr _ _ rfl
  | .ok none u =>
      cases ht
      exact Session.forest_rewind honward hs
  | .error e u =>
      simp only [Outcome.retracted] at ht
      split at ht
      · cases ht
      · cases ht
        exact Session.forest_rewind honward hs

theorem idle_succeeds {r : Reading α} : Idle config (succeeds r) := by
  intro remembers slot s roots hs a t ht
  have honward := r.onward ⟨config, remembers, slot⟩ s
  change (r.run _ s).tested s = .ok a t at ht
  generalize r.run ⟨config, remembers, slot⟩ s = o at ht honward
  cases o with
  | ok b u =>
      cases ht
      exact Session.forest_rewind honward hs
  | error e u =>
      simp only [Outcome.tested] at ht
      split at ht
      · cases ht
      · cases ht
        exact Session.forest_rewind honward hs

theorem idle_remember (failure : Failure) : Idle config (remember failure) :=
  idle_moves fun _ => rfl

theorem yields_attempt [Owner α] (what : Attempt) {r : Reading (Option α)}
    (h : Offers config 0 r held) : Yields config (attempt what r) := by
  refine (idle_asks _).skip fun failure => ?_
  have hanswer (answer : Option α) : Owns config (0 + held answer) (if answer.isNone = true
      then remember failure >>= fun _ => pure answer else pure answer) held := by
    refine .of_eq (k := held answer) (.ite (fun _ => ?_) fun _ => .pure rfl) (zero_add _)
    exact (idle_remember failure).skip fun _ => .pure rfl
  refine (idle_asks _).skip fun known => .ite (fun _ => ?_) fun _ => ?_
  · exact Owns.bind (.pure rfl) hanswer
  · exact (yields_speculate h).bind hanswer

end BendSyntax
