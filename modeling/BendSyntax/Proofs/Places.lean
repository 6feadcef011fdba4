import BendSyntax.Proofs.Forest
import BendSyntax.Proofs.Triple

/-! The usage of a term is told by its place. A table says which usage every subterm of a term and
every term of an item has; trees keep to it while they are read. -/

namespace BendSyntax

open Reading Grammar

/-! ## The table -/

section Table

variable {τ π : Type}

@[simp] def Child.term? : Child τ π → Option τ
  | term t => some t
  | pattern _ => none

/-- The subterms of a term in source order. -/
def Term.subterms (t : Term τ π) : List τ := t.children.filterMap Child.term?

/-- Terms that stand where one usage is asked for. -/
def Usage.of (u : Usage) (ts : List τ) : List (τ × Usage) := ts.map (·, u)

def Param.places : Param τ π → List (τ × Usage)
  | typed b => [(b.type, .type)]
  | name _ _ | patterns _ => []

/-- The subterms of a term of usage `u`, each with the usage that its place asks for. Where nothing
else is asked for, a subterm has the usage of the term. -/
def Term.places (u : Usage) : Term τ π → List (τ × Usage)
  | all binders body => Usage.type.of (binders.map (·.type) ++ [body])
  | any binder body => Usage.type.of [binder.type, body]
  | lam params body => params.flatMap (·.places) ++ [(body, .term)]
  | fix _ body => [(body, .term)]
  | letIn _ type value body => Usage.type.of type.toList ++ Usage.term.of [value, body]
  | useIn _ value body => Usage.term.of [value, body]
  | rewrite proof body => [(proof, u), (body, .term)]
  | log message body => [(message, u), (body, .term)]
  | check term type => [(term, u), (type, .type)]
  | hole _ type ctx => (type, .type) :: Usage.term.of ctx
  | tyApp head args => (head, u) :: Usage.type.of args
  | genericCall head typeArgs args => (head, u) :: Usage.type.of typeArgs ++ u.of args
  | eql type lhs rhs _ => (type, u) :: Usage.term.of [lhs, rhs]
  | implicit head args _ => (head, u) :: Usage.term.of args
  | ite cond yes no => Usage.term.of [cond, yes, no]
  | fork cond yes elifs no => Usage.term.of (cond :: yes :: elifs ++ [no])
  | matchOn scrutinees withs cases =>
      Usage.term.of (scrutinees ++ withs.filterMap (·.value) ++ cases.map (·.body))
  | lamMatch block => Usage.term.of block.terms
  | tildeMatch scrutinee block => (scrutinee, u) :: Usage.term.of block.terms
  | t => u.of t.subterms

def DefForm.places : DefForm τ → List (τ × Usage)
  | full params result body =>
      Usage.type.of (params.map (·.type) ++ result.toList) ++ [(body, .term)]
  | equation type value => [(type, .type), (value, .term)]
  | nullary body => [(body, .term)]

/-- The terms that an item owns, each with the usage that its place asks for. -/
def Item.places : Item τ → List (τ × Usage)
  | definition d => Usage.type.of (d.typeParams.filterMap (·.bound)) ++ d.form.places
  | typeDef d => Usage.type.of d.roots
  | assertion term type _ => [(term, .term), (type, .type)]
  | proof _ type body _ => [(type, .type), (body, .term)]
  | expr term => [(term, .term)]
  | error _ => []

theorem Usage.map_fst_of (u : Usage) (ts : List τ) : (u.of ts).map Prod.fst = ts := by
  simp [Usage.of, Function.comp_def]

namespace Usage

variable {u v : Usage} {t : τ} {ts : List τ} {ps : List (τ × Usage)}

@[simp] theorem mem_of : (t, v) ∈ u.of ts ↔ t ∈ ts ∧ v = u := by
  simp [Usage.of, eq_comm]

@[simp] theorem of_subset : u.of ts ⊆ ps ↔ ∀ t ∈ ts, (t, u) ∈ ps := by
  simp [Usage.of, List.subset_def]

@[simp] theorem flatMap_singleton {α : Type} (u : Usage) (f : α → τ) (as : List α) :
    as.flatMap (fun a => [(f a, u)]) = u.of (as.map f) := by
  rw [of, List.map_map]
  exact List.flatMap_pure_eq_map _ as

end Usage

/-! The table leaves no term out. -/

@[simp] theorem filterMap_term (ts : List τ) :
    (ts.map (Child.term : τ → Child τ π)).filterMap Child.term? = ts := by
  simp [List.filterMap_map, Function.comp_def]

theorem Param.map_fst_places (p : Param τ π) :
    p.places.map Prod.fst = p.children.filterMap Child.term? := by
  cases p with
  | patterns items => simp [places, children, List.filterMap_map, Function.comp_def]
  | _ => rfl

theorem MatchCase.filterMap_children (c : MatchCase τ π) :
    c.children.filterMap Child.term? = [c.body] := by
  simp [children, List.filterMap_map, Function.comp_def]

theorem Term.map_fst_places (u : Usage) (t : Term τ π) :
    (t.places u).map Prod.fst = t.subterms := by
  cases t with
  | lam params body =>
      simp [places, subterms, children, List.map_flatMap, List.filterMap_flatMap,
        Param.map_fst_places]
  | matchOn scrutinees withs cases =>
      have hbodies : cases.flatMap (fun c => [c.body]) = cases.map (·.body) :=
        List.flatMap_pure_eq_map _ cases
      simp only [places, subterms, children, List.filterMap_append, List.filterMap_flatMap,
        MatchCase.filterMap_children, filterMap_term, Usage.map_fst_of, hbodies]
  | _ =>
      simp [places, subterms, children, Usage.of, Function.comp_def]

theorem Item.map_fst_places (item : Item τ) : item.places.map Prod.fst = item.roots := by
  cases item with
  | definition d =>
      cases hform : d.form <;>
        simp [places, roots, Def.roots, hform, DefForm.places, DefForm.roots, Usage.map_fst_of]
  | typeDef d => simp [places, roots, Usage.map_fst_of]
  | _ => rfl

end Table

/-! ## Trees -/

namespace Tree

variable {t u : Tree} {ps qs : List (TermId × Usage)}

def usage? (t : Tree) (id : TermId) : Option Usage := t.terms[id.index]?.map (·.usage)

/-- Terms that have these usages in a tree. -/
def Has (t : Tree) (ps : List (TermId × Usage)) : Prop := ∀ p ∈ ps, t.usage? p.1 = some p.2

/-- Every subterm has the usage that its place asks for. -/
def ByPlace (t : Tree) : Prop := ∀ node ∈ t.terms, t.Has (node.term.places node.usage)

theorem usage?_eq_contents (t : Tree) (id : TermId) :
    t.usage? id = t.contents[id.index]?.map Prod.snd := by
  simp [usage?, contents, Function.comp_def]

theorem has_append : t.Has (ps ++ qs) ↔ t.Has ps ∧ t.Has qs := by
  simp [Has, or_imp, forall_and]

theorem Has.subset (h : t.Has ps) (hsub : qs ⊆ ps) : t.Has qs := fun p hp => h p (hsub hp)

theorem Extends.has (h : t.Extends u) (hps : t.Has ps) : u.Has ps := by
  intro p hp
  have hid := hps p hp
  rw [usage?_eq_contents] at hid ⊢
  obtain ⟨node, hnode, hu⟩ := Option.map_eq_some_iff.mp hid
  obtain ⟨added, hadded⟩ := h.contents
  rw [← hadded, List.getElem?_append_left (List.getElem?_eq_some_iff.mp hnode).1, hnode]
  exact congrArg some hu

theorem placed_iff : t.ByPlace ↔ ∀ c ∈ t.contents, t.Has (c.1.places c.2) := by
  simp [ByPlace, contents]

namespace ByPlace

theorem empty : Tree.empty.ByPlace := by simp [ByPlace, Tree.empty]

/-- The spans of terms do not count. -/
theorem congr (h : t.ByPlace) (hterms : t.contents = u.contents) : u.ByPlace := by
  rw [placed_iff] at h ⊢
  simp only [Has, usage?_eq_contents, ← hterms] at h ⊢
  exact h

theorem rewind (h : t.ByPlace) (hu : t.Extends u) : (u.rewind t.mark).ByPlace :=
  h.congr hu.contents_rewind.symm

theorem addTerm (h : t.ByPlace) {node : TermNode} (hterm : t.Has (node.term.places node.usage)) :
    (t.addTerm node).2.ByPlace := by
  have hextends := Extends.addTerm t node
  intro n hn
  rcases Array.mem_push.mp hn with hn | rfl
  · exact hextends.has (h n hn)
  · exact hextends.has hterm

end ByPlace

end Tree

/-! ## Readings -/

instance : Invariant fun s : Session => s.tree.ByPlace where
  advance hs := hs
  halve hs _ := hs
  whole hs := hs
  complain hs _ := hs
  restate hs _ := hs
  remember _ hs := hs
  rewind hs _ honward := hs.rewind honward.tree
  discard hs _ honward := hs.rewind honward.tree

/-- Reading for the usage `u` in a tree that has `ps` keeps to the table, and the answer comes with
the usages of its terms. -/
def Reading.Places {α : Type} (u : Usage) (ps : List (TermId × Usage)) (r : Reading α)
    (qs : α → List (TermId × Usage)) : Prop :=
  ∀ setting s, setting.slot.usage = u → s.tree.ByPlace → s.tree.Has ps →
    (r.run setting s).session.tree.ByPlace ∧
      ∀ a t, r.run setting s = .ok a t → t.tree.Has (qs a)

namespace Reading

def Round.answer {α : Type} : Round α → α
  | more a => a
  | done a => a

namespace Places

variable {α β : Type} {u v : Usage} {ps ps' : List (TermId × Usage)} {r : Reading α}
  {f : α → Reading β} {qs : α → List (TermId × Usage)} {rs : β → List (TermId × Usage)}

/-! ## Composition -/

/-- A reading that keeps trees to the table, of whose answer nothing is to be known. -/
theorem of_maintains (h : Maintains (fun s => s.tree.ByPlace) r) : r.Places u ps fun _ => [] := by
  intro setting s _ hs _
  obtain ⟨hinv, -⟩ := h setting s hs trivial
  refine ⟨?_, fun _ _ _ => nofun⟩
  cases hr : r.run setting s with
  | ok a t =>
      rw [hr] at hinv
      exact hinv
  | error e t =>
      rw [hr] at hinv
      exact hinv

theorem mono (h : r.Places u ps qs) (hsub : ps ⊆ ps') : r.Places u ps' qs :=
  fun setting s hu hs hps => h setting s hu hs (hps.subset hsub)

theorem anywhere (h : r.Places u [] qs) : r.Places u ps qs := h.mono (List.nil_subset ps)

theorem bind (h : r.Places u ps qs) (hf : ∀ a, (f a).Places u (qs a ++ ps) rs) :
    (r >>= f).Places u ps rs := by
  intro setting s hu hs hps
  obtain ⟨hbyPlace, hanswer⟩ := h setting s hu hs hps
  rw [run_bind]
  cases hr : r.run setting s with
  | ok a t =>
      rw [hr] at hbyPlace
      have hps' : t.tree.Has ps := (onward_of_ok hr).tree.has hps
      exact hf a setting t hu hbyPlace (Tree.has_append.mpr ⟨hanswer a t hr, hps'⟩)
  | error e t =>
      rw [hr] at hbyPlace
      exact ⟨hbyPlace, fun b t ht => by cases ht⟩

theorem pure {a : α} (h : qs a ⊆ ps) : (Pure.pure a : Reading α).Places u ps qs := by
  intro setting s _ hs hps
  refine ⟨hs, ?_⟩
  rintro _ _ ⟨⟩
  exact hps.subset h

theorem map {g : α → β} (h : r.Places u ps fun a => rs (g a)) : (g <$> r).Places u ps rs :=
  h.bind fun _ => .pure (List.subset_append_left _ _)

theorem fail (e : SyntaxError) : (Reading.fail e : Reading α).Places u ps qs :=
  fun _ _ _ hs _ => ⟨hs, fun _ _ ht => by cases ht⟩

theorem ite {c : Prop} [Decidable c] {r' : Reading α} (hyes : c → r.Places u ps qs)
    (hno : ¬c → r'.Places u ps qs) : (if c then r else r').Places u ps qs := by
  split
  · exact hyes ‹_›
  · exact hno ‹_›

theorem within {g : Slot → Slot} (h : r.Places v ps qs)
    (hg : ∀ s, s.usage = u → (g s).usage = v) : (Reading.within g r).Places u ps qs :=
  fun setting s hu hs hps => h { setting with slot := g setting.slot } s (hg _ hu) hs hps

theorem withUsage (h : r.Places v ps qs) : (Reading.withUsage v r).Places u ps qs :=
  h.within fun _ _ => rfl

theorem delimited (h : r.Places u ps qs) : (Reading.delimited r).Places u ps qs :=
  h.within fun _ hu => hu

/-! ## Tokens -/

theorem ask {g : Setting → Session → α} : (asks g).Places u ps fun _ => [] :=
  of_maintains Triple.ask

theorem sees (k : TokenKind) : (sees k).Places u ps fun _ => [] := of_maintains (.sees k)

theorem kind : kind.Places u ps fun _ => [] := of_maintains Triple.kind

theorem here : here.Places u ps fun _ => [] := of_maintains Triple.here

theorem advance : advance.Places u ps fun _ => [] := of_maintains .advance

theorem accept (k : TokenKind) : (accept k).Places u ps fun _ => [] := of_maintains (.accept k)

theorem expect (k : TokenKind) : (expect k).Places u ps fun _ => [] := of_maintains (.expect k)

theorem identifier : identifier.Places u ps fun _ => [] := of_maintains .identifier

theorem closeAngle : closeAngle.Places u ps fun _ => [] := of_maintains .closeAngle

theorem since (start : Span) : (since start).Places u ps fun _ => [] :=
  of_maintains (.since start)

theorem unexpected (what : String) : (unexpected what : Reading α).Places u ps qs :=
  bind ask fun _ => .fail _

theorem refuse : (refuse : Reading α).Places u ps qs := bind ask fun _ => bind here fun _ => .fail _

theorem require (condition : Bool) (what : String) :
    (require condition what).Places u ps fun _ => [] :=
  of_maintains (Triple.require condition what).forget

theorem whole (h : r.Places u ps qs) : (Reading.whole r).Places u ps qs :=
  fun setting _ hu hs hps => h setting _ hu hs hps

/-! ## Nodes -/

variable {term : Term TermId PatternId} {start span : Span}

theorem addTerm (h : term.places u ⊆ ps) : (addTerm term span).Places u ps fun id => [(id, u)] := by
  rintro setting s rfl hs hps
  refine ⟨hs.addTerm (hps.subset h), ?_⟩
  rintro id t ⟨⟩
  simp [Tree.Has, Tree.usage?]

theorem close (h : term.places u ⊆ ps) : (close start term).Places u ps fun id => [(id, u)] :=
  bind (since start) fun _ => addTerm h

theorem addPattern (pattern : Pattern PatternId) :
    (addPattern pattern span).Places u ps fun _ => [] :=
  fun _ _ _ hs _ => ⟨hs, fun _ _ _ => nofun⟩

theorem closePattern (pattern : Pattern PatternId) :
    (closePattern start pattern).Places u ps fun _ => [] :=
  bind (since start) fun _ => addPattern pattern

theorem widen (id : TermId) (span : Span) : (widen id span).Places u ps fun _ => [] :=
  fun _ _ _ hs _ => ⟨hs.congr (Tree.contents_widen _ _ _).symm, fun _ _ _ => nofun⟩

theorem spanOf (id : TermId) : (spanOf id).Places u ps fun _ => [] :=
  fun _ _ _ hs _ => ⟨hs, fun _ _ _ => nofun⟩

theorem bareName (id : TermId) : (bareName id).Places u ps fun _ => [] :=
  fun _ _ _ hs _ => ⟨hs, fun _ _ _ => nofun⟩

/-! ## Loops -/

/-- What every round hands on to the next one comes with its usages in the end. -/
theorem loop (qs : α → List (TermId × Usage)) {step : α → Reading (Round α)}
    (h : ∀ a, (step a).Places u (qs a ++ ps) fun round => qs round.answer) {a : α}
    (ha : qs a ⊆ ps) : (loop step a).Places u ps qs := by
  intro setting s hu hs hps
  have hqs : s.tree.Has (qs a) := hps.subset ha
  clear ha
  change (runLoop step setting a s).session.tree.ByPlace ∧
    ∀ b t, runLoop step setting a s = .ok b t → t.tree.Has (qs b)
  fun_induction runLoop with
  | case1 a s b now hstep =>
      obtain ⟨hbyPlace, hanswer⟩ := h a setting s hu hs (Tree.has_append.mpr ⟨hqs, hps⟩)
      rw [hstep] at hbyPlace
      refine ⟨hbyPlace, ?_⟩
      rintro _ _ ⟨⟩
      exact hanswer _ _ hstep
  | case2 a s b now hstep hlt ih =>
      obtain ⟨hbyPlace, hanswer⟩ := h a setting s hu hs (Tree.has_append.mpr ⟨hqs, hps⟩)
      rw [hstep] at hbyPlace
      exact ih hbyPlace ((onward_of_ok hstep).tree.has hps) (hanswer _ _ hstep)
  | case3 a s b now hstep hge =>
      obtain ⟨hbyPlace, hanswer⟩ := h a setting s hu hs (Tree.has_append.mpr ⟨hqs, hps⟩)
      rw [hstep] at hbyPlace
      refine ⟨hbyPlace, ?_⟩
      rintro _ _ ⟨⟩
      exact hanswer _ _ hstep
  | case4 a s e now hstep =>
      obtain ⟨hbyPlace, -⟩ := h a setting s hu hs (Tree.has_append.mpr ⟨hqs, hps⟩)
      rw [hstep] at hbyPlace
      exact ⟨hbyPlace, fun b t ht => by cases ht⟩

section Lists

variable {more : Reading Bool}

theorem push_subset (as : Array α) (a : α) :
    (as.push a).toList.flatMap qs ⊆ qs a ++ (as.toList.flatMap qs ++ ps) := by
  intro p hp
  simp only [Array.toList_push, List.flatMap_append, List.flatMap_singleton, List.mem_append] at hp ⊢
  tauto

theorem collectWhile (hmore : more.Places u [] fun _ => []) (h : r.Places u [] qs) :
    (collectWhile more r).Places u ps fun as => as.flatMap qs := by
  refine bind (loop (fun as => as.toList.flatMap qs) (fun as => ?_) (List.nil_subset ps))
    fun as => .pure (List.subset_append_left _ _)
  refine bind hmore.anywhere fun _ => .ite (fun _ => bind h.anywhere fun a => .pure ?_) fun _ =>
    .pure (List.subset_append_left _ _)
  exact push_subset as a

theorem collectThrough (h : r.Places u [] qs) (hmore : more.Places u [] fun _ => []) :
    (collectThrough r more).Places u ps fun as => as.flatMap qs := by
  refine bind (loop (fun as => as.toList.flatMap qs) (fun as => ?_) (List.nil_subset ps))
    fun as => .pure (List.subset_append_left _ _)
  refine bind h.anywhere fun a => bind hmore.anywhere fun _ => ?_
  exact .ite (fun _ => .pure (push_subset as a)) fun _ => .pure (push_subset as a)

theorem oneUpTo (stop : TokenKind) (h : r.Places u [] qs) :
    (oneUpTo stop r).Places u ps fun as => as.flatMap qs :=
  collectThrough h (bind (sees stop) fun _ => .pure (List.nil_subset _))

theorem commaList (h : r.Places u [] qs) : (commaList r).Places u ps fun as => as.flatMap qs :=
  collectThrough h (accept _)

theorem separated (bracket : TokenKind) (h : r.Places u [] qs) :
    (separated bracket r).Places u ps fun as => as.flatMap qs := by
  refine bind (loop (fun as => as.toList.flatMap qs) (fun as => ?_) (List.nil_subset ps))
    fun as => .pure (List.subset_append_left _ _)
  refine bind (sees bracket) fun _ => .ite (fun _ => .pure (List.subset_append_left _ _)) fun _ =>
    bind h.anywhere fun a => bind (accept _) fun _ => ?_
  exact .ite (fun _ => .pure (push_subset as a)) fun _ => .pure (push_subset as a)

end Lists

/-! ## Attempts -/

section Attempts

variable {r : Reading (Option α)} {qs : Option α → List (TermId × Usage)}

/-- What comes to nothing leaves nothing behind. -/
theorem speculate (h : r.Places u ps qs) (hnone : qs none = []) :
    (speculate r).Places u ps qs := by
  intro setting s hu hs hps
  obtain ⟨hbyPlace, hanswer⟩ := h setting s hu hs hps
  have honward := r.onward setting s
  constructor
  · change ((r.run setting s).retracted s).session.tree.ByPlace
    rcases Outcome.session_retracted s (r.run setting s) with ho | ho <;> rw [ho]
    · exact hbyPlace
    · exact hs.rewind honward.tree
  · intro a t ht
    cases a with
    | none =>
        rw [hnone]
        nofun
    | some a => exact hanswer _ _ (Outcome.eq_of_retracted ht)

theorem attempt (what : Attempt) (h : r.Places u ps qs) (hnone : qs none = []) :
    (attempt what r).Places u ps qs := by
  have hremember (f : Failure) {ps : List (TermId × Usage)} :
      (remember f).Places u ps fun _ => [] := fun _ _ _ hs _ => ⟨hs, fun _ _ _ => nofun⟩
  have hafter (f : Failure) (answer : Option α) {ps : List (TermId × Usage)} :
      (do
        if answer.isNone then remember f
        return answer : Reading (Option α)).Places u (qs answer ++ ps) qs :=
    .ite (fun _ => bind (hremember f) fun _ => .pure (List.subset_append_left _ _)) fun _ =>
      .pure (List.subset_append_left _ _)
  refine bind ask fun f => bind ask fun _ => .ite (fun _ => ?_) fun _ => ?_
  · exact bind (pure (by simp [hnone])) fun answer => hafter f answer
  · exact bind (speculate h hnone) fun answer => hafter f answer

theorem succeeds {α : Type} {r : Reading α} {qs : α → List (TermId × Usage)}
    (h : r.Places u ps qs) : (succeeds r).Places u ps fun _ => [] := by
  intro setting s hu hs hps
  obtain ⟨hbyPlace, -⟩ := h setting s hu hs hps
  have honward := r.onward setting s
  refine ⟨?_, fun _ _ _ => nofun⟩
  change ((r.run setting s).tested s).session.tree.ByPlace
  rcases Outcome.session_tested s (r.run setting s) with ho | ho <;> rw [ho]
  · exact hbyPlace
  · exact hs.rewind honward.tree

end Attempts

theorem reported (h : r.Places u ps qs) :
    (Reading.reported r).Places u ps fun found => found.toList.flatMap qs := by
  intro setting s hu hs hps
  obtain ⟨hbyPlace, hanswer⟩ := h setting s hu hs hps
  change (r.run setting s).reported.session.tree.ByPlace ∧
    ∀ found t, (r.run setting s).reported = .ok found t → _
  cases hr : r.run setting s with
  | ok a t =>
      rw [hr] at hbyPlace
      refine ⟨hbyPlace, ?_⟩
      rintro _ _ ⟨⟩
      simpa using hanswer a t hr
  | error e t =>
      rw [hr] at hbyPlace
      refine ⟨hbyPlace, ?_⟩
      rintro _ _ ⟨⟩
      nofun

theorem recovering {describe : SyntaxError → SyntaxError} {handler : Reading α}
    (h : r.Places u ps qs) (hhandler : handler.Places u ps qs) :
    (Reading.recovering describe handler r).Places u ps qs := by
  intro setting s hu hs hps
  obtain ⟨hbyPlace, hanswer⟩ := h setting s hu hs hps
  have honward := r.onward setting s
  change ((r.run setting s).recovered setting.config.recover describe s
      (handler.run setting)).session.tree.ByPlace ∧
    ∀ a t, (r.run setting s).recovered setting.config.recover describe s (handler.run setting) =
      .ok a t → _
  cases hr : r.run setting s with
  | ok a t =>
      rw [hr] at hbyPlace
      exact ⟨hbyPlace, fun b u hb => hanswer b u (hr.trans hb)⟩
  | error e t =>
      rw [hr] at hbyPlace honward
      cases setting.config.recover with
      | true => exact hhandler setting _ hu (hs.rewind honward.tree) (honward.tree.rewind.has hps)
      | false => exact ⟨hbyPlace, fun b u hb => by cases hb⟩

end Places

end Reading

end BendSyntax
