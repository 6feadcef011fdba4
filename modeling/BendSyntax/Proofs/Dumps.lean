import BendSyntax.Proofs.Alike
import BendSyntax.Proofs.Children
import BendSyntax.Proofs.Forest

/-! Dumps do not depend on where in a tree the nodes stand. A tree that contains the nodes of
another one, renumbered, has its dumps as well. -/

namespace BendSyntax

/-! ## Layers -/

section Layers

variable {α β γ τ υ π ρ : Type} {S : Span → Span → Prop} {R : τ → υ → Prop} {P : π → ρ → Prop}
  {f : τ → String} {g : υ → String} {h : π → String} {k : ρ → String}

theorem map_eq_of_forall₂ {Q : α → β → Prop} {as : List α} {bs : List β}
    (hab : List.Forall₂ Q as bs) {f : α → γ} {g : β → γ} (hfg : ∀ a b, Q a b → f a = g b) :
    as.map f = bs.map g := by
  induction hab with
  | nil => rfl
  | cons hab _ ih => rw [List.map_cons, List.map_cons, hfg _ _ hab, ih]

theorem map_eq_of_rel {Q : α → β → Prop} {x : Option α} {y : Option β} (hxy : Option.Rel Q x y)
    {f : α → γ} {g : β → γ} (hfg : ∀ a b, Q a b → f a = g b) : x.map f = y.map g := by
  cases hxy with
  | some hab => exact congrArg some (hfg _ _ hab)
  | none => rfl

theorem Pattern.Alike.dump {p : Pattern π} {q : Pattern ρ} (hpq : p.Alike P q)
    (hP : ∀ p q, P p q → h p = k q) : (p.map h).dump = (q.map k).dump := by
  cases hpq with
  | ctor name hps => simp [Pattern.map, Pattern.dump, map_eq_of_forall₂ hps hP]
  | succ n hp => simp [Pattern.map, Pattern.dump, hP _ _ hp]
  | tuple hps => simp [Pattern.map, Pattern.dump, map_eq_of_forall₂ hps hP]
  | list hps => simp [Pattern.map, Pattern.dump, map_eq_of_forall₂ hps hP]
  | cons hp hq => simp [Pattern.map, Pattern.dump, hP _ _ hp, hP _ _ hq]
  | paren hp => simp [Pattern.map, Pattern.dump, hP _ _ hp]
  | _ => rfl

section Parts

variable (hR : ∀ a b, R a b → f a = g b)

include hR

theorem Binder.Alike.dump {b : Binder τ} {c : Binder υ} (hbc : b.Alike S R c) :
    (b.map f).dump = (c.map g).dump := by
  simp [Binder.map, Binder.dump, hbc.name, hR _ _ hbc.type]

theorem binders_dump {bs : List (Binder τ)} {cs : List (Binder υ)}
    (h : List.Forall₂ (Binder.Alike S R) bs cs) :
    (bs.map (·.map f)).map (·.dump) = (cs.map (·.map g)).map (·.dump) := by
  rw [List.map_map, List.map_map]
  exact map_eq_of_forall₂ h fun _ _ => Binder.Alike.dump hR

theorem Param.Alike.dump (hP : ∀ p q, P p q → h p = k q) {p : Param τ π} {q : Param υ ρ}
    (hpq : p.Alike S R P q) : (p.map f h).dump = (q.map g k).dump := by
  cases hpq with
  | name n hs => rfl
  | typed hb => exact hb.dump hR
  | patterns hps => simp [Param.map, Param.dump, map_eq_of_forall₂ hps hP]

theorem WithClause.Alike.dump {w : WithClause τ} {x : WithClause υ} (hwx : w.Alike S R x) :
    (w.map f).dump = (x.map g).dump := by
  simp [WithClause.map, WithClause.dump, hwx.name, map_eq_of_rel hwx.value hR]

theorem MatchCase.Alike.dump (hP : ∀ p q, P p q → h p = k q) {c : MatchCase τ π}
    {d : MatchCase υ ρ} (hcd : c.Alike S R P d) : (c.map f h).dump = (d.map g k).dump := by
  simp [MatchCase.map, MatchCase.dump, map_eq_of_forall₂ hcd.patterns hP, hR _ _ hcd.body]

theorem CaseTag.Alike.dump {c : CaseTag τ} {d : CaseTag υ} (hcd : c.Alike R d) :
    (c.map f).dump = (d.map g).dump := by
  cases hcd with
  | sup ha => simp [CaseTag.map, CaseTag.dump, hR _ _ ha]
  | _ => rfl

theorem CaseBlock.Alike.dump {b : CaseBlock τ} {c : CaseBlock υ} (hbc : b.Alike S R c) :
    (b.map f).dump = (c.map g).dump := by
  have hcases : (b.cases.map (·.map f)).map (fun c => Dump.group [c.tag.dump, c.body]) =
      (c.cases.map (·.map g)).map fun c => Dump.group [c.tag.dump, c.body] := by
    rw [List.map_map, List.map_map]
    refine map_eq_of_forall₂ hbc.cases fun x y hxy => ?_
    simp [BlockCase.map, hxy.tag.dump hR, hR _ _ hxy.body]
  simp only [CaseBlock.map, CaseBlock.dump, hbc.kind, hcases, map_eq_of_rel hbc.fallback hR]

/-- Terms that are alike have the same dump if their children have. -/
theorem Term.Alike.dump (hP : ∀ p q, P p q → h p = k q) {t : Term τ π} {u : Term υ ρ}
    (htu : t.Alike S R P u) : (t.map f h).dump = (u.map g k).dump := by
  have hRs : ∀ as bs, List.Forall₂ R as bs → as.map f = bs.map g :=
    fun _ _ has => map_eq_of_forall₂ has hR
  cases htu with
  | all hb ha => simp only [Term.map, Term.dump, binders_dump hR hb, hR _ _ ha]
  | any hb ha => simp only [Term.map, Term.dump, hb.dump hR, hR _ _ ha]
  | lam hp ha =>
      have hparams := map_eq_of_forall₂ hp fun _ _ => Param.Alike.dump hR hP
      simp only [Term.map, Term.dump, List.map_map, Function.comp_def, hR _ _ ha, hparams]
  | lamMatch hb => simp only [Term.map, Term.dump, hb.dump hR]
  | tildeMatch ha hb => simp only [Term.map, Term.dump, hb.dump hR, hR _ _ ha]
  | @matchOn as bs ws xs cs ds hs hw hc =>
      have hwiths := map_eq_of_forall₂ hw fun _ _ => WithClause.Alike.dump hR
      have hcases := map_eq_of_forall₂ hc fun _ _ => MatchCase.Alike.dump hR hP
      have hempty : ws.isEmpty = xs.isEmpty := by cases hw <;> rfl
      simp only [Term.map, Term.dump, List.map_map, Function.comp_def, hRs _ _ hs, hwiths, hcases,
        List.isEmpty_map, hempty]
  | letIn name ht ha hb =>
      simp only [Term.map, Term.dump, map_eq_of_rel ht hR, hR _ _ ha, hR _ _ hb]
  | _ => grind [Term.map, Term.dump]

/-! ## Items -/

theorem TypeParam.Alike.dump {p : TypeParam τ} {q : TypeParam υ} (hpq : p.Alike S R q) :
    (p.map f).dump = (q.map g).dump := by
  simp [TypeParam.map, TypeParam.dump, hpq.name, map_eq_of_rel hpq.bound hR]

theorem typeParams_dump {ps : List (TypeParam τ)} {qs : List (TypeParam υ)}
    (h : List.Forall₂ (TypeParam.Alike S R) ps qs) :
    (ps.map (·.map f)).map (·.dump) = (qs.map (·.map g)).map (·.dump) := by
  rw [List.map_map, List.map_map]
  exact map_eq_of_forall₂ h fun _ _ => TypeParam.Alike.dump hR

theorem DefForm.Alike.dump {d : DefForm τ} {e : DefForm υ} (hde : d.Alike S R e) :
    (d.map f).dump = (e.map g).dump := by
  cases hde with
  | full hb ht ha =>
      simp only [DefForm.map, DefForm.dump, binders_dump hR hb, map_eq_of_rel ht hR, hR _ _ ha]
  | equation ha hb => simp only [DefForm.map, DefForm.dump, hR _ _ ha, hR _ _ hb]
  | nullary ha => simp only [DefForm.map, DefForm.dump, hR _ _ ha]

theorem CtorCase.Alike.dump {c : CtorCase τ} {d : CtorCase υ} (hcd : c.Alike S R d) :
    (c.map f).dump = (d.map g).dump := by
  simp only [CtorCase.map, CtorCase.dump, hcd.tag, binders_dump hR hcd.fields]

/-- Items that are alike have the same dump if their terms have. -/
theorem Item.Alike.dump {i : Item τ} {j : Item υ} (hij : i.Alike S R j) :
    (i.map f).dump = (j.map g).dump := by
  cases hij with
  | definition hd =>
      simp only [Item.map, Def.map, Item.dump, hd.name, typeParams_dump hR hd.typeParams,
        hd.form.dump hR]
  | typeDef hd =>
      have hcases := map_eq_of_forall₂ hd.cases fun _ _ => CtorCase.Alike.dump hR
      simp only [Item.map, TypeDef.map, Item.dump, hd.name, typeParams_dump hR hd.typeParams,
        binders_dump hR hd.params, List.map_map, Function.comp_def, hcases]
  | assertion ha hb hs => simp only [Item.map, Item.dump, hR _ _ ha, hR _ _ hb]
  | proof name ha hb hs => simp only [Item.map, Item.dump, hR _ _ ha, hR _ _ hb]
  | expr ha => simp only [Item.map, Item.dump, hR _ _ ha]
  | error hs => rfl

end Parts

end Layers

/-! ## Tables -/

section Tables

variable {α β γ : Type}

/-- A value for every element, given the values of the elements before it. -/
def pushing (f : Array γ → α → γ) (done : Array γ) (a : α) : Array γ := done.push (f done a)

/-- Values that are known stay. -/
theorem foldl_pushing_append (f : Array γ → α → γ) (as : List α) (done : Array γ) :
    ∃ more, as.foldl (pushing f) done = done ++ more := by
  induction as generalizing done with
  | nil => exact ⟨#[], by simp⟩
  | cons a as ih =>
      obtain ⟨more, hmore⟩ := ih (pushing f done a)
      exact ⟨#[f done a] ++ more, by rw [List.foldl_cons, hmore, pushing, Array.push_eq_append,
        Array.append_assoc]⟩

theorem size_foldl_pushing (f : Array γ → α → γ) (as : List α) (done : Array γ) :
    (as.foldl (pushing f) done).size = done.size + as.length := by
  induction as generalizing done with
  | nil => rfl
  | cons a as ih => simp [ih, pushing]; omega

/-- The values come out the same if each of them does, given as many as there are elements before
it. -/
theorem foldl_pushing_congr {f g : Array γ → α → γ} {as : List α} {done : Array γ}
    (h : ∀ i a (before : Array γ), as[i]? = some a → before.size = done.size + i →
      f before a = g before a) : as.foldl (pushing f) done = as.foldl (pushing g) done := by
  induction as generalizing done with
  | nil => rfl
  | cons a as ih =>
      have hfirst : pushing f done a = pushing g done a := congrArg done.push (h 0 a done rfl rfl)
      rw [List.foldl_cons, List.foldl_cons, hfirst]
      refine ih fun i b before hb hsize => h (i + 1) b before hb ?_
      rw [hsize, pushing, Array.size_push]
      omega

/-- Behind other values the same values come out, if each of them comes out. -/
theorem foldl_pushing_of_forall₂ {Q : α → β → Prop} {f : Array γ → α → γ} {g : Array γ → β → γ}
    {base : Array γ} (hfg : ∀ a b done, Q a b → f done a = g (base ++ done) b) {as : List α}
    {bs : List β} (h : List.Forall₂ Q as bs) (done : Array γ) :
    bs.foldl (pushing g) (base ++ done) = base ++ as.foldl (pushing f) done := by
  induction h generalizing done with
  | nil => rfl
  | cons hab _ ih =>
      rw [List.foldl_cons, List.foldl_cons, ← ih]
      simp [pushing, hfg _ _ done hab]

/-- A value is found from the values before it, which stay what they were. -/
theorem getD_foldl_pushing (f : Array γ → α → γ) {as : List α} {i : Nat} {a : α}
    (h : as[i]? = some a) (x : γ) :
    ∃ before : Array γ, (as.foldl (pushing f) #[]).getD i x = f before a ∧
      ∀ j < i, before.getD j x = (as.foldl (pushing f) #[]).getD j x := by
  obtain ⟨hlt, rfl⟩ := List.getElem?_eq_some_iff.mp h
  obtain ⟨more, hmore⟩ := foldl_pushing_append f (as.drop (i + 1))
    (pushing f ((as.take i).foldl (pushing f) #[]) as[i])
  have hsize : ((as.take i).foldl (pushing f) #[]).size = i := by
    rw [size_foldl_pushing, List.length_take]
    simp
    omega
  have hall : as.foldl (pushing f) #[] =
      ((as.take i).foldl (pushing f) #[]).push (f ((as.take i).foldl (pushing f) #[]) as[i]) ++
        more := by
    conv_lhs => rw [← List.take_append_drop i as, List.drop_eq_getElem_cons hlt]
    rw [List.foldl_append, List.foldl_cons, hmore]
    rfl
  refine ⟨(as.take i).foldl (pushing f) #[], ?_, fun j hj => ?_⟩
  · rw [hall]
    simp [Array.getD_eq_getD_getElem?, Array.getElem?_append, Array.getElem_push, hsize]
  · rw [hall]
    simp [Array.getD_eq_getD_getElem?, Array.getElem?_append, Array.getElem_push, hsize, hj,
      Nat.lt_succ_of_lt hj]

/-- From corresponding elements the same values come out, if each of them does. -/
theorem foldl_pushing_alike {Q : α → β → Prop} {f : Array γ → α → γ} {g : Array γ → β → γ}
    (hfg : ∀ a b done, Q a b → f done a = g done b) {as : List α} {bs : List β}
    (h : List.Forall₂ Q as bs) (done : Array γ) :
    as.foldl (pushing f) done = bs.foldl (pushing g) done := by
  induction h generalizing done with
  | nil => rfl
  | cons hab _ ih =>
      rw [List.foldl_cons, List.foldl_cons, ← ih, pushing, pushing, hfg _ _ done hab]

/-- In a table that contains the elements of another one its values come out, too. -/
theorem foldl_pushing_infix {Q : α → β → Prop} {f : Array γ → α → γ} {g : Array γ → β → γ}
    {as : List α} {mid : List β} (h : List.Forall₂ Q as mid) (front back : List β)
    (hfg : ∀ (base done : Array γ) a b, base.size = front.length → Q a b →
      f done a = g (base ++ done) b) :
    ∃ base more : Array γ, base.size = front.length ∧
      (front ++ mid ++ back).foldl (pushing g) #[] = base ++ as.foldl (pushing f) #[] ++ more := by
  let base := front.foldl (pushing g) #[]
  have hbase : base.size = front.length := by simp [base, size_foldl_pushing]
  have hmid : mid.foldl (pushing g) base = base ++ as.foldl (pushing f) #[] := by
    simpa using foldl_pushing_of_forall₂ (fun a b done => hfg base done a b hbase) h #[]
  obtain ⟨more, hmore⟩ := foldl_pushing_append g back (base ++ as.foldl (pushing f) #[])
  refine ⟨base, more, hbase, ?_⟩
  rw [List.foldl_append, List.foldl_append, hmid, hmore]

theorem getD_append_add (base as : Array γ) (n : Nat) (x : γ) :
    (base ++ as).getD (base.size + n) x = as.getD n x := by
  have hle : ¬base.size + n < base.size := by omega
  simp [Array.getD_eq_getD_getElem?, Array.getElem?_append, hle]

theorem getD_append_of_lt {as : Array γ} {n : Nat} (hn : n < as.size) (more : Array γ) (x : γ) :
    (as ++ more).getD n x = as.getD n x := by
  simp [Array.getD_eq_getD_getElem?, Array.getElem?_append, hn]

end Tables

/-! ## Trees -/

namespace Tree

/-- The nodes of `t`, renumbered, stand behind `m` terms and `n` patterns of `u`. -/
structure Within (t u : Tree) (m n : Nat) : Prop where
  terms : ∃ front mid back, u.terms.toList = front ++ mid ++ back ∧ front.length = m ∧
    List.Forall₂ (fun x y : TermNode => x.term.Alike (fun _ _ => True)
      (fun a b => b.index = m + a.index) (fun p q => q.index = n + p.index) y.term)
      t.terms.toList mid
  patterns : ∃ front mid back, u.patterns.toList = front ++ mid ++ back ∧ front.length = n ∧
    List.Forall₂ (fun x y : PatternNode =>
      x.pattern.Alike (fun p q => q.index = n + p.index) y.pattern) t.patterns.toList mid

theorem patternDumps_eq (t : Tree) :
    t.patternDumps = t.patterns.toList.foldl
      (pushing fun done node => (node.pattern.map fun id => done.getD id.index "").dump) #[] := by
  rw [patternDumps, foldPatterns, ← Array.foldl_toList]
  rfl

theorem termDumps_eq (t : Tree) :
    t.termDumps = t.terms.toList.foldl
      (pushing fun done node => (node.term.map (fun id => done.getD id.index "")
        fun id => t.patternDumps.getD id.index "").dump) #[] := by
  rw [termDumps, foldTerms, ← Array.foldl_toList]
  rfl

theorem size_patternDumps (t : Tree) : t.patternDumps.size = t.patterns.size := by
  rw [patternDumps_eq, size_foldl_pushing]
  simp

theorem termDumps_widen (t : Tree) (id : TermId) (span : Span) :
    (t.widen id span).termDumps = t.termDumps := by
  have hterms : (t.widen id span).terms.toList.map (·.term) = t.terms.toList.map (·.term) := by
    refine List.ext_getElem? fun i => ?_
    rw [List.getElem?_map, List.getElem?_map, Array.getElem?_toList, Array.getElem?_toList, widen,
      Array.getElem?_modify]
    split
    · cases t.terms[i]? <;> rfl
    · rfl
  have hdumps := congrArg (List.foldl (pushing fun done term =>
    (term.map (fun id => done.getD id.index "") fun id => t.patternDumps.getD id.index "").dump) #[])
    hterms
  rw [List.foldl_map, List.foldl_map] at hdumps
  rw [termDumps_eq, termDumps_eq]
  exact hdumps

theorem size_termDumps (t : Tree) : t.termDumps.size = t.terms.size := by
  rw [termDumps_eq, size_foldl_pushing]
  simp

/-- No pattern of a term is out of bounds. -/
theorem Forest.pattern_lt {t : Tree} {roots : Multiset Ref} (h : t.Forest roots) :
    ∀ x ∈ t.terms.toList, ∀ q, .pattern q ∈ x.term.children → q.index < t.patterns.size := by
  intro x hx q hq
  obtain ⟨i, hi⟩ := List.mem_iff_getElem?.mp hx
  rw [Array.getElem?_toList] at hi
  obtain ⟨hlt, rfl⟩ := Array.getElem?_eq_some_iff.mp hi
  have hnode : Child.term ⟨i⟩ ∈ t.nodes := mem_nodes_term.mpr hlt
  refine mem_nodes_pattern.mp (h.mem_nodes_of_child hnode ?_)
  simpa [childrenOf, term?, hlt] using hq

/-- The dump of a term is made of the dumps of its children, if they come before it. -/
theorem dump_of_term? {t : Tree} {id : TermId} {term : Term TermId PatternId}
    (hid : t.term? id = some term) (hbefore : ∀ a, .term a ∈ term.children → a.index < id.index) :
    t.dump id = (term.map t.dump fun q => t.patternDumps.getD q.index "").dump := by
  obtain ⟨node, hnode, rfl⟩ := Option.map_eq_some_iff.mp hid
  rw [← Array.getElem?_toList] at hnode
  obtain ⟨before, hvalue, hstay⟩ := getD_foldl_pushing
    (fun done (node : TermNode) => (node.term.map (fun id => done.getD id.index "")
      fun id => t.patternDumps.getD id.index "").dump) hnode ""
  rw [dump, termDumps_eq, hvalue]
  congr 1
  refine node.term.map_congr (fun a ha => ?_) fun _ _ => rfl
  rw [hstay a.index (hbefore a ha), dump, termDumps_eq]

namespace Within

variable {t u : Tree} {m n : Nat} (h : t.Within u m n)

include h

theorem patternDumps {i : Nat} (hi : i < t.patterns.size) :
    u.patternDumps.getD (n + i) "" = t.patternDumps.getD i "" := by
  obtain ⟨front, mid, back, hu, rfl, halike⟩ := h.patterns
  obtain ⟨base, more, hbase, hdumps⟩ := foldl_pushing_infix halike front back
    (f := fun done node => (node.pattern.map fun id => done.getD id.index "").dump)
    (g := fun done node => (node.pattern.map fun id => done.getD id.index "").dump)
    fun base done x y hbase hxy => hxy.dump fun p q hpq => by
      rw [hpq, ← hbase, getD_append_add]
  rw [← hu, ← patternDumps_eq, ← patternDumps_eq, Array.append_assoc] at hdumps
  rw [hdumps, ← hbase, getD_append_add, getD_append_of_lt (by rwa [size_patternDumps])]

theorem termDumps {roots : Multiset Ref} (ht : t.Forest roots) {i : Nat} (hi : i < t.terms.size) :
    u.termDumps.getD (m + i) "" = t.termDumps.getD i "" := by
  obtain ⟨front, mid, back, hu, rfl, halike⟩ := h.terms
  have halike := (List.forall₂_and_left _ _).mpr ⟨ht.pattern_lt, halike⟩
  obtain ⟨base, more, hbase, hdumps⟩ := foldl_pushing_infix halike front back
    (f := fun done node => (node.term.map (fun id => done.getD id.index "")
      fun id => t.patternDumps.getD id.index "").dump)
    (g := fun done node => (node.term.map (fun id => done.getD id.index "")
      fun id => u.patternDumps.getD id.index "").dump)
    fun base done x y hbase hxy => by
      have hmap : x.term.map (fun id => done.getD id.index "")
            (fun id => t.patternDumps.getD id.index "") =
          x.term.map (fun id => done.getD id.index "")
            fun id => u.patternDumps.getD (n + id.index) "" :=
        x.term.map_congr (fun _ _ => rfl) fun q hq => (h.patternDumps (hxy.1 q hq)).symm
      rw [hmap]
      refine hxy.2.dump (fun a b hab => ?_) fun p q hpq => ?_
      · rw [hab, ← hbase, getD_append_add]
      · rw [hpq]
  rw [← hu, ← termDumps_eq, ← termDumps_eq, Array.append_assoc] at hdumps
  rw [hdumps, ← hbase, getD_append_add, getD_append_of_lt (by rwa [size_termDumps])]

/-- Items that are alike have the same dumps in a tree and in one that contains it. -/
theorem itemDumps {items items' : List (Item TermId)}
    (ht : t.Forest ((items.flatMap (·.roots)).map .term : List Ref))
    (hitems : List.Forall₂ (Item.Alike (fun _ _ => True) fun a b => b.index = m + a.index) items
      items') :
    (⟨u, items'⟩ : Program).itemDumps = (⟨t, items⟩ : Program).itemDumps := by
  have hroots : ∀ i ∈ items, ∀ a ∈ i.roots, a.index < t.terms.size := fun i hi a ha =>
    mem_nodes_term.mp (ht.mem_nodes_of_root
      (Multiset.mem_coe.mpr (List.mem_map_of_mem (List.mem_flatMap.mpr ⟨i, hi, ha⟩))))
  symm
  refine map_eq_of_forall₂ ((List.forall₂_and_left _ _).mpr ⟨hroots, hitems⟩) fun i j hij => ?_
  have hmap : (i.map fun id => t.termDumps.getD id.index "") =
      i.map fun id => u.termDumps.getD (m + id.index) "" :=
    i.map_congr fun a ha => (h.termDumps ht (hij.1 a ha)).symm
  rw [hmap]
  exact hij.2.dump fun a b hab => by rw [hab]

end Within

end Tree

end BendSyntax
