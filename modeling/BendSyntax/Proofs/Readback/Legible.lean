import BendSyntax.Proofs.Readback.Layers

/-! Every layer is read back from its dump, as long as no variable has a slash in its name and no parameter
with a type is called `pat`. -/

namespace BendSyntax

open Dump

namespace Dump

theorem listed_symbol (op : BinaryOp) : Listed op.symbol := by
  cases op
  case assign | cons | eq | strictEq | lt | gt | le | ge | shl | shr => all_goals exact Readable.sign (by decide)
  case define | neq | strictNeq => all_goals exact Readable.word (by simp [BinaryOp.symbol, IsWord, Dump.Stops])
  all_goals exact (stands_of_isPlain (by decide)).listed

/-- A name is no list. -/
theorem parts?_of_named {s : String} (h : IsIdentifier s) : parts? s = none := parts?_of_head (h.head?_ne rfl)

theorem parts?_tagged (name : String) : parts? (tagged name) = none := parts?_of_head (by simp [tagged])

theorem parts?_symbol (name : String) : parts? (symbol name) = none := parts?_of_head (by simp [symbol])

theorem toList_tagged (name : String) : (tagged name).toList = '@' :: name.toList := by simp [tagged]

theorem toList_symbol (name : String) : (symbol name).toList = '&' :: name.toList := by simp [symbol]

theorem listed_label {label : String} (h : Stands label) : Listed (symbol label ++ "\x7b,\x7d") := by
  rw [Listed, String.toList_append, toList_symbol]
  exact .label h

end Dump

/-! ## Words -/

namespace Literal

theorem not_opens_of_isWordStart {c : Char} (h : Scanned.isWordStart c = true) : ¬Opens c := by
  rintro (hdigit | hmark)
  · simp [(Scanned.apart_of_isWordStart h).1] at hdigit
  · simp only [List.mem_cons, List.not_mem_nil, or_false] at hmark
    rcases hmark with rfl | rfl | rfl | rfl | rfl <;> exact absurd h (by decide)

theorem ofShown?_named {s : String} (h : IsIdentifier s) : ofShown? s = none := by
  refine ofShown?_eq_none (h.ne_reserved (by decide)) (h.ne_reserved (by decide)) ?_
  obtain ⟨x, rfl⟩ := h
  obtain ⟨d, cs, htext, hd⟩ := x.exists_cons
  simp [htext, not_opens_of_isWordStart hd]

/-- The text of a literal begins with none of the other characters. -/
theorem head?_shown_ne {l : Literal} (h : l.Normal) {c : Char} (hc : ¬Opens c) (htrue : c ≠ 'T') (hfalse : c ≠ 'F') :
    l.shown.toList.head? ≠ some c := by
  obtain heq | heq | ⟨d, cs, htext, hd⟩ := opens_shown h
  · rw [heq]
    rintro ⟨⟩
    exact htrue rfl
  · rw [heq]
    rintro ⟨⟩
    exact hfalse rfl
  · rw [htext]
    rintro ⟨⟩
    exact hc hd

theorem parts?_shown {l : Literal} (h : l.Normal) : parts? l.shown = none :=
  parts?_of_head (head?_shown_ne h (by decide) (by decide) (by decide))

end Literal

/-- Children whose texts may stand anywhere. -/
def Child.Stand : Child String String → Prop
  | term s => Stands s
  | pattern s => Stands s

/-! ## The parts of terms -/

theorem Binder.legible {b : Binder String} (hname : IsIdentifier b.name) (htype : Stands b.type) :
    Stands b.dump ∧ ofDump b.dump = b.bare := by
  have hparts : Parts [b.name, b.type] := .stand hname.stands (.stand htype .nil)
  refine ⟨hparts.stands, ?_⟩
  rw [Binder.dump, ofDump, parts?_group hparts]
  rfl

/-- A parameter with a type is told from patterns unless it is called `pat`. -/
def Param.isUnambiguous {τ π : Type} : Param τ π → Bool
  | typed b => b.name != "pat"
  | _ => true

theorem Param.legible {p : Param String String} (hspelled : p.Spelled) (hclear : p.isUnambiguous = true)
    (hchildren : ∀ c ∈ p.children, c.Stand) :
    Stands p.dump ∧ ofDump p.dump = p.bare := by
  cases p with
  | name n span =>
      refine ⟨IsIdentifier.stands hspelled, ?_⟩
      rw [Param.dump, ofDump, parts?_of_named hspelled]
      rfl
  | typed b =>
      have htype : Stands b.type := by simpa [children, Child.Stand] using hchildren
      have hparts : Parts [b.name, b.type] := .stand (IsIdentifier.stands hspelled) (.stand htype .nil)
      refine ⟨hparts.stands, ?_⟩
      rw [Param.dump, Binder.dump, ofDump, parts?_group hparts]
      exact if_neg (bne_iff_ne.mp hclear)
  | patterns items =>
      have hitems : ∀ p ∈ items, Stands p := by simpa [children, Child.Stand] using hchildren
      have hparts : Parts ("pat" :: items) := .keyword (by decide) (.of_stands hitems)
      refine ⟨hparts.stands, ?_⟩
      rw [Param.dump, ofDump, parts?_group hparts]
      rfl

theorem WithClause.legible {w : WithClause String} (hname : IsIdentifier w.name) (hvalue : ∀ v ∈ w.value, Stands v) :
    Stands w.dump ∧ ofDump w.dump = w.bare := by
  obtain ⟨name, span, value⟩ := w
  cases value with
  | none =>
      refine ⟨hname.stands, ?_⟩
      rw [WithClause.dump, ofDump, parts?_of_named hname]
      rfl
  | some v =>
      have hparts : Parts [name, v] := .stand hname.stands (.stand (hvalue v rfl) .nil)
      refine ⟨hparts.stands, ?_⟩
      rw [WithClause.dump, ofDump, parts?_group hparts]
      rfl

/-- A case is no clause in front of the cases. -/
theorem MatchCase.legible {c : MatchCase String String} (hpatterns : ∀ p ∈ c.patterns, Stands p)
    (hbody : Stands c.body) :
    Stands c.dump ∧ ofDump c.dump = c.bare ∧ Term.withs? c.dump = none := by
  have hparts : Parts ("case" :: c.patterns ++ ["=>", c.body]) :=
    .keyword (by decide) (.append (.of_stands hpatterns) (.cons (.sign (by decide)) (.stand hbody .nil)))
  refine ⟨hparts.stands, ?_, ?_⟩
  · rw [MatchCase.dump, ofDump, parts?_group hparts]
    simp [bare]
  · rw [MatchCase.dump, Term.withs?, parts?_group hparts]
    rfl

/-! ## Case blocks -/

theorem CaseTag.listed {tag : CaseTag String} (hspelled : tag.Spelled) (hlabel : ∀ l, tag = .sup l → Stands l) :
    Listed tag.dump := by
  cases tag with
  | ctor name => exact (IsIdentifier.stands_tagged hspelled).listed
  | sym name => exact (IsIdentifier.stands_symbol hspelled).listed
  | sup label => exact listed_label (hlabel label rfl)
  | unit => exact (Parts.stands .nil).listed
  | pair => exact (@Parts.stands [","] (.keyword (by decide) .nil)).listed
  | cons => exact Readable.sign (by decide)
  | refl => exact Readable.word (by simp [CaseTag.dump, IsWord, Dump.Stops])
  | _ => exact (stands_of_isPlain (by decide)).listed

theorem CaseTag.ofDump_dump {tag : CaseTag String} (hspelled : tag.Spelled) : ofDump tag.dump = tag := by
  cases tag with
  | ctor name => 
      rw [CaseTag.dump, ofDump, if_pos (by simp [toList_tagged]), unmarked_tagged]
  | sym name =>
      have hbraces : ¬['\x7b', ',', '\x7d'] <:+ (symbol name).toList := by
        intro hsuffix
        have hmem : '\x7b' ∈ (symbol name).toList := hsuffix.subset (by simp)
        rw [toList_symbol] at hmem
        rcases List.mem_cons.mp hmem with heq | hname
        · cases heq
        · exact IsIdentifier.ordinary hspelled _ hname (by decide)
      rw [CaseTag.dump, ofDump, if_neg (by simp [toList_symbol]), if_pos (by simp [toList_symbol]), if_neg hbraces,
        unmarked_symbol]
  | sup label =>
      have htext : (CaseTag.sup label).dump.toList = '&' :: (label.toList ++ ['\x7b', ',', '\x7d']) := by
        rw [CaseTag.dump, String.toList_append, toList_symbol]
        rfl
      have hlabel : unbraced (unmarked (CaseTag.sup label).dump) = label := by
        simp [unbraced, unmarked, htext]
      rw [ofDump, htext, if_neg (by simp), if_pos (by simp), if_pos ⟨'&' :: label.toList, rfl⟩, hlabel]
  | _ => rfl

theorem CaseTag.dump_ne_underscore (tag : CaseTag String) : tag.dump ≠ "_" := by
  have hhead (s : String) (h : s.toList.head? ≠ some '_') : s ≠ "_" := by
    rintro rfl
    exact h rfl
  cases tag with
  | ctor name => exact hhead _ (by simp [CaseTag.dump, toList_tagged])
  | sym name => exact hhead _ (by simp [CaseTag.dump, toList_symbol])
  | sup label => exact hhead _ (by simp [CaseTag.dump, toList_symbol])
  | _ => exact hhead _ (by decide)

theorem blockEntry_group {tag body : String} (htag : Listed tag) (hbody : Stands body) :
    blockEntry (group [tag, body]) = (tag, body) := by
  rw [blockEntry, parts?_group (.cons htag (.stand hbody .nil))]

theorem BlockKind.isPlain_head (kind : BlockKind) :
    isPlain (kind.name ++ "-match") = true := by
  cases kind <;> decide

theorem CaseBlock.legible {b : CaseBlock String} (hspelled : b.Spelled) (hterms : ∀ s ∈ b.terms, Stands s) :
    Stands b.dump ∧ ofDump b.dump = b.bare := by
  obtain ⟨kind, cases, fallback⟩ := b
  simp only [terms, List.mem_append, List.mem_flatMap, Option.mem_toList] at hterms
  have hcase (c : BlockCase String) (hc : c ∈ cases) : Listed c.tag.dump ∧ Stands c.body := by
    have hc' : ∀ s ∈ c.terms, Stands s := fun s hs => hterms s (.inl ⟨c, hc, hs⟩)
    refine ⟨CaseTag.listed (hspelled c hc) fun l hl => hc' l (by simp [BlockCase.terms, hl]), hc' c.body ?_⟩
    unfold BlockCase.terms
    split <;> simp
  have hentry (c : BlockCase String) (hc : c ∈ cases) : Listed (group [c.tag.dump, c.body]) :=
    (Parts.stands (.cons (hcase c hc).1 (.stand (hcase c hc).2 .nil))).listed
  have hlast (body : String) (hbody : body ∈ fallback) : Stands body := hterms body (.inr hbody)
  have hparts : Parts ((kind.name ++ "-match") :: cases.map (fun c => group [c.tag.dump, c.body]) ++
      fallback.toList.map fun body => group ["_", body]) := by
    refine .keyword kind.isPlain_head (.append (List.forall_mem_map.mpr hentry) (List.forall_mem_map.mpr ?_))
    intro body hbody
    exact (Parts.stands (.keyword (by decide) (.stand (hlast body (by simpa using hbody)) .nil))).listed
  refine ⟨hparts.stands, ?_⟩
  have hread : ofDump (CaseBlock.dump ⟨kind, cases, fallback⟩) = ofParts (kind.name ++ "-match")
      (cases.map (fun c => group [c.tag.dump, c.body]) ++ fallback.toList.map fun body => group ["_", body]) := by
    rw [CaseBlock.dump, ofDump, parts?_group hparts]
    rfl
  have hentries : (cases.map (fun c => group [c.tag.dump, c.body]) ++
      fallback.toList.map fun body => group ["_", body]).map blockEntry =
        cases.map (fun c => (c.tag.dump, c.body)) ++ fallback.toList.map fun body => ("_", body) := by
    rw [List.map_append, List.map_map, List.map_map]
    refine congrArg₂ _ (List.map_congr_left fun c hc => ?_) (List.map_congr_left fun body hbody => ?_)
    · exact blockEntry_group (hcase c hc).1 (hcase c hc).2
    · exact blockEntry_group (stands_of_isPlain (by decide)).listed (hlast body (by simpa using hbody))
  have hcases : cases.map (fun c => (⟨CaseTag.ofDump c.tag.dump, .zero, c.body⟩ : BlockCase String)) =
      cases.map (·.bare) :=
    List.map_congr_left fun c hc => by rw [CaseTag.ofDump_dump (hspelled c hc), BlockCase.bare]
  have hnone : cases.find? (fun _ => false) = none := List.find?_eq_none.mpr fun _ _ => by simp
  rw [hread, ofParts, hentries, BlockKind.ofHead?_name]
  cases fallback <;> simp [bare, List.filter_map, Function.comp_def, CaseTag.dump_ne_underscore, hcases, hnone]

/-! ## Patterns -/

namespace Pattern

variable {p : Pattern String}

/-- What is read from a list of parts. -/
theorem legible_group {parts : List String} (hdump : p.dump = group parts) (hparts : Parts parts)
    (hread : ofParts parts = p) : Stands p.dump ∧ ofDump p.dump = p := by
  refine ⟨hdump ▸ hparts.stands, ?_⟩
  rw [hdump, ofDump, parts?_group hparts]
  exact hread

/-- What is read from a text that is no list. -/
theorem legible_word (hstands : Stands p.dump) (hlist : parts? p.dump = none) (hread : ofWord p.dump = p) :
    Stands p.dump ∧ ofDump p.dump = p := by
  refine ⟨hstands, ?_⟩
  rw [ofDump, hlist]
  exact hread

/-- A layer of a pattern is read back from its dump. -/
theorem legible (hspelled : p.Spelled) (hchildren : ∀ s ∈ p.children, Stands s) :
    Stands p.dump ∧ ofDump p.dump = p := by
  cases p with
  | var name =>
      have hname : IsIdentifier name := hspelled
      have hempty : name ≠ "[]" := by
        rintro rfl
        exact hname.head?_ne (c := '[') rfl rfl
      refine legible_word hname.stands (parts?_of_named hname) ?_
      rw [dump, ofWord, if_neg (hname.head?_ne rfl), if_neg (hname.head?_ne rfl), Literal.ofShown?_named hname]
      exact if_neg hempty
  | lit value =>
      refine legible_word (Literal.stands_shown value) (Literal.parts?_shown hspelled) ?_
      have hhead (c : Char) (hc : ¬Literal.Opens c) (htrue : c ≠ 'T') (hfalse : c ≠ 'F') :=
        Literal.head?_shown_ne hspelled hc htrue hfalse
      rw [dump, ofWord, if_neg (hhead _ (by decide) (by decide) (by decide)),
        if_neg (hhead _ (by decide) (by decide) (by decide)), Literal.ofShown?_shown hspelled]
  | tag name =>
      refine legible_word (IsIdentifier.stands_tagged hspelled) (parts?_tagged name) ?_
      rw [dump, ofWord, if_pos (by simp [toList_tagged]), unmarked_tagged]
  | sym name =>
      refine legible_word (IsIdentifier.stands_symbol hspelled) (parts?_symbol name) ?_
      rw [dump, ofWord, if_neg (by simp [toList_symbol]), if_pos (by simp [toList_symbol]), unmarked_symbol]
  | emptyList =>
      refine legible_word (stands_of_isPlain (by decide)) (parts?_of_head (by decide)) ?_
      rw [dump, ofWord, if_neg (by decide), if_neg (by decide),
        Literal.ofShown?_eq_none (by decide) (by decide) (by decide)]
      rfl
  | ctor name args =>
      exact legible_group rfl (.stand (IsIdentifier.stands_tagged hspelled) (.of_stands hchildren))
        (by rw [ofParts, if_pos (by simp [tagged]), unmarked_tagged])
  | succ n rest =>
      have hn : s!"{n}n" = (Literal.nat n).shown := rfl
      have hrest : Stands rest := by simpa [children] using hchildren
      refine legible_group rfl (.keyword (by decide) (.stand (hn ▸ Literal.stands_shown _) (.stand hrest .nil))) ?_
      rw [ofParts, if_neg (by decide), ofKeyword, hn, Literal.ofShown?_shown (l := .nat n) trivial]
  | tuple items => exact legible_group rfl (.keyword (by decide) (.of_stands hchildren)) rfl
  | list items => exact legible_group rfl (.keyword (by decide) (.of_stands hchildren)) rfl
  | cons head tail => exact legible_group rfl (.cons (.sign (by decide)) (.of_stands hchildren)) rfl
  | paren inner => exact legible_group rfl (.keyword (by decide) (.of_stands hchildren)) rfl

end Pattern

/-! ## Terms -/

namespace Term

/-- A variable is told from a qualified name unless there is a slash in it. -/
def isUnambiguous {τ π : Type} : Term τ π → Bool
  | var name => !name.toList.contains '/'
  | lam params _ => params.all (·.isUnambiguous)
  | _ => true

variable {t : Term String String}

/-- What is read from a list of parts. -/
theorem legible_group {parts : List String} (hdump : t.dump = group parts) (hparts : Parts parts)
    (hread : ofParts parts = t.bare) : Stands t.dump ∧ ofDump t.dump = t.bare := by
  refine ⟨hdump ▸ hparts.stands, ?_⟩
  rw [hdump, ofDump, parts?_group hparts]
  exact hread

/-- What is read from a list with a keyword in front. -/
theorem legible_keyword {head : String} {args : List String} (hdump : t.dump = group (head :: args))
    (hhead : head.toList.head? ≠ some '@' ∧ isPlain head = true)
    (hargs : ∀ s ∈ args, Stands s) (hread : ofKeyword head args = t.bare) : Stands t.dump ∧ ofDump t.dump = t.bare :=
  legible_group hdump (.keyword hhead.2 (.of_stands hargs)) ((if_neg hhead.1).trans hread)

/-- What is read from a text that is no list. -/
theorem legible_word (hstands : Stands t.dump) (hlist : parts? t.dump = none) (hread : ofWord t.dump = t.bare) :
    Stands t.dump ∧ ofDump t.dump = t.bare := by
  refine ⟨hstands, ?_⟩
  rw [ofDump, hlist]
  exact hread

/-- What is read from a word that is neither marked nor a literal. -/
theorem ofWord_plain {s : String} (htag : s.toList.head? ≠ some '@') (hsym : s.toList.head? ≠ some '&')
    (hliteral : Literal.ofShown? s = none) : ofWord s = (ofConstant? s).getD (ofName s) := by
  rw [ofWord, if_neg htag, if_neg hsym, hliteral]

/-- A constant is a mark or a reserved word. -/
theorem ofConstant?_named {s : String} (h : IsIdentifier s) : ofConstant? s = none := by
  unfold ofConstant?
  split
  case h_1 => exact (h.head?_ne (c := '[') rfl rfl).elim
  case h_2 => exact (h.head?_ne (c := '*') rfl rfl).elim
  case h_17 => exact (h.head?_ne (c := '\x7b') rfl rfl).elim
  case h_18 => rfl
  all_goals exact (h.ne_reserved (by decide) rfl).elim

theorem ofWord_named {s : String} (h : IsIdentifier s) : ofWord s = ofName s := by
  rw [ofWord_plain (h.head?_ne rfl) (h.head?_ne rfl) (Literal.ofShown?_named h), ofConstant?_named h, Option.getD_none]

/-- What is read from a constant. -/
theorem legible_constant {s : String} (hdump : t.dump = s)
    (hstands : Stands s)
    (hhead : s.toList.head? ≠ some '(' ∧ s.toList.head? ≠ some '@' ∧ s.toList.head? ≠ some '&')
    (hliteral : s ≠ "True" ∧ s ≠ "False" ∧ s.toList.head?.any (decide <| Literal.Opens ·) = false)
    (hread : ofConstant? s = some t.bare) : Stands t.dump ∧ ofDump t.dump = t.bare := by
  subst hdump
  refine legible_word hstands (parts?_of_head hhead.1) ?_
  rw [ofWord_plain hhead.2.1 hhead.2.2 (Literal.ofShown?_eq_none hliteral.1 hliteral.2.1 hliteral.2.2), hread]
  rfl

/-- The parts of a list that are read one by one. -/
theorem read_map {α β : Type} {f : α → String} {g : String → β} {h : α → β} {as : List α}
    (hread : ∀ a ∈ as, Stands (f a) ∧ g (f a) = h a) :
    (∀ s ∈ as.map f, Stands s) ∧ (as.map f).map g = as.map h := by
  refine ⟨List.forall_mem_map.mpr fun a ha => (hread a ha).1, ?_⟩
  rw [List.map_map]
  exact List.map_congr_left fun a ha => (hread a ha).2

theorem legible_all {binders : List (Binder String)} {body : String} (hbody : Stands body)
    (hbinders : ∀ b ∈ binders, IsIdentifier b.name ∧ Stands b.type) :
    Stands (dump (.all binders body)) ∧ ofDump (dump (.all binders body)) = bare (.all binders body) := by
  obtain ⟨hstand, hread⟩ := read_map fun b hb => Binder.legible (hbinders b hb).1 (hbinders b hb).2
  refine legible_keyword rfl (by decide) (List.forall_mem_append.mpr ⟨hstand, List.forall_mem_singleton.mpr hbody⟩) ?_
  change Term.all ((binders.map (·.dump) ++ [body]).dropLast.map Binder.ofDump) _ = _
  rw [List.dropLast_concat, hread]
  simp [bare]

theorem legible_lam {params : List (Param String String)} {body : String} (hbody : Stands body)
    (hparams : ∀ p ∈ params, p.Spelled ∧ p.isUnambiguous = true ∧ ∀ c ∈ p.children, c.Stand) :
    Stands (dump (.lam params body)) ∧ ofDump (dump (.lam params body)) = bare (.lam params body) := by
  obtain ⟨hstand, hread⟩ := read_map fun p hp =>
    Param.legible (hparams p hp).1 (hparams p hp).2.1 (hparams p hp).2.2
  have hlist : Parts (params.map (·.dump)) := .of_stands hstand
  refine legible_keyword rfl (by decide) (by simpa using ⟨hlist.stands, hbody⟩) ?_
  change Term.lam (((parts? (group (params.map (·.dump)))).getD []).map Param.ofDump) body = _
  rw [parts?_group hlist, Option.getD_some, hread, bare]

theorem legible_letIn {name value body : String} {type : Option String} (hname : IsIdentifier name)
    (htype : ∀ t ∈ type, Stands t) (hvalue : Stands value) (hbody : Stands body) :
    Stands (dump (.letIn name type value body)) ∧
      ofDump (dump (.letIn name type value body)) = bare (.letIn name type value body) := by
  cases type with
  | none =>
      refine legible_keyword rfl (by decide) (by simpa using ⟨hname.stands, hvalue, hbody⟩) ?_
      change ofLet name value body = _
      rw [ofLet, parts?_of_named hname]
      rfl
  | some type =>
      have hbound : Parts [name, type] := .stand hname.stands (.stand (htype type rfl) .nil)
      refine legible_keyword rfl (by decide) (by simpa using ⟨hbound.stands, hvalue, hbody⟩) ?_
      change ofLet (group [name, type]) value body = _
      rw [ofLet, parts?_group hbound]
      rfl

/-- Arguments are no type arguments. -/
theorem legible_call {head : String} {args : List String} {tight : Bool} (hhead : Stands head)
    (hargs : ∀ s ∈ args, Stands s) :
    Stands (dump (.call head args tight)) ∧ ofDump (dump (.call head args tight)) = bare (.call head args tight) := by
  refine legible_keyword rfl (by decide) (List.forall_mem_cons.mpr ⟨hhead, hargs⟩) ?_
  change ofCall head args = _
  cases args with
  | nil => rfl
  | cons arg args =>
      rw [ofCall, angles?_of_stands (hargs arg List.mem_cons_self)]
      rfl

theorem legible_genericCall {head : String} {typeArgs args : List String} (hhead : Stands head) (hne : typeArgs ≠ [])
    (htypes : ∀ s ∈ typeArgs, Stands s) (hargs : ∀ s ∈ args, Stands s) :
    Stands (dump (.genericCall head typeArgs args)) ∧
      ofDump (dump (.genericCall head typeArgs args)) = bare (.genericCall head typeArgs args) := by
  have hparts : Parts (head :: angles typeArgs :: args) :=
    .stand hhead (.cons (listed_angles hne htypes) (.of_stands hargs))
  refine legible_group rfl (.keyword (by decide) hparts) ?_
  change ofCall head (angles typeArgs :: args) = _
  rw [ofCall, angles?_angles hne htypes]
  rfl

theorem secondPart_group {keyword part : String} (hkeyword : isPlain keyword = true)
    (hpart : Stands part) : Stands (group [keyword, part]) ∧ secondPart (group [keyword, part]) = part := by
  have hparts : Parts [keyword, part] := .keyword hkeyword (.stand hpart .nil)
  exact ⟨hparts.stands, by rw [secondPart, parts?_group hparts]⟩

theorem legible_fork {cond yes no : String} {elifs : List String} (hcond : Stands cond) (hyes : Stands yes)
    (helifs : ∀ s ∈ elifs, Stands s) (hno : Stands no) :
    Stands (dump (.fork cond yes elifs no)) ∧
      ofDump (dump (.fork cond yes elifs no)) = bare (.fork cond yes elifs no) := by
  have helse := @secondPart_group "else" no (by decide) hno
  obtain ⟨hstand, hread⟩ := read_map (h := id) fun e he => @secondPart_group "elif" e (by decide) (helifs e he)
  have hrest : ∀ s ∈ elifs.map (fun e => group ["elif", e]) ++ [group ["else", no]], Stands s :=
    List.forall_mem_append.mpr ⟨hstand, List.forall_mem_singleton.mpr helse.1⟩
  refine legible_keyword rfl (by decide)
    (List.forall_mem_cons.mpr ⟨hcond, List.forall_mem_cons.mpr ⟨hyes, hrest⟩⟩) ?_
  change ofFork cond yes (elifs.map (fun e => group ["elif", e]) ++ [group ["else", no]]) = _
  rw [ofFork, List.dropLast_concat, hread, List.getLastD_concat, helse.2, List.map_id]
  rfl

theorem legible_matchOn {scrutinees : List String} {withs : List (WithClause String)}
    {cases : List (MatchCase String String)} (hscrutinees : ∀ s ∈ scrutinees, Stands s)
    (hwiths : ∀ w ∈ withs, IsIdentifier w.name ∧ ∀ v ∈ w.value, Stands v)
    (hcases : ∀ c ∈ cases, (∀ p ∈ c.patterns, Stands p) ∧ Stands c.body) :
    Stands (dump (.matchOn scrutinees withs cases)) ∧
      ofDump (dump (.matchOn scrutinees withs cases)) = bare (.matchOn scrutinees withs cases) := by
  have hcase (c : MatchCase String String) (hc : c ∈ cases) := MatchCase.legible (hcases c hc).1 (hcases c hc).2
  obtain ⟨hcasesStand, hcasesRead⟩ := read_map fun c hc => ⟨(hcase c hc).1, (hcase c hc).2.1⟩
  obtain ⟨hwithsStand, hwithsRead⟩ := read_map fun w hw => WithClause.legible (hwiths w hw).1 (hwiths w hw).2
  have hlist : Parts scrutinees := .of_stands hscrutinees
  have hclause : Parts ("with" :: withs.map (·.dump)) := .keyword (by decide) (.of_stands hwithsStand)
  have hclauses : ∀ s ∈ if withs.isEmpty then [] else [group ("with" :: withs.map (·.dump))], Stands s := by
    split
    · simp
    · exact List.forall_mem_singleton.mpr hclause.stands
  refine legible_keyword rfl (by decide)
    (List.forall_mem_cons.mpr ⟨hlist.stands, List.forall_mem_append.mpr ⟨hclauses, hcasesStand⟩⟩) ?_
  change ofMatch ((parts? (group scrutinees)).getD []) _ = _
  rw [parts?_group hlist, Option.getD_some]
  cases withs with
  | nil =>
      cases cases with
      | nil => rfl
      | cons c cases =>
          change ofMatch scrutinees (c.dump :: cases.map (·.dump)) = _
          rw [ofMatch, (hcase c List.mem_cons_self).2.2]
          exact congrArg (Term.matchOn scrutinees []) hcasesRead
  | cons w withs =>
      change ofMatch scrutinees (group ("with" :: (w :: withs).map (·.dump)) :: cases.map (·.dump)) = _
      rw [ofMatch, withs?, parts?_group hclause]
      exact congrArg₂ (Term.matchOn scrutinees) hwithsRead hcasesRead

/-- A layer of a term is read back from its dump. -/
theorem legible (hspelled : t.Spelled) (hclear : t.isUnambiguous = true) (hchildren : ∀ c ∈ t.children, c.Stand) :
    Stands t.dump ∧ ofDump t.dump = t.bare := by
  cases t with
  | emptyList | era | set | emptyType | unitType | boolType | natType | selfType =>
      all_goals exact legible_constant rfl (stands_of_isPlain (by decide)) (by decide) (by decide) rfl
  | num type => cases type <;> exact legible_constant rfl (stands_of_isPlain (by decide)) (by decide) (by decide) rfl
  | pri primitive =>
      cases primitive <;> exact legible_constant rfl (stands_of_isPlain (by decide)) (by decide) (by decide) rfl
  | refl => exact legible_constant rfl (.word (by simp [dump, IsWord, Dump.Stops])) (by decide) (by decide) rfl
  | var name =>
      have hname : IsIdentifier name := hspelled
      refine legible_word hname.stands (parts?_of_named hname) ?_
      rw [dump, ofWord_named hname]
      exact if_neg (by simpa [isUnambiguous] using hclear)
  | qualified path =>
      obtain ⟨name, hname, hslash, rfl⟩ := hspelled
      have hdump : dump (.qualified (Grammar.cutAtSlashes name.toList)) = name := by
        rw [dump, Grammar.intercalate_cutAtSlashes, String.ofList_toList]
      refine legible_word (by rw [hdump]; exact hname.stands) (by rw [hdump]; exact parts?_of_named hname) ?_
      rw [hdump, ofWord_named hname]
      exact if_pos hslash
  | lit value =>
      refine legible_word (Literal.stands_shown value) (Literal.parts?_shown hspelled) ?_
      have hhead (c : Char) (hc : ¬Literal.Opens c) (htrue : c ≠ 'T') (hfalse : c ≠ 'F') :=
        Literal.head?_shown_ne hspelled hc htrue hfalse
      rw [dump, ofWord, if_neg (hhead _ (by decide) (by decide) (by decide)),
        if_neg (hhead _ (by decide) (by decide) (by decide)), Literal.ofShown?_shown hspelled]
      rfl
  | tag name =>
      refine legible_word (IsIdentifier.stands_tagged hspelled) (parts?_tagged name) ?_
      rw [dump, ofWord, if_pos (by simp [toList_tagged]), unmarked_tagged]
      rfl
  | sym name =>
      refine legible_word (IsIdentifier.stands_symbol hspelled) (parts?_symbol name) ?_
      rw [dump, ofWord, if_neg (by simp [toList_symbol]), if_pos (by simp [toList_symbol]), unmarked_symbol]
      rfl
  | unit => exact legible_group rfl .nil rfl
  | ctor name args =>
      have hargs : ∀ s ∈ args, Stands s := by simpa [children, Child.Stand] using hchildren
      refine legible_group rfl (.stand (IsIdentifier.stands_tagged hspelled) (.of_stands hargs)) ?_
      rw [ofParts, if_pos (by simp [toList_tagged]), unmarked_tagged]
      rfl
  | enum symbols =>
      refine legible_group rfl (.keyword (by decide) (.of_stands ?_)) ?_
      · exact List.forall_mem_map.mpr fun name hname => (hspelled name hname).stands_symbol
      · change Term.enum ((symbols.map symbol).map unmarked) = _
        simp [bare, Function.comp_def]
  | sub _ | listType _ | tilde _ | trust _ | absurd _ | ret _ | tuple _ | list _ | sigma _ _ | app _ _ | rewrite _ _
  | log _ _ | check _ _ | tyApp _ _ | ite _ _ _ | sup _ _ _ | implicit _ _ _ =>
      -- The parts behind the keyword are the children, in their order.
      all_goals exact legible_keyword rfl (by decide) (by simpa [children, Child.Stand] using hchildren) rfl
  | ref name | view name =>
      all_goals exact legible_keyword rfl (by decide) (List.forall_mem_singleton.mpr (IsIdentifier.stands hspelled)) rfl
  | fix name body =>
      have hbody : Stands body := by simpa [children, Child.Stand] using hchildren
      exact legible_keyword rfl (by decide) (by simpa using ⟨IsIdentifier.stands hspelled, hbody⟩) rfl
  | useIn name value body =>
      have hterms : Stands value ∧ Stands body := by simpa [children, Child.Stand] using hchildren
      exact legible_keyword rfl (by decide) (by simpa using ⟨IsIdentifier.stands hspelled, hterms⟩) rfl
  | hole name type ctx =>
      have hterms : Stands type ∧ ∀ a ∈ ctx, Stands a := by simpa [children, Child.Stand] using hchildren
      exact legible_keyword rfl (by decide) (by simpa using ⟨IsIdentifier.stands hspelled, hterms⟩) rfl
  | op1 op arg =>
      cases op <;> exact legible_keyword rfl (by decide) (by simpa [children, Child.Stand] using hchildren) rfl
  | eql type lhs rhs negated =>
      cases negated <;> exact legible_keyword rfl (by decide) (by simpa [children, Child.Stand] using hchildren) rfl
  | arrow domain codomain =>
      have hargs : ∀ s ∈ [domain, codomain], Stands s := by simpa [children, Child.Stand] using hchildren
      exact legible_group rfl (.cons (.sign (by decide)) (.of_stands hargs)) rfl
  | op2 op lhs rhs =>
      have hargs : ∀ s ∈ [lhs, rhs], Stands s := by simpa [children, Child.Stand] using hchildren
      refine legible_group rfl (.cons (listed_symbol op) (.of_stands hargs)) ?_
      cases op <;> rfl
  | any binder body =>
      have hterms : Stands binder.type ∧ Stands body := by simpa [children, Child.Stand] using hchildren
      have hbinder := Binder.legible hspelled hterms.1
      refine legible_keyword rfl (by decide) (by simpa using ⟨hbinder.1, hterms.2⟩) ?_
      change Term.any (Binder.ofDump binder.dump) body = _
      rw [hbinder.2, bare]
  | all binders body =>
      have hterms : (∀ b ∈ binders, Stands b.type) ∧ Stands body := by
        simpa [children, Child.Stand, or_imp, forall_and] using hchildren
      exact legible_all hterms.2 fun b hb => ⟨hspelled b hb, hterms.1 b hb⟩
  | lam params body =>
      have hterms : (∀ p ∈ params, ∀ c ∈ p.children, c.Stand) ∧ Stands body :=
        ⟨fun p hp c hc => hchildren c (List.mem_append_left _ (List.mem_flatMap.mpr ⟨p, hp, hc⟩)),
          hchildren (.term body) (List.mem_append_right _ (List.mem_singleton.mpr rfl))⟩
      exact legible_lam hterms.2 fun p hp => ⟨hspelled p hp, List.all_eq_true.mp hclear p hp, hterms.1 p hp⟩
  | lamMatch block =>
      have hblock := CaseBlock.legible hspelled (by simpa [children, Child.Stand] using hchildren)
      refine legible_keyword rfl (by decide) (by simpa using hblock.1) ?_
      change Term.lamMatch (CaseBlock.ofDump block.dump) = _
      rw [hblock.2, bare]
  | tildeMatch scrutinee block =>
      have hterms : Stands scrutinee ∧ ∀ s ∈ block.terms, Stands s := by simpa [children, Child.Stand] using hchildren
      have hblock := CaseBlock.legible hspelled hterms.2
      refine legible_keyword rfl (by decide) (by simpa using ⟨hterms.1, hblock.1⟩) ?_
      change Term.tildeMatch scrutinee (CaseBlock.ofDump block.dump) = _
      rw [hblock.2, bare]
  | letIn name type value body =>
      have hterms : (∀ t ∈ type, Stands t) ∧ Stands value ∧ Stands body := by
        simpa [children, Child.Stand, or_imp, forall_and] using hchildren
      exact legible_letIn hspelled hterms.1 hterms.2.1 hterms.2.2
  | call head args tight =>
      have hterms : Stands head ∧ ∀ s ∈ args, Stands s := by simpa [children, Child.Stand] using hchildren
      exact legible_call hterms.1 hterms.2
  | genericCall head typeArgs args =>
      have hterms : Stands head ∧ (∀ s ∈ typeArgs, Stands s) ∧ ∀ s ∈ args, Stands s := by
        simpa [children, Child.Stand, or_imp, forall_and] using hchildren
      exact legible_genericCall hterms.1 hspelled hterms.2.1 hterms.2.2
  | fork cond yes elifs no =>
      have hterms : Stands cond ∧ Stands yes ∧ (∀ s ∈ elifs, Stands s) ∧ Stands no := by
        simpa [children, Child.Stand, or_imp, forall_and] using hchildren
      exact legible_fork hterms.1 hterms.2.1 hterms.2.2.1 hterms.2.2.2
  | matchOn scrutinees withs cases =>
      have hterms : (∀ s ∈ scrutinees, Stands s) ∧ (∀ w ∈ withs, ∀ v ∈ w.value, Stands v) ∧
          ∀ c ∈ cases, (∀ p ∈ c.patterns, Stands p) ∧ Stands c.body := by
        simp only [children, List.forall_mem_append, List.forall_mem_map, List.mem_filterMap,
          List.mem_flatMap] at hchildren
        obtain ⟨⟨hscrutinees, hwiths⟩, hcases⟩ := hchildren
        refine ⟨hscrutinees, fun w hw v hv => hwiths v ⟨w, hw, hv⟩, fun c hc => ⟨fun p hp => ?_, ?_⟩⟩
        · exact hcases (.pattern p) ⟨c, hc, by simp [MatchCase.children, hp]⟩
        · exact hcases (.term c.body) ⟨c, hc, by simp [MatchCase.children]⟩
      exact legible_matchOn hterms.1 (fun w hw => ⟨hspelled w hw, hterms.2.1 w hw⟩) hterms.2.2
  | error => cases hspelled

end Term

end BendSyntax
