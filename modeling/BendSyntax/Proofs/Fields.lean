import BendSyntax.Proofs.Fields.Chains
import BendSyntax.Proofs.Stopping

/-! Types with constructors whose fields stand next to each other. Nothing separates the type of a
field from the name of the next field, but fields are neither merged nor split: a type definition
that is written with single blanks has the constructors, the fields and the types it was put together
from, and each of the types is what it is as a text of its own. -/

namespace BendSyntax

open Reading Grammar Lexing Scanned

/-! ## Type definitions as they are written -/

/-- A field with a chain of names as its type. -/
structure TypedField where
  name : Identifier
  type : TypeChain

/-- A constructor. A blank stands behind its `@` or not. -/
structure Alternative where
  tag : Identifier
  apart : Bool
  fields : List TypedField

namespace TypedField

def words (f : TypedField) : List Word := f.name.word :: .mark .colon :: f.type.words

def text (f : TypedField) : String := s!" {f.name.text} : {f.type.text}"

end TypedField

namespace Alternative

def text (a : Alternative) : String :=
  let gap := if a.apart then " " else ""
  s!" case @{gap}{a.tag.text} :" ++ String.join (a.fields.map (·.text))

/-- The tokens of a constructor. -/
inductive Spells (a : Alternative) : List Token → Prop
  | intro {t u v w : Token} {ts : List Token} (ht : t.kind = .word .case) (hu : u.kind = .mark .atSign)
      (hv : v.kind = .ident) (hlexeme : v.lexeme = a.tag.text) (hw : w.kind = .mark .colon)
      (hts : List.Forall₂ Word.Becomes (a.fields.flatMap (·.words)) ts) : Spells a (t :: u :: v :: w :: ts)

/-- The tokens of constructors, one behind the other. -/
inductive SpellsAll : List Alternative → List Token → Prop
  | nil : SpellsAll [] []
  | cons {a : Alternative} {as : List Alternative} {ts us : List Token} (h : a.Spells ts)
      (hmore : SpellsAll as us) : SpellsAll (a :: as) (ts ++ us)

end Alternative

/-- A type definition without parameters. -/
def typeText (name : Identifier) (alternatives : List Alternative) : String :=
  s!"type {name.text} :" ++ String.join (alternatives.map (·.text))

/-! ## From the text to the tokens -/

theorem TypedField.toList_text (f : TypedField) : f.text.toList = spacedOut f.words := by
  have htype : f.type.text.toList = f.type.first.word.text.toList ++ spacedOut (TypeLink.words f.type.links) :=
    Word.toList_intercalate _ _
  have htext : f.text.toList = ' ' :: (f.name.text.toList ++ " : ".toList ++ f.type.text.toList) := by
    simp [text, toString]
  rw [htext, htype]
  simp [words, TypeChain.words, spacedOut, Word.mark, Symbol.spelling, Identifier.word]

namespace Alternative

theorem toList_fields (fields : List TypedField) :
    (String.join (fields.map (·.text))).toList = spacedOut (fields.flatMap (·.words)) := by
  induction fields with
  | nil => rfl
  | cons f fields ih => simp [String.join_cons, ih, TypedField.toList_text, spacedOut]

/-- The characters of a constructor. -/
theorem toList_text (a : Alternative) : a.text.toList =
    " case".toList ++ ([' ', '@'] ++ (spacing a.apart ++ a.tag.text.toList ++
      spacedOut (.mark .colon :: a.fields.flatMap (·.words)))) := by
  have htext : a.text.toList = " case".toList ++ ([' ', '@'] ++ (spacing a.apart ++ a.tag.text.toList ++
      (" :".toList ++ (String.join (a.fields.map (·.text))).toList))) := by
    cases hapart : a.apart <;> simp [text, toString, spacing, hapart]
  rw [htext, toList_fields]
  simp [spacedOut, Word.mark, Symbol.spelling]

theorem solid_of_mem_words {fields : List TypedField} {w : Word} (h : w ∈ fields.flatMap (·.words)) :
    w.Solid := by
  simp only [List.mem_flatMap, TypedField.words, List.mem_cons] at h
  obtain ⟨f, -, rfl | rfl | h⟩ := h
  · exact f.name.solid
  · exact Word.solid_symbol nofun
  · exact f.type.solid_of_mem_words h

/-- Nothing goes on with an `@`. -/
theorem at_endsBefore (rest : List Char) : (Word.mark .atSign).EndsBefore rest :=
  @Word.symbol_endsBefore .atSign '@' [] rest rfl rfl (.inr (by decide))

/-- A constructor is cut into its tokens. -/
theorem exists_cuts (a : Alternative) (previous : Option TokenKind) (p : Position) (rest : List Char)
    (hrest : Ends rest) :
    ∃ ts last, Cuts previous p a.text.toList rest ts last ∧ a.Spells ts := by
  have hcase : (⟨.word .case, "case"⟩ : Word).Solid := @Word.solid_word "case" (by decide) (by decide)
  let fields := spacedOut (.mark .colon :: a.fields.flatMap (·.words))
  let tag := spacing a.apart ++ a.tag.text.toList
  have hfields : Ends (fields ++ rest) := ends_spacedOut _ hrest
  have hfirst : Cuts previous p " case".toList ([' ', '@'] ++ (tag ++ fields) ++ rest) _ _ :=
    .word true hcase (hcase.whole _ (ends_cons rfl _))
  have hat : Cuts (some (.word .case)) (p.after " case".toList) [' ', '@'] (tag ++ fields ++ rest) _ _ :=
    .word true (@Word.solid_symbol .atSign (by decide)) (at_endsBefore _)
  have htag : Cuts (some (.mark .atSign)) ((p.after " case".toList).after [' ', '@']) tag
      (fields ++ rest) _ _ := .word a.apart a.tag.solid (a.tag.solid.whole _ hfields)
  have hline : Word.Line (some .ident) (.mark .colon :: a.fields.flatMap (·.words)) :=
    Word.line_of_solid (List.forall_mem_cons.mpr
      ⟨@Word.solid_symbol .colon nofun, fun _ => solid_of_mem_words⟩) _
  obtain ⟨ts, last, hts, hcuts⟩ := cuts_spacedOut hline hrest
    (((p.after " case".toList).after [' ', '@']).after tag)
  obtain ⟨t, us, ht, hus, rfl⟩ := List.forall₂_cons_left_iff.mp hts
  rw [toList_text]
  exact ⟨_, last, hfirst.append (hat.append (htag.append hcuts)), .intro rfl rfl rfl rfl ht.kind hus⟩

/-- Constructors are cut into their tokens. -/
theorem exists_cuts_all (as : List Alternative) (previous : Option TokenKind) (p : Position) :
    ∃ ts last, Cuts previous p (String.join (as.map (·.text))).toList [] ts last ∧ SpellsAll as ts := by
  induction as generalizing previous p with
  | nil => exact ⟨[], previous, ⟨rfl, rfl⟩, .nil⟩
  | cons a as ih =>
      have hends : Ends ((String.join (as.map (·.text))).toList ++ []) := by
        cases as with
        | nil => exact ends_nil
        | cons b as =>
            rw [List.map_cons, String.join_cons, String.toList_append, toList_text]
            exact ends_cons rfl _
      obtain ⟨ts, last, hcuts, hspells⟩ := a.exists_cuts previous p _ hends
      obtain ⟨us, last', hmore, hall⟩ := ih last (p.after a.text.toList)
      refine ⟨ts ++ us, last', ?_, .cons hspells hall⟩
      rw [List.map_cons, String.join_cons, String.toList_append]
      exact hcuts.append hmore

end Alternative

/-- In front of a type definition stand its tokens, and nothing is wrong with it. -/
theorem before_typeText (name : Identifier) (alternatives : List Alternative) :
    ∃ t u v ts, (Reading.initial (ofText (typeText name alternatives))).Before (t :: u :: v :: ts) ∧
      t.kind = .word .type ∧ u.kind = .ident ∧ u.lexeme = name.text ∧ v.kind = .mark .colon ∧
      Alternative.SpellsAll alternatives ts := by
  let more := (String.join (alternatives.map (·.text))).toList
  have hkeyword : (⟨.word .type, "type"⟩ : Word).Solid := @Word.solid_word "type" (by decide) (by decide)
  have hline : Word.Line (some (.word .type)) [name.word, .mark .colon] :=
    Word.line_of_solid (by simpa using ⟨name.solid, Word.solid_symbol nofun⟩) _
  have hmore : Ends (more ++ []) := by
    cases alternatives with
    | nil => exact ends_nil
    | cons a as =>
        simp only [more]
        rw [List.map_cons, String.join_cons, String.toList_append, Alternative.toList_text]
        exact ends_cons rfl _
  have hfirst : Cuts none .start "type".toList (spacedOut [name.word, .mark .colon] ++ more ++ []) _ _ :=
    .word false hkeyword (hkeyword.whole _ (List.append_assoc _ more [] ▸ ends_spacedOut _ hmore))
  obtain ⟨vs, last, hvs, hcuts⟩ := cuts_spacedOut hline hmore (Position.start.after "type".toList)
  obtain ⟨ts, last', hts, hspells⟩ := Alternative.exists_cuts_all alternatives last
    ((Position.start.after "type".toList).after (spacedOut [name.word, .mark .colon]))
  obtain ⟨u, us, hu, hus, rfl⟩ := List.forall₂_cons_left_iff.mp hvs
  obtain ⟨v, ws, hv, hws, rfl⟩ := List.forall₂_cons_left_iff.mp hus
  obtain rfl := List.forall₂_nil_left_iff.mp hws
  have htext : (typeText name alternatives).toList =
      "type".toList ++ (spacedOut [name.word, .mark .colon] ++ more) := by
    simp [typeText, toString, spacedOut, more, Word.mark, Symbol.spelling, Identifier.word]
  have hwhole := hfirst.append (hcuts.append hts)
  rw [← htext] at hwhole
  obtain ⟨hbody, hdiagnostics⟩ := hwhole.ofText
  refine ⟨_, u, v, ts, ⟨⟨⟨[], .nil, hbody⟩, eof_kind_onward _ _ _, rfl⟩, ?_⟩, rfl, hu.kind, hu.lexeme,
    hv.kind, hspells⟩
  simp [Reading.initial, hdiagnostics]

/-! ## Fields and constructors as they are read -/

/-- Whether a field of a program is this field. -/
structure Tree.IsField (t : Tree) (f : TypedField) (b : Binder TermId) : Prop where
  name : b.name = f.name.text
  type : ∃ g, t.IsJoined g b.type ∧
    JoinedType.Gathers .product (.name f.type.first.text) f.type.links g []

/-- Whether a constructor of a program is this constructor. -/
structure Tree.IsAlternative (t : Tree) (a : Alternative) (c : CtorCase TermId) : Prop where
  tag : c.tag = a.tag.text
  fields : List.Forall₂ t.IsField a.fields c.fields

theorem Tree.IsField.mono {t u : Tree} {f : TypedField} {b : Binder TermId} (h : t.Extends u)
    (hb : t.IsField f b) : u.IsField f b := by
  obtain ⟨g, hjoined, hg⟩ := hb.type
  exact ⟨hb.name, g, hjoined.mono h, hg⟩

theorem Tree.IsAlternative.mono {t u : Tree} {a : Alternative} {c : CtorCase TermId} (h : t.Extends u)
    (hc : t.IsAlternative a c) : u.IsAlternative a c :=
  ⟨hc.tag, hc.fields.imp fun _ _ => .mono h⟩

/-- Tokens in front of which a constructor ends: the next one, or the end of the text. -/
def CaseEnd (more : List Token) : Prop := ∀ t ∈ more.head?, t.kind = .word .case

theorem CaseEnd.fieldEnd {more : List Token} (h : CaseEnd more) (slot : Slot) : FieldEnd slot more := by
  cases more with
  | nil => exact .eof
  | cons t ts => exact .case (h t rfl)

theorem Alternative.SpellsAll.caseEnd {as : List Alternative} {ts : List Token} (h : SpellsAll as ts) :
    CaseEnd ts := by
  cases h with
  | nil => exact nofun
  | cons ha _ =>
      obtain ⟨ht, -, -, -, -, -⟩ := ha
      rintro _ ⟨⟩
      exact ht

section Reading

variable {deep : Deeper} {n : Nat} {setting : Setting} {s t : Session} {words ws : List Word}
  {more : List Token} {f : TypedField} {fields : List TypedField} {a : Alternative}
  {as : List Alternative}

theorem Session.InFront.split (h : s.InFront (words ++ ws) more) :
    ∃ ts, List.Forall₂ Word.Becomes ws ts ∧ s.InFront words (ts ++ more) := by
  obtain ⟨us, hus, hrest⟩ := h.faces.rest
  have hfront := (List.forall₂_take_append us words ws hus.flip).flip
  have hback := (List.forall₂_drop_append us words ws hus.flip).flip
  refine ⟨us.drop words.length, hback, ⟨⟨us.take words.length, hfront, ?_⟩, h.faces.eof, h.faces.split⟩,
    h.clean⟩
  rw [hrest, ← List.append_assoc, List.take_append_drop]

theorem Session.InFront.rejoin {ts : List Token} (h : s.InFront [] (ts ++ more))
    (hts : List.Forall₂ Word.Becomes words ts) : s.InFront words more :=
  ⟨⟨⟨ts, hts, h.faces.rest_nil⟩, h.faces.eof, h.faces.split⟩, h.clean⟩

theorem Session.Before.run_identifier {u : Token} {ts : List Token} {x : String} (h : s.Before (u :: ts))
    (hu : u.kind = .ident) (hlexeme : u.lexeme = x) :
    identifier.run setting s = .ok (x, s.cursor.span) s.next := by
  have hkind : s.cursor.kind = .ident := h.kind.trans hu
  have hx : s.cursor.lexeme = x := by rw [Cursor.lexeme, h.token, hlexeme]
  simp only [identifier, Reading.cursor, asks, run_bind, Outcome.andThen_ok, hkind, if_true, ← hx]
  rfl

/-- The slot in which the fields of a constructor are read. -/
def Slot.ofFields : Slot := { Slot.free .type with fieldHeads := true }

/-- One more field. -/
def fieldRound (deep : Deeper) (acc : Array (Binder TermId)) : Reading (Round (Array (Binder TermId))) := do
  if ← atField then return .more (acc.push (← binder (deep.expr .product))) else return .done acc

theorem run_atField : atField.run setting s =
    .ok (s.cursor.kind = .ident && s.cursor.kindAt 1 = .mark .colon) s := rfl

/-- A field is read up to the next one. -/
theorem fieldRound_more (hdeep : deep.JoinsChains n) (hslot : setting.slot = .ofFields)
    (hlength : f.type.links.length < n) (hmore : CaseEnd more)
    (hs : s.InFront (f.words ++ fields.flatMap (·.words)) more) (acc : Array (Binder TermId)) :
    ∃ b t, (fieldRound deep acc).run setting s = .ok (.more (acc.push b)) t ∧
      t.InFront (fields.flatMap (·.words)) more ∧ t.tree.IsField f b := by
  have hs : s.InFront (f.name.word :: .mark .colon :: (f.type.words ++ fields.flatMap (·.words))) more := hs
  have hkind : s.cursor.kind = .ident := hs.kind
  have hcolon : s.cursor.kindAt 1 = .mark .colon := (hs.faces.kindAt_succ 0).trans hs.next.kind
  obtain ⟨ts, hts, hchain⟩ := hs.next.next.split
  have hend : FieldEnd setting.slot (ts ++ more) := by
    cases fields with
    | nil =>
        obtain rfl := List.forall₂_nil_left_iff.mp hts
        exact hmore.fieldEnd _
    | cons f' fields =>
        obtain ⟨t, us, ht, hus, rfl⟩ := List.forall₂_cons_left_iff.mp hts
        obtain ⟨u, vs, hu, -, rfl⟩ := List.forall₂_cons_left_iff.mp hus
        exact .field (hslot ▸ rfl) ht.kind hu.kind
  obtain ⟨g, id, t, hread, ht, hjoined, hg⟩ := run_expr_chain setting hdeep
    (Nat.le_refl Level.product) hend (hslot ▸ ⟨rfl, rfl⟩) hlength hchain
  refine ⟨⟨f.name.text, s.cursor.span, id⟩, t, ?_, ht.rejoin hts, rfl, g, hjoined, hg⟩
  simp only [fieldRound, run_bind, run_atField, Outcome.andThen_ok, hkind, hcolon, decide_true,
    Bool.and_self, if_true, binder, hs.run_identifier, hs.next.run_expect, hread]
  rfl

/-- Where a constructor ends there is no field. -/
theorem fieldRound_done (hmore : CaseEnd more) (hs : s.InFront [] more) (acc : Array (Binder TermId)) :
    (fieldRound deep acc).run setting s = .ok (.done acc) s := by
  have hkind : s.cursor.kind ≠ .ident := by
    cases more with
    | nil => simp [hs.faces.kind_nil]
    | cons t ts => simp [hs.faces.kind_more, hmore t rfl]
  simp only [fieldRound, run_bind, run_atField, Outcome.andThen_ok, hkind, decide_false, Bool.false_and,
    Bool.false_eq_true, if_false]
  rfl

/-- The rounds take all fields of a constructor. The induction is on the fields. -/
theorem runLoop_fields (hdeep : deep.JoinsChains n) (hslot : setting.slot = .ofFields)
    (hlength : ∀ f ∈ fields, f.type.links.length < n) (hmore : CaseEnd more)
    (hs : s.InFront (fields.flatMap (·.words)) more) (acc : Array (Binder TermId)) :
    ∃ bs t, runLoop (fieldRound deep) setting acc s = .ok (acc ++ bs) t ∧ t.InFront [] more ∧
      List.Forall₂ t.tree.IsField fields bs.toList := by
  induction fields generalizing s acc with
  | nil => exact ⟨#[], s, by rw [runLoop_done (fieldRound_done hmore hs acc), Array.append_empty], hs, .nil⟩
  | cons f fields ih =>
      obtain ⟨hf, hfields⟩ := List.forall_mem_cons.mp hlength
      obtain ⟨b, t, hround, ht, hb⟩ := fieldRound_more hdeep hslot hf hmore hs acc
      obtain ⟨bs, u, hloop, hu, hbs⟩ := ih hfields ht (acc.push b)
      have hlt : t.cursor.remaining < s.cursor.remaining := hs.remaining_lt ht (by
        rw [List.flatMap_cons, List.length_append]
        exact Nat.lt_add_of_pos_left (Nat.succ_pos _))
      have honward := runLoop_onward (fieldRound deep) setting (acc.push b) t
      rw [hloop] at honward
      refine ⟨#[b] ++ bs, u, ?_, hu, by simpa using ⟨hb.mono honward.tree, hbs⟩⟩
      rw [runLoop_more hround hlt, hloop, Array.push_eq_append, Array.append_assoc]

/-- A constructor is read up to the next one. -/
theorem run_ctorCase (setting : Setting) {ts : List Token} (hdeep : deep.JoinsChains n)
    (hlength : ∀ f ∈ a.fields, f.type.links.length < n) (hmore : CaseEnd more) (hspells : a.Spells ts)
    (hs : s.Before (ts ++ more)) : ∃ c t, (ctorCase deep).run setting s = .ok c t ∧ t.Before more ∧
      t.tree.IsAlternative a c := by
  obtain ⟨hcase, hat, htag, hlexeme, hcolon, hts⟩ := hspells
  let inside : Setting := { setting with slot := .ofFields }
  let v := s.next.next.next.next
  have hfront : v.InFront (a.fields.flatMap (·.words)) more :=
    ⟨hs.next.next.next.next.faces_words hts, hs.clean⟩
  obtain ⟨bs, t, hloop, ht, hfields⟩ :=
    @runLoop_fields _ _ inside _ _ _ hdeep rfl hlength hmore hfront #[]
  rw [Array.empty_append] at hloop
  have hcollect : (within (fun _ => Slot.ofFields)
      (collectWhile atField (binder (deep.expr .product)))).run setting v = .ok bs.toList t := by
    change (runLoop (fieldRound deep) inside #[] v).andThen _ = _
    rw [hloop]
    rfl
  refine ⟨⟨a.tag.text, bs.toList, s.cursor.span.hull t.cursor.last⟩, t, ?_,
    ⟨ht.faces, ht.clean⟩, rfl, hfields⟩
  rw [ctorCase, run_bind, hs.run_expect hcase, Outcome.andThen_ok, run_bind, hs.next.run_expect hat,
    Outcome.andThen_ok, run_bind, hs.next.next.run_identifier htag hlexeme, Outcome.andThen_ok, run_bind,
    hs.next.next.next.run_expect hcolon, Outcome.andThen_ok, run_bind]
  change ((within (fun _ => Slot.ofFields) _).run setting v).andThen _ = _
  rw [hcollect]
  rfl

/-- One more constructor. -/
def caseRound (deep : Deeper) (acc : Array (CtorCase TermId)) :
    Reading (Round (Array (CtorCase TermId))) := do
  if ← sees (.word .case) then return .more (acc.push (← ctorCase deep)) else return .done acc

theorem Alternative.Spells.front {ts : List Token} (h : a.Spells ts) :
    ∃ t us, ts = t :: us ∧ t.kind = .word .case := by
  obtain ⟨ht, -, -, -, -, -⟩ := h
  exact ⟨_, _, rfl, ht⟩

/-- The rounds take all constructors. The induction is on the constructors. -/
theorem runLoop_cases {ts : List Token} (hdeep : deep.JoinsChains n)
    (hlength : ∀ a ∈ as, ∀ f ∈ a.fields, f.type.links.length < n) (hspells : Alternative.SpellsAll as ts)
    (hs : s.Before ts) (acc : Array (CtorCase TermId)) :
    ∃ cs t, runLoop (caseRound deep) setting acc s = .ok (acc ++ cs) t ∧ t.Before [] ∧
      List.Forall₂ t.tree.IsAlternative as cs.toList := by
  induction hspells generalizing s acc with
  | nil =>
      have hkind : s.cursor.kind ≠ .word .case := by simp [hs.faces.kind_nil]
      have hdone : (caseRound deep acc).run setting s = .ok (.done acc) s := by
        simp only [caseRound, run_bind, run_sees, Outcome.andThen_ok, hkind, decide_false,
          Bool.false_eq_true, if_false]
        rfl
      exact ⟨#[], s, by rw [runLoop_done hdone, Array.append_empty], hs, .nil⟩
  | @cons a as ts us ha has ih =>
      obtain ⟨hfirst, hrest⟩ := List.forall_mem_cons.mp hlength
      obtain ⟨c, t, hread, ht, hc⟩ := run_ctorCase setting hdeep hfirst has.caseEnd ha hs
      obtain ⟨cs, u, hloop, hu, hcs⟩ := ih hrest ht (acc.push c)
      obtain ⟨v, vs, rfl, hv⟩ := ha.front
      have hkind : s.cursor.kind = .word .case := hs.kind.trans hv
      have hround : (caseRound deep acc).run setting s = .ok (.more (acc.push c)) t := by
        simp only [caseRound, run_bind, run_sees, Outcome.andThen_ok, hkind, decide_true, if_true, hread]
        rfl
      have hlt : t.cursor.remaining < s.cursor.remaining := hs.remaining_lt ht (by
        rw [List.length_append]
        exact Nat.lt_add_of_pos_left (Nat.succ_pos _))
      have honward := runLoop_onward (caseRound deep) setting (acc.push c) t
      rw [hloop] at honward
      refine ⟨#[c] ++ cs, u, ?_, hu, by simpa using ⟨hc.mono honward.tree, hcs⟩⟩
      rw [runLoop_more hround hlt, hloop, Array.push_eq_append, Array.append_assoc]

/-- A type definition is read up to the end of the text. -/
theorem run_item_type {u v w : Token} {ts : List Token} {x : String} (setting : Setting)
    (hdeep : deep.JoinsChains n)
    (hlength : ∀ a ∈ as, ∀ f ∈ a.fields, f.type.links.length < n) (hne : as ≠ [])
    (hs : s.Before (u :: v :: w :: ts)) (hu : u.kind = .word .type) (hv : v.kind = .ident)
    (hlexeme : v.lexeme = x) (hw : w.kind = .mark .colon) (hspells : Alternative.SpellsAll as ts) :
    ∃ cs span t, (item deep).run setting s = .ok (.typeDef ⟨x, [], [], cs, span⟩) t ∧ t.Before [] ∧
      List.Forall₂ t.tree.IsAlternative as cs := by
  have hkind : s.cursor.kind = .word .type := hs.kind.trans hu
  have hcolon := hs.next.next.kind.trans hw
  obtain ⟨cs, t, hloop, ht, hcs⟩ :=
    @runLoop_cases _ _ setting _ _ _ hdeep hlength hspells hs.next.next.next #[]
  rw [Array.empty_append] at hloop
  have hcollect : (collectWhile (sees (.word .case)) (ctorCase deep)).run setting s.next.next.next =
      .ok cs.toList t := by
    change (runLoop (caseRound deep) setting #[] _).andThen _ = _
    rw [hloop]
    rfl
  have hsome : cs.toList ≠ [] := by
    rintro hnil
    rw [hnil, List.forall₂_nil_right_iff] at hcs
    exact hne hcs
  have htypeParams : (typeParams deep).run setting s.next.next = .ok [] s.next.next := by
    rw [typeParams, run_bind, Session.Before.run_accept_of_ne (by simp [hcolon])]
    rfl
  have hparams : (optionalParams deep).run setting s.next.next = .ok [] s.next.next := by
    rw [optionalParams, run_bind, Session.Before.run_accept_of_ne (by simp [hcolon])]
    rfl
  have hrequire : (require (!cs.toList.isEmpty) "`case`").run setting t = .ok () t := by
    rw [require, if_pos (by simpa using hsome)]
    rfl
  refine ⟨cs.toList, s.cursor.span.hull t.cursor.last, t, ?_, ht, hcs⟩
  rw [item, run_bind]
  change Outcome.andThen (.ok s.cursor.kind s) _ = _
  rw [Outcome.andThen_ok, hkind]
  change ((identifier).run setting s.next).andThen _ = _
  rw [hs.next.run_identifier hv hlexeme, Outcome.andThen_ok, run_bind, htypeParams, Outcome.andThen_ok,
    run_bind, hparams, Outcome.andThen_ok, run_bind, hs.next.next.run_expect hw, Outcome.andThen_ok,
    run_bind, hcollect, Outcome.andThen_ok, run_bind, hrequire]
  rfl

end Reading

/-! ## Programs -/

/-- A text with a single item, behind which it ends. -/
theorem Program.read_of_item {source : String} {config : Config} {remembers : Bool} {it : Item TermId}
    {t : Session}
    (h : (item (nested config.maxDepth)).run (setting config remembers) (initial (Lexing.ofText source)) =
      .ok it t)
    (hstart : (initial (Lexing.ofText source)).cursor.kind ≠ .eof) (hend : t.Before [])
    (hlt : t.cursor.remaining < (initial (Lexing.ofText source)).cursor.remaining) :
    Program.read config remembers source = ⟨⟨t.tree, [it]⟩, []⟩ := by
  have heof : t.cursor.kind = .eof := hend.faces.kind_nil
  have hreported : (reported (recovering id (skipItem (initial (Lexing.ofText source)).cursor)
      (item (nested config.maxDepth)))).run (setting config remembers) (initial (Lexing.ofText source)) =
        .ok (some it) t := by
    change (((item (nested config.maxDepth)).run _ _).recovered _ _ _ _).reported = _
    rw [h]
    rfl
  have hround : (itemRound (nested config.maxDepth) #[]).run (setting config remembers)
      (initial (Lexing.ofText source)) = .ok (.more #[it]) t := by
    rw [run_itemRound, if_neg hstart, run_bind, hreported, Outcome.andThen_ok, run_bind,
      run_semicolons _ (by rw [heof]; rfl)]
    rfl
  have hloop : Reading.runLoop (itemRound (nested config.maxDepth)) (setting config remembers) #[]
      (initial (Lexing.ofText source)) = .ok #[it] t := by
    rw [runLoop_more hround hlt]
    exact runLoop_done (itemRound_done heof _)
  rw [Program.read_of_runLoop hloop, hend.clean]

theorem Program.ofText_of_item {source : String} {config : Config} {it : Item TermId} {t : Session}
    (h : (item (nested config.maxDepth)).run (setting config true) (initial (Lexing.ofText source)) = .ok it t)
    (hstart : (initial (Lexing.ofText source)).cursor.kind ≠ .eof) (hend : t.Before [])
    (hlt : t.cursor.remaining < (initial (Lexing.ofText source)).cursor.remaining) :
    Program.ofText source config = ⟨⟨t.tree, [it]⟩, []⟩ :=
  read_of_item h hstart hend hlt

/-- A type is shown in the same way wherever it stands. -/
theorem Tree.IsJoined.dump_eq {t u : Tree} (ht : t.InRange) (hu : u.InRange) {g : JoinedType}
    {id id' : TermId} (h : t.IsJoined g id) (h' : u.IsJoined g id') : t.dump id = u.dump id' := by
  induction g generalizing id id' with
  | name x =>
      rw [ht.dump h, hu.dump h', nameTerm]
      split <;> rfl
  | node joint lhs rhs ihl ihr =>
      obtain ⟨l, r, hterm, hlhs, hrhs⟩ := h
      obtain ⟨l', r', hterm', hlhs', hrhs'⟩ := h'
      have hl := ihl hlhs hlhs'
      have hr := ihr hrhs hrhs'
      rw [ht.dump hterm, hu.dump hterm']
      cases joint <;> simp [Joint.term, Term.map, hl, hr]

/-- Whether a field of a program is written as this one, with the type that the text of the type
stands for. -/
def Tree.KeepsField (t : Tree) (config : Config) (f : TypedField) (b : Binder TermId) : Prop :=
  b.name = f.name.text ∧ ∃ e type, Expression.ofText f.type.text config = .ok e ∧
    e.tree.IsJoined type e.root ∧ t.IsJoined type b.type ∧ t.dump b.type = e.tree.dump e.root

/-- Whether a constructor of a program is written as this one. -/
def Tree.KeepsAlternative (t : Tree) (config : Config) (a : Alternative) (c : CtorCase TermId) : Prop :=
  c.tag = a.tag.text ∧ List.Forall₂ (t.KeepsField config) a.fields c.fields

theorem Tree.IsField.keeps {t : Tree} {config : Config} {f : TypedField} {b : Binder TermId}
    (ht : t.InRange) (hb : t.IsField f b) (hdepth : f.type.links.length + 2 ≤ config.maxDepth) :
    t.KeepsField config f b := by
  obtain ⟨g, hjoined, hg⟩ := hb.type
  obtain ⟨g', e, he, hroot, hg'⟩ := f.type.ofText_text config hdepth
  obtain ⟨rfl, -⟩ := hg.unique hg' (.inr ⟨Nat.le_refl _, by decide⟩)
  exact ⟨hb.name, e, g, he, hroot, hjoined, hjoined.dump_eq ht (Expression.inRange_read he).1 hroot⟩

/-- What holds of the members of a list holds of what they are related to. -/
theorem forall₂_of_mem {α β : Type} {R S : α → β → Prop} {as : List α} {bs : List β}
    (h : List.Forall₂ R as bs) (hS : ∀ a ∈ as, ∀ b, R a b → S a b) : List.Forall₂ S as bs := by
  induction h with
  | nil => exact .nil
  | cons hab _ ih =>
      obtain ⟨hfirst, hrest⟩ := List.forall_mem_cons.mp hS
      exact .cons (hfirst _ hab) (ih hrest)

theorem Tree.IsAlternative.keeps {t : Tree} {config : Config} {a : Alternative} {c : CtorCase TermId}
    (ht : t.InRange) (hc : t.IsAlternative a c)
    (hdepth : ∀ f ∈ a.fields, f.type.links.length + 2 ≤ config.maxDepth) :
    t.KeepsAlternative config a c :=
  ⟨hc.tag, forall₂_of_mem hc.fields fun f hf _ hb => hb.keeps ht (hdepth f hf)⟩

/-- Where the depth limit leaves room for the types, a type definition has the constructors and the
fields it is written with, in order, and the type of each field is what it is as a text of its own. -/
theorem fields_kept (name : Identifier) (first : Alternative) (rest : List Alternative) (config : Config)
    (hdepth : ∀ a ∈ first :: rest, ∀ f ∈ a.fields, f.type.links.length + 2 ≤ config.maxDepth) :
    ∃ tree d, Program.ofText (typeText name (first :: rest)) config = ⟨⟨tree, [.typeDef d]⟩, []⟩ ∧
      d.name = name.text ∧ d.typeParams = [] ∧ d.params = [] ∧
      List.Forall₂ (tree.KeepsAlternative config) (first :: rest) d.cases := by
  obtain ⟨u, v, w, ts, hs, hu, hv, hlexeme, hw, hspells⟩ := before_typeText name (first :: rest)
  have hlength : ∀ a ∈ first :: rest, ∀ f ∈ a.fields, f.type.links.length < config.maxDepth :=
    fun a ha f hf => Nat.lt_of_lt_of_le (Nat.lt_add_of_pos_right Nat.two_pos) (hdepth a ha f hf)
  obtain ⟨cs, span, t, hitem, hend, hcs⟩ := run_item_type (setting config true)
    (joinsChains_nested config.maxDepth) hlength nofun hs hu hv hlexeme hw hspells
  have hread : Program.ofText (typeText name (first :: rest)) config =
      ⟨⟨t.tree, [.typeDef ⟨name.text, [], [], cs, span⟩]⟩, []⟩ :=
    Program.ofText_of_item hitem (by rw [hs.kind, hu]; decide) hend
      (hs.remaining_lt hend (Nat.succ_pos _))
  have hrange := (Program.inRange_read config true (typeText name (first :: rest))).tree
  rw [← Program.ofText, hread] at hrange
  refine ⟨t.tree, ⟨name.text, [], [], cs, span⟩, hread, rfl, rfl, rfl, ?_⟩
  exact forall₂_of_mem hcs fun a ha c hc => hc.keeps hrange (hdepth a ha)

set_option maxRecDepth 100000 in
/-- Two fields, the first with a type in which a name stands next to another one, a constructor without
fields behind an `@` that stands apart, and one more constructor with a field. -/
theorem fields_kept_three_cases : ∃ tree d a b c f g h,
    Program.ofText "type T : case @A : f : L N -> B & C g : E case @ D : case @F : h : X" ⟨6, true⟩ =
      ⟨⟨tree, [.typeDef d]⟩, []⟩ ∧
      d.cases = [a, b, c] ∧ a.tag = "A" ∧ b.tag = "D" ∧ c.tag = "F" ∧
      a.fields = [f, g] ∧ b.fields = [] ∧ c.fields = [h] ∧ f.name = "f" ∧ g.name = "g" ∧ h.name = "h" ∧
      ∃ e, Expression.ofText "L N -> B & C" ⟨6, true⟩ = .ok e ∧ tree.dump f.type = e.tree.dump e.root := by
  let name (text : String) (h : text.toList.head?.any Scanned.isWordStart = true)
      (h' : Scanned.wordLength text.toList = text.length) (h'' : TokenKind.ofWord? text = none) :
      Identifier := ⟨text, h, h', h''⟩
  let long : TypeChain := ⟨name "L" rfl rfl rfl, [⟨.argument, name "N" rfl rfl rfl⟩,
    ⟨.arrow, name "B" rfl rfl rfl⟩, ⟨.product, name "C" rfl rfl rfl⟩]⟩
  let first : Alternative := ⟨name "A" rfl rfl rfl, false,
    [⟨name "f" rfl rfl rfl, long⟩, ⟨name "g" rfl rfl rfl, ⟨name "E" rfl rfl rfl, []⟩⟩]⟩
  let rest : List Alternative := [⟨name "D" rfl rfl rfl, true, []⟩, ⟨name "F" rfl rfl rfl, false,
    [⟨name "h" rfl rfl rfl, ⟨name "X" rfl rfl rfl, []⟩⟩]⟩]
  have htext : typeText (name "T" rfl rfl rfl) (first :: rest) =
      "type T : case @A : f : L N -> B & C g : E case @ D : case @F : h : X" := by decide +kernel
  have hlong : long.text = "L N -> B & C" := by decide +kernel
  obtain ⟨tree, d, hread, -, -, -, hall⟩ :=
    fields_kept (name "T" rfl rfl rfl) first rest ⟨6, true⟩ (by decide)
  obtain ⟨a, _, ⟨ha, hafields⟩, hmore, hcases⟩ := List.forall₂_cons_left_iff.mp hall
  obtain ⟨b, _, ⟨hb, hbfields⟩, hlast, rfl⟩ := List.forall₂_cons_left_iff.mp hmore
  obtain ⟨c, _, ⟨hc, hcfields⟩, hnil, rfl⟩ := List.forall₂_cons_left_iff.mp hlast
  obtain rfl := List.forall₂_nil_left_iff.mp hnil
  obtain ⟨f, _, ⟨hf, e, -, he, -, -, hdump⟩, hsecond, hfields⟩ := List.forall₂_cons_left_iff.mp hafields
  obtain ⟨g, _, ⟨hg, -⟩, hnil, rfl⟩ := List.forall₂_cons_left_iff.mp hsecond
  obtain rfl := List.forall₂_nil_left_iff.mp hnil
  obtain ⟨h, _, ⟨hh, -⟩, hnil, hlast⟩ := List.forall₂_cons_left_iff.mp hcfields
  obtain rfl := List.forall₂_nil_left_iff.mp hnil
  exact ⟨tree, d, a, b, c, f, g, h, htext ▸ hread, hcases, ha, hb, hc, hfields,
    List.forall₂_nil_left_iff.mp hbfields, hlast, hf, hg, hh, e, hlong ▸ he, hdump⟩

end BendSyntax
