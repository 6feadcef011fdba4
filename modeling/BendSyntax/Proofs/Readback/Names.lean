import BendSyntax.Proofs.Chain.Links
import BendSyntax.Proofs.Lexing.Names
import BendSyntax.Proofs.Lexing.Rejoined
import BendSyntax.Proofs.Readback.Literals

/-! Names in dumps. They are words that are not reserved, so they are neither literals nor constants, and
no mark stands in front of them. -/

namespace BendSyntax

open Scanned Dump

theorem Scanned.isWordPart_or_slash_of_mem {c : Char} {cs : List Char} (h : c ∈ cs.take (wordLength cs)) :
    isWordPart c = true ∨ c = '/' := by
  fun_induction wordLength cs with
  | case1 d cs hstart ih =>
      rw [List.take_succ_cons, List.take_succ_cons] at h
      rcases List.mem_cons.mp h with rfl | h
      · exact .inr rfl
      · rcases List.mem_cons.mp h with rfl | h
        · exact .inl (isWordPart_of_isWordStart hstart)
        · exact ih h
  | case3 d cs hslash hpart ih =>
      rw [List.take_succ_cons] at h
      rcases List.mem_cons.mp h with rfl | h
      · exact .inl hpart
      · exact ih h
  | _ => simp at h

theorem ordinary_of_isWordPart {c : Char} (h : isWordPart c = true) : Ordinary c := by
  intro hmem
  simp only [List.mem_cons, List.not_mem_nil, or_false] at hmem
  rcases hmem with rfl | rfl | rfl | rfl | rfl | rfl | rfl | rfl | rfl <;> exact absurd h (by decide)

namespace Identifier

variable (x : Identifier)

theorem exists_cons : ∃ c cs, x.text.toList = c :: cs ∧ isWordStart c = true := by
  have hbegins := x.begins
  cases htext : x.text.toList with
  | nil => simp [htext] at hbegins
  | cons c cs =>
      rw [htext] at hbegins
      exact ⟨c, cs, rfl, hbegins⟩

theorem ordinary : ∀ c ∈ x.text.toList, Ordinary c := by
  intro c hc
  have hwhole : x.text.toList.take (wordLength x.text.toList) = x.text.toList := by
    rw [x.whole, ← String.length_toList, List.take_length]
  rcases isWordPart_or_slash_of_mem (hwhole.symm ▸ hc) with hpart | rfl
  · exact ordinary_of_isWordPart hpart
  · decide

theorem toList_ne_nil : x.text.toList ≠ [] := by
  obtain ⟨c, cs, htext, -⟩ := x.exists_cons
  simp [htext]

theorem stands : Stands x.text := stands_of_ordinary ⟨x.toList_ne_nil, x.ordinary⟩

theorem head?_ne {c : Char} (h : isWordStart c = false) : x.text.toList.head? ≠ some c := by
  obtain ⟨d, cs, htext, hd⟩ := x.exists_cons
  rw [htext]
  rintro ⟨⟩
  simp [h] at hd

end Identifier

/-- The text of a name. -/
def IsIdentifier (s : String) : Prop := ∃ x : Identifier, x.text = s

namespace IsIdentifier

variable {s : String}

theorem stands (h : IsIdentifier s) : Stands s := by
  obtain ⟨x, rfl⟩ := h
  exact x.stands

theorem ordinary (h : IsIdentifier s) : ∀ c ∈ s.toList, Ordinary c := by
  obtain ⟨x, rfl⟩ := h
  exact x.ordinary

theorem head?_ne (h : IsIdentifier s) {c : Char} (hc : isWordStart c = false) : s.toList.head? ≠ some c := by
  obtain ⟨x, rfl⟩ := h
  exact x.head?_ne hc

/-- A reserved word is no name. -/
theorem ne_reserved (h : IsIdentifier s) {w : String} (hw : (TokenKind.ofWord? w).isSome = true) : s ≠ w := by
  obtain ⟨x, rfl⟩ := h
  rintro rfl
  simp [x.free] at hw

theorem stands_marked (h : IsIdentifier s) {mark : Char} (hmark : Ordinary mark) :
    Stands (String.singleton mark ++ s) := by
  obtain ⟨x, rfl⟩ := h
  refine stands_of_ordinary ⟨by simp, fun c hc => ?_⟩
  rw [String.toList_append, String.toList_singleton, List.singleton_append] at hc
  rcases List.mem_cons.mp hc with rfl | hc
  · exact hmark
  · exact x.ordinary c hc

theorem stands_tagged (h : IsIdentifier s) : Stands (tagged s) := @stands_marked s h '@' (by decide)

theorem stands_symbol (h : IsIdentifier s) : Stands (symbol s) := @stands_marked s h '&' (by decide)

end IsIdentifier

/-! ## Tokens -/

namespace Scanned

/-- A word that is not reserved is a name. -/
theorem named_word {c : Char} {cs : List Char} (hstart : isWordStart c = true)
    (hident : (word (c :: cs)).kind = .ident) : IsIdentifier (String.ofList (word (c :: cs)).text) := by
  have htext : (word (c :: cs)).text = (c :: cs).take (wordLength (c :: cs)) := rfl
  have hlength : wordLength (word (c :: cs)).text = (word (c :: cs)).text.length := by
    rw [htext, wordLength_take, List.length_take, Nat.min_eq_left (wordLength_le _)]
  obtain ⟨n, hn⟩ := Nat.exists_eq_succ_of_ne_zero (Nat.ne_of_gt (wordLength_pos cs hstart))
  have hbegins : (String.ofList (word (c :: cs)).text).toList.head?.any isWordStart = true := by
    rw [String.toList_ofList, htext, hn, List.take_succ_cons]
    exact hstart
  have hwhole : wordLength (String.ofList (word (c :: cs)).text).toList =
      (String.ofList (word (c :: cs)).text).length := by
    rw [String.toList_ofList, hlength, String.length_ofList]
  have hfree : TokenKind.ofWord? (String.ofList (word (c :: cs)).text) = none := by
    cases hkind : TokenKind.ofWord? (String.ofList (word (c :: cs)).text) with
    | none => rfl
    | some kind =>
        obtain ⟨k, -, rfl⟩ := Option.map_eq_some_iff.mp hkind
        have hword : (word (c :: cs)).kind = .word k := by
          change (TokenKind.ofWord? (String.ofList (word (c :: cs)).text)).getD .ident = _
          rw [hkind]
          rfl
        cases hword.symm.trans hident
  exact ⟨⟨_, hbegins, hwhole, hfree⟩, rfl⟩

end Scanned

/-- The text of an identifier is a name. -/
def Token.IsIdentifier (t : Token) : Prop := t.kind = .ident → BendSyntax.IsIdentifier t.lexeme

namespace Lexing

theorem named_of_mem {t : Token} {source : String} (ht : t ∈ (ofText source).tokens.toList) : t.IsIdentifier := by
  obtain ⟨signed, cs, hkind, htext⟩ := exists_scanned_of_mem none .start source.toList ht
  intro hident
  obtain ⟨c, cs', rfl, hstart, hword⟩ := Scanned.eq_word_of_ident (hkind.symm.trans hident)
  rw [hword] at htext hkind
  rw [← String.ofList_toList (s := t.lexeme), htext]
  exact Scanned.named_word hstart (hkind.symm.trans hident)

end Lexing

/-! ## Layers -/

section Layers

variable {τ υ π ρ : Type}

def Param.Spelled : Param τ π → Prop
  | name n _ => IsIdentifier n
  | typed b => IsIdentifier b.name
  | patterns _ => True

def CaseTag.Spelled : CaseTag τ → Prop
  | ctor name => IsIdentifier name
  | sym name => IsIdentifier name
  | _ => True

def CaseBlock.Spelled (b : CaseBlock τ) : Prop := ∀ c ∈ b.cases, c.tag.Spelled

/-- The names in a layer of a term are names, and its literals are normal. -/
def Term.Spelled : Term τ π → Prop
  | var name | ref name | tag name | sym name | view name => IsIdentifier name
  | qualified path => ∃ name, IsIdentifier name ∧ '/' ∈ name.toList ∧ Grammar.cutAtSlashes name.toList = path
  | lit value => value.Normal
  | ctor name _ | hole name _ _ | fix name _ | letIn name _ _ _ | useIn name _ _ => IsIdentifier name
  | enum symbols => ∀ name ∈ symbols, IsIdentifier name
  | all binders _ => ∀ b ∈ binders, IsIdentifier b.name
  | any binder _ => IsIdentifier binder.name
  | lam params _ => ∀ p ∈ params, p.Spelled
  | lamMatch block | tildeMatch _ block => block.Spelled
  | genericCall _ typeArgs _ => typeArgs ≠ []
  | matchOn _ withs _ => ∀ w ∈ withs, IsIdentifier w.name
  | error => False
  | _ => True

/-- The names in a layer of a pattern are names, and its literals are normal. -/
def Pattern.Spelled : Pattern π → Prop
  | var name | tag name | ctor name _ | sym name => IsIdentifier name
  | lit value => value.Normal
  | _ => True

variable (f : τ → υ) (g : π → ρ)

@[simp] theorem Param.spelled_map (p : Param τ π) : (p.map f g).Spelled ↔ p.Spelled := by cases p <;> rfl

@[simp] theorem CaseTag.spelled_map (tag : CaseTag τ) : (tag.map f).Spelled ↔ tag.Spelled := by cases tag <;> rfl

@[simp] theorem CaseBlock.spelled_map (b : CaseBlock τ) : (b.map f).Spelled ↔ b.Spelled := by
  simp [CaseBlock.Spelled, CaseBlock.map, BlockCase.map]

@[simp] theorem Term.spelled_map (t : Term τ π) : (t.map f g).Spelled ↔ t.Spelled := by
  cases t <;> simp [Term.map, Term.Spelled, Binder.map, WithClause.map]

@[simp] theorem Pattern.spelled_map (p : Pattern π) : (p.map g).Spelled ↔ p.Spelled := by cases p <;> rfl

end Layers

end BendSyntax
