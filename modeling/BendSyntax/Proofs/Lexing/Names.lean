import BendSyntax.Grammar.Operands
import BendSyntax.Proofs.Lexing.LineBreak

/-! Names are cut at slashes into parts that are not empty. A word begins with a letter, and a slash
belongs to it only in front of another one. -/

namespace BendSyntax

open Scanned

namespace Grammar

theorem cutAtSlashes_slash (cs : List Char) : cutAtSlashes ('/' :: cs) = "" :: cutAtSlashes cs := by
  obtain ⟨s, path, hpath⟩ := List.exists_cons_of_ne_nil (cutAtSlashes_ne_nil cs)
  simp [cutAtSlashes, hpath]

/-- Any other character belongs to the first part. -/
theorem cutAtSlashes_cons {c : Char} (h : c ≠ '/') (cs : List Char) :
    ∃ s path, cutAtSlashes cs = s :: path ∧
      cutAtSlashes (c :: cs) = (String.singleton c ++ s) :: path := by
  obtain ⟨s, path, hpath⟩ := List.exists_cons_of_ne_nil (cutAtSlashes_ne_nil cs)
  exact ⟨s, path, hpath, by simp [cutAtSlashes, hpath, h]⟩

/-- Every slash begins one more part. -/
theorem length_cutAtSlashes (cs : List Char) :
    (cutAtSlashes cs).length = cs.count '/' + 1 := by
  induction cs with
  | nil => rfl
  | cons c cs ih =>
      by_cases hslash : c = '/'
      · subst hslash
        rw [cutAtSlashes_slash, List.length_cons, ih, List.count_cons_self]
      · obtain ⟨s, path, hpath, hcut⟩ := cutAtSlashes_cons hslash cs
        rw [hpath] at ih
        rw [hcut, List.count_cons_of_ne hslash, ← ih]
        rfl

theorem notMem_cutAtSlashes_cons {c : Char} (h : c ≠ '/') {cs : List Char}
    (hcs : "" ∉ (cutAtSlashes cs).tail) : "" ∉ cutAtSlashes (c :: cs) := by
  obtain ⟨s, path, hpath, hcut⟩ := cutAtSlashes_cons h cs
  rw [hpath] at hcs
  rw [hcut, List.mem_cons, not_or]
  refine ⟨fun hempty => ?_, hcs⟩
  simpa using congrArg String.toList hempty

end Grammar

open Grammar

namespace Scanned

theorem isWordPart_slash : isWordPart '/' = false := by decide

theorem ne_slash_of_isWordStart {c : Char} (h : isWordStart c = true) : c ≠ '/' := by
  rintro rfl
  exact absurd h (by decide)

/-- As far as a word goes on, only the first part can be empty. -/
theorem notMem_tail_cutAtSlashes (cs : List Char) :
    "" ∉ (cutAtSlashes (cs.take (wordLength cs))).tail := by
  fun_induction wordLength cs with
  | case1 c cs hstart ih =>
      rw [List.take_succ_cons, List.take_succ_cons, cutAtSlashes_slash, List.tail_cons]
      exact notMem_cutAtSlashes_cons (ne_slash_of_isWordStart hstart) ih
  | case2 c cs hstart => simp [cutAtSlashes]
  | case3 c cs hslash hpart ih =>
      have hne : c ≠ '/' := fun h => by simp [h, isWordPart_slash] at hpart
      rw [List.take_succ_cons]
      exact fun hmem => notMem_cutAtSlashes_cons hne ih (List.mem_of_mem_tail hmem)
  | case4 c cs hslash hpart => simp [cutAtSlashes]
  | case5 => simp [cutAtSlashes]

/-- The text of a word has no empty part. -/
theorem notMem_cutAtSlashes_word {c : Char} (cs : List Char) (h : isWordStart c = true) :
    "" ∉ cutAtSlashes (word (c :: cs)).text := by
  have hne := ne_slash_of_isWordStart h
  obtain ⟨n, hn⟩ := Nat.exists_eq_succ_of_ne_zero (Nat.ne_of_gt (wordLength_pos cs h))
  have htail := notMem_tail_cutAtSlashes (c :: cs)
  change "" ∉ cutAtSlashes ((c :: cs).take (wordLength (c :: cs)))
  rw [hn, List.take_succ_cons] at htail ⊢
  obtain ⟨s, path, hpath, hcut⟩ := cutAtSlashes_cons hne (cs.take n)
  rw [hcut] at htail
  exact notMem_cutAtSlashes_cons hne (hpath ▸ htail)

/-! ## Identifiers -/

section Kinds

variable {text rest cs : List Char} {kind : TokenKind}

theorem kind_bad (cause : Flaw.Cause) : (bad cause text rest).kind ≠ .ident := by simp [bad]

theorem kind_checked (h : kind ≠ .ident) : (checked kind text rest).kind ≠ .ident := by
  unfold checked
  split
  · exact h
  · exact kind_bad _

theorem kind_based (radix : Nat) (mark : String) (sign : List Char) :
    (based radix mark sign cs).kind ≠ .ident := by
  simp only [based]
  split
  · exact kind_bad _
  · exact kind_checked (by simp)

theorem kind_number (sign : List Char) : (number sign cs).kind ≠ .ident := by
  unfold number
  split
  · exact kind_based _ _ _
  · exact kind_based _ _ _
  simp only [decimal]
  split
  · split
    · exact kind_checked (by simp)
    · split
      · exact kind_checked (by simp)
      · exact kind_bad _
  · split <;> exact kind_checked (by simp)
  · exact kind_checked (by simp)

theorem kind_string : (string cs).kind ≠ .ident := by
  unfold string
  split
  · dsimp only
    split <;> simp
  · simp

theorem kind_closeChar (n : Nat) (flaws : List Flaw) : (closeChar cs n flaws).kind ≠ .ident := by
  unfold closeChar
  split
  · dsimp only
    split <;> simp
  · simp

theorem kind_char : (char cs).kind ≠ .ident := by
  unfold char
  split
  any_goals exact kind_bad _
  all_goals exact kind_closeChar _ _

theorem kind_symbol (c : Char) : (symbol c cs).kind ≠ .ident := by
  unfold symbol
  split
  · simp [valid]
  · exact kind_bad _

theorem kind_letter (c : Char) : (letter c cs).kind ≠ .ident := by
  unfold letter
  split
  · rename_i kind hword
    obtain ⟨k, -, rfl⟩ := Option.map_eq_some_iff.mp hword
    simp [valid]
  · exact kind_bad _

/-- Only a word is an identifier. -/
theorem eq_word_of_ident {signed : Bool} (h : (next signed cs).kind = .ident) :
    ∃ c cs', cs = c :: cs' ∧ isWordStart c = true ∧ next signed cs = word (c :: cs') := by
  cases cs with
  | nil => simp [next, valid] at h
  | cons c cs =>
      simp only [next] at h
      split_ifs at h with hdigit hsigns hstart
      · exact absurd h (kind_number _)
      · exact absurd h (kind_number _)
      · exact ⟨c, cs, rfl, hstart, by simp only [next, if_neg hdigit, if_neg hsigns, if_pos hstart]⟩
      · exact absurd h kind_string
      · exact absurd h kind_char
      · exact absurd h (kind_symbol c)
      · exact absurd h (kind_letter c)

end Kinds

end Scanned

/-- An identifier has no empty part. -/
def Token.Segmented (t : Token) : Prop := t.kind = .ident → "" ∉ cutAtSlashes t.lexeme.toList

namespace Lexing

/-- Every token is scanned from some text. -/
theorem exists_scanned_of_mem {t : Token} (previous : Option TokenKind) (p : Position)
    (cs : List Char) (ht : t ∈ (onward previous p cs).tokens.toList) :
    ∃ signed cs, t.kind = (Scanned.next signed cs).kind ∧
      t.lexeme.toList = (Scanned.next signed cs).text := by
  fun_induction onward previous p cs with
  | case1 previous p cs gap reports p' hrest =>
      obtain rfl := List.mem_singleton.mp ht
      exact ⟨true, [], rfl, String.toList_ofList⟩
  | case2 previous p cs gap reports p' c rest hrest scanned token reports' after ih =>
      rcases List.mem_cons.mp ht with rfl | ht
      · exact ⟨_, _, rfl, String.toList_ofList⟩
      · exact ih ht

theorem segmented_of_mem {t : Token} {source : String} (ht : t ∈ (ofText source).tokens.toList) :
    t.Segmented := by
  obtain ⟨signed, cs, hkind, htext⟩ := exists_scanned_of_mem none .start source.toList ht
  intro hident
  obtain ⟨c, cs', rfl, hstart, hword⟩ := eq_word_of_ident (hkind.symm.trans hident)
  rw [htext, hword]
  exact notMem_cutAtSlashes_word cs' hstart

end Lexing

end BendSyntax
