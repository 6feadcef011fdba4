import BendSyntax.Proofs.Lexing.Decoded
import BendSyntax.Proofs.Numbers.Shown
import BendSyntax.Proofs.Readback.Parts

/-! Literals are shown so that their texts tell their kinds and their values. -/

namespace BendSyntax

open Binary64 Dump

namespace Literal

/-- Floating-point numbers in normal form, and all other literals. -/
def Normal : Literal → Prop
  | float x => x.Normal
  | _ => True

theorem normal_of_ofLexeme? {kind : TokenKind} {lexeme : List Char} {l : Literal}
    (h : ofLexeme? kind lexeme = some l) : l.Normal := by
  unfold ofLexeme? at h
  split at h
  all_goals first
    | (obtain ⟨x, hx, rfl⟩ := Option.map_eq_some_iff.mp h; first | exact .of_read? hx | trivial)
    | (cases h; trivial)
    | cases h

/-! ## Kinds -/

theorem toList_shown_nat (n : Nat) : (shown (.nat n)).toList = Nat.toDigits 10 n ++ ['n'] := by
  simp [shown, toString, Nat.toList_repr]

/-- The kind of the literal that is shown as a text. -/
def shownKind (cs : List Char) : TokenKind :=
  if cs.head? = some 'T' then .word .true
  else if cs.head? = some 'F' then .word .false
  else if cs.head? = some '"' then .str
  else if cs.head? = some '\'' then .char
  else if cs.getLast? = some 'n' then .nat
  else if '.' ∈ cs ∨ 'e' ∈ cs then .float
  else .int

/-- A number begins neither as a truth value does nor with a quotation mark. -/
theorem shownKind_numeric {cs : List Char} (h : ∀ c ∈ cs.head?, IsNumeric c) :
    shownKind cs = if cs.getLast? = some 'n' then .nat else if '.' ∈ cs ∨ 'e' ∈ cs then .float else .int := by
  have hne (c : Char) (hc : ¬IsNumeric c) : cs.head? ≠ some c := fun heq => hc (h c heq)
  unfold shownKind
  rw [if_neg (hne 'T' (by simp [IsNumeric])), if_neg (hne 'F' (by simp [IsNumeric])),
    if_neg (hne '"' (by simp [IsNumeric])), if_neg (hne '\'' (by simp [IsNumeric]))]

theorem getLast?_numeric {cs : List Char} (h : ∀ c ∈ cs, IsNumeric c) : cs.getLast? ≠ some 'n' := by
  intro heq
  have hn := h 'n' (List.mem_of_getLast? heq)
  simp [IsNumeric] at hn

theorem isInteger_toString (i : Int) : ∀ c ∈ (toString i).toList, c.isDigit = true ∨ c = '-' := by
  have hdigits (n : Nat) : ∀ c ∈ Nat.toDigits 10 n, c.isDigit = true ∨ c = '-' :=
    fun c hc => .inl (isDigit_of_mem_toDigits hc)
  obtain ⟨n, -, htext⟩ | ⟨n, -, htext⟩ := toList_toString_cases i <;> rw [htext]
  · exact hdigits n
  · exact List.forall_mem_cons.mpr ⟨.inr rfl, hdigits n⟩

/-- What a literal is shown as tells its kind. -/
theorem shownKind_shown (l : Literal) : shownKind l.shown.toList = l.kind := by
  cases l with
  | bool b => cases b <;> rfl
  | nat n =>
      obtain ⟨c, cs, hdigits, hc⟩ := exists_toDigits_eq n
      have hlast : (shown (.nat n)).toList.getLast? = some 'n' := by rw [toList_shown_nat, List.getLast?_concat]
      rw [shownKind_numeric ?_, if_pos hlast]
      · rfl
      · rw [toList_shown_nat, hdigits]
        rintro _ ⟨⟩
        exact .inl hc
  | int i =>
      have hint := isInteger_toString i
      have hnumeric : ∀ c ∈ (shown (.int i)).toList, IsNumeric c := isNumeric_toString i
      have hmark (c : Char) (hc : ¬(c.isDigit = true ∨ c = '-')) : c ∉ (shown (.int i)).toList :=
        fun hmem => hc (hint c hmem)
      rw [shownKind_numeric (fun c hc => hnumeric c (List.mem_of_mem_head? hc)), if_neg (getLast?_numeric hnumeric),
        if_neg (not_or.mpr ⟨hmark '.' (by simp), hmark 'e' (by simp)⟩)]
      rfl
  | float x =>
      obtain ⟨hnumeric, hmark⟩ := numeric_shown x
      have hshown : (shown (.float x)).toList = x.shown.toList := rfl
      rw [hshown, shownKind_numeric (fun c hc => hnumeric c (List.mem_of_mem_head? hc)),
        if_neg (getLast?_numeric hnumeric), if_pos hmark]
      rfl
  | char c => simp [shown, Text.quotedChar, Text.quoted, shownKind, kind]
  | str s => simp [shown, Text.quotedString, Text.quoted, shownKind, kind]

/-! ## Values -/

theorem eq_of_shown_char {c d : Char} (h : shown (.char c) = shown (.char d)) : c = d := by
  have htext := congrArg String.toList h
  simp only [shown, Text.quotedChar, String.toList_ofList] at htext
  obtain ⟨-, hchars, -⟩ := Text.quoted_unique (r := []) (s := []) (.inr rfl) (by simpa using htext)
  exact List.singleton_inj.mp hchars

theorem eq_of_shown_str {s t : String} (h : shown (.str s) = shown (.str t)) : s = t := by
  have htext := congrArg String.toList h
  simp only [shown, Text.quotedString, String.toList_ofList] at htext
  obtain ⟨-, hchars, -⟩ := Text.quoted_unique (r := []) (s := []) (.inl rfl) (by simpa using htext)
  exact String.toList_inj.mp hchars

theorem eq_of_shown_nat {m n : Nat} (h : shown (.nat m) = shown (.nat n)) : m = n := by
  have htext := congrArg String.toList h
  rw [toList_shown_nat, toList_shown_nat] at htext
  have hvalue := congrArg (Numeral.value? 10) (List.append_cancel_right htext)
  rwa [Numeral.value?_toDigits, Numeral.value?_toDigits, Option.some_inj] at hvalue

theorem eq_of_shown_int {i j : Int} (h : shown (.int i) = shown (.int j)) : i = j := by
  have hvalue := congrArg (fun s => Numeral.signed? 10 (String.toList s)) h
  have hi : Numeral.signed? 10 (shown (.int i)).toList = some i := signed?_toString i
  have hj : Numeral.signed? 10 (shown (.int j)).toList = some j := signed?_toString j
  rwa [hi, hj, Option.some_inj] at hvalue

/-- Literals that are shown alike are the same. -/
theorem shown_injective {l k : Literal} (hl : l.Normal) (hk : k.Normal) (h : l.shown = k.shown) : l = k := by
  have hkind : l.kind = k.kind := by rw [← shownKind_shown, ← shownKind_shown, h]
  cases l with
  | bool b =>
      cases b <;> cases k with
      | bool c => cases c <;> first | rfl | cases hkind
      | _ => cases hkind
  | nat m =>
      cases k with
      | nat n => rw [eq_of_shown_nat h]
      | bool c => cases c <;> cases hkind
      | _ => cases hkind
  | int i =>
      cases k with
      | int j => rw [eq_of_shown_int h]
      | bool c => cases c <;> cases hkind
      | _ => cases hkind
  | float x =>
      cases k with
      | float y => rw [Binary64.Normal.shown_injective hl hk h]
      | bool c => cases c <;> cases hkind
      | _ => cases hkind
  | char c =>
      cases k with
      | char d => rw [eq_of_shown_char h]
      | bool c => cases c <;> cases hkind
      | _ => cases hkind
  | str s =>
      cases k with
      | str t => rw [eq_of_shown_str h]
      | bool c => cases c <;> cases hkind
      | _ => cases hkind

/-! ## Beginnings -/

/-- What the text of a literal begins with, unless it is a truth value. -/
def Opens (c : Char) : Prop := c.isDigit = true ∨ c ∈ ['-', '+', '.', '"', '\'']

instance : DecidablePred Opens := fun c =>
  inferInstanceAs (Decidable (c.isDigit = true ∨ c ∈ ['-', '+', '.', '"', '\'']))

theorem isDigit_of_isDigit_ten {c : Char} (h : Numeral.isDigit 10 c = true) : c.isDigit = true := by
  have hle (a : Char) : a ≤ c ↔ a.toNat ≤ c.toNat := Iff.rfl
  have hge (a : Char) : c ≤ a ↔ c.toNat ≤ a.toNat := Iff.rfl
  have hdigit : c.isDigit = true ↔ '0' ≤ c ∧ c ≤ '9' := by simp [Char.isDigit, Char.le_def]
  simp only [Numeral.isDigit, Numeral.digit?, hle, hge] at h
  rw [hdigit, hle, hge]
  simp only [Char.reduceToNat] at h ⊢
  grind

/-- The text of a number begins with a digit, a sign or a point. -/
theorem opens_of_ofText? {cs : List Char} {d : Decimal} (h : Decimal.ofText? cs = some d) :
    ∃ c cs', cs = c :: cs' ∧ Opens c := by
  cases cs with
  | nil => cases h
  | cons c cs =>
      refine ⟨c, cs, rfl, ?_⟩
      by_contra hopens
      obtain ⟨hdigit, hmark⟩ := not_or.mp hopens
      have hten : Numeral.isDigit 10 c = false := Bool.eq_false_iff.mpr fun h => hdigit (isDigit_of_isDigit_ten h)
      simp only [List.mem_cons, List.not_mem_nil, or_false, not_or] at hmark
      have hsign : Decimal.sign (c :: cs) = (false, c :: cs) := by simp [Decimal.sign, hmark]
      have hfraction : Decimal.fraction (c :: cs) = ([], c :: cs) := by simp [Decimal.fraction, hmark]
      simp [Decimal.ofText?, hsign, Decimal.digitsOf, hten, hfraction] at h

theorem opens_shown {l : Literal} (hl : l.Normal) :
    l.shown = "True" ∨ l.shown = "False" ∨ ∃ c cs, l.shown.toList = c :: cs ∧ Opens c := by
  have hdigits (n : Nat) (more : List Char) : ∃ c cs, Nat.toDigits 10 n ++ more = c :: cs ∧ Opens c := by
    obtain ⟨c, cs, hdigits, hc⟩ := exists_toDigits_eq n
    exact ⟨c, cs ++ more, by rw [hdigits, List.cons_append], .inl hc⟩
  cases l with
  | bool b => cases b <;> simp [shown]
  | nat n => exact .inr (.inr (toList_shown_nat n ▸ hdigits n ['n']))
  | int i =>
      refine .inr (.inr ?_)
      have htext : (shown (.int i)).toList = (toString i).toList := rfl
      obtain ⟨n, -, hint⟩ | ⟨n, -, hint⟩ := toList_toString_cases i <;> rw [htext, hint]
      · simpa using hdigits n []
      · exact ⟨'-', _, rfl, by decide⟩
  | float x =>
      obtain ⟨d, hd, -⟩ := denotes_shown x (Binary64.Normal.shortest_ne_zero hl)
      exact .inr (.inr (opens_of_ofText? hd))
  | char c => exact .inr (.inr ⟨'\'', _, String.toList_ofList, by decide⟩)
  | str s => exact .inr (.inr ⟨'"', _, String.toList_ofList, by decide⟩)

/-! ## Texts -/

theorem ordinary_of_isNumeric {c : Char} (h : IsNumeric c) : Ordinary c := by
  intro hmem
  simp only [List.mem_cons, List.not_mem_nil, or_false] at hmem
  rcases hmem with rfl | rfl | rfl | rfl | rfl | rfl | rfl | rfl | rfl <;> simp [IsNumeric] at h

/-- What a literal is shown as may stand anywhere in a dump. -/
theorem stands_shown (l : Literal) : Stands l.shown := by
  cases l with
  | bool b => cases b <;> exact stands_of_isPlain (by decide)
  | nat n =>
      refine stands_of_ordinary ?_
      rw [toList_shown_nat]
      refine ⟨by simp, fun c hc => ?_⟩
      rcases List.mem_append.mp hc with hc | hc
      · exact ordinary_of_isNumeric (.inl (isDigit_of_mem_toDigits hc))
      · rw [List.mem_singleton.mp hc]
        decide
  | int i =>
      refine stands_of_ordinary ⟨fun hempty => ?_, fun c hc => ordinary_of_isNumeric (isNumeric_toString i c hc)⟩
      have hvalue := signed?_toString i
      rw [show (toString i).toList = [] from hempty] at hvalue
      cases hvalue
  | float x =>
      obtain ⟨hnumeric, hmark⟩ := numeric_shown x
      refine stands_of_ordinary ⟨fun hempty => ?_, fun c hc => ordinary_of_isNumeric (hnumeric c hc)⟩
      rw [show x.shown.toList = [] from hempty] at hmark
      simp at hmark
  | char c =>
      rw [Stands, shown, Text.quotedChar, String.toList_ofList]
      exact .quoted _ (.inr rfl)
  | str s =>
      rw [Stands, shown, Text.quotedString, String.toList_ofList]
      exact .quoted _ (.inl rfl)

end Literal

end BendSyntax
