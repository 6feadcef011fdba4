import BendSyntax.Proofs.Lexing.Literals
import BendSyntax.Proofs.Numbers.Rounding

/-! What a floating-point number is shown as is a decimal numeral that denotes its shortest decimal. As
this lies in the interval of the number, numbers in normal form that are shown alike are the same. -/

namespace BendSyntax

namespace Decimal

/-- The rational number that a numeral denotes, without its sign. -/
def value (d : Decimal) : ℚ := Numeral.ofDigits 10 d.digits * 10 ^ d.exponent

/-- A text denotes a number with a sign. -/
def Denotes (cs : List Char) (negative : Bool) (v : ℚ) : Prop :=
  ∃ d, ofText? cs = some d ∧ d.negative = negative ∧ d.value = v

/-- What a text denotes is determined by it. -/
theorem Denotes.unique {cs : List Char} {s t : Bool} {v w : ℚ} (h : Denotes cs s v) (k : Denotes cs t w) :
    s = t ∧ v = w := by
  obtain ⟨d, hd, rfl, rfl⟩ := h
  obtain ⟨e, he, rfl, rfl⟩ := k
  cases hd.symm.trans he
  exact ⟨rfl, rfl⟩

theorem ofDigits_filterMap {cs : List Char} (h : ∀ c ∈ cs, c.isDigit = true) :
    Numeral.ofDigits 10 (cs.filterMap (Numeral.digit? 10)) = Nat.ofDigitChars 10 cs 0 := by
  have hfold (acc : Nat) : (cs.filterMap (Numeral.digit? 10)).foldl (fun acc d => acc * 10 + d) acc =
      Nat.ofDigitChars 10 cs acc := by
    induction cs generalizing acc with
    | nil => rfl
    | cons c cs ih =>
        obtain ⟨hc, hcs⟩ := List.forall_mem_cons.mp h
        rw [List.filterMap_cons, Numeral.digit?_of_isDigit hc, Nat.ofDigitChars_cons, Nat.mul_comm 10]
        exact ih hcs _
  exact hfold 0

theorem length_filterMap_digit? {cs : List Char} (h : ∀ c ∈ cs, c.isDigit = true) :
    (cs.filterMap (Numeral.digit? 10)).length = cs.length := by
  induction cs with
  | nil => rfl
  | cons c cs ih =>
      obtain ⟨hc, hcs⟩ := List.forall_mem_cons.mp h
      rw [List.filterMap_cons, Numeral.digit?_of_isDigit hc, List.length_cons, List.length_cons, ih hcs]

theorem digitsOf_append {ds : List Char} (h : ∀ c ∈ ds, c.isDigit = true) {rest : List Char}
    (hrest : ∀ c ∈ rest.head?, Numeral.isDigit 10 c = false) :
    digitsOf (ds ++ rest) = (ds.filterMap (Numeral.digit? 10), rest) := by
  have hdigit : ∀ c ∈ ds, Numeral.isDigit 10 c = true := fun c hc => by
    rw [Numeral.isDigit, Numeral.digit?_of_isDigit (h c hc)]
    rfl
  have htake : rest.takeWhile (Numeral.isDigit 10) = [] ∧ rest.dropWhile (Numeral.isDigit 10) = rest := by
    cases rest with
    | nil => exact ⟨rfl, rfl⟩
    | cons c cs =>
        have hc := hrest c rfl
        simp [hc]
  rw [digitsOf, List.takeWhile_append_of_pos hdigit, List.dropWhile_append_of_pos hdigit, htake.1, htake.2,
    List.append_nil]

/-- A numeral as it is written: digits in front of a point, digits behind it and a power of ten. -/
structure Written where
  whole : List Char
  part : List Char
  tail : List Char
  power : Int
  digits : ∀ c ∈ whole ++ part, c.isDigit = true
  begins : whole ≠ []
  ends : exponent? tail = some power
  apart : ∀ c ∈ tail.head?, Numeral.isDigit 10 c = false ∧ c ≠ '.'

namespace Written

variable (w : Written)

/-- Without digits behind it the point is left out. -/
def fractionText : List Char := if w.part = [] then [] else '.' :: w.part

def text : List Char := w.whole ++ (w.fractionText ++ w.tail)

theorem fraction_eq : fraction (w.fractionText ++ w.tail) = (w.part.filterMap (Numeral.digit? 10), w.tail) := by
  unfold fractionText
  split
  · rename_i hpart
    rw [hpart, List.nil_append]
    unfold fraction
    split
    · rename_i htail
      exact absurd rfl (w.apart '.' (by simp [htail])).2
    · rfl
  · rw [List.cons_append, fraction]
    exact digitsOf_append (fun c hc => w.digits c (List.mem_append_right _ hc)) fun c hc => (w.apart c hc).1

theorem sign_eq (negative : Bool) : sign (if negative then '-' :: w.text else w.text) = (negative, w.text) := by
  cases negative with
  | true => rfl
  | false =>
      obtain ⟨c, cs, hwhole⟩ := List.exists_cons_of_ne_nil w.begins
      have hc := w.digits c (by simp [hwhole])
      have htext : w.text = c :: (cs ++ (w.fractionText ++ w.tail)) := by rw [text, hwhole, List.cons_append]
      simp only [Bool.false_eq_true, if_false]
      unfold sign
      split
      · rename_i heq
        rw [(List.cons.inj (htext.symm.trans heq)).1] at hc
        cases hc
      · rename_i heq
        rw [(List.cons.inj (htext.symm.trans heq)).1] at hc
        cases hc
      · rfl

/-- The digits of a numeral denote its value. -/
theorem denotes (negative : Bool) : Denotes (if negative then '-' :: w.text else w.text) negative
    (Nat.ofDigitChars 10 (w.whole ++ w.part) 0 * 10 ^ (w.power - w.part.length)) := by
  have hwhole : ∀ c ∈ w.whole, c.isDigit = true := fun c hc => w.digits c (List.mem_append_left _ hc)
  have hpart : ∀ c ∈ w.part, c.isDigit = true := fun c hc => w.digits c (List.mem_append_right _ hc)
  have hbehind : ∀ c ∈ (w.fractionText ++ w.tail).head?, Numeral.isDigit 10 c = false := by
    unfold fractionText
    split
    · exact fun c hc => (w.apart c hc).1
    · rintro _ ⟨⟩
      rfl
  have hdigits : digitsOf w.text = (w.whole.filterMap (Numeral.digit? 10), w.fractionText ++ w.tail) :=
    digitsOf_append hwhole hbehind
  have hsome : ¬((w.whole.filterMap (Numeral.digit? 10)).isEmpty = true ∧
      (w.part.filterMap (Numeral.digit? 10)).isEmpty = true) := by
    rw [List.isEmpty_iff_length_eq_zero, length_filterMap_digit? hwhole, List.length_eq_zero_iff]
    exact fun hempty => w.begins hempty.1
  refine ⟨⟨negative, w.whole.filterMap (Numeral.digit? 10) ++ w.part.filterMap (Numeral.digit? 10),
    w.power - w.part.length⟩, ?_, rfl, ?_⟩
  · simp only [ofText?, sign_eq, hdigits, fraction_eq, w.ends, length_filterMap_digit? hpart, Option.map_some]
    exact if_neg hsome
  · rw [value, ← List.filterMap_append, ofDigits_filterMap w.digits]

end Written

end Decimal


namespace Binary64

open Decimal

/-- A numeral has a value: its digits, scaled by the power of ten of the last of them. -/
def Spells (cs digits : List Char) (scale : Int) : Prop :=
  ∃ w : Written, cs = w.text ∧
    (Nat.ofDigitChars 10 (w.whole ++ w.part) 0 * 10 ^ (w.power - w.part.length) : ℚ) =
      Nat.ofDigitChars 10 digits 0 * 10 ^ scale

theorem ofDigitChars_leading_zeros (n : Nat) (ds : List Char) :
    Nat.ofDigitChars 10 (List.replicate n '0' ++ ds) 0 = Nat.ofDigitChars 10 ds 0 := by
  rw [Nat.ofDigitChars_append, Nat.ofDigitChars_replicate_zero, Nat.mul_zero]

theorem ofDigitChars_trailing_zeros (n : Nat) (ds : List Char) :
    Nat.ofDigitChars 10 (ds ++ List.replicate n '0') 0 = 10 ^ n * Nat.ofDigitChars 10 ds 0 := by
  rw [Nat.ofDigitChars_append, Nat.ofDigitChars_replicate_zero]

/-- The decimal notation of an integer denotes it, with its sign. -/
theorem signed?_toString (i : Int) : Numeral.signed? 10 (toString i).toList = some i := by
  obtain ⟨n, rfl, htext⟩ | ⟨n, rfl, htext⟩ := toList_toString_cases i
  · rw [htext]
    unfold Numeral.signed?
    split
    · exact absurd ‹_› (@toDigits_ne n '+' rfl [] _)
    · exact absurd ‹_› (@toDigits_ne n '-' rfl [] _)
    · rw [Numeral.value?_toDigits]
      rfl
  · rw [htext, Numeral.signed?, Numeral.value?_toDigits]
    rfl

theorem isDigit_replicate (n : Nat) : ∀ c ∈ List.replicate n '0', c.isDigit = true := fun c hc => by
  rw [List.eq_of_mem_replicate hc]
  rfl

section Layouts

variable {digits : List Char} (hdigits : ∀ c ∈ digits, c.isDigit = true) (hne : digits ≠ [])

include hdigits hne

theorem spells_positional (whole : Int) :
    Spells (positional digits whole) digits (whole - digits.length) := by
  have hends : exponent? [] = some 0 := rfl
  unfold positional
  split
  · rename_i hwhole
    refine ⟨⟨['0'], List.replicate (-whole).toNat '0' ++ digits, [], 0, ?_, by simp, hends, by simp⟩, ?_, ?_⟩
    · rw [← List.append_assoc]
      exact List.forall_mem_append.mpr ⟨isDigit_replicate ((-whole).toNat + 1), hdigits⟩
    · simp [Written.text, Written.fractionText, hne]
    · have hzeros : ['0'] ++ (List.replicate (-whole).toNat '0' ++ digits) =
          List.replicate ((-whole).toNat + 1) '0' ++ digits := rfl
      have hscale : 0 - ((List.replicate (-whole).toNat '0' ++ digits).length : Int) = whole - digits.length := by
        rw [List.length_append, List.length_replicate]
        omega
      dsimp only
      rw [hzeros, ofDigitChars_leading_zeros, hscale]
  · rename_i hwhole
    obtain ⟨n, rfl⟩ := Int.eq_ofNat_of_zero_le (show 0 ≤ whole by omega)
    have hn : n ≠ 0 := by omega
    rcases Nat.lt_or_ge n digits.length with hinside | hbeyond
    · have hafter : digits.drop n ≠ [] := by simpa using hinside
      have hbefore : digits.take n ≠ [] := by simp [hne, hn]
      refine ⟨⟨digits.take n, digits.drop n, [], 0, ?_, hbefore, hends, by simp⟩, ?_, ?_⟩
      · rwa [List.take_append_drop]
      · simp [Written.text, Written.fractionText, hinside.le, hafter]
      · dsimp only
        rw [List.take_append_drop, List.length_drop]
        congr 2
        omega
    · have hzero : List.replicate (n - digits.length) '0' ++ ['0'] = List.replicate (n - digits.length + 1) '0' :=
        List.replicate_succ'.symm
      refine ⟨⟨digits ++ List.replicate (n - digits.length) '0', ['0'], [], 0, ?_, by simp [hne], hends, by simp⟩,
        ?_, ?_⟩
      · rw [List.append_assoc, hzero]
        exact List.forall_mem_append.mpr ⟨hdigits, isDigit_replicate _⟩
      · simp [Written.text, Written.fractionText, List.take_of_length_le hbeyond, List.drop_of_length_le hbeyond]
      · have hscale : (n : Int) - digits.length = (n - digits.length : Nat) := by omega
        dsimp only
        rw [List.append_assoc, hzero, ofDigitChars_trailing_zeros, hscale, List.length_singleton, zpow_natCast,
          show (0 : Int) - (1 : Nat) = -1 by rfl]
        push_cast
        ring

theorem spells_scientific (power : Int) :
    Spells (scientific digits power) digits (power - (digits.length - 1)) := by
  have hends : exponent? ('e' :: (toString power).toList) = some power := by
    rw [exponent?, if_pos (.inl rfl), signed?_toString]
  have hapart : ∀ c ∈ ('e' :: (toString power).toList).head?, Numeral.isDigit 10 c = false ∧ c ≠ '.' := by
    rintro _ ⟨⟩
    exact ⟨rfl, by decide⟩
  match digits, hne with
  | [d], _ =>
      refine ⟨⟨[d], [], _, power, by simpa using hdigits, by simp, hends, hapart⟩, ?_, ?_⟩
      · simp [scientific, Written.text, Written.fractionText]
      · simp
  | d :: e :: ds, _ =>
      refine ⟨⟨[d], e :: ds, _, power, by simpa using hdigits, by simp, hends, hapart⟩, ?_, ?_⟩
      · simp [scientific, Written.text, Written.fractionText]
      · simp

end Layouts

/-- A number is written with its digits up to the zeros at the end, and these zeros. -/
theorem strip_spec (c : Nat) :
    Nat.toDigits 10 c = (strip c).1 ++ List.replicate (strip c).2 '0' := by
  generalize hds : Nat.toDigits 10 c = ds
  have hzeros : ds.reverse.takeWhile (· == '0') =
      List.replicate (ds.reverse.takeWhile (· == '0')).length '0' :=
    List.eq_replicate_of_mem fun d hd => by simpa using List.mem_takeWhile_imp hd
  have hsplit : ds = (ds.reverse.dropWhile (· == '0')).reverse ++ (ds.reverse.takeWhile (· == '0')).reverse := by
    rw [← List.reverse_append, List.takeWhile_append_dropWhile, List.reverse_reverse]
  have hlength := congrArg List.length hsplit
  rw [List.length_append, List.length_reverse, List.length_reverse] at hlength
  have hfront : ds.take (ds.length - (ds.reverse.takeWhile (· == '0')).length) =
      (ds.reverse.dropWhile (· == '0')).reverse := by
    conv_lhs => enter [2]; rw [hsplit]
    rw [List.take_left' (by rw [List.length_reverse]; omega)]
  have hback : (ds.reverse.takeWhile (· == '0')).reverse =
      List.replicate (ds.reverse.takeWhile (· == '0')).length '0' := by
    rw [hzeros, List.reverse_replicate, List.length_replicate]
  rw [strip, hds, hfront, ← hback]
  exact hsplit

theorem isDigit_strip (c : Nat) : ∀ d ∈ (strip c).1, d.isDigit = true := fun d hd =>
  isDigit_of_mem_toDigits (n := c) (by rw [strip_spec]; exact List.mem_append_left _ hd)

/-- The digits that are left denote the number, scaled. -/
theorem ofDigitChars_strip (c : Nat) : 10 ^ (strip c).2 * Nat.ofDigitChars 10 (strip c).1 0 = c := by
  rw [← ofDigitChars_trailing_zeros, ← strip_spec, Nat.ofDigitChars_toDigits (by decide) (Nat.le_refl 10)]

theorem strip_ne_nil {c : Nat} (hc : c ≠ 0) : (strip c).1 ≠ [] := by
  intro hempty
  have hvalue := ofDigitChars_strip c
  rw [hempty, Nat.ofDigitChars_nil, Nat.mul_zero] at hvalue
  exact hc hvalue.symm

theorem Spells.denotes {cs digits : List Char} {scale : Int} (h : Spells cs digits scale) (negative : Bool) :
    Denotes (if negative then '-' :: cs else cs) negative (Nat.ofDigitChars 10 digits 0 * 10 ^ scale) := by
  obtain ⟨w, rfl, hvalue⟩ := h
  rw [← hvalue]
  exact w.denotes negative

/-- The digits of a positive number are those of its shortest decimal. -/
theorem spells_shortest {c : Nat} (hc : c ≠ 0) (k : Int) :
    Spells (if -4 < k + (strip c).2 + (strip c).1.length ∧ k + (strip c).2 + (strip c).1.length ≤ 16
        then positional (strip c).1 (k + (strip c).2 + (strip c).1.length)
        else scientific (strip c).1 (k + (strip c).2 + (strip c).1.length - 1))
      (strip c).1 (k + (strip c).2) := by
  split
  · convert spells_positional (isDigit_strip c) (strip_ne_nil hc) (k + (strip c).2 + (strip c).1.length) using 1
    omega
  · convert spells_scientific (isDigit_strip c) (strip_ne_nil hc) (k + (strip c).2 + (strip c).1.length - 1) using 1
    omega

/-- A number is shown as zero, or as a numeral of its shortest decimal. -/
theorem denotes_shown (x : Binary64) (h : x.significand ≠ 0 → x.shortest.1 ≠ 0) :
    Denotes x.shown.toList x.negative
      (if x.significand = 0 then 0 else x.shortest.1 * 10 ^ x.shortest.2) := by
  by_cases hzero : x.significand = 0
  · have hspells : Spells ['0', '.', '0'] ['0'] 0 := @spells_positional ['0'] (by simp) (by simp) 1
    have hvalue : (Nat.ofDigitChars 10 ['0'] 0 * 10 ^ (0 : Int) : ℚ) = 0 := by norm_num [Nat.ofDigitChars]
    rw [shown, String.toList_ofList, if_pos (show x.isZero = true from beq_iff_eq.mpr hzero), if_pos hzero, ← hvalue]
    exact hspells.denotes x.negative
  · have hvalue : (Nat.ofDigitChars 10 (strip x.shortest.1).1 0 * 10 ^ (x.shortest.2 + (strip x.shortest.1).2) : ℚ) =
        x.shortest.1 * 10 ^ x.shortest.2 := by
      conv_rhs => rw [← ofDigitChars_strip x.shortest.1]
      rw [zpow_add₀ (by norm_num), zpow_natCast]
      push_cast
      ring
    have hnonzero : ¬x.isZero = true := by simpa [isZero] using hzero
    rw [shown, String.toList_ofList, if_neg hnonzero, if_neg hzero, ← hvalue]
    exact (spells_shortest (h hzero) x.shortest.2).denotes x.negative

/-! ## What numbers are shown as -/

namespace Normal

variable {x y : Binary64}

/-- A number in normal form other than zero has a shortest decimal other than zero. -/
theorem shortest_ne_zero (h : x.Normal) (hx : x.significand ≠ 0) : x.shortest.1 ≠ 0 := by
  intro hzero
  have hcovers := h.covers_shortest (Nat.pos_of_ne_zero hx)
  rw [hzero, Nat.cast_zero, zero_mul] at hcovers
  obtain ⟨w, hw, hlow, -⟩ := covers_bounds (Nat.pos_of_ne_zero hx) hcovers
  have hpos : (1 : ℚ) ≤ x.significand := by exact_mod_cast Nat.pos_of_ne_zero hx
  have hw' : w = 0 := by simpa [zpow_ne_zero] using hw.symm
  linarith

theorem ext (hsign : x.negative = y.negative) (hsignificand : x.significand = y.significand)
    (hexponent : x.exponent = y.exponent) : x = y := by
  cases x
  cases y
  simp_all

/-- Numbers that are shown alike are the same. -/
theorem shown_injective (hx : x.Normal) (hy : y.Normal) (h : x.shown = y.shown) : x = y := by
  have hdenotes := denotes_shown x hx.shortest_ne_zero
  rw [h] at hdenotes
  obtain ⟨hsign, hvalue⟩ := hdenotes.unique (denotes_shown y hy.shortest_ne_zero)
  have hpow (k : Int) : (10 : ℚ) ^ k ≠ 0 := zpow_ne_zero k (by norm_num)
  by_cases hxzero : x.significand = 0 <;> by_cases hyzero : y.significand = 0
  · have hleast {z : Binary64} (hz : z.Normal) (hzero : z.significand = 0) : z.exponent = leastExponent :=
      hz.full.resolve_left (by rw [hzero]; decide)
    exact ext hsign (hxzero.trans hyzero.symm) ((hleast hx hxzero).trans (hleast hy hyzero).symm)
  · rw [if_pos hxzero, if_neg hyzero, eq_comm, mul_eq_zero, Nat.cast_eq_zero] at hvalue
    exact absurd hvalue (not_or.mpr ⟨hy.shortest_ne_zero hyzero, hpow _⟩)
  · rw [if_neg hxzero, if_pos hyzero, mul_eq_zero, Nat.cast_eq_zero] at hvalue
    exact absurd hvalue (not_or.mpr ⟨hx.shortest_ne_zero hxzero, hpow _⟩)
  · rw [if_neg hxzero, if_neg hyzero] at hvalue
    have hxpos := Nat.pos_of_ne_zero hxzero
    have hypos := Nat.pos_of_ne_zero hyzero
    obtain ⟨hsignificand, hexponent⟩ := hx.eq_of_covers hy hxpos hypos (hx.covers_shortest hxpos)
      (hvalue ▸ hy.covers_shortest hypos)
    exact ext hsign hsignificand hexponent

end Normal

/-! ## Characters -/

/-- The characters of the numbers that are shown: digits, a point, the mark of an exponent and a sign. -/
def IsNumeric (c : Char) : Prop := c.isDigit = true ∨ c ∈ ['.', 'e', '-']

theorem isNumeric_digits {cs : List Char} (h : ∀ c ∈ cs, c.isDigit = true) : ∀ c ∈ cs, IsNumeric c :=
  fun c hc => .inl (h c hc)

theorem isNumeric_toString (i : Int) : ∀ c ∈ (toString i).toList, IsNumeric c := by
  have hdigits (n : Nat) : ∀ c ∈ Nat.toDigits 10 n, IsNumeric c := fun c hc => .inl (isDigit_of_mem_toDigits hc)
  obtain ⟨n, -, htext⟩ | ⟨n, -, htext⟩ := toList_toString_cases i <;> rw [htext]
  · exact hdigits n
  · exact List.forall_mem_cons.mpr ⟨.inr (by decide), hdigits n⟩

theorem isNumeric_positional {digits : List Char} (h : ∀ c ∈ digits, c.isDigit = true) (whole : Int) :
    ∀ c ∈ positional digits whole, IsNumeric c := by
  have hzeros (n : Nat) : ∀ c ∈ List.replicate n '0', IsNumeric c := isNumeric_digits (isDigit_replicate n)
  have htake (n : Nat) : ∀ c ∈ digits.take n, IsNumeric c := fun c hc => .inl (h c (List.mem_of_mem_take hc))
  have hdrop (n : Nat) : ∀ c ∈ digits.drop n, IsNumeric c := fun c hc => .inl (h c (List.mem_of_mem_drop hc))
  have hpoint : IsNumeric '.' := .inr (by decide)
  have hzero : IsNumeric '0' := .inl rfl
  unfold positional
  split
  · simp only [List.forall_mem_append, List.forall_mem_cons]
    exact ⟨⟨⟨hzero, hpoint, nofun⟩, hzeros _⟩, isNumeric_digits h⟩
  · dsimp only
    split
    · simp only [List.forall_mem_append, List.forall_mem_cons]
      exact ⟨⟨⟨htake _, hzeros _⟩, hpoint, nofun⟩, hzero, nofun⟩
    · simp only [List.forall_mem_append, List.forall_mem_cons]
      exact ⟨⟨⟨htake _, hzeros _⟩, hpoint, nofun⟩, hdrop _⟩

theorem isNumeric_scientific {digits : List Char} (h : ∀ c ∈ digits, c.isDigit = true) (power : Int) :
    ∀ c ∈ scientific digits power, IsNumeric c := by
  have hpoint : IsNumeric '.' := .inr (by decide)
  have hmark : IsNumeric 'e' := .inr (by decide)
  unfold scientific
  dsimp only
  split
  · simp only [List.forall_mem_append, List.forall_mem_cons] at h ⊢
    exact ⟨⟨⟨.inl h.1, hpoint, .inl h.2.1, isNumeric_digits h.2.2⟩, hmark, nofun⟩, isNumeric_toString power⟩
  · simp only [List.forall_mem_append, List.forall_mem_cons]
    exact ⟨⟨isNumeric_digits h, hmark, nofun⟩, isNumeric_toString power⟩

/-- A number is shown with a point or with an exponent, which no integer has. -/
theorem marked_positional (digits : List Char) (whole : Int) : '.' ∈ positional digits whole := by
  unfold positional
  split <;> simp

theorem marked_scientific (digits : List Char) (power : Int) : 'e' ∈ scientific digits power := by
  simp [scientific]

theorem numeric_shown (x : Binary64) :
    (∀ c ∈ x.shown.toList, IsNumeric c) ∧ ('.' ∈ x.shown.toList ∨ 'e' ∈ x.shown.toList) := by
  have hmagnitude {cs : List Char} (h : (∀ c ∈ cs, IsNumeric c) ∧ ('.' ∈ cs ∨ 'e' ∈ cs)) :
      (∀ c ∈ (String.ofList (if x.negative then '-' :: cs else cs)).toList, IsNumeric c) ∧
        ('.' ∈ (String.ofList (if x.negative then '-' :: cs else cs)).toList ∨
          'e' ∈ (String.ofList (if x.negative then '-' :: cs else cs)).toList) := by
    rw [String.toList_ofList]
    split
    · exact ⟨List.forall_mem_cons.mpr ⟨.inr (by decide), h.1⟩,
        h.2.imp (List.mem_cons_of_mem _) (List.mem_cons_of_mem _)⟩
    · exact h
  refine hmagnitude ?_
  split
  · simp only [List.forall_mem_cons]
    exact ⟨⟨.inl rfl, .inr (by decide), .inl rfl, nofun⟩, .inl (by decide)⟩
  · dsimp only
    split
    · exact ⟨isNumeric_positional (isDigit_strip _) _, .inl (marked_positional _ _)⟩
    · exact ⟨isNumeric_scientific (isDigit_strip _) _, .inr (marked_scientific _ _)⟩

end Binary64

end BendSyntax
