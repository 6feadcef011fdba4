import BendSyntax.Proofs.Lexing.Rejoined

/-! A token is the same if the text is cut off further behind it: as no token is longer than it has
to be, it does not become longer, or shorter, when less stands there. -/

namespace BendSyntax

namespace Scanned

variable {kind : TokenKind} {sign text body r more : List Char} {p : Char → Bool}

/-- Where a text may be cut off behind a token: an `n` that begins a word is not cut off from it,
because with a number in front it would be a natural. -/
def Severs (r more : List Char) : Prop := r = ['n'] → more.head?.any isWordPart = false

/-! ## Lists -/

theorem head?_of_takeWhile (h : (body ++ r).takeWhile p = body) : r.head?.any p = false := by
  have hbody : ∀ c ∈ body, p c = true := fun c hc => List.mem_takeWhile_imp (h.symm ▸ hc)
  rw [List.takeWhile_append_of_pos hbody, List.append_right_eq_self] at h
  cases r with
  | nil => rfl
  | cons c r =>
      rw [List.takeWhile_cons] at h
      split at h
      · cases h
      · simpa using ‹¬p c = true›

theorem head?_of_append (h : (r ++ more).head?.any p = false) : r.head?.any p = false := by
  cases r with
  | nil => rfl
  | cons c r => exact h

/-- What is taken off the front of a text is taken off as well if less stands behind it. -/
theorem takeWhile_sever (h : (body ++ (r ++ more)).takeWhile p = body) :
    (body ++ r).takeWhile p = body ∧ (body ++ r).dropWhile p = r :=
  takeWhile_append (fun _ hc => List.mem_takeWhile_imp (h.symm ▸ hc)) r
    (head?_of_append (head?_of_takeWhile h))

/-! ## Numbers -/

theorem valid_inj {kind' : TokenKind} {text' rest rest' : List Char}
    (h : valid kind text rest = valid kind' text' rest') : kind = kind' ∧ text = text' ∧ rest = rest' := by
  simpa [valid] using h

theorem eq_of_checked {kind' : TokenKind} {text' rest rest' : List Char}
    (h : checked kind' text' rest' = valid kind text rest) :
    kind' = kind ∧ text' = text ∧ rest' = rest ∧ ∀ rest, checked kind' text' rest = valid kind text rest := by
  unfold checked at *
  split at h
  · obtain ⟨rfl, rfl, rfl⟩ := valid_inj h
    exact ⟨rfl, rfl, rfl, fun _ => if_pos ‹_›⟩
  · cases congrArg flaws h

theorem based_sever {radix : Nat} {mark : String} {cs : List Char}
    (h : based radix mark sign cs = valid kind (sign ++ body) (r ++ more)) :
    ∃ digits, body = mark.toList ++ digits ∧
      based radix mark sign (digits ++ r) = valid kind (sign ++ body) r := by
  have hall := List.takeWhile_append_dropWhile (p := Numeral.isDigit radix) (l := cs)
  unfold based at h
  dsimp only at h
  split at h
  · cases congrArg flaws h
  · rename_i hempty
    obtain ⟨rfl, htext, hrest, hvalid⟩ := eq_of_checked h
    rw [List.append_assoc] at htext
    obtain rfl := List.append_cancel_left htext
    rw [hrest] at hall
    have hsame : (cs.takeWhile (Numeral.isDigit radix) ++ (r ++ more)).takeWhile (Numeral.isDigit radix) =
        cs.takeWhile (Numeral.isDigit radix) := by rw [hall]
    obtain ⟨htake, hdrop⟩ := takeWhile_sever hsame
    refine ⟨_, rfl, ?_⟩
    unfold based
    rw [htake, hdrop, if_neg hempty, hvalid]

/-- A number that ends with its digits, where the rest allows it. -/
theorem decimal_digits (hdigits : ∀ c ∈ body, c.isDigit = true)
    (hn : ∀ r', r = 'n' :: r' → r'.head?.any isWordPart = true)
    (hdot : ∀ r', r = '.' :: r' → r'.head?.any Char.isDigit = false)
    (hend : r.head?.any Char.isDigit = false) :
    decimal sign (body ++ r) = checked .int (sign ++ body) r := by
  obtain ⟨htake, hdrop⟩ := takeWhile_append hdigits r hend
  unfold decimal
  rw [htake, hdrop]
  dsimp only
  split
  · rw [if_pos (hn _ rfl)]
  · rw [hdot _ rfl]
    rfl
  · rfl

theorem decimal_sever (hr : Severs r more)
    (h : decimal sign (body ++ (r ++ more)) = valid kind (sign ++ body) (r ++ more)) :
    decimal sign (body ++ r) = valid kind (sign ++ body) r := by
  have hall := List.takeWhile_append_dropWhile (p := Char.isDigit) (l := body ++ (r ++ more))
  have hdigits : ∀ c ∈ (body ++ (r ++ more)).takeWhile Char.isDigit, c.isDigit = true :=
    fun _ hc => List.mem_takeWhile_imp hc
  have hend : ((body ++ (r ++ more)).dropWhile Char.isDigit).head?.any Char.isDigit = false :=
    head?_of_takeWhile (by rw [hall])
  unfold decimal at h
  dsimp only at h
  clear hall
  generalize (body ++ (r ++ more)).takeWhile Char.isDigit = ds at *
  generalize (body ++ (r ++ more)).dropWhile Char.isDigit = tail at *
  split at h
  · rename_i rest
    split_ifs at h with hpart hsign
    · obtain ⟨rfl, htext, hrest, hvalid⟩ := eq_of_checked h
      obtain rfl := List.append_cancel_left htext
      rw [hrest] at hend
      rw [← hvalid r]
      refine decimal_digits hdigits (fun r' heq => ?_) (fun r' heq => ?_) (head?_of_append hend)
      · subst heq
        obtain ⟨-, rfl⟩ := List.cons.inj hrest
        cases r' with
        | nil => exact absurd hpart (Bool.eq_false_iff.mp (hr rfl))
        | cons d r' => exact hpart
      · subst heq
        cases hrest
    · obtain ⟨rfl, htext, rfl, hvalid⟩ := eq_of_checked h
      rw [List.append_assoc] at htext
      obtain rfl := List.append_cancel_left htext
      obtain ⟨htake, hdrop⟩ := takeWhile_append hdigits ('n' :: r) rfl
      have hpart : r.head?.any isWordPart = false := head?_of_append (Bool.eq_false_iff.mpr hpart)
      rw [← hvalid r, List.append_assoc, List.singleton_append]
      unfold decimal
      rw [htake, hdrop]
      simp only [hpart, hsign, Bool.false_eq_true, if_false, if_true]
    · cases congrArg flaws h
  · rename_i rest
    split_ifs at h with hfraction
    · obtain ⟨rfl, htext, hrest, hvalid⟩ := eq_of_checked h
      rw [List.append_assoc] at htext
      obtain rfl := List.append_cancel_left htext
      have hrests := List.takeWhile_append_dropWhile (p := Char.isDigit) (l := rest)
      rw [hrest] at hrests
      have hmore : r.head?.any Char.isDigit = false := by
        have hsame : (rest.takeWhile Char.isDigit ++ (r ++ more)).takeWhile Char.isDigit =
            rest.takeWhile Char.isDigit := by rw [hrests]
        exact head?_of_append (head?_of_takeWhile hsame)
      have hfront : (rest.takeWhile Char.isDigit ++ r).head?.any Char.isDigit = true := by
        cases rest with
        | nil => cases hfraction
        | cons c rest =>
            have hc : c.isDigit = true := hfraction
            simp [hc]
      obtain ⟨htake, hdrop⟩ := takeWhile_append hdigits
        ('.' :: (rest.takeWhile Char.isDigit ++ r)) rfl
      have hfraction' : ∀ c ∈ rest.takeWhile Char.isDigit, c.isDigit = true :=
        fun _ hc => List.mem_takeWhile_imp hc
      obtain ⟨htake', hdrop'⟩ := takeWhile_append hfraction' r hmore
      rw [← hvalid r, List.append_assoc, List.cons_append]
      unfold decimal
      rw [htake, hdrop]
      simp only [hfront, if_true, htake', hdrop', List.append_assoc]
    · obtain ⟨rfl, htext, hrest, hvalid⟩ := eq_of_checked h
      obtain rfl := List.append_cancel_left htext
      rw [hrest] at hend
      rw [← hvalid r]
      refine decimal_digits hdigits (fun r' heq => ?_) (fun r' heq => ?_) (head?_of_append hend)
      · subst heq
        cases hrest
      · subst heq
        obtain ⟨-, rfl⟩ := List.cons.inj hrest
        exact head?_of_append (Bool.eq_false_iff.mpr hfraction)
  · rename_i hn hdot
    obtain ⟨rfl, htext, rfl, hvalid⟩ := eq_of_checked h
    obtain rfl := List.append_cancel_left htext
    rw [← hvalid r]
    refine decimal_digits hdigits (fun r' heq => ?_) (fun r' heq => ?_) (head?_of_append hend)
    · subst heq
      exact absurd rfl (hn _)
    · subst heq
      exact absurd rfl (hdot _)

theorem number_sever (hr : Severs r more)
    (h : number sign (body ++ (r ++ more)) = valid kind (sign ++ body) (r ++ more)) :
    number sign (body ++ r) = valid kind (sign ++ body) r := by
  by_cases hx : ∃ cs, body ++ (r ++ more) = '0' :: 'x' :: cs
  · obtain ⟨cs, hcs⟩ := hx
    rw [hcs] at h
    have hnumber : based 16 "0x" sign cs = valid kind (sign ++ body) (r ++ more) := h
    obtain ⟨digits, rfl, hbased⟩ := based_sever hnumber
    exact hbased
  by_cases hb : ∃ cs, body ++ (r ++ more) = '0' :: 'b' :: cs
  · obtain ⟨cs, hcs⟩ := hb
    rw [hcs] at h
    have hnumber : based 2 "0b" sign cs = valid kind (sign ++ body) (r ++ more) := h
    obtain ⟨digits, rfl, hbased⟩ := based_sever hnumber
    exact hbased
  simp only [not_exists] at hx hb
  have hfront {d : Char} (hne : ∀ cs, body ++ (r ++ more) ≠ '0' :: d :: cs) (cs : List Char) :
      body ++ r ≠ '0' :: d :: cs := fun heq => hne (cs ++ more) (by
    rw [← List.append_assoc, heq]
    rfl)
  rw [number_eq_decimal hx hb] at h
  rw [number_eq_decimal (hfront hx) (hfront hb)]
  exact decimal_sever hr h

/-! ## Words and symbols -/

theorem wordLength_cons {c : Char} (hc : c ≠ '/') (cs : List Char) :
    wordLength (c :: cs) = if isWordPart c then wordLength cs + 1 else 0 := by
  simp [wordLength, hc]

/-- A word does not go on in less text either. -/
theorem wordLength_front (h : wordLength (r ++ more) = 0) : wordLength r = 0 := by
  match r with
  | [] => rfl
  | [c] =>
      by_cases hc : c = '/'
      · subst hc
        rfl
      · rw [List.singleton_append, wordLength_cons hc] at h
        rw [wordLength_cons hc]
        split at h
        · cases h
        · exact if_neg ‹_›
  | c :: d :: r =>
      by_cases hc : c = '/'
      · subst hc
        simp only [List.cons_append, wordLength] at h ⊢
        split at h
        · cases h
        · exact if_neg ‹_›
      · rw [List.cons_append, wordLength_cons hc] at h
        rw [wordLength_cons hc]
        split at h
        · cases h
        · exact if_neg ‹_›

theorem wordLength_sever {text : List Char} (h : wordLength (text ++ (r ++ more)) = text.length) :
    wordLength (text ++ r) = text.length := by
  match text with
  | [] => exact wordLength_front h
  | [c] =>
      by_cases hc : c = '/'
      · subst hc
        exfalso
        cases hrest : r ++ more with
        | nil => simp [hrest, wordLength, isWordPart] at h
        | cons d rest =>
            simp only [hrest, List.singleton_append, wordLength, List.length_singleton] at h
            split at h <;> omega
      · rw [List.singleton_append, wordLength_cons hc] at h ⊢
        split_ifs at h ⊢ with hpart
        exact congrArg (· + 1) (wordLength_front (Nat.succ.inj h))
  | c :: d :: text =>
      by_cases hc : c = '/'
      · subst hc
        simp only [List.cons_append, wordLength, List.length_cons] at h ⊢
        split_ifs at h ⊢ with hstart
        have hshorter : wordLength (text ++ (r ++ more)) = text.length :=
          Nat.succ.inj (Nat.succ.inj h)
        exact congrArg (· + 2) (wordLength_sever hshorter)
      · rw [List.cons_append, wordLength_cons hc, List.length_cons] at h ⊢
        split_ifs at h ⊢ with hpart
        have hshorter : wordLength (d :: text ++ (r ++ more)) = (d :: text).length := Nat.succ.inj h
        exact congrArg (· + 1) (wordLength_sever hshorter)

theorem atFront?_sever {s : Symbol} (h : Symbol.atFront? (text ++ more) = some s)
    (htext : s.spelling.toList <+: text) : Symbol.atFront? text = some s := by
  unfold Symbol.atFront? at *
  obtain ⟨-, before, after, hlist, hbefore⟩ := List.find?_eq_some_iff_append.mp h
  refine List.find?_eq_some_iff_append.mpr
    ⟨List.isPrefixOf_iff_prefix.mpr htext, before, after, hlist, fun t ht => ?_⟩
  have hlonger := hbefore t ht
  rw [Bool.not_eq_true', ← Bool.not_eq_true, List.isPrefixOf_iff_prefix] at hlonger ⊢
  exact fun hfront => hlonger (hfront.trans (List.prefix_append text more))

/-! ## Tokens -/

theorem word_sever {c : Char}
    (h : word (c :: (body ++ (r ++ more))) = valid kind (c :: body) (r ++ more)) :
    word (c :: (body ++ r)) = valid kind (c :: body) r := by
  obtain ⟨hkind, htext, -⟩ := valid_inj h
  have hle := wordLength_le (c :: (body ++ (r ++ more)))
  have hlength : wordLength (c :: body ++ (r ++ more)) = (c :: body).length := by
    have hlong := congrArg List.length htext
    rwa [List.length_take, Nat.min_eq_left hle] at hlong
  have hshorter : wordLength (c :: body ++ r) = (c :: body).length := wordLength_sever hlength
  rw [List.cons_append] at hshorter
  have htake : (c :: (body ++ r)).take (c :: body).length = c :: body :=
    @List.take_left _ (c :: body) r
  have hdrop : (c :: (body ++ r)).drop (c :: body).length = r := @List.drop_left _ (c :: body) r
  rw [htext] at hkind
  rw [word, hshorter, htake, hdrop, hkind]

theorem symbol_sever {c : Char}
    (h : symbol c (body ++ (r ++ more)) = valid kind (c :: body) (r ++ more)) :
    symbol c (body ++ r) = valid kind (c :: body) r := by
  unfold symbol at h ⊢
  split at h
  · rename_i s hfront
    obtain ⟨rfl, htext, -⟩ := valid_inj h
    have hprefix := List.isPrefixOf_iff_prefix.mp (isPrefixOf_of_atFront? hfront)
    have hspelling : s.spelling.toList = c :: body := by
      rw [← htext, ← String.length_toList]
      exact List.prefix_iff_eq_take.mp hprefix
    have hfront' : Symbol.atFront? (c :: (body ++ r)) = some s := by
      rw [← List.append_assoc, ← List.cons_append] at hfront
      refine atFront?_sever hfront ?_
      rw [hspelling]
      exact List.prefix_append _ _
    have hlength : s.spelling.length = (c :: body).length := by
      rw [← String.length_toList, hspelling]
    have htake : (c :: (body ++ r)).take (c :: body).length = c :: body :=
      @List.take_left _ (c :: body) r
    have hdrop : (c :: (body ++ r)).drop (c :: body).length = r := @List.drop_left _ (c :: body) r
    rw [hfront']
    dsimp only
    rw [hlength, htake, hdrop]
  · cases congrArg flaws h

/-- A token that is found again in front of any text. -/
theorem Repeated.again {c : Char} {cs rest : List Char} {scan : List Char → Scanned}
    (h : Repeated [c] scan (scan cs)) (hscan : scan cs = valid kind (c :: body) rest) :
    scan (body ++ r) = valid kind (c :: body) r := by
  rw [hscan] at h
  obtain ⟨body', htext, hagain⟩ := h rfl
  obtain ⟨-, rfl⟩ := List.cons.inj htext
  exact hagain r

/-- A token is the same if the text is cut off further behind it. -/
theorem next_sever {signed : Bool} (hr : Severs r more) (htext : text ≠ [])
    (h : next signed (text ++ (r ++ more)) = valid kind text (r ++ more)) :
    next signed (text ++ r) = valid kind text r := by
  obtain ⟨c, body, rfl⟩ := List.exists_cons_of_ne_nil htext
  simp only [List.cons_append, next] at h ⊢
  have hsigned (hno : ¬signs signed c (body ++ (r ++ more)) = true) :
      ¬signs signed c (body ++ r) = true := by
    refine mt (fun hyes => ?_) hno
    simp only [signs, Bool.and_eq_true] at hyes ⊢
    refine ⟨hyes.1, ?_⟩
    by_contra hfalse
    rw [← List.append_assoc, Bool.not_eq_true] at hfalse
    rw [head?_of_append hfalse] at hyes
    cases hyes.2
  split_ifs at h with hdigit hsigns hstart hquote hmark hascii
  · have hnumber : number [] (c :: body ++ (r ++ more)) = valid kind ([] ++ c :: body) (r ++ more) := h
    rw [if_pos hdigit]
    exact number_sever hr hnumber
  · have hnumber : number [c] (body ++ (r ++ more)) = valid kind ([c] ++ body) (r ++ more) := h
    have hbody : body ≠ [] := by
      rintro rfl
      -- A sign alone is no number.
      have halone : number [c] ([] ++ []) = valid kind ([c] ++ []) [] :=
        number_sever (fun h => by cases h) hnumber
      simp only [signs, Bool.and_eq_true, Bool.or_eq_true, beq_iff_eq] at hsigns
      rcases hsigns.1.2 with rfl | rfl <;> cases congrArg flaws halone
    obtain ⟨d, body, rfl⟩ := List.exists_cons_of_ne_nil hbody
    have hsigns' : signs signed c (d :: body ++ r) = true := hsigns
    rw [if_neg hdigit, if_pos hsigns']
    exact number_sever hr hnumber
  · rw [if_neg hdigit, if_neg (hsigned hsigns), if_pos hstart]
    exact word_sever h
  · rw [if_neg hdigit, if_neg (hsigned hsigns), if_neg hstart, if_pos hquote]
    subst hquote
    exact (repeated_string _).again h
  · rw [if_neg hdigit, if_neg (hsigned hsigns), if_neg hstart, if_neg hquote, if_pos hmark]
    subst hmark
    exact (repeated_char _).again h
  · rw [if_neg hdigit, if_neg (hsigned hsigns), if_neg hstart, if_neg hquote, if_neg hmark,
      if_pos hascii]
    exact symbol_sever h
  · rw [if_neg hdigit, if_neg (hsigned hsigns), if_neg hstart, if_neg hquote, if_neg hmark,
      if_neg hascii]
    exact (repeated_letter c _).again h

/-! ## What stands around a token -/

variable {rest cs : List Char} {signed : Bool}

/-- An `n` that is a whole word has no word part behind it. -/
theorem severs_of_next (h : next signed (text ++ more) = valid kind text more) :
    Severs text more := by
  rintro rfl
  have hsigns : signs signed 'n' more = false := by simp [signs]
  have hword : word ('n' :: more) = valid kind ['n'] more := by
    rw [← h, List.singleton_append, next, if_neg (by decide), if_neg (by simp [hsigns]),
      if_pos (by decide)]
  have hle := wordLength_le ('n' :: more)
  have hlength : (('n' :: more).take (wordLength ('n' :: more))).length = 1 :=
    congrArg (·.text.length) hword
  rw [List.length_take, Nat.min_eq_left hle, wordLength_cons (by decide), if_pos (by decide)] at hlength
  cases more with
  | nil => rfl
  | cons c cs =>
      by_cases hc : c = '/'
      · subst hc
        rfl
      · rw [wordLength_cons hc] at hlength
        split at hlength
        · cases hlength
        · exact Bool.eq_false_iff.mpr ‹_›

/-- A sign in front of a digit is a plus or a minus. -/
theorem mark_of_signs {c : Char} {cs : List Char} (hsigns : signs true c cs = true)
    (h : next false (c :: cs) = valid kind text rest) : kind = .mark .plus ∨ kind = .mark .minus := by
  obtain ⟨d, ds, rfl⟩ : ∃ d ds, cs = d :: ds := by
    cases cs with
    | nil => simp [signs] at hsigns
    | cons d ds => exact ⟨d, ds, rfl⟩
  simp only [signs, Bool.true_and, Bool.and_eq_true, Bool.or_eq_true, beq_iff_eq, List.head?_cons,
    Option.any_some] at hsigns
  obtain ⟨hc, hd⟩ := hsigns
  have hsymbol : symbol c (d :: ds) = valid kind text rest := by
    rw [← h]
    rcases hc with rfl | rfl <;> rfl
  have hne (e : Char) (he : e.isDigit = false) : e ≠ d := by
    rintro rfl
    exact Bool.false_ne_true (he.symm.trans hd)
  unfold symbol at hsymbol
  split at hsymbol
  · rename_i s hfront
    obtain ⟨rfl, -⟩ := valid_inj hsymbol
    have hprefix := List.isPrefixOf_iff_prefix.mp (isPrefixOf_of_atFront? hfront)
    rcases hc with rfl | rfl <;> cases s <;> simp_all [Symbol.spelling]
  · cases congrArg flaws hsymbol

/-- Any other token is the same where a number could have a sign. -/
theorem next_of_unsigned (h : next false cs = valid kind text rest) (hplus : kind ≠ .mark .plus)
    (hminus : kind ≠ .mark .minus) : next true cs = valid kind text rest := by
  cases cs with
  | nil => exact h
  | cons c cs =>
      have hsigns : signs true c cs = false := by
        rw [← Bool.not_eq_true]
        intro hsigns
        rcases mark_of_signs hsigns h with hkind | hkind
        · exact hplus hkind
        · exact hminus hkind
      have hsigns' : signs false c cs = false := rfl
      simpa only [next, hsigns, hsigns'] using h

end Scanned

end BendSyntax
