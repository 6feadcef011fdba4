import BendSyntax.Proofs.Lexing.Order
import Mathlib.Data.List.DropRight

/-! The tokens of a text tile it: text that is skipped and tokens take turns until nothing is left,
and every span says where its text stands. -/

namespace BendSyntax

/-! ## Gaps -/

namespace Gap

/-- A text that separates tokens, in front of `rest`: blanks, comments that end with the line, and
comments that the first `-}` closes or that nothing closes before the end of the text. -/
inductive Trivia : (gap rest : List Char) → Prop where
  | nil {rest} : Trivia [] rest
  | blank {c gap rest} (hc : isBlank c = true) (more : Trivia gap rest) : Trivia (c :: gap) rest
  | line {comment gap rest} (hline : '\n' ∉ comment)
      (hend : ∀ c ∈ (gap ++ rest).head?, c = '\n') (more : Trivia gap rest) :
      Trivia ('#' :: comment ++ gap) rest
  | block {comment gap rest} (hopen : ¬['-', '\x7d'] <:+: comment) (more : Trivia gap rest) :
      Trivia ('\x7b' :: '-' :: comment ++ '-' :: '\x7d' :: gap) rest
  | unclosed {comment} (hopen : ¬['-', '\x7d'] <:+: comment) : Trivia ('\x7b' :: '-' :: comment) []

/-- What is skipped in front of `rest`, depending on what it continues. -/
def Skips : Inside → (gap rest : List Char) → Prop
  | .blanks, gap, rest => Trivia gap rest
  | .line, gap, rest => ∃ comment more, gap = comment ++ more ∧ '\n' ∉ comment ∧
      (∀ c ∈ (more ++ rest).head?, c = '\n') ∧ Trivia more rest
  | .block _, gap, rest =>
      (∃ comment more, gap = comment ++ '-' :: '\x7d' :: more ∧ ¬['-', '\x7d'] <:+: comment ∧
        Trivia more rest) ∨
      (rest = [] ∧ ¬['-', '\x7d'] <:+: gap)

/-- A comment stays open with one more character in front, unless the mark that closes it begins
there. -/
theorem not_infix_cons {c : Char} {comment cs : List Char} (hopen : ¬['-', '\x7d'] <:+: comment)
    (hstarts : comment <+: cs) (hfront : ∀ ds, c = '-' → cs = '\x7d' :: ds → False) :
    ¬['-', '\x7d'] <:+: c :: comment := by
  rw [List.infix_cons_iff, not_or]
  refine ⟨?_, hopen⟩
  rintro ⟨ds, hds⟩
  obtain ⟨hc, rfl⟩ := List.cons.inj hds
  obtain ⟨more, rfl⟩ := hstarts
  exact hfront _ hc.symm rfl

/-- A gap that takes `skipped` off the front of `cs` when `n` characters of it are behind. -/
structure Takes (n : Nat) (cs skipped : List Char) (gap : Gap) : Prop where
  text : cs = skipped ++ gap.rest
  length : gap.length = n + skipped.length

theorem Takes.cons {n : Nat} {cs skipped : List Char} {gap : Gap}
    (h : Takes (n + 1) cs skipped gap) (c : Char) : Takes n (c :: cs) (c :: skipped) gap where
  text := congrArg (c :: ·) h.text
  length := by
    have := h.length
    simp only [List.length_cons]
    omega

theorem skips_scan (i : Inside) (n : Nat) (cs : List Char) :
    ∃ skipped, Takes n cs skipped (scan i n cs) ∧ Skips i skipped (scan i n cs).rest := by
  fun_induction scan i n cs with
  | case1 n cs ih =>
      obtain ⟨_, htakes, ⟨comment, more, rfl, hopen, hmore⟩ | ⟨hrest, hopen⟩⟩ := ih
      · exact ⟨_, (htakes.cons '-').cons '\x7b', .block hopen hmore⟩
      · refine ⟨_, (htakes.cons '-').cons '\x7b', ?_⟩
        rw [hrest]
        exact Trivia.unclosed hopen
  | case2 n c cs _ hblank ih =>
      obtain ⟨skipped, htakes, hmore⟩ := ih
      exact ⟨_, htakes.cons c, .blank hblank hmore⟩
  | case3 n cs _ _ ih =>
      obtain ⟨_, htakes, comment, more, rfl, hline, hend, hmore⟩ := ih
      exact ⟨_, htakes.cons '#', .line hline hend hmore⟩
  | case4 n c cs => exact ⟨[], ⟨rfl, rfl⟩, .nil⟩
  | case5 n c cs ih =>
      obtain ⟨skipped, htakes, hskips⟩ := ih
      refine ⟨_, htakes.cons c, ?_⟩
      by_cases hc : c = '\n'
      · subst hc
        exact ⟨[], _, rfl, List.not_mem_nil, by simp, .blank rfl hskips⟩
      · rw [if_neg hc] at hskips ⊢
        obtain ⟨comment, more, rfl, hline, hend, hmore⟩ := hskips
        exact ⟨c :: comment, more, rfl, by simp [Ne.symm hc, hline], hend, hmore⟩
  | case6 start n cs ih =>
      obtain ⟨skipped, htakes, hmore⟩ := ih
      exact ⟨_, (htakes.cons '\x7d').cons '-', .inl ⟨[], skipped, rfl, by decide, hmore⟩⟩
  | case7 start n c cs hfront ih =>
      obtain ⟨skipped, htakes, hskips⟩ := ih
      refine ⟨_, htakes.cons c, ?_⟩
      have hstarts := htakes.text ▸ List.prefix_append skipped _
      obtain ⟨comment, more, rfl, hopen, hmore⟩ | ⟨hrest, hopen⟩ := hskips
      · refine .inl ⟨c :: comment, more, rfl, not_infix_cons hopen ?_ hfront, hmore⟩
        exact (List.prefix_append comment _).trans hstarts
      · exact .inr ⟨hrest, not_infix_cons hopen hstarts hfront⟩
  | case8 start n => exact ⟨[], ⟨rfl, rfl⟩, .inr ⟨rfl, by decide⟩⟩
  | case9 i n hi =>
      refine ⟨[], ⟨rfl, rfl⟩, ?_⟩
      cases i with
      | blanks => exact .nil
      | line => exact ⟨[], [], rfl, List.not_mem_nil, by simp, .nil⟩
      | block start => exact (hi start rfl).elim

end Gap

/-! ## Scanned tokens -/

namespace Scanned

/-- A token that is cut off the front of `cs`. -/
def Cuts (cs : List Char) (s : Scanned) : Prop := s.text ++ s.rest = cs

namespace Cuts

variable {cs text rest : List Char} {kind : TokenKind}

theorem valid (h : text ++ rest = cs) : (valid kind text rest).Cuts cs := h

theorem bad {cause : Flaw.Cause} (h : text ++ rest = cs) : (bad cause text rest).Cuts cs := h

theorem checked (h : text ++ rest = cs) : (checked kind text rest).Cuts cs := by
  unfold Scanned.checked
  split <;> exact h

theorem take_drop {kind : TokenKind} {flaws : List Flaw} (n : Nat) (cs : List Char) :
    Cuts cs ⟨kind, cs.take n, cs.drop n, flaws⟩ := List.take_append_drop n cs

theorem based (radix : Nat) (mark : String) (sign cs : List Char) :
    (based radix mark sign cs).Cuts (sign ++ mark.toList ++ cs) := by
  have htext : sign ++ mark.toList ++ cs.takeWhile (Numeral.isDigit radix) ++
      cs.dropWhile (Numeral.isDigit radix) = sign ++ mark.toList ++ cs := by
    rw [List.append_assoc (sign ++ mark.toList), List.takeWhile_append_dropWhile]
  simp only [Scanned.based]
  split
  · exact .bad htext
  · exact .checked htext

theorem decimal (sign cs : List Char) : (decimal sign cs).Cuts (sign ++ cs) := by
  have hdigits := List.takeWhile_append_dropWhile (p := Char.isDigit) (l := cs)
  simp only [Scanned.decimal]
  split
  · rename_i rest hrest
    rw [hrest] at hdigits
    split
    · exact .checked (by simp [hdigits])
    · split
      · exact .checked (by simp [hdigits])
      · exact .bad (by simp [hdigits])
  · rename_i rest hrest
    rw [hrest] at hdigits
    split
    · exact .checked (by simp [hdigits])
    · exact .checked (by simp [hdigits])
  · exact .checked (by simp)

theorem number (sign cs : List Char) : (number sign cs).Cuts (sign ++ cs) := by
  unfold Scanned.number
  split
  · simpa using based 16 "0x" sign _
  · simpa using based 2 "0b" sign _
  · exact .decimal sign cs

theorem letter (c : Char) (cs : List Char) : (letter c cs).Cuts (c :: cs) := by
  unfold Scanned.letter
  split
  · exact .valid rfl
  · exact .bad rfl

theorem string (cs : List Char) : (string cs).Cuts ('"' :: cs) := by
  unfold Scanned.string
  split <;> simp [Cuts]

theorem closeChar (cs : List Char) (n : Nat) (flaws : List Flaw) :
    (closeChar cs n flaws).Cuts ('\'' :: cs) := by
  have hcut := List.take_append_drop n cs
  unfold Scanned.closeChar
  split
  · rename_i rest hrest
    rw [hrest] at hcut
    simp [Cuts, hcut]
  · simp [Cuts]

theorem char (cs : List Char) : (char cs).Cuts ('\'' :: cs) := by
  unfold Scanned.char
  split
  · exact .bad rfl
  · exact .bad rfl
  · exact .bad rfl
  · exact .closeChar _ _ _
  · exact .closeChar _ _ _

theorem symbol (c : Char) (cs : List Char) : (symbol c cs).Cuts (c :: cs) := by
  unfold Scanned.symbol
  split
  · exact .take_drop _ _
  · exact .bad rfl

theorem next (signed : Bool) (cs : List Char) : (next signed cs).Cuts cs := by
  cases cs with
  | nil => rfl
  | cons c cs =>
      simp only [Scanned.next]
      split_ifs
      · exact .number [] _
      · exact .number [c] cs
      · exact .take_drop _ _
      · subst_vars
        exact .string cs
      · subst_vars
        exact .char cs
      · exact .symbol c cs
      · exact .letter c cs

end Cuts

end Scanned

/-! ## Spans -/

namespace Position

/-- A position counts the bytes, the line breaks and the characters of the last line before it. -/
theorem start_after (text : List Char) :
    start.after text = ⟨(String.ofList text).utf8ByteSize, 1 + text.count '\n',
      1 + (text.rtakeWhile (· ≠ '\n')).length⟩ := by
  induction text using List.reverseRecOn with
  | nil => rfl
  | append_singleton text c ih =>
      have hbytes : (String.ofList (text ++ [c])).utf8ByteSize =
          (String.ofList text).utf8ByteSize + c.utf8Size := by
        rw [String.ofList_append, String.utf8ByteSize_append, ← String.singleton_eq_ofList,
          String.utf8ByteSize_singleton]
      rw [after_append, ih, after_cons, after_nil, advance]
      split <;> simp_all [Nat.add_assoc]

end Position

namespace Span

variable {before covered : List Char} {s : Span}

/-- A span of `covered` behind `before`, with the line and the column of its first character. -/
structure Covers (before covered : List Char) (s : Span) : Prop where
  start : s.start = (String.ofList before).utf8ByteSize
  stop : s.stop = (String.ofList (before ++ covered)).utf8ByteSize
  line : s.line = 1 + before.count '\n'
  column : s.column = 1 + (before.rtakeWhile (· ≠ '\n')).length

theorem covers_between (before covered : List Char) :
    (between (.after .start before) (.after (.after .start before) covered)).Covers before
      covered := by
  rw [← Position.after_append]
  simp only [between, Position.start_after]
  exact ⟨rfl, rfl, rfl, rfl⟩

theorem utf8ByteSize_append (cs ds : List Char) : (String.ofList (cs ++ ds)).utf8ByteSize =
    (String.ofList cs).utf8ByteSize + (String.ofList ds).utf8ByteSize := by
  rw [String.ofList_append, String.utf8ByteSize_append]

theorem utf8ByteSize_cons (c : Char) (cs : List Char) : (String.ofList (c :: cs)).utf8ByteSize =
    c.utf8Size + (String.ofList cs).utf8ByteSize := by
  rw [← List.singleton_append, utf8ByteSize_append, ← String.singleton_eq_ofList,
    String.utf8ByteSize_singleton]

theorem dropBytes_append (cs ds : List Char) :
    dropBytes (String.ofList cs).utf8ByteSize (cs ++ ds) = some ds := by
  induction cs with
  | nil => simp [dropBytes]
  | cons c cs ih =>
      obtain ⟨n, hn⟩ := Nat.exists_eq_add_one.mpr c.utf8Size_pos
      have hsize : (String.ofList (c :: cs)).utf8ByteSize =
          n + (String.ofList cs).utf8ByteSize + 1 := by
        rw [utf8ByteSize_cons]
        omega
      rw [hsize, List.cons_append, dropBytes, if_pos (by omega), ← ih]
      congr 1
      omega

theorem takeBytes_append (cs ds : List Char) :
    takeBytes (String.ofList cs).utf8ByteSize (cs ++ ds) = some cs := by
  induction cs with
  | nil => simp [takeBytes]
  | cons c cs ih =>
      obtain ⟨n, hn⟩ := Nat.exists_eq_add_one.mpr c.utf8Size_pos
      have hsize : (String.ofList (c :: cs)).utf8ByteSize =
          n + (String.ofList cs).utf8ByteSize + 1 := by
        rw [utf8ByteSize_cons]
        omega
      have hleft : n + (String.ofList cs).utf8ByteSize + 1 - c.utf8Size =
          (String.ofList cs).utf8ByteSize := by omega
      rw [hsize, List.cons_append, takeBytes, if_pos (by omega), hleft, ih]
      rfl

/-- A span from the end of one text to the end of the next cuts out the second. -/
theorem text?_append (hstart : s.start = (String.ofList before).utf8ByteSize)
    (hstop : s.stop = (String.ofList (before ++ covered)).utf8ByteSize) (rest : List Char) :
    s.text? (before ++ covered ++ rest) = some covered := by
  have hlength : s.stop = s.start + (String.ofList covered).utf8ByteSize := by
    rw [hstop, hstart, utf8ByteSize_append]
  have hsize : s.stop - s.start = (String.ofList covered).utf8ByteSize := by omega
  rw [Span.text?, if_pos (by omega), hsize, hstart, List.append_assoc, dropBytes_append]
  exact takeBytes_append covered rest

namespace Covers

/-- What a span covers is the text that it cuts out of the source. -/
theorem text? (h : s.Covers before covered) (rest : List Char) :
    s.text? (before ++ covered ++ rest) = some covered := text?_append h.start h.stop rest

theorem start_lt_stop (h : s.Covers before covered) (hcovered : covered ≠ []) :
    s.start < s.stop := by
  obtain ⟨c, cs, rfl⟩ := List.exists_cons_of_ne_nil hcovered
  have := c.utf8Size_pos
  rw [h.start, h.stop, utf8ByteSize_append, utf8ByteSize_cons]
  omega

end Covers

/-- A span of some part of the source. -/
def Within (source : List Char) (s : Span) : Prop :=
  ∃ before covered rest, source = before ++ covered ++ rest ∧ s.Covers before covered

end Span

/-! ## Tiles -/

namespace Token

/-- A token at its place: behind `before` and what is skipped stands its lexeme, and the token
knows whether anything is skipped, which is said of the first token in any case. -/
structure At (before gap rest : List Char) (t : Token) : Prop where
  skipped : Gap.Trivia gap (t.lexeme.toList ++ rest)
  span : t.span.Covers (before ++ gap) t.lexeme.toList
  spaced : t.spaced = true ↔ before = [] ∨ gap ≠ []

/-- Tokens that tile the text `cs` behind `before`, the last of which marks the end. -/
inductive Tile : (before cs : List Char) → List Token → Prop where
  | eof {before cs gap t} (text : cs = gap) (place : t.At before gap []) (kind : t.kind = .eof)
      (lexeme : t.lexeme.toList = []) : Tile before cs [t]
  | cons {before cs gap rest t ts} (text : cs = gap ++ t.lexeme.toList ++ rest)
      (place : t.At before gap rest) (kind : t.kind ≠ .eof) (lexeme : t.lexeme.toList ≠ [])
      (more : Tile (before ++ gap ++ t.lexeme.toList) rest ts) : Tile before cs (t :: ts)

end Token

namespace Lexing

variable {before : List Char} {previous : Option TokenKind} {p : Position}

/-- The gap at the front of a text is skipped. -/
theorem trivia_atFront (cs : List Char) :
    cs = cs.take (Gap.atFront cs).length ++ (Gap.atFront cs).rest ∧
      Gap.Trivia (cs.take (Gap.atFront cs).length) (Gap.atFront cs).rest ∧
      ((Gap.atFront cs).length = 0 ↔ cs.take (Gap.atFront cs).length = []) := by
  obtain ⟨skipped, ⟨htext, hlength⟩, hskips⟩ := Gap.skips_scan .blanks 0 cs
  rw [← Gap.atFront] at htext hlength hskips
  have htake : cs.take (Gap.atFront cs).length = skipped := by
    conv_lhs => rw [hlength, Nat.zero_add, htext]
    exact List.take_left
  rw [htake, hlength, Nat.zero_add, List.length_eq_zero_iff]
  exact ⟨htext, hskips, .rfl⟩

/-- The token that is scanned behind the gap at the front of a text. -/
theorem at_scanned (cs : List Char) (hp : p = .after .start before)
    (hfirst : previous = none ↔ before = []) (signed : Bool) :
    ((Scanned.next signed (Gap.atFront cs).rest).toToken
        (p.after (cs.take (Gap.atFront cs).length))
        (previous.isNone || (Gap.atFront cs).length != 0)).At before
      (cs.take (Gap.atFront cs).length) (Scanned.next signed (Gap.atFront cs).rest).rest := by
  obtain ⟨-, htrivia, hempty⟩ := trivia_atFront cs
  constructor
  · rw [Scanned.toToken, String.toList_ofList, Scanned.Cuts.next]
    exact htrivia
  · rw [Scanned.toToken, String.toList_ofList, hp, ← Position.after_append]
    exact Span.covers_between _ _
  · rw [← hfirst, Ne, ← hempty]
    simp [Scanned.toToken]

/-- Cutting the text behind a token tiles it. -/
theorem tile_onward (previous : Option TokenKind) (p : Position) (cs : List Char) :
    ∀ before, p = .after .start before → (previous = none ↔ before = []) →
      Token.Tile before cs (onward previous p cs).tokens.toList := by
  fun_induction onward previous p cs with
  | case1 previous p cs gap _ p' hrest =>
      intro before hp hfirst
      obtain ⟨htext, -⟩ := trivia_atFront cs
      have hplace := at_scanned cs hp hfirst true
      rw [hrest, List.append_nil] at htext
      rw [hrest] at hplace
      exact .eof htext hplace rfl rfl
  | case2 previous p cs gap _ p' c rest hrest scanned token _ after ih =>
      intro before hp hfirst
      obtain ⟨htext, -⟩ := trivia_atFront cs
      have hplace := at_scanned cs hp hfirst (!previous.any TokenKind.endsOperand)
      have hcuts : scanned.text ++ scanned.rest = c :: rest := Scanned.Cuts.next _ _
      have hspelled : scanned.text ≠ [] := (Scanned.Spelled.next _ c rest).text
      have hlexeme : token.lexeme.toList = scanned.text := String.toList_ofList
      rw [hrest] at htext hplace
      refine .cons ?_ hplace (Scanned.kind_next_ne_eof _ c rest) (hlexeme ▸ hspelled) ?_
      · exact htext.trans (by rw [List.append_assoc, hlexeme, hcuts])
      · refine ih _ ?_ (by simp [hlexeme, hspelled])
        rw [hlexeme, Position.after_append, Position.after_append, ← hp]

/-- A flaw of a part of the source covers a part of the source. -/
theorem within_flaw (flaw : Flaw) (before text rest : List Char) :
    (flaw.toDiagnostic (.after .start before) text).span.Within (before ++ text ++ rest) := by
  refine ⟨before ++ text.take flaw.start, (text.drop flaw.start).take flaw.length,
    (text.drop flaw.start).drop flaw.length ++ rest, ?_, ?_⟩
  · conv_lhs => rw [← List.take_append_drop flaw.start text,
      ← List.take_append_drop flaw.length (text.drop flaw.start)]
    simp only [List.append_assoc]
  · rw [Flaw.toDiagnostic, ← Position.after_append]
    exact Span.covers_between _ _

theorem within_onward {d : Diagnostic} (previous : Option TokenKind) (p : Position)
    (cs : List Char) : ∀ before, p = .after .start before →
      d ∈ (onward previous p cs).diagnostics → d.span.Within (before ++ cs) := by
  have hgap (p : Position) (cs before : List Char) (hp : p = .after .start before)
      (hd : d ∈ gapDiagnostics (Gap.atFront cs) p cs) : d.span.Within (before ++ cs) := by
    rw [(trivia_atFront cs).1, ← List.append_assoc]
    unfold gapDiagnostics at hd
    split at hd
    · rw [List.mem_singleton.mp hd, hp]
      exact within_flaw _ _ _ _
    · nomatch hd
  fun_induction onward previous p cs with
  | case1 previous p cs => exact hgap p cs
  | case2 previous p cs gap _ p' c rest hrest scanned _ _ after ih =>
      intro before hp hd
      obtain ⟨htext, -⟩ := trivia_atFront cs
      have hcuts : scanned.text ++ scanned.rest = c :: rest := Scanned.Cuts.next _ _
      have hbehind : p' = .after .start (before ++ cs.take (Gap.atFront cs).length) := by
        rw [Position.after_append, ← hp]
      have hsource : before ++ cs = before ++ cs.take (Gap.atFront cs).length ++ scanned.text ++
          scanned.rest := by
        rw [hrest] at htext
        conv_lhs => rw [htext, ← hcuts]
        simp only [List.append_assoc]
      rw [List.mem_append, List.mem_append, List.mem_map] at hd
      rcases hd with (hd | ⟨flaw, -, rfl⟩) | hd
      · exact hgap p cs before hp hd
      · rw [hsource, hbehind]
        exact within_flaw flaw _ _ _
      · rw [hsource]
        exact ih _ (by rw [Position.after_append, ← hbehind]) hd

end Lexing

/-! ## The whole text -/

namespace Token.Tile

variable {before cs : List Char} {ts : List Token}

/-- What a token covers, behind `before`, is its lexeme. -/
theorem covers (h : Tile before cs ts) {t : Token} (ht : t ∈ ts) :
    ∃ front rest, before ++ cs = before ++ front ++ t.lexeme.toList ++ rest ∧
      t.span.Covers (before ++ front) t.lexeme.toList := by
  induction h with
  | @eof before cs gap u text place kind lexeme =>
      rw [List.mem_singleton.mp ht]
      exact ⟨gap, [], by simp [text, lexeme], place.span⟩
  | @cons before cs gap rest u ts text place kind lexeme more ih =>
      rcases List.mem_cons.mp ht with rfl | ht
      · exact ⟨gap, rest, by simp only [text, List.append_assoc], place.span⟩
      · obtain ⟨front, last, hsource, hspan⟩ := ih ht
        refine ⟨gap ++ u.lexeme.toList ++ front, last, ?_, ?_⟩
        · simpa only [text, List.append_assoc] using hsource
        · simpa only [List.append_assoc] using hspan

theorem apart (h : Tile before cs ts) : ts.Pairwise (·.span.stop ≤ ·.span.start) := by
  induction h with
  | eof => exact List.pairwise_singleton _ _
  | @cons before cs gap rest t ts text place kind lexeme more ih =>
      refine .cons (fun u hu => ?_) ih
      obtain ⟨front, -, -, hspan⟩ := more.covers hu
      rw [place.span.stop, hspan.start, Span.utf8ByteSize_append _ front]
      exact Nat.le_add_right _ _

theorem kind_lexeme {body : List Token} {eof : Token} (h : Tile before cs (body ++ [eof])) :
    (∀ t ∈ body, t.kind ≠ .eof ∧ t.lexeme.toList ≠ []) ∧
      eof.kind = .eof ∧ eof.span.start = (String.ofList (before ++ cs)).utf8ByteSize ∧
        eof.span.stop = eof.span.start := by
  induction body generalizing before cs with
  | nil =>
      cases h with
      | eof text place kind lexeme =>
          refine ⟨nofun, kind, text ▸ place.span.start, ?_⟩
          rw [place.span.stop, place.span.start, lexeme, List.append_nil]
      | cons text place kind lexeme more => nomatch more
  | cons t body ih =>
      have hne : body ++ [eof] ≠ [] := by simp
      rw [List.cons_append] at h
      generalize body ++ [eof] = ts at h hne ih
      cases h with
      | eof => exact (hne rfl).elim
      | cons text place kind lexeme more =>
          obtain ⟨hbody, heof, hstart, hstop⟩ := ih more
          refine ⟨List.forall_mem_cons.mpr ⟨⟨kind, lexeme⟩, hbody⟩, heof, ?_, hstop⟩
          rw [hstart, text]
          simp only [List.append_assoc]

end Token.Tile

namespace Lexing

/-- The tokens of a text tile it. -/
structure Tiles (source : String) (l : Lexing) : Prop where
  tile : Token.Tile [] source.toList l.tokens.toList
  /-- Only the last token marks the end of the text, and it stands there. -/
  eof : l.tokens.eof.kind = .eof ∧ l.tokens.eof.span.start = source.utf8ByteSize ∧
    l.tokens.eof.span.stop = source.utf8ByteSize
  body : ∀ t ∈ l.tokens.body, t.kind ≠ .eof ∧ t.span.start < t.span.stop
  /-- Spans begin and end between characters. -/
  lexeme : ∀ t ∈ l.tokens.toList, t.span.text? source.toList = some t.lexeme.toList
  apart : l.tokens.toList.Pairwise (·.span.stop ≤ ·.span.start)
  within : ∀ t ∈ l.tokens.toList, t.span.Within source.toList
  diagnostics : ∀ d ∈ l.diagnostics, d.span.Within source.toList

/-- The tokens of every text tile it, and the diagnostics about them say where they belong. -/
theorem tiles_ofText (source : String) : (ofText source).Tiles source := by
  have htile : Token.Tile [] source.toList (ofText source).tokens.toList :=
    tile_onward none .start _ [] rfl (by simp)
  obtain ⟨hbody, heof, hstart, hstop⟩ := htile.kind_lexeme
  rw [List.nil_append, String.ofList_toList] at hstart
  exact {
    tile := htile
    eof := ⟨heof, hstart, hstop.trans hstart⟩
    body := fun t ht => by
      obtain ⟨front, rest, -, hspan⟩ := htile.covers (List.mem_append_left _ ht)
      exact ⟨(hbody t ht).1, hspan.start_lt_stop (hbody t ht).2⟩
    lexeme := fun t ht => by
      obtain ⟨front, rest, hsource, hspan⟩ := htile.covers ht
      rw [List.nil_append, List.nil_append] at hsource
      rw [hsource]
      exact hspan.text? rest
    apart := htile.apart
    within := fun t ht => by
      obtain ⟨front, rest, hsource, hspan⟩ := htile.covers ht
      exact ⟨_, _, rest, hsource, hspan⟩
    diagnostics := fun d hd => within_onward none .start _ [] rfl hd }

end Lexing

end BendSyntax
