import BendSyntax.Proofs.Lexing.Enclosed
import BendSyntax.Proofs.Lexing.Excerpts

/-! No flaw of a text is silent: every malformed token is reported, and what is reported is found
in a malformed token or is a block comment that is left open. -/

namespace BendSyntax

/-! ## Comments that are left open -/

namespace Gap

variable {comment cs gap rest : List Char}

theorem closes_not_front {c : Char} (hopen : ¬['-', '\x7d'] <:+: c :: comment) :
    ∀ ds, c = '-' → comment = '\x7d' :: ds → False := by
  rintro ds rfl rfl
  exact hopen ⟨[], ds, rfl⟩

theorem scan_line (n : Nat) (hline : '\n' ∉ comment) (hend : ∀ c ∈ cs.head?, c = '\n') :
    scan .line n (comment ++ cs) = scan .blanks (n + comment.length) cs := by
  induction comment generalizing n with
  | nil =>
      cases cs with
      | nil => rfl
      | cons c cs =>
          obtain rfl : c = '\n' := hend c rfl
          simp [scan, isBlank]
  | cons c comment ih =>
      rw [List.mem_cons, not_or] at hline
      rw [List.cons_append, scan, if_neg (Ne.symm hline.1), ih _ hline.2, List.length_cons]
      congr 1
      omega

theorem scan_block (start n : Nat) (hopen : ¬['-', '\x7d'] <:+: comment) :
    scan (.block start) n (comment ++ '-' :: '\x7d' :: cs) =
      scan .blanks (n + comment.length + 2) cs := by
  induction comment generalizing n with
  | nil => rfl
  | cons c comment ih =>
      have hfront : ∀ ds, c = '-' → comment ++ '-' :: '\x7d' :: cs = '\x7d' :: ds → False := by
        intro ds hc hds
        cases comment with
        | nil => cases hds
        | cons d comment => exact closes_not_front hopen comment hc (by rw [(List.cons.inj hds).1])
      rw [List.cons_append, scan]
      · rw [ih _ fun h => hopen (h.trans (List.infix_cons List.infix_rfl)), List.length_cons]
        congr 1
        omega
      · exact hfront

/-- A comment that nothing closes takes the rest of the text. -/
theorem scan_open (start n : Nat) (hopen : ¬['-', '\x7d'] <:+: comment) :
    scan (.block start) n comment = ⟨n + comment.length, [], some start⟩ := by
  induction comment generalizing n with
  | nil => rfl
  | cons c comment ih =>
      rw [scan]
      · rw [ih _ fun h => hopen (h.trans (List.infix_cons List.infix_rfl)), List.length_cons]
        congr 1
        omega
      · exact closes_not_front hopen

theorem scan_blank {c : Char} (n : Nat) (hc : isBlank c = true) :
    scan .blanks n (c :: cs) = scan .blanks (n + 1) cs := by
  rw [scan]
  · rw [if_pos hc]
  · rintro ds rfl -
    cases hc

/-- What separates tokens is skipped in front of more text. -/
theorem scan_trivia (h : Trivia gap rest) (hrest : rest ≠ []) (n : Nat) :
    scan .blanks n (gap ++ rest) = scan .blanks (n + gap.length) rest := by
  induction h generalizing n with
  | nil => rfl
  | @blank c gap rest hc more ih =>
      rw [List.cons_append, scan_blank _ hc, ih hrest, List.length_cons]
      congr 1
      omega
  | @line comment gap rest hline hend more ih =>
      rw [List.append_assoc, List.cons_append, scan, if_neg (by decide), if_pos rfl,
        scan_line _ hline hend, ih hrest]
      · congr 1
        simp only [List.length_append, List.length_cons]
        omega
      · exact fun _ hmark => absurd hmark (by decide)
  | @block comment gap rest hopen more ih =>
      rw [List.append_assoc, List.cons_append, List.cons_append, scan, List.cons_append,
        List.cons_append, scan_block _ _ hopen, ih hrest]
      congr 1
      simp only [List.length_append, List.length_cons]
      omega
  | unclosed => exact (hrest rfl).elim

/-- A text that ends with a block comment behind `gap`, and nothing closes it. -/
structure LeftOpen (gap comment cs : List Char) : Prop where
  text : cs = gap ++ '\x7b' :: '-' :: comment
  skipped : Trivia gap ('\x7b' :: '-' :: comment)
  unclosed : ¬['-', '\x7d'] <:+: comment

theorem LeftOpen.atFront (h : LeftOpen gap comment cs) :
    Gap.atFront cs = ⟨cs.length, [], some gap.length⟩ := by
  rw [Gap.atFront, h.text, scan_trivia h.skipped (List.cons_ne_nil _ _), scan,
    scan_open _ _ h.unclosed]
  simp
  omega

/-- A gap in front of the end is closed, unless it ends with a comment that is left open. -/
theorem unclosed_or_leftOpen (h : Trivia gap []) (n : Nat) :
    (scan .blanks n gap).unclosed = none ∨ ∃ before comment, LeftOpen before comment gap := by
  generalize hrest : [] = rest at h
  induction h generalizing n with
  | nil => exact .inl rfl
  | @blank c gap rest hc more ih =>
      rw [scan_blank _ hc]
      refine (ih (n + 1) hrest).imp_right ?_
      rintro ⟨before, comment, htext, hskipped, hopen⟩
      exact ⟨c :: before, comment, congrArg (c :: ·) htext, .blank hc hskipped, hopen⟩
  | @line inner gap rest hline hend more ih =>
      subst hrest
      rw [List.append_nil] at hend
      rw [List.cons_append, scan, if_neg (by decide), if_pos rfl, scan_line _ hline hend]
      · refine (ih _ rfl).imp_right ?_
        rintro ⟨before, comment, rfl, hskipped, hopen⟩
        refine ⟨'#' :: inner ++ before, comment, ?_, .line hline hend hskipped, hopen⟩
        rw [List.append_assoc]
        rfl
      · exact fun _ hmark => absurd hmark (by decide)
  | @block inner gap rest hclose more ih =>
      rw [List.cons_append, List.cons_append, scan, scan_block _ _ hclose]
      refine (ih _ hrest).imp_right ?_
      rintro ⟨before, comment, rfl, hskipped, hopen⟩
      exact ⟨_, comment, by simp, .block hclose hskipped, hopen⟩
  | @unclosed comment hopen => exact .inr ⟨[], comment, rfl, .nil, hopen⟩

end Gap

/-! ## Spans -/

theorem Span.Covers.unique {before covered : List Char} {s t : Span} (hs : s.Covers before covered)
    (ht : t.Covers before covered) : s = t := by
  cases s
  cases t
  simp only [mk.injEq]
  exact ⟨hs.start.trans ht.start.symm, hs.stop.trans ht.stop.symm, hs.line.trans ht.line.symm,
    hs.column.trans ht.column.symm⟩

/-- A flaw is found inside the text that it is a flaw of. -/
theorem Flaw.contains_toDiagnostic (flaw : Flaw) (p : Position) (text : List Char) :
    (Span.between p (p.after text)).contains (flaw.toDiagnostic p text).span = true := by
  have hstop : ((p.after (text.take flaw.start)).after
      ((text.drop flaw.start).take flaw.length)).offset ≤ (p.after text).offset := by
    conv_rhs => rw [← List.take_append_drop flaw.start text,
      ← List.take_append_drop flaw.length (text.drop flaw.start), Position.after_append,
      Position.after_append]
    exact Position.offset_le_after _ _
  have hstart : p.offset ≤ (p.after (text.take flaw.start)).offset := Position.offset_le_after _ _
  simp [Span.contains, Span.between, toDiagnostic, hstart, hstop]

namespace Lexing

theorem le_endOf {n : Nat} {ts : List Token} (h : ∀ t ∈ ts, n ≤ t.span.stop) :
    n ≤ endOf n ts := by
  rw [endOf_eq]
  cases hlast : ts.getLast? with
  | none => exact Nat.le_refl n
  | some t => exact h t (List.mem_of_getLast? hlast)

/-- A block comment that is left open at the end of a text: it stands, behind what is skipped,
after the last of the tokens `ts` that follow `before`. -/
def OpenComment (before cs : List Char) (ts : List Token) (s : Span) : Prop :=
  ∃ front gap comment rest, cs = front ++ rest ∧
    (String.ofList (before ++ front)).utf8ByteSize =
      endOf (String.ofList before).utf8ByteSize ts ∧
    Gap.LeftOpen gap comment rest ∧
    s.Covers (before ++ front ++ gap) ('\x7b' :: '-' :: comment)

variable {before cut cs gap comment rest : List Char} {p : Position} {s : Span} {t : Token}
  {ts : List Token}

theorem openComment_cons (hstop : t.span.stop = (String.ofList (before ++ cut)).utf8ByteSize)
    (hts : ∀ u ∈ ts, t.span.stop ≤ u.span.stop) :
    OpenComment before (cut ++ rest) (t :: ts) s ↔ OpenComment (before ++ cut) rest ts s := by
  constructor
  · rintro ⟨front, gap, comment, cs, htext, hsize, hopen, hspan⟩
    rw [endOf, List.foldl_cons, ← endOf] at hsize
    have hle : (String.ofList cut).utf8ByteSize ≤ (String.ofList front).utf8ByteSize := by
      have hend := le_endOf hts
      rw [← hsize, hstop, Span.utf8ByteSize_append, Span.utf8ByteSize_append] at hend
      omega
    obtain ⟨more, rfl, rfl⟩ : ∃ more, front = cut ++ more ∧ rest = more ++ cs := by
      obtain h | ⟨more, rfl, rfl⟩ := List.append_eq_append_iff.mp htext
      · exact h
      · obtain rfl : more = [] := by
          by_contra hmore
          obtain ⟨c, more, rfl⟩ := List.exists_cons_of_ne_nil hmore
          have := c.utf8Size_pos
          rw [Span.utf8ByteSize_append, Span.utf8ByteSize_cons] at hle
          omega
        exact ⟨[], by simp, rfl⟩
    refine ⟨more, gap, comment, cs, rfl, ?_, hopen, ?_⟩
    · rw [List.append_assoc, hsize, hstop]
    · rwa [List.append_assoc before cut]
  · rintro ⟨front, gap, comment, cs, rfl, hsize, hopen, hspan⟩
    refine ⟨cut ++ front, gap, comment, cs, by simp, ?_, hopen, ?_⟩
    · rw [← List.append_assoc, hsize, ← hstop]
      rfl
    · rwa [← List.append_assoc before cut]

/-- What is reported about a comment that is left open. -/
theorem gapDiagnostics_of_leftOpen (h : Gap.LeftOpen gap comment cs)
    (hp : p = .after .start before) :
    ∃ d, gapDiagnostics (Gap.atFront cs) p cs = [d] ∧
      d.span.Covers (before ++ gap) ('\x7b' :: '-' :: comment) := by
  have hlength : cs.length - gap.length = ('\x7b' :: '-' :: comment).length := by
    rw [h.text, List.length_append]
    omega
  refine ⟨_, by rw [gapDiagnostics, h.atFront], ?_⟩
  rw [List.take_length, hlength, hp, Flaw.toDiagnostic, h.text, List.drop_left, List.take_left,
    List.take_length, ← Position.after_append]
  exact Span.covers_between _ _

/-- Malformed tokens, comments that are left open and what is reported, one by one. -/
structure Accounts (before cs : List Char) (l : Lexing) : Prop where
  malformed : ∀ t ∈ l.tokens.body, t.kind = .invalid →
    ∃ d ∈ l.diagnostics, t.span.contains d.span = true
  reported : ∀ d ∈ l.diagnostics,
    (∃ t ∈ l.tokens.body, t.kind = .invalid ∧ t.span.contains d.span = true) ∨
      OpenComment before cs l.tokens.body d.span
  leftOpen : ∀ s, OpenComment before cs l.tokens.body s → ∃ d ∈ l.diagnostics, d.span = s

theorem accounts_of_trivia (h : Gap.Trivia cs []) (hp : p = .after .start before) (eof : Token) :
    Accounts before cs ⟨⟨[], eof⟩, gapDiagnostics (Gap.atFront cs) p cs⟩ where
  malformed := nofun
  reported d hd := by
    refine .inr ?_
    obtain hnone | ⟨gap, comment, hopen⟩ := Gap.unclosed_or_leftOpen h 0
    · rw [gapDiagnostics, Gap.atFront, hnone] at hd
      cases hd
    · obtain ⟨d', hreport, hspan⟩ := gapDiagnostics_of_leftOpen hopen hp
      obtain rfl : d = d' := by simpa [hreport] using hd
      exact ⟨[], gap, comment, cs, rfl, by rw [List.append_nil]; rfl, hopen, by simpa using hspan⟩
  leftOpen s := by
    rintro ⟨front, gap, comment, rest, rfl, hsize, hopen, hspan⟩
    obtain rfl : front = [] := by
      by_contra hfront
      obtain ⟨c, front, rfl⟩ := List.exists_cons_of_ne_nil hfront
      have := c.utf8Size_pos
      rw [endOf, List.foldl_nil, Span.utf8ByteSize_append, Span.utf8ByteSize_cons] at hsize
      omega
    obtain ⟨d, hreport, hspan'⟩ := gapDiagnostics_of_leftOpen hopen hp
    rw [List.append_nil] at hspan
    rw [List.nil_append, hreport]
    exact ⟨d, List.mem_singleton_self d, hspan'.unique hspan⟩

/-- One token in front of others: what is reported about it are its flaws. -/
theorem Accounts.cons {scanned : Scanned} {spaced : Bool} {l : Lexing} (hfrank : scanned.Frank)
    (hp : p = .after .start (before ++ gap))
    (htile : Token.Tile (before ++ (gap ++ scanned.text)) rest l.tokens.toList)
    (h : Accounts (before ++ (gap ++ scanned.text)) rest l) :
    Accounts before (gap ++ scanned.text ++ rest)
      ⟨⟨scanned.toToken p spaced :: l.tokens.body, l.tokens.eof⟩,
        scanned.flaws.map (·.toDiagnostic p scanned.text) ++ l.diagnostics⟩ := by
  have hstop : (scanned.toToken p spaced).span.stop =
      (String.ofList (before ++ (gap ++ scanned.text))).utf8ByteSize := by
    change (p.after scanned.text).offset = _
    rw [hp, ← Position.after_append, Position.start_after, List.append_assoc]
  have hlater : ∀ u ∈ l.tokens.body, (scanned.toToken p spaced).span.stop ≤ u.span.stop := by
    intro u hu
    obtain ⟨front, -, -, hspan⟩ := htile.covers (List.mem_append_left _ hu)
    rw [hstop, hspan.stop, List.append_assoc _ front, Span.utf8ByteSize_append _ (front ++ _)]
    exact Nat.le_add_right _ _
  have hcontains (flaw : Flaw) : (scanned.toToken p spaced).span.contains
      (flaw.toDiagnostic p scanned.text).span = true := flaw.contains_toDiagnostic p _
  constructor
  · intro t ht hkind
    rcases List.mem_cons.mp ht with rfl | ht
    · obtain ⟨flaw, hflaw⟩ := List.exists_mem_of_ne_nil _ (hfrank.mp hkind)
      exact ⟨_, List.mem_append_left _ (List.mem_map_of_mem hflaw), hcontains flaw⟩
    · obtain ⟨d, hd, hinside⟩ := h.malformed t ht hkind
      exact ⟨d, List.mem_append_right _ hd, hinside⟩
  · intro d hd
    rcases List.mem_append.mp hd with hd | hd
    · obtain ⟨flaw, hflaw, rfl⟩ := List.mem_map.mp hd
      refine .inl ⟨_, List.mem_cons_self, hfrank.mpr (List.ne_nil_of_mem hflaw), hcontains flaw⟩
    · obtain ⟨t, ht, hinside⟩ | hopen := h.reported d hd
      · exact .inl ⟨t, List.mem_cons_of_mem _ ht, hinside⟩
      · exact .inr ((openComment_cons hstop hlater).mpr hopen)
  · intro s hs
    obtain ⟨d, hd, hspan⟩ := h.leftOpen s ((openComment_cons hstop hlater).mp hs)
    exact ⟨d, List.mem_append_right _ hd, hspan⟩

theorem accounts_onward (previous : Option TokenKind) (p : Position) (cs : List Char) :
    ∀ before, p = .after .start before → Accounts before cs (onward previous p cs) := by
  fun_induction onward previous p cs with
  | case1 previous p cs gap _ p' hrest =>
      intro before hp
      obtain ⟨htext, htrivia, -⟩ := trivia_atFront cs
      rw [hrest, List.append_nil] at htext
      rw [hrest, ← htext] at htrivia
      exact accounts_of_trivia htrivia hp _
  | case2 previous p cs gap gapReports p' c rest hrest scanned token reports after ih =>
      intro before hp
      obtain ⟨htext, -⟩ := trivia_atFront cs
      have hnone : gap.unclosed = none := Gap.unclosed_atFront hrest
      have hreports : reports = scanned.flaws.map (·.toDiagnostic p' scanned.text) := by
        simp only [reports, gapReports, gapDiagnostics, hnone, List.nil_append]
      have hcuts : scanned.text ++ scanned.rest = c :: rest := Scanned.Cuts.next _ _
      have hspelled : scanned.text ≠ [] := (Scanned.Spelled.next _ c rest).text
      have hbehind : p' = .after .start (before ++ cs.take gap.length) := by
        rw [Position.after_append, ← hp]
      have hafter : p'.after scanned.text =
          .after .start (before ++ (cs.take gap.length ++ scanned.text)) := by
        rw [← List.append_assoc, Position.after_append, ← hbehind]
      have hsource : cs = cs.take gap.length ++ scanned.text ++ scanned.rest := by
        rw [List.append_assoc, hcuts, ← hrest]
        exact htext
      have htile := tile_onward (some scanned.kind) _ scanned.rest _ hafter
        (by simp [hspelled])
      rw [hreports]
      conv => enter [2]; rw [hsource]
      exact .cons (.next _ _) hbehind htile (ih _ hafter)

/-- Nothing that is wrong with the tokens of a text is silent, and nothing else is reported. -/
structure Reported (source : String) (l : Lexing) : Prop where
  lexical : ∀ d ∈ l.diagnostics, d.kind = .lexical
  malformed : ∀ t ∈ l.tokens.toList, t.kind = .invalid →
    ∃ d ∈ l.diagnostics, t.span.contains d.span = true
  diagnostics : ∀ d ∈ l.diagnostics,
    (∃ t ∈ l.tokens.toList, t.kind = .invalid ∧ t.span.contains d.span = true) ∨
      OpenComment [] source.toList l.tokens.body d.span
  silent : l.diagnostics = [] ↔ (∀ t ∈ l.tokens.toList, t.kind ≠ .invalid) ∧
    ∀ s, ¬OpenComment [] source.toList l.tokens.body s

theorem mem_body_of_invalid {source : String} {t : Token}
    (ht : t ∈ (ofText source).tokens.toList) (hkind : t.kind = .invalid) :
    t ∈ (ofText source).tokens.body := by
  rcases List.mem_append.mp ht with ht | ht
  · exact ht
  · rw [List.mem_singleton.mp ht] at hkind
    rw [ofText, eof_kind_onward] at hkind
    cases hkind

/-- Every malformed token is reported, and what is reported is found inside a malformed token or
is a block comment that is left open at the end of the text. -/
theorem reported_ofText (source : String) : (ofText source).Reported source := by
  have haccounts : Accounts [] source.toList (ofText source) :=
    accounts_onward none .start source.toList [] rfl
  have hmalformed : ∀ t ∈ (ofText source).tokens.toList, t.kind = .invalid →
      ∃ d ∈ (ofText source).diagnostics, t.span.contains d.span = true := fun t ht hkind =>
    haccounts.malformed t (mem_body_of_invalid ht hkind) hkind
  have hdiagnostics : ∀ d ∈ (ofText source).diagnostics,
      (∃ t ∈ (ofText source).tokens.toList, t.kind = .invalid ∧ t.span.contains d.span = true) ∨
        OpenComment [] source.toList (ofText source).tokens.body d.span := fun d hd =>
    (haccounts.reported d hd).imp_left fun ⟨t, ht, hinside⟩ =>
      ⟨t, List.mem_append_left _ ht, hinside⟩
  refine ⟨fun d => kind_of_mem_onward, hmalformed, hdiagnostics, fun hnil => ⟨?_, ?_⟩, ?_⟩
  · intro t ht hkind
    obtain ⟨d, hd, -⟩ := hmalformed t ht hkind
    simp [hnil] at hd
  · intro s hs
    obtain ⟨d, hd, -⟩ := haccounts.leftOpen s hs
    simp [hnil] at hd
  · rintro ⟨hvalid, hclosed⟩
    by_contra hreports
    obtain ⟨d, hd⟩ := List.exists_mem_of_ne_nil _ hreports
    obtain ⟨t, ht, hkind, -⟩ | hopen := hdiagnostics d hd
    · exact hvalid t ht hkind
    · exact hclosed _ hopen

end Lexing

end BendSyntax
