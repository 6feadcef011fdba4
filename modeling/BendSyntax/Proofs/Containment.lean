import BendSyntax.Proofs.Dumps
import BendSyntax.Proofs.Integrity
import BendSyntax.Proofs.Shifted

/-! Damage is contained between items: when two texts are joined by a line break, the second of
which begins with an item, they are read as they are read alone, whatever is wrong with them.
The reading of the first text runs up to the second one as up to the end of a text, and from
there on the reading of the second text is repeated further on. -/

namespace BendSyntax

open Reading Grammar

/-- How many errors have been reported that are not about single tokens. -/
def complaints (ds : List Diagnostic) : Nat := ds.countP (·.kind ≠ .lexical)

theorem SyntaxError.complaints_cons (e : SyntaxError) (ds : List Diagnostic) :
    complaints (e.toDiagnostic :: ds) = complaints ds + 1 := by
  have hkind : decide (e.toDiagnostic.kind ≠ .lexical) = true := by cases e <;> rfl
  exact List.countP_cons_of_pos hkind

theorem complaints_of_lexical {ds : List Diagnostic} (h : ∀ d ∈ ds, d.kind = .lexical) :
    complaints ds = 0 :=
  List.countP_eq_zero.mpr fun d hd => by simp [h d hd]

namespace Lexing

/-- Whether the last token of a text is an `&`. -/
def endsInAmpersand (l : Lexing) : Prop :=
  l.tokens.body.getLast?.map Token.kind = some (.mark .ampersand)

/-- Whether behind the first token of a text `{,}:` follows, as behind the label of a case head. -/
def opensLabel (l : Lexing) : Prop :=
  ((l.tokens.body.map Token.kind).drop 1).take 4 =
    [.mark .leftBrace, .mark .comma, .mark .rightBrace, .mark .colon]

instance (l : Lexing) : Decidable l.endsInAmpersand := inferInstanceAs (Decidable (_ = _))

instance (l : Lexing) : Decidable l.opensLabel := inferInstanceAs (Decidable (_ = _))

/-- An item of another text, further on, may stand behind the tokens of a text. -/
theorem endsBefore_of_shifted {l : Lexing} {more : String} {k : Nat} {body : List Token}
    (hbody : List.Forall₂ (Token.Shifted k) (ofText more).tokens.body body)
    (hitem : (ofText more).opensItem = true)
    (hlabel : ¬(l.endsInAmpersand ∧ (ofText more).opensLabel)) :
    l.tokens.EndsBeforeItem body := by
  have hstarts : ∀ t ∈ body.head?, t.kind.startsItem = true := by
    intro t ht
    unfold opensItem at hitem
    generalize (ofText more).tokens.body = ts at hbody hitem
    cases hbody with
    | nil => cases hitem
    | @cons u v us vs huv hrest =>
        obtain rfl : v = t := by simpa using ht
        rw [huv.kind]
        simpa using hitem
  refine ⟨⟨fun t ht => TokenKind.endsText_of_startsItem (hstarts t ht), fun ⟨t, ht, hparen⟩ => ?_,
    fun hlast hhead => ?_⟩, hstarts⟩
  · have hkind := hstarts t ht
    rw [hparen] at hkind
    cases hkind
  · have hkinds : (ofText more).tokens.body.map Token.kind = body.map Token.kind :=
      map_eq_of_forall₂ hbody fun _ _ h => h.kind.symm
    exact hlabel ⟨hlast, by rw [opensLabel, hkinds, hhead]⟩

end Lexing

namespace Tree.Within

variable {t u v : Tree} {m n : Nat}

/-- What is contained in a tree is contained in a tree that has grown from it. -/
theorem grow (h : t.Within u m n) (hterms : u.terms.toList <+: v.terms.toList)
    (hpatterns : u.patterns.toList <+: v.patterns.toList) : t.Within v m n := by
  obtain ⟨⟨front, mid, back, hu, hm, hmid⟩, ⟨front', mid', back', hu', hn, hmid'⟩⟩ := h
  obtain ⟨more, hmore⟩ := hterms
  obtain ⟨more', hmore'⟩ := hpatterns
  refine ⟨⟨front, mid, back ++ more, ?_, hm, hmid⟩, ⟨front', mid', back' ++ more', ?_, hn, hmid'⟩⟩
  · rw [← hmore, hu, List.append_assoc]
  · rw [← hmore', hu', List.append_assoc]

end Tree.Within

namespace Comparison

theorem complaints_eq {C : Correspondence} {ds es : List Diagnostic}
    (h : List.Forall₂ C.reports ds es) : complaints ds = complaints es := by
  induction h with
  | nil => rfl
  | cons hde _ ih =>
      obtain ⟨a, b, -, rfl, rfl⟩ := hde
      rw [a.complaints_cons, b.complaints_cons, ih]

section Further

variable {ts : Tokens} {config config' : Config} {diagnostics diagnostics' : Array Diagnostic} {k n : Nat}
  {tail : List Token} {tree : Tree} {s t : Session}

theorem further_terms : (further ts config config' diagnostics k n tail tree diagnostics').terms =
    fun a b => b.index = tree.terms.size + a.index := by
  funext a b
  apply propext
  constructor
  · rintro ⟨i, ha, hb⟩
    simp_all [further, Tree.empty]
  · intro hb
    exact ⟨a.index, by simp [further, Tree.empty], hb⟩

theorem further_patterns : (further ts config config' diagnostics k n tail tree diagnostics').patterns =
    fun p q => q.index = tree.patterns.size + p.index := by
  funext p q
  apply propext
  constructor
  · rintro ⟨i, hp, hq⟩
    simp_all [further, Tree.empty]
  · intro hq
    exact ⟨p.index, by simp [further, Tree.empty], hq⟩

variable (h : (further ts config config' diagnostics k n tail tree diagnostics').Sessions s t)

include h

/-- What one run has built stands in the tree of the other one behind what was there. -/
theorem further_within : s.tree.Within t.tree tree.terms.size tree.patterns.size := by
  obtain ⟨nodes, nodes', hs, ht, hnodes⟩ := h.terms
  obtain ⟨patterns, patterns', hs', ht', hpatterns⟩ := h.patterns
  have hs : s.tree.terms.toList = nodes := by simpa [further, Tree.empty] using hs
  have hs' : s.tree.patterns.toList = patterns := by simpa [further, Tree.empty] using hs'
  have ht : t.tree.terms.toList = tree.terms.toList ++ nodes' := ht
  have ht' : t.tree.patterns.toList = tree.patterns.toList ++ patterns' := ht'
  refine ⟨⟨_, nodes', [], by simpa using ht, rfl, ?_⟩, ⟨_, patterns', [], by simpa using ht', rfl, ?_⟩⟩
  · rw [hs]
    refine hnodes.imp fun x y hxy => ?_
    have hterm := hxy.term
    rw [further_terms, further_patterns] at hterm
    exact hterm
  · rw [hs']
    refine hpatterns.imp fun x y hxy => ?_
    have hpattern := hxy.pattern
    rw [further_patterns] at hpattern
    exact hpattern

/-- Both runs have complained equally often. -/
theorem further_complaints (hlexical : ∀ d ∈ diagnostics.toList, d.kind = .lexical) :
    complaints t.diagnostics.toList =
      complaints diagnostics'.toList + complaints s.diagnostics.toList := by
  obtain ⟨reports, reports', hs, ht, hreports⟩ := h.diagnostics
  have hs : s.diagnostics.toList = diagnostics.toList ++ reports := hs
  have ht : t.diagnostics.toList = diagnostics'.toList ++ reports' := ht
  have hcount := complaints_eq hreports
  have hnone := complaints_of_lexical hlexical
  unfold complaints at *
  rw [hs, ht, List.countP_append, List.countP_append]
  omega

omit h

/-! ## Rounds -/

/-- Up to the end of its text one run does what the other one does further on. -/
theorem runLoop_items (htail : ts.EndsBeforeItem tail) (hrecover : config.recover = true)
    (depth : Nat) (slot : Slot)
    {as bs is js : Array (Item TermId)}
    (hst : (further ts config config diagnostics k n tail tree diagnostics').Sessions s t)
    (his : Grown (Item.Alike (fun _ _ => True)
      (further ts config config diagnostics k n tail tree diagnostics').terms) as bs is js) :
    ∃ is' s' js' t', runLoop (itemRound (nested depth)) ⟨config, true, slot⟩ is s = .ok is' s' ∧
      s'.cursor.kind = .eof ∧
      runLoop (itemRound (nested depth)) ⟨config, true, slot⟩ js t =
        runLoop (itemRound (nested depth)) ⟨config, true, slot⟩ js' t' ∧
      (further ts config config diagnostics k n tail tree diagnostics').Sessions s' t' ∧
      Grown (Item.Alike (fun _ _ => True)
        (further ts config config diagnostics k n tail tree diagnostics').terms) as bs is' js' := by
  have hlawful : (further ts config config diagnostics k n tail tree diagnostics').Lawful :=
    further_lawful htail.toEndsBefore
  induction hm : s.cursor.remaining using Nat.strongRecOn generalizing is js s t with
  | _ m ih =>
      by_cases hkind : s.cursor.kind = .eof
      · exact ⟨is, s, js, t, runLoop_done (itemRound_done hkind is), hkind, rfl, hst, his⟩
      · obtain ⟨item, s₁, hround, hlt⟩ := itemRound_more ⟨config, true, slot⟩
          (hst.cursor.1.rest_ne_nil hkind) hkind hrecover depth is
        have hagree : ((further ts config config diagnostics k n tail tree diagnostics').beyond
            fun _ _ => False).Outcomes _ ((itemRound (nested depth) is).run ⟨config, true, slot⟩ s)
              ((itemRound (nested depth) js).run ⟨config, true, slot⟩ t) :=
          agree_itemRound (further_levels htail.toEndsBefore depth) (further_reporting rfl htail) hst.cursor
            hkind his slot slot s t ⟨rfl, rfl⟩ hst rfl rfl
        rw [hround] at hagree
        generalize hp : (itemRound (nested depth) js).run ⟨config, true, slot⟩ t = p at hagree
        cases hagree with
        | @ok _ _ _ t₁ hitems hnow =>
            cases hitems with
            | @more _ js₁ hitems =>
                have hlt' := (hlawful.remaining hst.cursor hnow.cursor).mp hlt
                rw [runLoop_more hround hlt, runLoop_more hp hlt']
                exact ih _ (hm ▸ hlt) hnow hitems rfl
        | rightTooDeep hx => exact hx.elim
        | void hv => exact hv.elim

/-- If nothing stands behind, both runs come to their end. -/
theorem runLoop_last (hrecover : config.recover = true) (hkinds : ∀ u ∈ ts.body, u.kind ≠ .eof)
    (depth : Nat) (slot : Slot) {as bs is js : Array (Item TermId)}
    (hst : (further ts config config diagnostics k n [] tree diagnostics').Sessions s t)
    (his : Grown (Item.Alike (fun _ _ => True)
      (further ts config config diagnostics k n [] tree diagnostics').terms) as bs is js) :
    ∃ is' s' js' t', runLoop (itemRound (nested depth)) ⟨config, true, slot⟩ is s = .ok is' s' ∧
      runLoop (itemRound (nested depth)) ⟨config, true, slot⟩ js t = .ok js' t' ∧
      (further ts config config diagnostics k n [] tree diagnostics').Sessions s' t' ∧
      Grown (Item.Alike (fun _ _ => True)
        (further ts config config diagnostics k n [] tree diagnostics').terms) as bs is' js' := by
  have htail : ts.EndsBeforeItem [] := ⟨ts.endsBefore_nil, by simp⟩
  obtain ⟨is', s', js', t', hleft, hkind, hright, hst', his'⟩ :=
    runLoop_items htail hrecover depth slot hst his
  have hrest := hst'.cursor.1.rest_eq_nil hkinds hkind
  have hkind' : t'.cursor.kind = .eof := by
    simpa [hrest, Cursor.kindAt] using hst'.cursor.2.kindAt_length hst'.cursor.1
  exact ⟨is', s', js', t', hleft, hright.trans (runLoop_done (itemRound_done hkind' js')), hst',
    his'⟩

end Further

end Comparison

/-! ## Joined texts -/

section Joined

variable {config : Config} {source more : String} {k : Nat} {body : List Token}

/-- In front of a joined text both runs are at the beginning of the same tokens. -/
theorem further_initial (hbody : (Lexing.ofText (source ++ "\n" ++ more)).tokens.body =
      (Lexing.ofText source).tokens.body ++ body) :
    (Comparison.further (Lexing.ofText source).tokens config config
      (Lexing.ofText source).diagnostics.toArray 0 0 body .empty
      (Lexing.ofText (source ++ "\n" ++ more)).diagnostics.toArray).Sessions
        (initial (Lexing.ofText source)) (initial (Lexing.ofText (source ++ "\n" ++ more))) where
  cursor := by
    refine ⟨.start (Lexing.eof_kind_onward _ _ _), ⟨_, hbody, ?_⟩, rfl, rfl,
      Lexing.eof_kind_onward _ _ _⟩
    exact List.forall₂_same.mpr fun t _ => ⟨rfl, rfl, rfl, rfl, rfl⟩
  terms := .start _ _ _
  patterns := .start _ _ _
  diagnostics := .start _ _ _
  failures := ⟨fun _ _ _ _ => rfl, nofun⟩

/-- Behind the first text the other run is at the beginning of the tokens of the second. -/
theorem further_behind {s t : Session} {diagnostics : Array Diagnostic}
    (hbody : List.Forall₂ (Token.Shifted k) (Lexing.ofText more).tokens.body body)
    (hkinds : ∀ u ∈ (Lexing.ofText source).tokens.body, u.kind ≠ .eof)
    (hkind : s.cursor.kind = .eof)
    (h : (Comparison.further (Lexing.ofText source).tokens config config
      (Lexing.ofText source).diagnostics.toArray 0 0 body .empty diagnostics).Sessions s t) :
    (Comparison.further (Lexing.ofText more).tokens config config
      (Lexing.ofText more).diagnostics.toArray k t.cursor.index [] t.tree t.diagnostics).Sessions
        (initial (Lexing.ofText more)) t := by
  obtain ⟨hon, ⟨rest, hrest, hshift⟩, hindex, hsplit, heof⟩ := h.cursor
  have hend : s.cursor.rest = [] := hon.rest_eq_nil hkinds hkind
  have hlength : (Lexing.ofText source).tokens.body.length ≤ t.cursor.index := by
    have hdrop := hon.rest
    rw [hend, eq_comm, List.drop_eq_nil_iff] at hdrop
    omega
  have hnone (i : Nat) (what : Attempt) (slot : Slot) : t.failures.any
      (⟨i + t.cursor.index, what, slot⟩ : Failure).matches = false := by
    refine List.any_eq_false.mpr fun f hf hmatches => ?_
    have hbound := h.failures.bound f hf
    have hsame : i + t.cursor.index = f.index := by
      simp only [Failure.matches, Bool.and_eq_true, decide_eq_true_eq] at hmatches
      exact hmatches.1
    omega
  rw [hend, List.forall₂_nil_left_iff] at hshift
  exact {
    cursor := ⟨.start (Lexing.eof_kind_onward _ _ _), ⟨body, by simp [hrest, hshift], hbody⟩,
      by simp [initial, Cursor.start], by simp [hsplit, hon.split_of_rest hend, initial, Cursor.start],
      heof⟩
    terms := .start _ _ _
    patterns := .start _ _ _
    diagnostics := .start _ _ _
    failures := ⟨fun i what slot slot' => hnone i what slot', fun f hf => by
      have := h.failures.bound f hf
      omega⟩ }

/-- Whatever is wrong with two texts, a text joined of them has the items of both and as many
complaints as both, if the second begins with an item. Only an item that looks like `&label{,}:`
together with an `&` in front of it is not told apart from a case head. -/
theorem read_append_break (hrecover : config.recover = true)
    (hclosed : (Lexing.ofText source).Closed) (hitem : (Lexing.ofText more).opensItem = true)
    (hlabel : ¬((Lexing.ofText source).endsInAmpersand ∧ (Lexing.ofText more).opensLabel)) :
    (Program.ofText (source ++ "\n" ++ more) config).program.itemDumps =
        (Program.ofText source config).program.itemDumps ++
          (Program.ofText more config).program.itemDumps ∧
      complaints (Program.ofText (source ++ "\n" ++ more) config).diagnostics =
        complaints (Program.ofText source config).diagnostics +
          complaints (Program.ofText more config).diagnostics := by
  obtain ⟨k, body, hbody, hshift⟩ := Lexing.body_ofText_append hclosed hitem
  have hkinds : ∀ u ∈ (Lexing.ofText source).tokens.body, u.kind ≠ .eof :=
    fun _ => Lexing.kind_of_mem_body
  have hlexical (text : String) :
      ∀ d ∈ (Lexing.ofText text).diagnostics.toArray.toList, d.kind = .lexical :=
    fun _ hd => Lexing.kind_of_mem_onward hd
  -- The first text, alone and in front of the second.
  obtain ⟨is, s, js, t, hsource, hend, hjoined, hst, his⟩ :=
    Comparison.runLoop_items (Lexing.endsBefore_of_shifted hshift hitem hlabel) hrecover
      config.maxDepth (.free .term) (further_initial hbody) (.start _ #[] #[])
  -- The second text, alone and behind the first.
  have hmore := further_behind hshift hkinds hend hst
  obtain ⟨ks, u, ls, v, hrun, hrun', huv, hks⟩ := Comparison.runLoop_last hrecover
    (fun _ => Lexing.kind_of_mem_body) config.maxDepth (.free .term) hmore (.start _ #[] js)
  rw [← hjoined] at hrun'
  unfold Program.ofText
  rw [Program.read_of_runLoop hsource, Program.read_of_runLoop hrun, Program.read_of_runLoop hrun']
  constructor
  · have hforest := Program.read_forest hrecover true source
    have hforest' := Program.read_forest hrecover true more
    rw [Program.read_of_runLoop hsource] at hforest
    rw [Program.read_of_runLoop hrun] at hforest'
    obtain ⟨is', js', his', hjs, halike⟩ := his
    obtain ⟨ks', ls', hks', hls, halike'⟩ := hks
    rw [Array.toList_empty, List.nil_append] at his' hjs hks'
    subst his' hjs hks'
    rw [Comparison.further_terms] at halike halike'
    have hfront : s.tree.Within v.tree 0 0 := by
      obtain ⟨nodes, nodes', -, hnodes, -⟩ := huv.terms
      obtain ⟨patterns, patterns', -, hpatterns, -⟩ := huv.patterns
      exact (Comparison.further_within hst).grow ⟨nodes', hnodes.symm⟩ ⟨patterns', hpatterns.symm⟩
    have hback := Comparison.further_within huv
    have hdumps := hfront.itemDumps hforest halike
    have hdumps' := hback.itemDumps hforest' halike'
    unfold Program.itemDumps at *
    rw [hls, List.map_append]
    exact congrArg₂ _ hdumps hdumps'
  · have hfirst := Comparison.further_complaints hst (hlexical source)
    have hsecond := Comparison.further_complaints huv (hlexical more)
    have hnone := complaints_of_lexical (hlexical (source ++ "\n" ++ more))
    dsimp only at *
    omega

set_option maxRecDepth 100000 in
theorem read_append_break_broken :
    (Program.ofText ("def f : λ\x7bFalse: (x" ++ "\n" ++ "type T : def g : x")
          .standard).program.itemDumps =
        (Program.ofText "def f : λ\x7bFalse: (x" .standard).program.itemDumps ++
          (Program.ofText "type T : def g : x" .standard).program.itemDumps ∧
      complaints (Program.ofText ("def f : λ\x7bFalse: (x" ++ "\n" ++ "type T : def g : x")
          .standard).diagnostics =
        complaints (Program.ofText "def f : λ\x7bFalse: (x" .standard).diagnostics +
          complaints (Program.ofText "type T : def g : x" .standard).diagnostics :=
  read_append_break rfl (by decide +kernel) (by decide +kernel) (by decide +kernel)

set_option maxRecDepth 100000 in
/-- Alone the first text meets the depth limit behind its `&`; joined with the second, it ends
in what looks like a case head, which is read without going as deep. -/
theorem read_append_break_label :
    let source := "def f : " ++ String.ofList (List.replicate 253 '(') ++ "λ\x7b&"
    let more := "def\x7b,\x7d: x"
    ((Lexing.ofText source).Closed ∧ (Lexing.ofText more).opensItem = true ∧
      (Lexing.ofText source).endsInAmpersand ∧ (Lexing.ofText more).opensLabel) ∧
    (Program.ofText source .standard).program.itemDumps = ["<error>"] ∧
    (Program.ofText more .standard).program.itemDumps = ["<error>"] ∧
    (Program.ofText (source ++ "\n" ++ more) .standard).program.itemDumps =
      ["(def f <error>)", "<error>"] := by
  decide +kernel

end Joined

end BendSyntax
