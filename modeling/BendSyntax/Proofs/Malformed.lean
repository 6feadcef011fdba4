import BendSyntax.Proofs.Lexing.Decoded
import BendSyntax.Proofs.Results

/-! Every literal that the lexer takes from a text has a value, so the grammar never finds one
malformed. A run is compared with itself; of the errors that correspond none is about such a
literal. -/

namespace BendSyntax

open Reading Grammar

/-- Whether an error says that a literal is malformed, be it as the last failure of an ambiguity. -/
def SyntaxError.saysMalformed : SyntaxError → Bool
  | expected _ _ _ => false
  | invalid _ _ => true
  | ambiguous _ _ last _ => last.saysMalformed
  | tooDeep _ _ => false

theorem SyntaxError.saysMalformed_noDefinition {e : SyntaxError} (h : e.saysMalformed = false) :
    (noDefinition e).saysMalformed = false := by
  unfold noDefinition
  split <;> exact h

/-! ## A run beside itself -/

theorem Cursor.On.token_mem {ts : Tokens} {c : Cursor} (h : c.On ts) : c.token ∈ ts.toList := by
  unfold token
  split
  · rename_i t rest hrest
    rw [h.rest] at hrest
    exact List.mem_append_left _ (List.mem_of_mem_drop (hrest ▸ List.mem_cons_self))
  · rw [h.eof]
    exact List.mem_append_right _ (List.mem_singleton_self _)

theorem Cursor.token_kind_of_isLiteral {c : Cursor} (h : isLiteral c.kind = true) :
    c.token.kind = c.kind := by
  unfold Cursor.kind at h ⊢
  split at h
  · nomatch h
  · rw [if_neg ‹_›]

namespace Comparison

/-- A run on a text beside the same run, where no error is about a malformed literal. -/
def decoding (source : String) (config : Config) : Comparison :=
  let l := Lexing.ofText source
  { sameText l.tokens ⟨config, true, .empty, l.diagnostics.toArray⟩
      ⟨config, true, .empty, l.diagnostics.toArray⟩ Eq Eq Eq False False fun _ _ => False with
    errors := fun e f => e = f ∧ e.saysMalformed = false }

variable {source : String} {config : Config}

instance : (decoding source config).Lawful :=
  have h := @sameText_lawful (Lexing.ofText source).tokens
    ⟨config, true, .empty, (Lexing.ofText source).diagnostics.toArray⟩
    ⟨config, true, .empty, (Lexing.ofText source).diagnostics.toArray⟩ Eq Eq Eq False False
    (fun _ _ => False) (fun _ => rfl) (fun h h' => by rw [h, h']) (fun h => by rw [h])
    (fun _ => rfl) fun h _ _ => h.elim
  { h with
    errors_fatal := fun he => by rw [he.1]
    expected := fun what hcd => ⟨h.expected what hcd, rfl⟩
    invalid := fun message hcd hliteral hnone => by
      obtain ⟨value, hvalue, -⟩ := Lexing.decoded_of_mem hcd.1.token_mem
        (Cursor.token_kind_of_isLiteral hliteral ▸ hliteral)
      simp [hnone] at hvalue
    noDefinition := fun he => ⟨congrArg _ he.1, SyntaxError.saysMalformed_noDefinition he.2⟩ }

instance : (decoding source config).Retractable := ⟨fun h _ => h.elim, fun h _ => h.elim⟩

instance : (decoding source config).Recalling :=
  have h := @sameText_recalling (Lexing.ofText source).tokens
    ⟨config, true, .empty, (Lexing.ofText source).diagnostics.toArray⟩
    ⟨config, true, .empty, (Lexing.ofText source).diagnostics.toArray⟩ Eq False False
    (fun _ _ => False) rfl
  ⟨h.known, fun what hcd hne hslot => h.remember what hcd hne ⟨hslot.flags, hslot.usage⟩⟩

theorem decoding_levels (d : Nat) : (decoding source config).Levels (nested d) (nested d) := by
  induction d with
  | zero => exact fun g => agrees_refuse fun hcd => ⟨congrArg _ hcd.2.1.span, rfl⟩
  | succ d ih => exact agrees_produce ih.supports

theorem decoding_reporting : (decoding source config).Reporting fun _ _ => False where
  recover := rfl
  startsItem h := by rw [h.2.1.kind]
  of_void h := h
  onward h _ _ := h
  leftDiscard _ h := h
  rightDiscard _ h := h
  leftReport _ _ hx _ := hx.elim
  rightReport _ _ hx _ := hx.elim

theorem decoding_initial : (decoding source config).Sessions (initial (Lexing.ofText source))
    (initial (Lexing.ofText source)) :=
  ⟨⟨.start (Lexing.eof_kind_onward _ _ _), ⟨rfl, rfl, rfl, rfl⟩, rfl⟩, .start _ _ _, .start _ _ _,
    .start _ _ _, rfl⟩

end Comparison

/-! ## What is reported -/

/-- What is reported about a text is found by the lexer, or the grammar reports it about something
else than a malformed literal. -/
def Diagnostic.Plain (source : String) (d : Diagnostic) : Prop :=
  d ∈ (Lexing.ofText source).diagnostics ∨
    ∃ e : SyntaxError, e.saysMalformed = false ∧ d = e.toDiagnostic

namespace Comparison

variable {source : String} {config : Config} {α : Type} {Q : α → α → Prop}

theorem decoding_plain {o p : Outcome α} (h : (decoding source config).Outcomes Q o p) :
    ∀ d ∈ o.reports.toList, d.Plain source := by
  have hsession {s t : Session} (hst : (decoding source config).Sessions s t) :
      ∀ d ∈ s.diagnostics.toList, d.Plain source := by
    obtain ⟨k, l, hs, -, hkl⟩ := hst.diagnostics
    intro d hd
    rw [hs, List.mem_append] at hd
    rcases hd with hd | hd
    · exact .inl (by simpa [decoding, sameText] using hd)
    · obtain ⟨i, hi, rfl⟩ := List.getElem_of_mem hd
      obtain ⟨e, f, he, hd, -⟩ := hkl.get hi (hkl.length_eq ▸ hi)
      exact .inr ⟨e, he.2, hd⟩
  cases h with
  | ok _ hst => exact hsession hst
  | error he hst =>
      intro d hd
      rw [Outcome.reports, Array.toList_push, List.mem_append, List.mem_singleton] at hd
      rcases hd with hd | rfl
      · exact hsession hst d hd
      · exact .inr ⟨_, he.2, rfl⟩
  | leftTooDeep hx _ => exact hx.elim
  | rightTooDeep hx _ => exact hx.elim
  | void hv => exact hv.elim

end Comparison

section Readers

variable (source : String) (config : Config)

theorem Program.plain_of_mem {d : Diagnostic}
    (hd : d ∈ (Program.ofText source config).diagnostics) : d.Plain source := by
  have hinitial := @Comparison.decoding_initial source config
  have hrun := Comparison.agrees_sourceFile (Comparison.decoding_levels config.maxDepth)
    Comparison.decoding_reporting (fun c d hcd hc => hcd.2.1.kind ▸ hc)
    _ _ hinitial.cursor (.free .term) (.free .term) _ _ ⟨rfl, rfl⟩ hinitial rfl rfl
  rw [ofText, read_eq, Outcome.diagnostics_report] at hd
  exact Comparison.decoding_plain hrun d hd

theorem Expression.plain_of_mem {ds : List Diagnostic} {d : Diagnostic}
    (hds : Expression.ofText source config = .error ds) (hd : d ∈ ds) : d.Plain source := by
  have hinitial := @Comparison.decoding_initial source config
  have hrun := Comparison.agrees_wholeStatement (Comparison.decoding_levels config.maxDepth)
    (fun c d hcd => by rw [hcd.2.1.kind])
    _ _ hinitial.cursor (.free .term) (.free .term) _ _ ⟨rfl, rfl⟩ hinitial rfl rfl
  rw [ofText, read_eq] at hds
  exact Comparison.decoding_plain hrun d
    (Array.mem_toList_iff.mpr (Outcome.mem_reports_of_expression hds hd))

end Readers

/-- A message that something else was expected is no message about a malformed literal. -/
theorem expected_ne_malformed (what found name : String) :
    s!"expected {what}, found {found}" ≠ s!"malformed {name}" := by
  intro h
  have hchars := congrArg String.toList h
  simp only [toString, String.toList_append, List.append_assoc] at hchars
  exact absurd (congrArg List.head? hchars) (by simp)

theorem Diagnostic.Plain.message {source : String} {d : Diagnostic} (h : d.Plain source)
    (hkind : d.kind = .syntactic) (kind : TokenKind) : d.message ≠ s!"malformed {kind.name}" := by
  rcases h with h | ⟨e, he, rfl⟩
  · rw [Lexing.kind_of_mem_onward h] at hkind
    nomatch hkind
  · cases e with
    | expected what found span => exact expected_ne_malformed what found kind.name
    | invalid => nomatch he
    | ambiguous => nomatch hkind
    | tooDeep => nomatch hkind

/-- Literals are decoded as they were cut, and none is found malformed. -/
structure LiteralsDecoded (source : String) (config : Config) : Prop where
  /-- Every token of a literal has a value that belongs to its kind. -/
  value : ∀ t ∈ (Lexing.ofText source).tokens.toList, isLiteral t.kind = true →
    ∃ value, t.literal? = some value ∧ value.kind = t.kind
  nat : ∀ t ∈ (Lexing.ofText source).tokens.toList, t.kind = .nat →
    ∃ n, Literal.nat? t.lexeme.toList = some n ∧ t.literal? = some (.nat n)
  program : ∀ d ∈ (Program.ofText source config).diagnostics, d.Plain source
  expression : ∀ ds, Expression.ofText source config = .error ds → ∀ d ∈ ds, d.Plain source
  /-- No message says that a literal is malformed. -/
  message : ∀ d : Diagnostic, d.Plain source → d.kind = .syntactic →
    ∀ kind : TokenKind, d.message ≠ s!"malformed {kind.name}"

/-- Whatever the lexer takes for a literal the grammar can decode, in every text and under every
configuration. -/
theorem literals_decoded (source : String) (config : Config) : LiteralsDecoded source config where
  value _ ht := Lexing.decoded_of_mem ht
  nat _ ht := (Lexing.decoded_of_mem ht).nat
  program _ hd := Program.plain_of_mem source config hd
  expression _ hds _ hd := Expression.plain_of_mem source config hds hd
  message _ hd := hd.message

end BendSyntax
