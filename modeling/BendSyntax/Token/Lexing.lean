import BendSyntax.Token.Gap
import BendSyntax.Token.Progress

/-!
# The tokens of a text

`Lexing.ofText` cuts a whole text into tokens. It never fails: what is malformed becomes
a token of kind `invalid` and a diagnostic, and the next token begins behind it.
-/

namespace BendSyntax

/-- The tokens of a text and the diagnostics about them, both in source order. -/
structure Lexing where
  tokens : Tokens
  diagnostics : List Diagnostic
  deriving Repr, DecidableEq, Inhabited

namespace Scanned

/-- A scanned token at its place in the source. -/
def toToken (s : Scanned) (p : Position) (spaced : Bool) : Token :=
  ⟨s.kind, .between p (p.after s.text), String.ofList s.text, spaced⟩

end Scanned

namespace Lexing

/-- The diagnostic about a comment that is never closed. -/
def gapDiagnostics (gap : Gap) (p : Position) (cs : List Char) : List Diagnostic :=
  match gap.unclosed with
  | some n => [(⟨n, gap.length - n, .unclosedComment⟩ : Flaw).toDiagnostic p (cs.take gap.length)]
  | none => []

/-- Cuts the text behind a token, of which `p` is the end and `previous` the kind. -/
def onward (previous : Option TokenKind) (p : Position) (cs : List Char) : Lexing :=
  let gap := Gap.atFront cs
  let reports := gapDiagnostics gap p cs
  let p := p.after (cs.take gap.length)
  match _hrest : gap.rest with
  | [] =>
      ⟨⟨[], (Scanned.next true []).toToken p (previous.isNone || gap.length != 0)⟩, reports⟩
  | c :: rest =>
      let scanned := Scanned.next (!previous.any TokenKind.endsOperand) (c :: rest)
      let token := scanned.toToken p (previous.isNone || gap.length != 0)
      let reports := reports ++ scanned.flaws.map (·.toDiagnostic p scanned.text)
      let after := onward (some scanned.kind) (p.after scanned.text) scanned.rest
      ⟨⟨token :: after.tokens.body, after.tokens.eof⟩, reports ++ after.diagnostics⟩
termination_by cs.length
decreasing_by
  have hgap := Gap.rest_length_le cs
  have hnext := Scanned.next_rest_length (!previous.any TokenKind.endsOperand) c rest
  simp only [gap] at _hrest
  rw [_hrest, List.length_cons] at hgap
  omega

theorem eof_kind_onward (previous : Option TokenKind) (p : Position) (cs : List Char) :
    (onward previous p cs).tokens.eof.kind = .eof := by
  fun_induction onward with
  | case1 previous p cs gap reports p' h => rfl
  | case2 previous p cs gap reports p' c rest h scanned token reports' after ih => exact ih

def ofText (source : String) : Lexing := onward none .start source.toList

end Lexing

end BendSyntax
