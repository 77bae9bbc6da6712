import JavaGraft.Proofs.Grammar.Precedence
import JavaGraft.Proofs.Token.Places

/-!
# A literal on its own

A text that is one literal is parsed as an expression by evaluating it: the result is its value, or
the fault that makes it denote none, and the place of either is the whole text
(`JavaGraft.parseExpr_literal`).
-/

namespace JavaGraft

open JavaGraft.Parser JavaGraft.Grammar

/-! ### One literal -/

/-- The value of a literal that is a whole text, or its fault. -/
def Literal.alone (kind : LiteralKind) (cs : List Char) : Except (List ParseError) Expr :=
  match ofText kind cs with
  | .ok value => .ok (.literal value (.whole cs))
  | .error fault => .error [⟨.badLiteral fault (String.ofList cs), .whole cs⟩]

namespace Grammar

variable {g : Rules} {kind : LiteralKind} {s : ParserState}

/-- A literal is an operand. -/
theorem operand_literal (h : s.next.kind = .literal kind) : operand g s = literal kind s := by
  rw [operand, bind_ok (peek_eq s), h]

theorem literal_ok {value : Literal} (h : Literal.ofText kind s.next.text.toList = .ok value) :
    literal kind s = .ok (.literal value s.next.span) s.advance := by
  rw [literal, bind_ok (advance_eq s), h]
  rfl

theorem literal_error {fault : LiteralFault}
    (h : Literal.ofText kind s.next.text.toList = .error fault) :
    literal kind s = .error (.rejected ⟨.badLiteral fault s.next.text, s.next.span⟩) s.advance := by
  rw [literal, bind_ok (advance_eq s), h]
  rfl

variable {m power : Nat}

theorem expr_eq (m power : Nat) : (grammar (m + 3)).expr power
    = operand (grammar (m + 2)) >>= operatorsWithin (grammar (m + 2)) power (m + 1) := rfl

/-- A literal at the end of the source is an expression. -/
theorem expr_literal_ok {value : Literal} (hkind : s.next.kind = .literal kind)
    (hvalue : Literal.ofText kind s.next.text.toList = .ok value)
    (hend : s.advance.next.kind = .endOfSource) :
    (grammar (m + 3)).expr power s = .ok (.literal value s.next.span) s.advance := by
  rw [expr_eq, bind_ok ((operand_literal hkind).trans (literal_ok hvalue))]
  exact operatorsWithin_stop fun c hc => by rw [hend] at hc; cases hc

theorem expr_literal_error {fault : LiteralFault} (hkind : s.next.kind = .literal kind)
    (hvalue : Literal.ofText kind s.next.text.toList = .error fault) :
    (grammar (m + 3)).expr power s
      = .error (.rejected ⟨.badLiteral fault s.next.text, s.next.span⟩) s.advance := by
  rw [expr_eq, bind_error ((operand_literal hkind).trans (literal_error hvalue))]

end Grammar

/-- **A text that is one literal** is parsed as its value, or rejected for its fault. -/
theorem parseExpr_literal {cs : List Char} {kind : LiteralKind}
    (h : Scan.IsToken cs (.literal kind)) : parseExpr cs = Literal.alone kind cs := by
  obtain ⟨htokens, herrors, hfinish⟩ := tokenize_token h nofun
  have hahead : (ParserState.ofSource cs 0).ahead
      = [⟨.literal kind, String.ofList cs, .whole cs⟩] := by
    rw [ParserState.ofSource, htokens]
    rfl
  have herrors' : (ParserState.ofSource cs 0).errors = [] := by
    rw [ParserState.ofSource, herrors]
    rfl
  have hfinish' : (ParserState.ofSource cs 0).finish.kind = .endOfSource := hfinish
  rw [parseExpr, runAll, run]
  generalize ParserState.ofSource cs 0 = s at hahead herrors' hfinish'
  -- three rules deep the literal is read, and the end of the source comes behind it
  obtain ⟨m, hm⟩ : ∃ m, s.depth = m + 3 :=
    ⟨_, (Nat.sub_add_cancel (by rw [ParserState.depth]; omega)).symm⟩
  have hnext : s.next = ⟨.literal kind, String.ofList cs, .whole cs⟩ := by
    rw [ParserState.next, ParserState.nth, hahead]
    rfl
  have hend : s.advance.next.kind = .endOfSource := by
    rw [ParserState.advance, hahead]
    exact hfinish'
  have herrors'' : s.advance.errors = [] := by
    rw [ParserState.advance, hahead]
    exact herrors'
  have hkind : s.next.kind = .literal kind := by rw [hnext]
  have htext : s.next.text.toList = cs := by rw [hnext, String.toList_ofList]
  rw [hm, Literal.alone]
  cases hvalue : Literal.ofText kind cs with
  | error fault =>
    rw [expr_literal_error hkind (htext ▸ hvalue), hnext]
    simp only [herrors'', List.nil_append]
  | ok value =>
    rw [expr_literal_ok hkind (htext ▸ hvalue) hend, hnext]
    simp only [hend, if_true, herrors'', List.isEmpty_nil]

end JavaGraft
