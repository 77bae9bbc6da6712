import JavaGraft.Proofs.Token.Quotes

/-!
# Spacing tokens out

How far a token goes depends on what follows it: a longer sign may begin there, a word or a number
may go on, and two slashes make a comment. A blank rules all of this out. Every token that is read
without a fault is read just as it is before a blank as well (`JavaGraft.Scan.isStable_of_front`).
So the tokens of a text without errors are read again from their texts with a blank between each and
the next (`JavaGraft.tokenize_spaced`).
-/

namespace JavaGraft

open CharClass

/-! ### Before a blank -/

theorem IsTail.endsNumber {tail : List Char} (h : IsTail tail) : Scan.EndsNumber tail := by
  intro c hc
  refine ⟨h.isWordPart_head c hc, ?_⟩
  rw [h.head c hc]
  decide

/-- A text that is stable as a token of a kind. -/
theorem Lexeme.isStable_ofList {kind : TokenKind} {text : List Char}
    (hhead : ∃ c r, text = c :: r ∧ isBlank c = false ∧ c ≠ Scan.byteOrderMark)
    (hfront : ∀ tail, IsTail tail → Scan.front (text ++ tail) = .piece ⟨text, tail, .ok kind⟩) :
    Lexeme.IsStable (kind, String.ofList text) where
  head := by simpa only [String.toList_ofList] using hhead
  front {tail} htail := by simpa only [String.toList_ofList] using hfront tail htail

namespace Scan

variable {quote : Char} {kind : LiteralKind} {fault : LexFault} {body cs text : List Char}

/-- **Quoted literals are stable.** -/
theorem Enclosed.isStable (hquote : IsQuote quote kind fault) (h : Enclosed quote body) :
    Lexeme.IsStable (.literal kind, String.ofList (quote :: (body ++ [quote]))) := by
  refine Lexeme.isStable_ofList ⟨quote, _, rfl, by cases hquote <;> decide⟩ fun tail htail => ?_
  have htail : ∀ c ∈ tail.head?, c ≠ '"' := by
    intro c hc
    rw [htail.head c hc]
    decide
  rw [List.cons_append, List.append_assoc]
  exact h.front_closed hquote htail

/-- **Text blocks are stable.** -/
theorem isStable_block (h : (blockBody cs).1) : Lexeme.IsStable
    (.literal .string, String.ofList (threeQuotes ++ (blockBody cs).2.1)) := by
  refine Lexeme.isStable_ofList ⟨'"', _, rfl, by decide⟩ fun tail _ => ?_
  rw [List.append_assoc]
  exact front_block h tail

/-- **Numbers are stable.** -/
theorem IsNumeral.isStable (h : IsNumeral kind text) :
    Lexeme.IsStable (.literal kind, String.ofList text) := by
  refine Lexeme.isStable_ofList ?_ fun tail htail => front_number h htail.endsNumber
  have hstart := h.startsNumber []
  rw [List.append_nil] at hstart
  exact head_of_startsNumber hstart

/-- **Words are stable**, keywords among them. -/
theorem isStable_word {c : Char} (hstart : isWordStart c) (cs : List Char) :
    Lexeme.IsStable ((Keyword.ofSpelling? (String.ofList (word (c :: cs)).text)).elim
      .identifier .keyword, String.ofList (word (c :: cs)).text) := by
  have hparts : ∀ d ∈ (word (c :: cs)).text, isWordPart d := span_all (c :: cs)
  obtain ⟨r, hr⟩ : ∃ r, (word (c :: cs)).text = c :: r := by
    refine ⟨cs.takeWhile isWordPart, ?_⟩
    rw [word, List.span_eq_takeWhile_dropWhile]
    exact List.takeWhile_cons_of_pos (isWordPart_of_isWordStart hstart)
  refine Lexeme.isStable_ofList ⟨c, r, hr, isBlank_of_isWordStart hstart,
    ne_byteOrderMark_of_isWordStart hstart⟩ fun tail htail => ?_
  have hfront := front_word (x := String.ofList (word (c :: cs)).text)
    (String.toList_ofList.trans hr) hstart (by rwa [String.toList_ofList]) htail.isWordPart_head
  rwa [String.toList_ofList] at hfront

/-- **Every token is stable.** -/
theorem isStable_of_front {kind : TokenKind} {p : Piece} (hp : front cs = .piece p)
    (h : p.verdict = .ok kind) : Lexeme.IsStable (kind, String.ofList p.text) := by
  -- The two kinds of quoted literals differ in their quotes only.
  have hliteral {quote : Char} {kind : LiteralKind} {fault : LexFault}
      (hquote : IsQuote quote kind fault) (h : p.verdict = .ok (.literal kind)) :
      Lexeme.IsStable (.literal kind, String.ofList p.text) := by
    rcases literal_of_front hquote hp h with ⟨body, htext, hbody⟩ | ⟨rfl, r, hr, htext⟩
    · rw [htext]
      exact hbody.isStable hquote
    · rw [htext]
      exact isStable_block hr
  cases reads_front hp h with
  | string => exact hliteral .string h
  | char => exact hliteral .char h
  | number _ hnumeral => exact hnumeral.isStable
  | @word _ c r hstart hkind =>
    rw [← hkind]
    exact isStable_word hstart r
  | @sign s _ hverdict =>
    have htext : (sign cs).text = s.spelling.toList := shape_sign hverdict
    rw [htext, String.ofList_toList]
    exact (IsWord.sign s).isStable

end Scan

/-! ### Tokens with blanks between them -/

/-- **Spacing changes nothing.** The tokens of a text without errors are the tokens of their texts
with a blank between each and the next, which has no errors either. -/
theorem tokenize_spaced (source : List Char) (h : (tokenize source).errors = []) :
    (tokenize (" ".intercalate ((tokenize source).tokens.map Token.text)).toList).AreWords
      ((tokenize source).tokens.map Token.lexeme) := by
  have hstable : ∀ l ∈ (tokenize source).tokens.map Token.lexeme, l.IsStable := by
    intro l hl
    obtain ⟨t, ht, rfl⟩ := List.mem_map.mp hl
    obtain ⟨before, p, hread⟩ := readFrom_tokenize source t ht
    have htells := hread.tells
    -- A fault would be one of the errors, and there are none.
    cases hverdict : p.verdict with
    | error fault =>
      rw [hverdict, h] at htells
      cases htells with
      | fault _ _ herror => exact absurd herror List.not_mem_nil
    | ok kind =>
      rw [hverdict] at htells
      cases htells with
      | kind hkind htext =>
        rw [Token.lexeme, hkind, htext]
        exact Scan.isStable_of_front hread.front hverdict
  have htexts : ((tokenize source).tokens.map Token.lexeme).map Prod.snd =
      (tokenize source).tokens.map Token.text := List.map_map ..
  rw [← htexts]
  exact tokenize_stable hstable

/-- Tokens that a blank could keep apart, and a comment. -/
theorem tokenize_spaced_signs :
    (tokenize "i+++j>>>=0x1F/**/'\\n'".toList).errors = [] ∧
      (tokenize "i ++ + j >>>= 0x1F '\\n'".toList).AreWords
        ((tokenize "i+++j>>>=0x1F/**/'\\n'".toList).tokens.map Token.lexeme) := by
  have herrors : (tokenize "i+++j>>>=0x1F/**/'\\n'".toList).errors = [] := by decide +kernel
  have htexts : " ".intercalate ((tokenize "i+++j>>>=0x1F/**/'\\n'".toList).tokens.map Token.text) =
      "i ++ + j >>>= 0x1F '\\n'" := by decide +kernel
  refine ⟨herrors, ?_⟩
  rw [← htexts]
  exact tokenize_spaced _ herrors

end JavaGraft
