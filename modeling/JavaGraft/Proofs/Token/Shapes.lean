import JavaGraft.Proofs.Token.Kinds
import JavaGraft.Proofs.Token.Pieces

/-!
# The shapes of tokens

What is cut off a token later on is there because of how it was read: a character literal is closed
by the apostrophe that it is opened by, a string by a quote or by three of them, the suffix of a
number is its last character, and a sign is spelt as signs are (`JavaGraft.TokenKind.Shape`). Every
token that is read has the shape of its kind (`JavaGraft.Lexer.shape_read`).
-/

namespace JavaGraft

/-! ### Shapes -/

/-- The three quotes that open and close a text block. -/
def threeQuotes : List Char := ['"', '"', '"']

/-- What the text of a token of a kind is like, as far as it is taken apart later on. -/
def TokenKind.Shape (kind : TokenKind) (cs : List Char) : Prop :=
  match kind with
  | .literal .string =>
    (∃ body, cs = threeQuotes ++ (body ++ threeQuotes)) ∨
      (∃ body, cs = '"' :: (body ++ ['"'])) ∧ threeQuotes.isPrefixOf cs = false
  | .literal .char => ∃ body, cs = '\'' :: (body ++ ['\''])
  | .literal .long => ∃ body mark, cs = body ++ [mark] ∧ (mark = 'l' ∨ mark = 'L')
  | .literal .float => ∃ body mark, cs = body ++ [mark] ∧ (mark = 'f' ∨ mark = 'F')
  | .sign s => cs = s.spelling.toList
  | _ => True

/-- A token that has the shape of its kind. -/
def Token.Shaped (t : Token) : Prop := t.kind.Shape t.text.toList

namespace Scan

open CharClass

variable {cs : List Char} {kind : TokenKind}

/-! ### Quoted literals -/

/-- The characters that end a line. -/
def isLineEnd (c : Char) : Bool := c = '\n' || c = '\r'

/-- **The inside of a quoted literal**: a backslash goes with what comes behind it, and neither the
quote nor a line end stands by itself. -/
inductive Enclosed (quote : Char) : List Char → Prop
  | nil : Enclosed quote []
  | plain {c : Char} {cs : List Char} (hquote : c ≠ quote) (hslash : c ≠ '\\')
    (hline : isLineEnd c = false) (h : Enclosed quote cs) : Enclosed quote (c :: cs)
  | pair (d : Char) {cs : List Char} (h : Enclosed quote cs) : Enclosed quote ('\\' :: d :: cs)

/-- **What is read up to the quote is enclosed.** -/
theorem enclosed_of_quoted {quote : Char} (h : (quoted quote cs).1) :
    ∃ body, (quoted quote cs).2.1 = body ++ [quote] ∧ Enclosed quote body := by
  fun_induction quoted quote cs with
  | case1 => cases h
  | case2 => cases h
  | case3 => cases h
  | case4 d ds closed text rest heq hline ih =>
    rw [heq] at ih
    obtain ⟨body, rfl, hbody⟩ := ih h
    exact ⟨'\\' :: d :: body, rfl, .pair d hbody⟩
  | case5 ds hline hslash => exact ⟨[], rfl, .nil⟩
  | case6 d ds hline hslash hquote closed text rest heq ih =>
    rw [heq] at ih
    obtain ⟨body, rfl, hbody⟩ := ih h
    exact ⟨d :: body, rfl, .plain hquote hslash (Bool.eq_false_iff.mpr hline) hbody⟩

theorem blockBody_closed (h : (blockBody cs).1) :
    ∃ body, (blockBody cs).2.1 = body ++ threeQuotes := by
  fun_induction blockBody cs with
  | case1 => cases h
  | case2 => exact ⟨[], rfl⟩
  | case3 c cs closed text rest heq ih =>
    rw [heq] at ih
    obtain ⟨body, rfl⟩ := ih h
    exact ⟨'\\' :: c :: body, rfl⟩
  | case4 c cs hquotes hslash closed text rest heq ih =>
    rw [heq] at ih
    obtain ⟨body, rfl⟩ := ih h
    exact ⟨c :: body, rfl⟩

theorem shape_string {r : List Char} (h : (string ('"' :: r)).verdict = .ok kind) :
    kind.Shape (string ('"' :: r)).text := by
  have hwhole := (splits_string '"' r).whole
  revert h hwhole
  simp only [string]
  split
  · next r' heq =>
    intro h hwhole
    split at h <;> cases h
    next hclosed =>
    obtain ⟨body, hbody⟩ := blockBody_closed hclosed
    exact .inl ⟨body, congrArg (threeQuotes ++ ·) hbody⟩
  · next q r' hthree heq =>
    obtain ⟨rfl, rfl⟩ := List.cons_eq_cons.mp heq
    intro h hwhole
    split at h <;> cases h
    next hclosed =>
    obtain ⟨body, hbody, -⟩ := enclosed_of_quoted hclosed
    refine .inr ⟨⟨body, congrArg (['"'] ++ ·) hbody⟩, Bool.eq_false_iff.mpr fun hprefix => ?_⟩
    -- three quotes at the start of the token would be three quotes at the start of the text
    obtain ⟨tail, htail⟩ := List.isPrefixOf_iff_prefix.mp hprefix
    rw [← htail] at hwhole
    exact hthree _ rfl (List.cons_eq_cons.mp hwhole.symm).2
  · next heq => cases heq

theorem shape_character {r : List Char} (h : (character ('\'' :: r)).verdict = .ok kind) :
    kind.Shape (character ('\'' :: r)).text := by
  simp only [character] at h ⊢
  split_ifs at h with hclosed
  cases h
  obtain ⟨body, hbody, -⟩ := enclosed_of_quoted hclosed
  exact ⟨body, congrArg (['\''] ++ ·) hbody⟩

/-! ### Numbers -/

/-- A suffix is what makes a number long or floating. -/
theorem shape_suffix (floating : Bool) (before : List Char) :
    (TokenKind.literal (suffix floating cs).1).Shape (before ++ (suffix floating cs).2.1) := by
  unfold suffix
  simp only []
  cases cs with
  | nil => cases floating <;> trivial
  | cons s r =>
    dsimp only
    split_ifs with hf hd hl hplain
    · exact ⟨before, s, rfl, by simpa using hf⟩
    · trivial
    · exact ⟨before, s, rfl, by simpa using (Bool.and_eq_true_iff.mp hl).1⟩
    · trivial
    · trivial

theorem shape_decimal (h : (decimal cs).verdict = .ok kind) : kind.Shape (decimal cs).text := by
  revert h
  simp only [decimal]
  split
  · exact fun h => by cases h
  · split
    · intro h
      cases h
      exact shape_suffix _ _
    · exact fun h => by cases h

theorem shape_radix {base : Nat} {opening : List Char}
    (h : (radix base opening cs).verdict = .ok kind) :
    kind.Shape (radix base opening cs).text := by
  revert h
  simp only [radix]
  split
  · exact fun h => by cases h
  · split
    · next s rest heq =>
      split
      · next hmark =>
        intro h
        cases h
        exact ⟨_, s, rfl, by simpa using hmark⟩
      · intro h
        cases h
        trivial
    · intro h
      cases h
      trivial

theorem shape_number (h : (number cs).verdict = .ok kind) : kind.Shape (number cs).text := by
  revert h
  unfold number
  split
  · split_ifs
    · exact shape_radix
    · exact shape_radix
    · exact shape_decimal
  · exact shape_decimal

/-! ### All tokens -/

theorem shape_word (h : (word cs).verdict = .ok kind) : kind.Shape (word cs).text := by
  cases h
  cases Keyword.ofSpelling? _ <;> trivial

theorem shape_sign (h : (sign cs).verdict = .ok kind) : kind.Shape (sign cs).text := by
  revert h
  unfold sign
  split
  · intro h
    cases h
    rfl
  · exact fun h => by cases h

theorem shape_token (h : (token cs).verdict = .ok kind) : kind.Shape (token cs).text := by
  revert h
  unfold token
  split
  · exact shape_sign
  · split_ifs with hquote hchar hnumber hword
    · subst hquote
      exact shape_string
    · subst hchar
      exact shape_character
    · exact shape_number
    · exact shape_word
    · exact shape_sign

theorem shape_front {p : Piece} (hp : front cs = .piece p) (h : p.verdict = .ok kind) :
    kind.Shape p.text := by
  obtain rfl := eq_token_of_front hp h
  exact shape_token h

end Scan

/-! ### Reading -/

theorem Lexer.shape_readPiece (c : Cursor) {p : Scan.Piece}
    (hshape : ∀ kind, p.verdict = .ok kind → kind.Shape p.text) :
    (readPiece c p).token.Shaped := by
  simp only [readPiece]
  cases hverdict : p.verdict with
  | ok kind =>
    change kind.Shape (String.ofList p.text).toList
    rw [String.toList_ofList]
    exact hshape kind hverdict
  | error fault => trivial

/-- **Every token that is read has the shape of its kind.** -/
theorem Lexer.shape_read (c : Cursor) : (read c).token.Shaped := by
  unfold read
  generalize c.rest.length + 1 = n
  induction n generalizing c with
  | zero => trivial
  | succ n ih =>
    simp only [readWithin]
    cases hfront : Scan.front (c.past (Scan.margin c.rest).1 (Scan.margin c.rest).2).rest with
    | finished => trivial
    | comment text rest => exact ih _
    | piece p => exact shape_readPiece _ fun kind => Scan.shape_front hfront

theorem Tokens.shaped_readAll (n : Nat) (c : Cursor) : ∀ t ∈ (readAll n c).tokens, t.Shaped := by
  induction n generalizing c with
  | zero => exact List.forall_mem_nil _
  | succ n ih =>
    rw [readAll]
    split
    · exact List.forall_mem_nil _
    · exact List.forall_mem_cons.mpr ⟨Lexer.shape_read c, ih _⟩

/-- The tokens of a text have the shapes of their kinds. -/
theorem shaped_tokenize (cs : List Char) : ∀ t ∈ (tokenize cs).tokens, t.Shaped :=
  Tokens.shaped_readAll _ _

end JavaGraft
