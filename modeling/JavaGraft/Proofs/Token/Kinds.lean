import JavaGraft.Token.Lexer

/-!
# Kinds of tokens that are read

Whatever a text is, its tokens are read with kinds of their own: none of them stands for the end of
the text, and a token is invalid only if an error comes with it (`JavaGraft.areText_tokenize`).
-/

namespace JavaGraft

/-- A kind of token that stands for itself. -/
def TokenKind.isText (kind : TokenKind) : Bool := kind ≠ .endOfSource && kind ≠ .invalid

namespace Scan

theorem isText_number {cs : List Char} {kind : TokenKind} (h : (number cs).verdict = .ok kind) :
    kind.isText := by
  have hradix {base : Nat} {opening cs : List Char}
      (h : (radix base opening cs).verdict = .ok kind) : kind.isText := by
    simp only [radix] at h
    repeat' split at h
    all_goals cases h <;> rfl
  have hdecimal {cs : List Char} (h : (decimal cs).verdict = .ok kind) : kind.isText := by
    simp only [decimal] at h
    repeat' split at h
    all_goals cases h <;> rfl
  unfold number at h
  split at h
  · split at h
    · exact hradix h
    · split at h
      · exact hradix h
      · exact hdecimal h
  · exact hdecimal h

/-- A token that is read without fault is of a proper kind. -/
theorem isText_token {cs : List Char} {kind : TokenKind} (h : (token cs).verdict = .ok kind) :
    kind.isText := by
  have hsign {cs : List Char} (h : (sign cs).verdict = .ok kind) : kind.isText := by
    unfold sign at h
    split at h <;> cases h
    rfl
  unfold token at h
  split at h
  · exact hsign h
  · split at h
    · simp only [string] at h
      repeat' split at h
      all_goals cases h <;> rfl
    · split at h
      · simp only [character] at h
        split at h <;> cases h
        rfl
      · split at h
        · exact isText_number h
        · split at h
          · cases h
            cases Keyword.ofSpelling? _ <;> rfl
          · exact hsign h

/-- What is in front and is no error is a token. -/
theorem eq_token_of_front {cs : List Char} {p : Piece} {kind : TokenKind}
    (hp : front cs = .piece p) (h : p.verdict = .ok kind) : p = token cs := by
  unfold front at hp
  split at hp
  · cases hp
  · cases hp
  · dsimp only at hp
    split at hp <;> cases hp
    cases h
  · cases hp
    rfl

theorem isText_front {cs : List Char} {p : Piece} {kind : TokenKind} (hp : front cs = .piece p)
    (h : p.verdict = .ok kind) : kind.isText := by
  rw [eq_token_of_front hp h] at h
  exact isText_token h

end Scan

namespace Lexer

/-- What a reading may be: the end, a token of a proper kind, or an error. -/
theorem read_cases (c : Cursor) :
    (∃ c', read c = readEnd c') ∨ ((read c).token.kind.isText ∧ (read c).error = none) ∨
      ((read c).token.kind = .invalid ∧ (read c).error ≠ none) := by
  unfold read
  generalize c.rest.length + 1 = n
  induction n generalizing c with
  | zero => exact .inl ⟨c, rfl⟩
  | succ n ih =>
    simp only [readWithin]
    cases hfront : Scan.front (c.past (Scan.margin c.rest).1 (Scan.margin c.rest).2).rest with
    | finished => exact .inl ⟨_, rfl⟩
    | comment text rest => exact ih _
    | piece p =>
      simp only [readPiece]
      cases hverdict : p.verdict with
      | ok kind => exact .inr (.inl ⟨Scan.isText_front hfront hverdict, rfl⟩)
      | error fault => exact .inr (.inr ⟨rfl, nofun⟩)

end Lexer

namespace Tokens

/-- The tokens of a text do not stand for its end, and end with an empty token that does. Without
errors none of them is invalid. -/
structure AreText (r : Tokens) : Prop where
  kinds : ∀ t ∈ r.tokens, t.kind ≠ .endOfSource
  valid : r.errors = [] → ∀ t ∈ r.tokens, t.kind ≠ .invalid
  finish : r.finish.kind = .endOfSource
  text : r.finish.text = ""

theorem areText_readAll (n : Nat) (c : Cursor) : (readAll n c).AreText := by
  induction n generalizing c with
  | zero => exact ⟨nofun, fun _ => nofun, rfl, rfl⟩
  | succ n ih =>
    obtain ⟨hkinds, hvalid, hfinish, htext⟩ := ih (Lexer.read c).next
    rw [readAll]
    rcases Lexer.read_cases c with ⟨c', hend⟩ | ⟨hkind, herror⟩ | ⟨hkind, herror⟩
    · rw [hend]
      exact ⟨nofun, fun _ => nofun, rfl, rfl⟩
    · simp only [TokenKind.isText, Bool.and_eq_true, decide_eq_true_eq] at hkind
      simp only [if_neg hkind.1, herror]
      exact ⟨List.forall_mem_cons.mpr ⟨hkind.1, hkinds⟩,
        fun h => List.forall_mem_cons.mpr ⟨hkind.2, hvalid h⟩, hfinish, htext⟩
    · have hne : (Lexer.read c).token.kind ≠ .endOfSource := by rw [hkind]; exact nofun
      simp only [if_neg hne]
      refine ⟨List.forall_mem_cons.mpr ⟨hne, hkinds⟩, fun h => ?_, hfinish, htext⟩
      cases herr : (Lexer.read c).error with
      | none => exact (herror herr).elim
      | some e => simp [herr] at h

end Tokens

theorem areText_tokenize (cs : List Char) : (tokenize cs).AreText := Tokens.areText_readAll _ _

end JavaGraft
