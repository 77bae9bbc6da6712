import JavaGraft.Proofs.Token.Numbers

/-!
# Quoted literals

What stands between the quotes of a string or character literal is a row of characters and of pairs
of a backslash and whatever comes behind it (`JavaGraft.Scan.Enclosed`). A line end is none of the
characters, so a literal stops in front of it and is left open. But it can be the second of a pair:
a backslash takes the line end with it, and the literal goes on in the next line.

Literals are read just so, closed ones as well as those that a line end leaves open
(`JavaGraft.Scan.Enclosed.front_closed`, `JavaGraft.Scan.Enclosed.front_open`), and no others are
read as literals (`JavaGraft.Scan.enclosed_of_reads`). For the tokens of a text it follows where
their literals hold line ends (`JavaGraft.tokenize_enclosed`).
-/

namespace JavaGraft

namespace Scan

/-- **The quotes**, the kinds of their literals and the faults of those that are left open. -/
inductive IsQuote : Char → LiteralKind → LexFault → Prop
  | string : IsQuote '"' .string .openString
  | char : IsQuote '\'' .char .openChar

variable {quote c : Char} {kind : LiteralKind} {fault : LexFault} {body cs rest tail : List Char}

namespace Enclosed

/-! ### The inside of a literal -/

/-- **A line end is enclosed only with a backslash before it**, which is not the second of a
pair. -/
theorem slash_lineEnd (h : Enclosed quote (cs ++ c :: rest)) (hc : isLineEnd c) :
    ∃ before, cs = before ++ ['\\'] ∧ Enclosed quote before := by
  generalize htext : cs ++ c :: rest = text at h
  induction h generalizing cs with
  | nil => simp at htext
  | @plain d ds hquote hslash hline _ ih =>
    match cs, htext with
    | [], htext =>
      obtain ⟨rfl, -⟩ := List.cons_eq_cons.mp htext
      exact absurd (hline.symm.trans hc) Bool.false_ne_true
    | d' :: cs, htext =>
      obtain ⟨rfl, hrest⟩ := List.cons_eq_cons.mp htext
      obtain ⟨before, rfl, hbefore⟩ := ih hrest
      exact ⟨d' :: before, rfl, .plain hquote hslash hline hbefore⟩
  | pair d _ ih =>
    -- The line end is the second of the pair, or stands behind it.
    match cs, htext with
    | [], htext =>
      obtain ⟨rfl, -⟩ := List.cons_eq_cons.mp htext
      exact absurd hc (by decide)
    | [d'], htext =>
      obtain ⟨rfl, -⟩ := List.cons_eq_cons.mp htext
      exact ⟨[], rfl, .nil⟩
    | d' :: d'' :: cs, htext =>
      obtain ⟨hslash, hpair⟩ := List.cons_eq_cons.mp htext
      obtain ⟨rfl, hrest⟩ := List.cons_eq_cons.mp hpair
      obtain ⟨before, rfl, hbefore⟩ := ih hrest
      rw [hslash]
      exact ⟨'\\' :: d'' :: before, rfl, .pair d'' hbefore⟩

/-! ### Quoted literals are read -/

/-- **What is enclosed is read**, and then what is behind it. -/
theorem quoted_append (h : Enclosed quote body) (cs : List Char) : quoted quote (body ++ cs) =
    ((quoted quote cs).1, body ++ (quoted quote cs).2.1, (quoted quote cs).2.2) := by
  induction h with
  | nil => rfl
  | @plain d ds hquote hslash hline _ ih =>
    have hline : ¬(decide (d = '\n') || decide (d = '\r')) = true := Bool.eq_false_iff.mp hline
    rw [List.cons_append, quoted.eq_def]
    dsimp only
    rw [if_neg hline, if_neg hslash, if_neg hquote, ih]
    rfl
  | pair d _ ih =>
    rw [List.cons_append, List.cons_append, quoted.eq_def]
    dsimp only
    rw [if_neg (by decide), if_pos rfl, ih]
    rfl

/-- What is enclosed is read up to the quote. -/
theorem quoted_closed (h : Enclosed quote body) (hquote : IsQuote quote kind fault)
    (rest : List Char) : quoted quote (body ++ quote :: rest) = (true, body ++ [quote], rest) := by
  have hclose : quoted quote (quote :: rest) = (true, [quote], rest) := by
    cases hquote <;> rw [quoted.eq_def] <;> rfl
  rw [h.quoted_append, hclose]

/-- What is enclosed is read up to the end of its line. -/
theorem quoted_open (h : Enclosed quote body) (hc : isLineEnd c) (rest : List Char) :
    quoted quote (body ++ c :: rest) = (false, body, c :: rest) := by
  have hstop : quoted quote (c :: rest) = (false, [], c :: rest) := by
    rw [quoted.eq_def]
    exact if_pos hc
  rw [h.quoted_append, hstop, List.append_nil]

end Enclosed

/-! ### Literals -/

/-- An opening quote starts a text block only with two more behind it. -/
theorem front_quote (hquote : IsQuote quote kind fault)
    (hblock : threeQuotes.isPrefixOf (quote :: cs) = false) :
    front (quote :: cs) = .piece ⟨quote :: (quoted quote cs).2.1, (quoted quote cs).2.2,
      if (quoted quote cs).1 then .ok (.literal kind) else .error fault⟩ := by
  cases hquote with
  | string =>
    change Front.piece (string ('"' :: cs)) = _
    rw [string]
    · cases (quoted '"' cs).1 <;> rfl
    · rintro r - rfl
      cases hblock
  | char => rfl

/-- Before another character than itself no quote starts a text block. -/
theorem isPrefixOf_of_ne (hquote : IsQuote quote kind fault) (hc : c ≠ quote) :
    threeQuotes.isPrefixOf (quote :: c :: rest) = false := by
  cases hquote with
  | string => simp [threeQuotes, List.isPrefixOf, hc.symm]
  | char => rfl

/-- No text block starts before what is enclosed. -/
theorem Enclosed.isPrefixOf (hquote : IsQuote quote kind fault) (h : Enclosed quote body)
    (hrest : body = [] → threeQuotes.isPrefixOf (quote :: rest) = false) :
    threeQuotes.isPrefixOf (quote :: (body ++ rest)) = false := by
  cases h with
  | nil => exact hrest rfl
  | plain hne => exact isPrefixOf_of_ne hquote hne
  | pair => cases hquote <;> rfl

/-- **A closed literal is read as it is**, if no text block starts there. -/
theorem Enclosed.front_closed (hquote : IsQuote quote kind fault) (h : Enclosed quote body)
    (htail : ∀ c ∈ tail.head?, c ≠ '"') : front (quote :: (body ++ quote :: tail)) =
      .piece ⟨quote :: (body ++ [quote]), tail, .ok (.literal kind)⟩ := by
  have hblock : threeQuotes.isPrefixOf (quote :: quote :: tail) = false := by
    cases hquote with
    | string =>
      cases tail with
      | nil => rfl
      | cons c tail => simp [threeQuotes, List.isPrefixOf, (htail c rfl).symm]
    | char => rfl
  rw [front_quote hquote (h.isPrefixOf hquote fun _ => hblock), h.quoted_closed hquote]
  rfl

/-- **A literal is left open by a line end** that it does not enclose. -/
theorem Enclosed.front_open (hquote : IsQuote quote kind fault) (h : Enclosed quote body)
    (hc : isLineEnd c) :
    front (quote :: (body ++ c :: rest)) = .piece ⟨quote :: body, c :: rest, .error fault⟩ := by
  have hne : c ≠ quote := by
    rintro rfl
    cases hquote <;> cases hc
  rw [front_quote hquote (h.isPrefixOf hquote fun _ => isPrefixOf_of_ne hquote hne),
    h.quoted_open hc]
  rfl

/-! ### Text blocks -/

/-- **A text block ends where it ends**, whatever stands behind it. -/
theorem blockBody_append (h : (blockBody cs).1) (tail : List Char) :
    blockBody ((blockBody cs).2.1 ++ tail) = (true, (blockBody cs).2.1, tail) := by
  fun_induction blockBody cs with
  | case1 => cases h
  | case2 => rfl
  | case3 c cs closed text rest heq ih =>
    rw [heq] at ih
    rw [List.cons_append, List.cons_append, blockBody, ih h]
  | case4 c cs hquotes hslash closed text rest heq ih =>
    have hwhole := blockBody_whole cs
    rw [heq] at ih hwhole
    have hclosed : (blockBody cs).1 := by rwa [heq]
    obtain ⟨body, hbody⟩ := blockBody_closed hclosed
    rw [heq] at hbody
    dsimp only at ih hwhole hbody
    -- What is left has the three quotes in it, so what is behind it decides nothing.
    obtain ⟨a, b, t, rfl⟩ : ∃ a b t, text = a :: b :: t := by
      rw [hbody]
      match body with
      | [] | [_] | _ :: _ :: _ => exact ⟨_, _, _, rfl⟩
    have hquotes' : ∀ r, c = '"' → a :: b :: (t ++ tail) = '"' :: '"' :: r → False := by
      rintro r hc ⟨⟩
      exact hquotes _ hc hwhole.symm
    have hslash' : ∀ d ds, c = '\\' → a :: b :: (t ++ tail) = d :: ds → False := by
      rintro d ds hc -
      exact hslash _ _ hc hwhole.symm
    rw [List.cons_append, List.cons_append, List.cons_append, blockBody.eq_4 _ _ hquotes' hslash']
    have ih := ih h
    rw [List.cons_append, List.cons_append] at ih
    rw [ih]

/-- **A text block is read as it is.** -/
theorem front_block (h : (blockBody cs).1) (tail : List Char) :
    front (threeQuotes ++ ((blockBody cs).2.1 ++ tail)) =
      .piece ⟨threeQuotes ++ (blockBody cs).2.1, tail, .ok (.literal .string)⟩ := by
  change Front.piece (string ('"' :: '"' :: '"' :: ((blockBody cs).2.1 ++ tail))) = _
  rw [string, blockBody_append h]
  rfl

/-! ### What is read as a literal -/

/-- **What is read between quotes is enclosed in them**, where no text block starts. -/
theorem enclosed_of_front (hquote : IsQuote quote kind fault) {p : Piece}
    (hfront : front (quote :: cs) = .piece p) (hp : p.verdict = .ok (.literal kind))
    (hblock : threeQuotes.isPrefixOf (quote :: cs) = false) :
    ∃ body, p.text = quote :: (body ++ [quote]) ∧ Enclosed quote body := by
  rw [front_quote hquote hblock] at hfront
  cases hfront
  dsimp only at hp ⊢
  split_ifs at hp with hclosed
  obtain ⟨body, htext, hbody⟩ := enclosed_of_quoted hclosed
  exact ⟨body, congrArg (quote :: ·) htext, hbody⟩

/-- **What is read as a literal** is enclosed in its quotes, or is a text block. -/
theorem literal_of_front (hquote : IsQuote quote kind fault) {p : Piece}
    (hfront : front cs = .piece p) (hp : p.verdict = .ok (.literal kind)) :
    (∃ body, p.text = quote :: (body ++ [quote]) ∧ Enclosed quote body) ∨
      kind = .string ∧ ∃ r, (blockBody r).1 ∧ p.text = threeQuotes ++ (blockBody r).2.1 := by
  have hreads := reads_front hfront hp
  cases hquote with
  | string =>
    cases hreads with
    | number _ hnumeral => cases hnumeral.isNumber
    | word _ hkind => exact absurd hkind (word_ne_literal _ _)
    | string r =>
      cases hblock : threeQuotes.isPrefixOf ('"' :: r) with
      | false => exact .inl (enclosed_of_front .string hfront hp hblock)
      | true =>
        obtain ⟨r, rfl⟩ : ∃ r', r = '"' :: '"' :: r' := by
          obtain ⟨r', hr⟩ := List.isPrefixOf_iff_prefix.mp hblock
          exact ⟨r', (List.cons_eq_cons.mp hr).2.symm⟩
        refine .inr ⟨rfl, r, ?_, rfl⟩
        rw [string] at hp
        dsimp only at hp
        split_ifs at hp with hclosed
        exact hclosed
  | char =>
    cases hreads with
    | number _ hnumeral => cases hnumeral.isNumber
    | word _ hkind => exact absurd hkind (word_ne_literal _ _)
    | char r => exact .inl (enclosed_of_front .char hfront hp rfl)

end Scan

/-! ### The literals of a text -/

open Scan

/-- **Where the literal of a token ends.** A quoted literal that is no text block is enclosed in its
quotes, and a line end stands in it only behind a backslash that goes with it. Where a quote opens
a literal that is not closed before a line end by itself, the token is invalid, it goes up to this
line end, and an error says that the literal is open. -/
structure Token.IsQuoted (t : Token) (errors : List LexError) (text after : List Char)
    (quote : Char) (kind : LiteralKind) (fault : LexFault) : Prop where
  closed : t.kind = .literal kind → threeQuotes.isPrefixOf text = false →
    ∃ body, text = quote :: (body ++ [quote]) ∧ Enclosed quote body ∧
      ∀ before c behind, body = before ++ c :: behind → isLineEnd c →
        ∃ before', before = before' ++ ['\\'] ∧ Enclosed quote before'
  opened : ∀ body c rest, Enclosed quote body → isLineEnd c →
    text ++ after = quote :: (body ++ c :: rest) →
      text = quote :: body ∧ t.kind = .invalid ∧ ⟨fault, t.span⟩ ∈ errors

/-- **The literals of a text stay on their lines**, but for line ends behind a backslash. -/
theorem tokenize_enclosed (source : List Char) {t : Token} (ht : t ∈ (tokenize source).tokens) :
    ∃ before text after, t.Covers source before text after ∧ ∀ quote kind fault,
      IsQuote quote kind fault →
        t.IsQuoted (tokenize source).errors text after quote kind fault := by
  obtain ⟨before, p, h⟩ := readFrom_tokenize source t ht
  refine ⟨before, p.text, p.rest, h.covers, fun quote kind fault hquote => ⟨?_, ?_⟩⟩
  · intro hkind hblock
    have hverdict : p.verdict = .ok (.literal kind) :=
      hkind ▸ h.tells.verdict_eq (by rw [hkind]; nofun)
    rcases literal_of_front hquote h.front hverdict with ⟨body, htext, hbody⟩ | ⟨-, r, -, htext⟩
    · refine ⟨body, htext, hbody, ?_⟩
      rintro before c behind rfl
      exact hbody.slash_lineEnd
    · rw [htext] at hblock
      cases hblock
  · intro body c rest hbody hc hall
    have hfront := h.front
    rw [hall, hbody.front_open hquote hc] at hfront
    have htells := h.tells
    rw [← Front.piece.inj hfront] at htells ⊢
    cases htells with
    | fault hkind _ herror => exact ⟨rfl, hkind, herror⟩

/-- A string that is open at the end of its line. -/
theorem tokenize_enclosed_open :
    let t : Token := ⟨.invalid, "", ⟨0, 2, 1, 1⟩⟩
    t ∈ (tokenize "\"a\nb".toList).tokens ∧
      ∃ before text after, t.Covers "\"a\nb".toList before text after ∧
        t.IsQuoted (tokenize "\"a\nb".toList).errors text after '"' .string .openString := by
  intro t
  have hmem : t ∈ (tokenize "\"a\nb".toList).tokens := by decide +kernel
  obtain ⟨before, text, after, hcovers, hquoted⟩ := tokenize_enclosed _ hmem
  exact ⟨hmem, before, text, after, hcovers, hquoted _ _ _ .string⟩

/-- A backslash takes the line feed with it. -/
theorem tokenize_enclosed_split :
    (tokenize "\"a\\\nb\"".toList).tokens.map Token.lexeme =
        [(.literal .string, "\"a\\\nb\"")] ∧
      (tokenize "\"a\\\nb\"".toList).errors = [] := by
  decide +kernel

end JavaGraft
