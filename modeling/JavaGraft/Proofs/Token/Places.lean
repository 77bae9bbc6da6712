import JavaGraft.Proofs.Token.Shapes
import JavaGraft.Proofs.Token.Tiling
import Mathlib.Data.List.DropRight

/-!
# Spans that lie in a source

A span lies in a source (`JavaGraft.Span.LiesIn`) if it starts between two of its characters, ends
within it, and its line and column are those of its start: as many line feeds stand before it as its
line says, and as many bytes stand between the last of them and the span as its column says. Spans
that are merged from such spans are such spans again.

A token fits a source (`JavaGraft.Token.Fits`) if it covers just its own text there and has the
shape of its kind. The tokens of a text fit it, invalid ones apart, which cover some text as well
(`JavaGraft.fits_tokenize`, `JavaGraft.liesIn_tokenize`). Each of them is read from the piece that
is in front where it starts, and tells the verdict on this piece (`JavaGraft.readFrom_tokenize`).
-/

namespace JavaGraft

theorem byteSize_pos {cs : List Char} (h : cs ≠ []) : 0 < byteSize cs := by
  obtain ⟨c, cs, rfl⟩ := List.exists_cons_of_ne_nil h
  exact Nat.add_pos_left c.utf8Size_pos _

/-! ### Lines and columns -/

/-- The number of bytes behind the last line feed of a text. -/
def bytesOfLastLine (cs : List Char) : Nat := byteSize (cs.rtakeWhile (· ≠ '\n'))

theorem bytesOfLastLine_le (cs : List Char) : bytesOfLastLine cs ≤ byteSize cs := by
  obtain ⟨before, hbefore⟩ := List.rtakeWhile_suffix (· ≠ '\n') cs
  conv_rhs => rw [← hbefore, byteSize_append]
  exact Nat.le_add_left _ _

/-- **Positions count** the bytes, the line feeds, and the bytes behind the last line feed. -/
theorem Position.afterAll_start (cs : List Char) :
    start.afterAll cs = ⟨byteSize cs, 1 + cs.count '\n', 1 + bytesOfLastLine cs⟩ := by
  induction cs using List.reverseRecOn with
  | nil => rfl
  | append_singleton cs c ih =>
    rw [afterAll_append, ih]
    change after _ c = _
    have hsize : byteSize (cs ++ [c]) = byteSize cs + c.utf8Size := by
      simp [byteSize_append, byteSize]
    by_cases hc : c = '\n'
    · have hlast : bytesOfLastLine (cs ++ [c]) = 0 := by
        rw [bytesOfLastLine, List.rtakeWhile_concat_neg _ _ _ (by simpa using hc)]
        rfl
      have hcount : (cs ++ [c]).count '\n' = cs.count '\n' + 1 := by simp [hc]
      rw [after, if_pos hc, hsize, hlast, hcount, Nat.add_assoc]
    · have hlast : bytesOfLastLine (cs ++ [c]) = bytesOfLastLine cs + c.utf8Size := by
        rw [bytesOfLastLine, List.rtakeWhile_concat_pos _ _ _ (by simpa using hc),
          byteSize_append]
        simp [bytesOfLastLine, byteSize]
      have hcount : (cs ++ [c]).count '\n' = cs.count '\n' := by simp [hc]
      rw [after, if_neg hc, hsize, hlast, hcount, Nat.add_assoc]

namespace Span

/-! ### Spans in a source -/

/-- A span **lies in a source**: it starts between two characters, its line and its column are those
of its start, and it ends within the source. -/
structure LiesIn (source : List Char) (s : Span) : Prop where
  starts : ∃ before after, source = before ++ after ∧ s.offset = byteSize before ∧
    s.line = 1 + before.count '\n' ∧ s.column = 1 + bytesOfLastLine before
  stop_le : s.stop ≤ byteSize source

/-- The first span covers the second one. -/
def Contains (s t : Span) : Prop := s.offset ≤ t.offset ∧ t.stop ≤ s.stop

variable {source : List Char} {s t : Span}

theorem offset_le_stop (s : Span) : s.offset ≤ s.stop := Nat.le_add_right _ _

theorem offset_merge (s t : Span) : (s.merge t).offset = min s.offset t.offset := by
  unfold merge
  dsimp only
  split <;> omega

theorem stop_merge (s t : Span) : (s.merge t).stop = max s.stop t.stop := by
  have hs := s.offset_le_stop
  have ht := t.offset_le_stop
  unfold merge
  dsimp only [stop] at *
  split <;> omega

theorem contains_merge_left (s t : Span) : (s.merge t).Contains s :=
  ⟨by rw [offset_merge]; omega, by rw [stop_merge]; omega⟩

theorem contains_merge_right (s t : Span) : (s.merge t).Contains t :=
  ⟨by rw [offset_merge]; omega, by rw [stop_merge]; omega⟩

namespace LiesIn

/-- The span of a stretch of the source. -/
theorem between {before text after : List Char} (h : source = before ++ (text ++ after)) :
    (Span.between (Position.start.afterAll before)
      (Position.start.afterAll (before ++ text))).LiesIn source := by
  refine ⟨⟨before, text ++ after, h, ?_⟩, ?_⟩
  · rw [Position.afterAll_start before]
    exact ⟨rfl, rfl, rfl⟩
  · rw [Tokens.stop_between, h, ← List.append_assoc, byteSize_append (before ++ text)]
    exact Nat.le_add_right _ _

/-- The empty span at the end of the source. -/
theorem atEnd (source : List Char) :
    (Span.point (Position.start.afterAll source)).LiesIn source := by
  rw [Position.afterAll_start]
  exact ⟨⟨source, [], by simp, rfl, rfl, rfl⟩, le_rfl⟩

theorem merge (hs : s.LiesIn source) (ht : t.LiesIn source) : (s.merge t).LiesIn source := by
  refine ⟨?_, ?_⟩
  · unfold Span.merge
    dsimp only
    split
    · exact hs.starts
    · exact ht.starts
  · have := hs.stop_le
    have := ht.stop_le
    rw [stop_merge]
    omega

theorem atStart (h : s.LiesIn source) : s.atStart.LiesIn source :=
  ⟨h.starts, s.offset_le_stop.trans h.stop_le⟩

/-- A span is no further behind the start of its line than behind that of the source. -/
theorem column_le (h : s.LiesIn source) : s.column ≤ s.offset + 1 := by
  obtain ⟨before, after, -, hoffset, -, hcolumn⟩ := h.starts
  have := bytesOfLastLine_le before
  omega

/-- A span in a source has a line. -/
theorem ne_absent (h : s.LiesIn source) : s ≠ .absent := by
  rintro rfl
  obtain ⟨before, after, -, -, hline, -⟩ := h.starts
  simp only [absent] at hline
  omega

end LiesIn

end Span

/-! ### Tokens in a source -/

namespace Token

variable {source : List Char} {t : Token}

/-- A token **fits a source**: it covers its own text there, which is not empty, and has the shape
of its kind. -/
structure Fits (source : List Char) (t : Token) : Prop where
  covers : ∃ before after, source = before ++ (t.text.toList ++ after) ∧ t.span =
    .between (Position.start.afterAll before) (Position.start.afterAll (before ++ t.text.toList))
  nonempty : t.text.toList ≠ []
  shaped : t.Shaped

namespace Fits

theorem liesIn (h : t.Fits source) : t.span.LiesIn source := by
  obtain ⟨before, after, hsource, hspan⟩ := h.covers
  rw [hspan]
  exact .between hsource

theorem length_eq (h : t.Fits source) : t.span.length = byteSize t.text.toList := by
  obtain ⟨before, after, -, hspan⟩ := h.covers
  rw [hspan, Span.between, Tokens.offset_start, Tokens.offset_start, byteSize_append]
  exact Nat.add_sub_cancel_left _ _

theorem offset_lt_stop (h : t.Fits source) : t.span.offset < t.span.stop := by
  have := byteSize_pos h.nonempty
  rw [Span.stop, h.length_eq]
  omega

end Fits

end Token

/-! ### The tokens of a text -/

namespace Lexer

theorem readWithin_piece {n : Nat} {c : Cursor} (h : c.rest.length < n) :
    readWithin n c = readEnd (c.past c.rest []) ∨
      ∃ (skipped : List Char) (p : Scan.Piece), skipped ++ (p.text ++ p.rest) = c.rest ∧
        Scan.Skips (p.text ++ p.rest) skipped ∧ Scan.front (p.text ++ p.rest) = .piece p ∧
        p.text ≠ [] ∧ readWithin n c = readPiece (c.past skipped (p.text ++ p.rest)) p := by
  induction n generalizing c with
  | zero => omega
  | succ n ih =>
    obtain ⟨blank, rest, hmargin⟩ : ∃ blank rest, Scan.margin c.rest = (blank, rest) := ⟨_, _, rfl⟩
    have hwhole := Scan.margin_whole c.rest
    rw [hmargin] at hwhole
    dsimp only at hwhole
    rcases Scan.front_cases rest with ⟨hfront, rfl⟩ | ⟨text, rest', hfront, rfl, hcomment⟩ |
      ⟨p, hfront, hp⟩
    · have hstep : readWithin (n + 1) c = readEnd (c.past blank []) := by
        simp only [readWithin, hmargin, Cursor.past, hfront]
      rw [hstep, ← hwhole, List.append_nil]
      exact .inl rfl
    · have hstep : readWithin (n + 1) c = readWithin n (c.past (blank ++ text) rest') := by
        rw [← Cursor.past_past _ _ _ (text ++ rest')]
        simp only [readWithin, hmargin, Cursor.past, hfront]
      -- a comment is skipped with the margin before it, and what is left is shorter
      have hlength := congrArg List.length hwhole
      have hpos := List.length_pos_iff.mpr hcomment.nonempty
      rw [List.length_append, List.length_append] at hlength
      rw [hstep]
      rcases ih (c := c.past (blank ++ text) rest') (by simp only [Cursor.past]; omega) with
        hend | ⟨skipped, p, hrest, hskips, hfront', hne, hread⟩
      · refine .inl ?_
        rw [hend, Cursor.past_past, ← hwhole, ← List.append_assoc]
        rfl
      · obtain rfl : skipped ++ (p.text ++ p.rest) = rest' := hrest
        rw [← hwhole] at hmargin
        refine .inr ⟨blank ++ (text ++ skipped), p, ?_, .comment hmargin hfront hskips, hfront',
          hne, ?_⟩
        · rw [← hwhole, List.append_assoc, List.append_assoc]
        · rw [hread, Cursor.past_past, List.append_assoc]
    · have hstep : readWithin (n + 1) c = readPiece (c.past blank rest) p := by
        simp only [readWithin, hmargin, Cursor.past, hfront]
      rw [hstep]
      refine .inr ⟨blank, p, by rw [hp.whole, hwhole], .margin ?_, by rw [hp.whole, hfront],
        hp.nonempty, by rw [hp.whole]⟩
      rw [hp.whole, hwhole, hmargin]

/-- **One token, and the piece that it is read from**: behind what is skipped there is nothing, or
the piece is in front. -/
theorem read_piece (c : Cursor) : read c = readEnd (c.past c.rest []) ∨
    ∃ (skipped : List Char) (p : Scan.Piece), skipped ++ (p.text ++ p.rest) = c.rest ∧
      Scan.Skips (p.text ++ p.rest) skipped ∧ Scan.front (p.text ++ p.rest) = .piece p ∧
      p.text ≠ [] ∧ read c = readPiece (c.past skipped (p.text ++ p.rest)) p :=
  readWithin_piece (Nat.lt_succ_self _)

end Lexer

namespace Token

/-- What a token and the errors tell of the verdict on a text: its kind, or its fault. -/
inductive Tells (t : Token) (errors : List LexError) (text : List Char) :
    Except LexFault TokenKind → Prop
  | kind {kind : TokenKind} (hkind : t.kind = kind) (htext : t.text = String.ofList text) :
    Tells t errors text (.ok kind)
  | fault {fault : LexFault} (hkind : t.kind = .invalid) (htext : t.text = "")
    (herror : ⟨fault, t.span⟩ ∈ errors) : Tells t errors text (.error fault)

/-- A token **covers** a stretch of the source, between what stands before and behind it. -/
structure Covers (source : List Char) (t : Token) (before text after : List Char) : Prop where
  source_eq : source = before ++ (text ++ after)
  span_eq : t.span =
    .between (Position.start.afterAll before) (Position.start.afterAll (before ++ text))

/-- A token **is read** from a piece of the source that is in front behind `before`. -/
structure IsReadFrom (source : List Char) (errors : List LexError) (t : Token)
    (before : List Char) (p : Scan.Piece) : Prop where
  covers : t.Covers source before p.text p.rest
  front : Scan.front (p.text ++ p.rest) = .piece p
  nonempty : p.text ≠ []
  tells : t.Tells errors p.text p.verdict

/-- A token covers a stretch of the source, and is its text unless it is invalid. -/
def Stands (source : List Char) (t : Token) : Prop :=
  ∃ before text after, source = before ++ (text ++ after) ∧ text ≠ [] ∧
    t.span = .between (Position.start.afterAll before) (Position.start.afterAll (before ++ text)) ∧
    t.text = if t.kind = .invalid then "" else String.ofList text

theorem Tells.mono {t : Token} {errors errors' : List LexError} {text : List Char}
    {verdict : Except LexFault TokenKind} (h : t.Tells errors text verdict)
    (hsub : errors ⊆ errors') : t.Tells errors' text verdict := by
  cases h with
  | kind hkind htext => exact .kind hkind htext
  | fault hkind htext herror => exact .fault hkind htext (hsub herror)

/-- The kind of a token is the verdict, unless it is invalid. -/
theorem Tells.verdict_eq {t : Token} {errors : List LexError} {text : List Char}
    {verdict : Except LexFault TokenKind} (h : t.Tells errors text verdict)
    (hkind : t.kind ≠ .invalid) : verdict = .ok t.kind := by
  cases h with
  | kind heq => rw [heq]
  | fault hinvalid => exact absurd hinvalid hkind

theorem IsReadFrom.stands {source before : List Char} {errors : List LexError} {t : Token}
    {p : Scan.Piece} (h : t.IsReadFrom source errors before p) : t.Stands source := by
  refine ⟨before, p.text, p.rest, h.covers.source_eq, h.nonempty, h.covers.span_eq, ?_⟩
  have htells := h.tells
  cases hverdict : p.verdict with
  | ok kind =>
    rw [hverdict] at htells
    cases htells with
    | kind hkind htext =>
      have hproper := Scan.isText_front h.front hverdict
      simp only [TokenKind.isText, Bool.and_eq_true, decide_eq_true_eq] at hproper
      rw [hkind, if_neg hproper.2, htext]
  | error fault =>
    rw [hverdict] at htells
    cases htells with
    | fault hkind htext => rw [hkind, if_pos rfl, htext]

end Token

/-- The token of a piece tells the verdict on it. -/
theorem Lexer.tells_readPiece (c : Cursor) (p : Scan.Piece) :
    (readPiece c p).token.Tells (readPiece c p).error.toList p.text p.verdict := by
  cases hverdict : p.verdict with
  | ok kind => exact .kind (by simp only [readPiece, hverdict]) (by simp only [readPiece, hverdict])
  | error fault =>
    simp only [readPiece, hverdict]
    exact .fault rfl rfl List.mem_cons_self

namespace Tokens

/-- **The tokens behind a place**: there are none, or the first one is read from the piece behind
what is skipped, and the others are those behind this piece. -/
theorem readAll_succ {n : Nat} {c : Cursor} (before : List Char) (h : c.rest.length < n + 1)
    (hplace : c.position = Position.start.afterAll before) :
    ((readAll (n + 1) c).tokens = [] ∧
        (readAll (n + 1) c).finish.span = .point (Position.start.afterAll (before ++ c.rest))) ∨
      ∃ (t : Token) (skipped : List Char) (p : Scan.Piece) (c' : Cursor),
        t.IsReadFrom (before ++ c.rest) (readAll (n + 1) c).errors (before ++ skipped) p ∧
        Scan.Skips (p.text ++ p.rest) skipped ∧ c.rest = skipped ++ (p.text ++ c'.rest) ∧
        c'.rest = p.rest ∧ c'.position = Position.start.afterAll (before ++ skipped ++ p.text) ∧
        c'.rest.length < n ∧ (readAll (n + 1) c).tokens = t :: (readAll n c').tokens ∧
        (readAll (n + 1) c).finish = (readAll n c').finish ∧
        (readAll n c').errors ⊆ (readAll (n + 1) c).errors := by
  have hplaces (cs : List Char) :
      c.position.afterAll cs = Position.start.afterAll (before ++ cs) := by
    rw [hplace, Position.afterAll_append]
  rw [readAll]
  rcases Lexer.read_piece c with hend | ⟨skipped, p, hrest, hskips, hfront, hne, hread⟩
  · rw [hend]
    exact .inl ⟨rfl, congrArg Span.point (hplaces _)⟩
  · have hspan := Lexer.span_readPiece (c.past skipped (p.text ++ p.rest)) p
    have hnext := Lexer.next_readPiece (c.past skipped (p.text ++ p.rest)) p
    have htells := Lexer.tells_readPiece (c.past skipped (p.text ++ p.rest)) p
    have hkind := (Lexer.covers_readPiece (c.past skipped (p.text ++ p.rest))
      fun _ => Scan.isText_front hfront).kind
    rw [← hread] at hspan hnext htells hkind
    -- the token starts behind what is skipped, and the place behind it is that behind its text
    have hstart : (c.past skipped (p.text ++ p.rest)).position
        = Position.start.afterAll (before ++ skipped) := hplaces skipped
    rw [hstart, ← Position.afterAll_append] at hspan
    rw [Cursor.past_past] at hnext
    have hrest' : (Lexer.read c).next.rest = p.rest := by rw [hnext]; rfl
    have hlength := congrArg List.length hrest
    have hpos := List.length_pos_iff.mpr hne
    simp only [List.length_append] at hlength
    rw [if_neg hkind]
    refine .inr ⟨(Lexer.read c).token, skipped, p, (Lexer.read c).next,
      ⟨⟨?_, hspan⟩, hfront, hne, htells.mono (List.subset_append_left _ _)⟩, hskips, ?_, hrest',
      ?_, by rw [hrest']; omega, rfl, rfl, List.subset_append_right _ _⟩
    · rw [← hrest, List.append_assoc]
    · rw [hrest', hrest]
    · rw [hnext, List.append_assoc]
      exact hplaces _

theorem readFrom_readAll {source : List Char} {n : Nat} {c : Cursor} (before : List Char)
    (h : c.rest.length < n) (hsource : source = before ++ c.rest)
    (hplace : c.position = Position.start.afterAll before) :
    (∀ t ∈ (readAll n c).tokens, ∃ before p,
        t.IsReadFrom source (readAll n c).errors before p) ∧
      (readAll n c).finish.span = .point (Position.start.afterAll source) := by
  induction n generalizing c before with
  | zero => omega
  | succ n ih =>
    rcases readAll_succ before h hplace with ⟨hnone, hfinish⟩ |
      ⟨t, skipped, p, c', hfrom, -, hrest, -, hplace', hless, htokens, hfinish, herrors⟩
    · rw [hnone, hfinish, hsource]
      exact ⟨List.forall_mem_nil _, rfl⟩
    · have hsource' : source = before ++ skipped ++ p.text ++ c'.rest := by
        rw [hsource, hrest]
        simp only [List.append_assoc]
      obtain ⟨hlater, hlast⟩ := ih _ hless hsource' hplace'
      rw [htokens, hfinish]
      refine ⟨List.forall_mem_cons.mpr ⟨⟨_, p, hsource ▸ hfrom⟩, fun t ht => ?_⟩, hlast⟩
      obtain ⟨before', p', hcovers, hfront', hne', htells'⟩ := hlater t ht
      exact ⟨before', p', hcovers, hfront', hne', htells'.mono herrors⟩

end Tokens

/-- **Every token of a text is read from a piece of it.** -/
theorem readFrom_tokenize (cs : List Char) :
    ∀ t ∈ (tokenize cs).tokens, ∃ before p, t.IsReadFrom cs (tokenize cs).errors before p :=
  (Tokens.readFrom_readAll [] (Nat.lt_succ_self _) rfl rfl).1

theorem stands_tokenize (cs : List Char) :
    (∀ t ∈ (tokenize cs).tokens, t.Stands cs) ∧
      (tokenize cs).finish.span = .point (Position.start.afterAll cs) := by
  refine ⟨fun t ht => ?_, (Tokens.readFrom_readAll [] (Nat.lt_succ_self _) rfl rfl).2⟩
  obtain ⟨before, p, h⟩ := readFrom_tokenize cs t ht
  exact h.stands

/-- The tokens of a text stand one behind the other, up to its end. -/
theorem isTiling_tokenize (cs : List Char) : (tokenize cs).IsTiling cs Position.start :=
  Tokens.isTiling_readAll [] (Nat.lt_succ_self _) rfl rfl

/-- **The tokens of a text fit it**, invalid ones apart. -/
theorem fits_tokenize (cs : List Char) :
    ∀ t ∈ (tokenize cs).tokens, t.kind ≠ .invalid → t.Fits cs := by
  intro t ht hkind
  obtain ⟨before, text, after, hsource, hne, hspan, htext⟩ := (stands_tokenize cs).1 t ht
  rw [if_neg hkind] at htext
  have hlist : t.text.toList = text := by rw [htext, String.toList_ofList]
  refine ⟨⟨before, after, ?_, ?_⟩, ?_, shaped_tokenize cs t ht⟩
  · rwa [hlist]
  · rwa [hlist]
  · rwa [hlist]

/-- **All spans of the tokens of a text lie in it**, those of invalid tokens and errors among
them. -/
theorem liesIn_tokenize (cs : List Char) :
    (∀ t ∈ (tokenize cs).tokens, t.span.LiesIn cs) ∧ (tokenize cs).finish.span.LiesIn cs ∧
      ∀ e ∈ (tokenize cs).errors, e.span.LiesIn cs := by
  obtain ⟨hstands, hfinish⟩ := stands_tokenize cs
  have htokens : ∀ t ∈ (tokenize cs).tokens, t.span.LiesIn cs := by
    intro t ht
    obtain ⟨before, text, after, hsource, -, hspan, -⟩ := hstands t ht
    rw [hspan]
    exact .between hsource
  refine ⟨htokens, by rw [hfinish]; exact .atEnd cs, fun e he => ?_⟩
  -- an error stands where an invalid token does
  have hmem : e.span ∈ (tokenize cs).errors.map (·.span) := List.mem_map_of_mem he
  rw [(isTiling_tokenize cs).errors] at hmem
  obtain ⟨t, ht, hspan⟩ := List.mem_map.mp hmem
  rw [← hspan]
  exact htokens t (List.mem_filter.mp ht).1

/-! ### One token -/

/-- The span of a whole text. -/
def Span.whole (cs : List Char) : Span := ⟨0, byteSize cs, 1, 1⟩

/-- **A text that is nothing but one token** of a kind. -/
structure Scan.IsToken (cs : List Char) (kind : TokenKind) : Prop where
  margin : margin cs = ([], cs)
  front : front cs = .piece ⟨cs, [], .ok kind⟩

/-- The tokens of a text that is one token. -/
theorem tokenize_token {cs : List Char} {kind : TokenKind} (h : Scan.IsToken cs kind)
    (hkind : kind ≠ .endOfSource) :
    (tokenize cs).tokens = [⟨kind, String.ofList cs, .whole cs⟩] ∧ (tokenize cs).errors = [] ∧
      (tokenize cs).finish.kind = .endOfSource := by
  have hread : Lexer.read (.ofText cs) = Lexer.readPiece (.ofText cs) ⟨cs, [], .ok kind⟩ := by
    rw [Lexer.read, Lexer.readWithin]
    simp only [Cursor.ofText, Cursor.past, Position.afterAll, h.margin, h.front, List.foldl_nil]
  have hspan : Span.between .start (Position.start.afterAll cs) = .whole cs := by
    simp only [Span.between, Span.whole, Position.offset_afterAll, Position.start, Nat.zero_add,
      Nat.sub_zero]
  have hnext : (Lexer.readPiece (.ofText cs) ⟨cs, [], .ok kind⟩).next.rest = [] := rfl
  have htoken : (Lexer.readPiece (.ofText cs) ⟨cs, [], .ok kind⟩).token
      = ⟨kind, String.ofList cs, .whole cs⟩ := by
    simp only [Lexer.readPiece, Cursor.ofText, Cursor.past, hspan]
  obtain ⟨n, hn⟩ : ∃ n, cs.length = n + 1 := by
    refine Nat.exists_eq_succ_of_ne_zero fun hnil => ?_
    have hfront := h.front
    rw [List.length_eq_zero_iff.mp hnil] at hfront
    cases hfront
  rw [tokenize, hn, Tokens.readAll]
  simp only [hread, htoken, if_neg hkind]
  rw [Tokens.readAll, if_pos (Lexer.kind_read_end hnext)]
  exact ⟨rfl, rfl, Lexer.kind_read_end hnext⟩

end JavaGraft
