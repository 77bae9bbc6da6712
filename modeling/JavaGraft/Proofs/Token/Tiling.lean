import JavaGraft.Proofs.Token.Kinds
import JavaGraft.Proofs.Token.Pieces

/-!
# The tokens of a text tile it

Reading a text loses nothing of it. Its tokens, the invalid ones included, stand one behind the
other; each covers at least one character and, unless it is invalid, is just the text it covers; and
what stands between two of them is skipped for a reason: it consists of blanks, byte order marks and
complete comments. The end of the source stands where the text ends, and there is one error for each
invalid token. All of this is said by `JavaGraft.Tokens.IsTiling`, and `JavaGraft.tokenize_tiles`
proves it of every text, for the tokens that a stream hands out one by one as for those that are
read at once.

The proof goes forward from a cursor. `JavaGraft.Lexer.read_spec` says what one reading takes off
the text, and `JavaGraft.Tokens.IsTiling.cons` that a token in front of a tiling gives a tiling
again.
-/

namespace JavaGraft

/-! ### Places in a text -/

theorem byteSize_append (cs ds : List Char) : byteSize (cs ++ ds) = byteSize cs + byteSize ds := by
  induction cs with
  | nil => simp [byteSize]
  | cons c cs ih => simp [byteSize, ih, Nat.add_assoc]

namespace Position

theorem afterAll_append (p : Position) (cs ds : List Char) :
    p.afterAll (cs ++ ds) = (p.afterAll cs).afterAll ds := List.foldl_append

theorem offset_afterAll (p : Position) (cs : List Char) :
    (p.afterAll cs).offset = p.offset + byteSize cs := by
  induction cs generalizing p with
  | nil => rfl
  | cons c cs ih =>
    have hc : (p.after c).offset = p.offset + c.utf8Size := by
      unfold after
      split <;> rfl
    rw [show p.afterAll (c :: cs) = (p.after c).afterAll cs from rfl, ih, hc, byteSize,
      Nat.add_assoc]

end Position

theorem Cursor.past_past (c : Cursor) (cs ds rest rest' : List Char) :
    (c.past cs rest).past ds rest' = c.past (cs ++ ds) rest' := by
  simp only [Cursor.past, Position.afterAll_append]

theorem splitAtByte?_append (cs ds : List Char) :
    splitAtByte? (byteSize cs) (cs ++ ds) = some (cs, ds) := by
  induction cs with
  | nil => cases ds <;> rfl
  | cons c cs ih =>
    have hc := c.utf8Size_pos
    rw [byteSize, List.cons_append, splitAtByte?, if_neg (by omega), if_pos (by omega),
      Nat.add_sub_cancel_left, ih]
    rfl

theorem textBetween?_append (before text after : List Char) :
    textBetween? (before ++ text ++ after) (byteSize before) (byteSize (before ++ text)) =
      some text := by
  rw [textBetween?, byteSize_append, if_neg (by omega), List.append_assoc, splitAtByte?_append,
    Nat.add_sub_cancel_left]
  simp [splitAtByte?_append]

/-! ### What is skipped -/

/-- What may be skipped in front of `after`: blanks, byte order marks and complete comments. -/
inductive Filler (after : List Char) : List Char → Prop
  | done : Filler after []
  | blank {c : Char} {text : List Char} (h : Scan.isMargin c) (later : Filler after text) :
      Filler after (c :: text)
  | comment {comment text : List Char} (h : Scan.IsComment (text ++ after) comment)
      (later : Filler after text) : Filler after (comment ++ text)

theorem Filler.margin {after text : List Char} (later : Filler after text) (cs : List Char) :
    Filler after ((Scan.margin cs).1 ++ text) := by
  suffices h : ∀ blank : List Char, (∀ c ∈ blank, Scan.isMargin c) → Filler after (blank ++ text) by
    exact h _ fun c hc => Scan.isMargin_of_mem_margin hc
  intro blank hblank
  induction blank with
  | nil => exact later
  | cons c blank ih =>
    obtain ⟨hc, hblank⟩ := List.forall_mem_cons.mp hblank
    exact .blank hc (ih hblank)

namespace Lexer

/-! ### One token -/

/-- What a reading of `text` gives: the text itself, or an error in its place. -/
structure Reading.Covers (r : Reading) (text : List Char) : Prop where
  kind : r.token.kind ≠ .endOfSource
  lexeme : r.token.text = if r.token.kind = .invalid then "" else String.ofList text
  error : r.error.map (·.span) = if r.token.kind = .invalid then some r.token.span else none

theorem covers_readPiece (c : Cursor) {p : Scan.Piece}
    (hkind : ∀ kind, p.verdict = .ok kind → kind.isText) : (readPiece c p).Covers p.text := by
  cases hverdict : p.verdict with
  | ok kind =>
    have htext := hkind kind hverdict
    simp only [TokenKind.isText, Bool.and_eq_true, decide_eq_true_eq] at htext
    simp only [readPiece, hverdict]
    exact ⟨htext.1, (if_neg htext.2).symm, (if_neg htext.2).symm⟩
  | error fault =>
    simp only [readPiece, hverdict]
    exact ⟨TokenKind.noConfusion, rfl, rfl⟩

theorem span_readPiece (c : Cursor) (p : Scan.Piece) :
    (readPiece c p).token.span = .between c.position (c.position.afterAll p.text) := by
  simp only [readPiece]
  split <;> rfl

theorem next_readPiece (c : Cursor) (p : Scan.Piece) :
    (readPiece c p).next = c.past p.text p.rest := by
  simp only [readPiece]
  split <;> rfl

/-- What a reading takes off a text: what it skips, then the text of a token or nothing. -/
inductive Reads (c : Cursor) : Reading → Prop
  | finish (h : Filler [] c.rest) : Reads c (readEnd (c.past c.rest []))
  | token {r : Reading} (filler text rest : List Char) (hrest : filler ++ (text ++ rest) = c.rest)
      (hfiller : Filler (text ++ rest) filler) (hne : text ≠ []) (hcovers : r.Covers text)
      (hspan : r.token.span =
        .between (c.position.afterAll filler) (c.position.afterAll (filler ++ text)))
      (hnext : r.next = c.past (filler ++ text) rest) : Reads c r

namespace Reads

variable {c : Cursor} {r : Reading}

/-- Reading may start by skipping something. -/
theorem skip {skipped rest : List Char} (h : Reads (c.past skipped rest) r)
    (hrest : skipped ++ rest = c.rest)
    (hskip : ∀ text after, text ++ after = rest → Filler after text →
      Filler after (skipped ++ text)) : Reads c r := by
  cases h with
  | finish hfiller =>
    change Filler [] rest at hfiller
    change Reads c (readEnd ((c.past skipped rest).past rest []))
    rw [Cursor.past_past, hrest]
    refine .finish ?_
    rw [← hrest]
    exact hskip rest [] (List.append_nil rest) hfiller
  | token filler text rest' htoken hfiller hne hcovers hspan hnext =>
    have hplace (cs : List Char) : (c.past skipped rest).position.afterAll cs =
        c.position.afterAll (skipped ++ cs) := (Position.afterAll_append _ _ _).symm
    rw [hplace, hplace, ← List.append_assoc] at hspan
    rw [Cursor.past_past, ← List.append_assoc] at hnext
    refine .token (skipped ++ filler) text rest' ?_ (hskip filler _ htoken hfiller) hne hcovers
      hspan hnext
    rw [List.append_assoc, htoken]
    exact hrest

/-- A token takes something off the text. -/
theorem shorter (h : Reads c r) (hkind : r.token.kind ≠ .endOfSource) :
    r.next.rest.length < c.rest.length := by
  cases h with
  | finish => exact (hkind rfl).elim
  | token filler text rest hrest _ hne _ _ hnext =>
    have hlength := congrArg List.length hrest
    have hpos := List.length_pos_iff.mpr hne
    rw [List.length_append, List.length_append] at hlength
    simp only [hnext, Cursor.past]
    omega

end Reads

theorem readWithin_spec {n : Nat} {c : Cursor} (h : c.rest.length < n) :
    Reads c (readWithin n c) := by
  induction n generalizing c with
  | zero => omega
  | succ n ih =>
    have hmargin := Scan.margin_whole c.rest
    refine .skip ?_ hmargin fun text after _ htext => htext.margin c.rest
    simp only [readWithin]
    generalize hc' : c.past (Scan.margin c.rest).1 (Scan.margin c.rest).2 = c'
    have hlength : c'.rest.length ≤ c.rest.length := by
      have := congrArg List.length hmargin
      rw [List.length_append] at this
      simp only [← hc', Cursor.past]
      omega
    -- behind the margin there is the end, a comment behind which it goes on, or a token
    rcases Scan.front_cases c'.rest with ⟨hfront, hrest⟩ | ⟨text, rest, hfront, hrest, hcomment⟩ |
      ⟨p, hfront, hp⟩
    · have hstay : c'.past c'.rest [] = c' := by
        rw [hrest]
        exact congrArg (Cursor.mk · c'.position) hrest.symm
      have hfinish : Reads c' (readEnd (c'.past c'.rest [])) := .finish (by rw [hrest]; exact .done)
      rw [hfront]
      rwa [hstay] at hfinish
    · rw [hfront]
      refine .skip (ih ?_) hrest fun text' after hsplit htext => .comment (hsplit ▸ hcomment) htext
      have := congrArg List.length hrest
      rw [List.length_append] at this
      have hpos := List.length_pos_iff.mpr hcomment.nonempty
      simp only [Cursor.past]
      omega
    · rw [hfront]
      exact .token [] p.text p.rest hp.whole .done hp.nonempty
        (covers_readPiece c' fun kind => Scan.isText_front hfront) (span_readPiece c' p)
        (next_readPiece c' p)

/-- **One token**: what is skipped in front of it is a filler, and the token covers what follows,
or the text has ended. -/
theorem read_spec (c : Cursor) : Reads c (read c) := readWithin_spec (Nat.lt_succ_self _)

end Lexer

/-! ### Tilings -/

/-- What stands between two spans of a text: something that is skipped. -/
def Gap (source : List Char) (s t : Span) : Prop :=
  ∃ before gap after, source = before ++ gap ++ after ∧ s.stop = byteSize before ∧
    t.offset = byteSize (before ++ gap) ∧ Filler after gap

/-- For what stands behind a span only its end matters. -/
theorem isChain_gap_congr {source : List Char} {s s' : Span} {spans : List Span}
    (h : s.stop = s'.stop) (hgaps : (s :: spans).IsChain (Gap source)) :
    (s' :: spans).IsChain (Gap source) := by
  cases hgaps with
  | singleton => exact .singleton _
  | cons_cons hgap hlater =>
    obtain ⟨before, gap, after, hsource, hstop, hgap⟩ := hgap
    exact .cons_cons ⟨before, gap, after, hsource, h.symm.trans hstop, hgap⟩ hlater

namespace Tokens

/-- The spans of the tokens, the end of the source included. -/
def spans (r : Tokens) : List Span := (r.tokens ++ [r.finish]).map (·.span)

/-- The tokens tile a text from a position on.

* `kinds`, `finish`, `atEnd`: only the last token stands for the end, it is empty, and it stands
  where the text ends.
* `ordered`: each token ends before the next one starts.
* `lexemes`: each token covers a text that is not empty, and is that text unless it is invalid.
* `gaps`: what stands between two tokens is skipped for a reason.
* `errors`: the errors stand where the invalid tokens do. -/
structure IsTiling (r : Tokens) (source : List Char) (first : Position) : Prop where
  kinds : ∀ t ∈ r.tokens, t.kind ≠ .endOfSource
  finish : r.finish.kind = .endOfSource ∧ r.finish.text = ""
  atEnd : r.finish.span.offset = byteSize source ∧ r.finish.span.length = 0
  ordered : (Span.point first :: r.spans).Pairwise fun s t => s.stop ≤ t.offset
  lexemes : ∀ t ∈ r.tokens, ∃ text, t.span.textIn? source = some text ∧ text ≠ [] ∧
    t.text = if t.kind = .invalid then "" else String.ofList text
  gaps : (Span.point first :: r.spans).IsChain (Gap source)
  errors : r.errors.map (·.span) = (r.tokens.filter (·.kind = .invalid)).map (·.span)

section

variable {source before filler : List Char}

theorem offset_start (cs : List Char) : (Position.start.afterAll cs).offset = byteSize cs := by
  rw [Position.offset_afterAll]
  exact Nat.zero_add _

theorem stop_between (cs ds : List Char) :
    (Span.between (Position.start.afterAll cs) (Position.start.afterAll (cs ++ ds))).stop =
      byteSize (cs ++ ds) := by
  simp only [Span.between, Span.stop, offset_start, byteSize_append]
  omega

/-- Behind the last token comes a filler. -/
theorem isTiling_end (hsource : source = before ++ filler) (h : Filler [] filler) :
    IsTiling ⟨[], ⟨.endOfSource, "", .point (Position.start.afterAll source)⟩, []⟩ source
      (Position.start.afterAll before) := by
  have hgap : Gap source (Span.point (Position.start.afterAll before))
      (Span.point (Position.start.afterAll source)) :=
    ⟨before, filler, [], by rw [hsource, List.append_nil], offset_start before,
      by rw [← hsource]; exact offset_start source, h⟩
  refine ⟨nofun, ⟨rfl, rfl⟩, ⟨offset_start source, rfl⟩, ?_, nofun, ?_, rfl⟩
  · simp [spans, Span.point, Span.stop, offset_start, hsource, byteSize_append]
  · exact .cons_cons hgap (.singleton _)

/-- **A token in front of a tiling gives a tiling.** -/
theorem IsTiling.cons {r : Lexer.Reading} {later : Tokens} {text after : List Char}
    (hlater : later.IsTiling source (Position.start.afterAll (before ++ filler ++ text)))
    (hsource : source = before ++ filler ++ (text ++ after)) (h : Filler (text ++ after) filler)
    (hne : text ≠ []) (hr : r.Covers text)
    (hspan : r.token.span = .between (Position.start.afterAll (before ++ filler))
      (Position.start.afterAll (before ++ filler ++ text))) :
    IsTiling ⟨r.token :: later.tokens, later.finish, r.error.toList ++ later.errors⟩ source
      (Position.start.afterAll before) := by
  have hstop : r.token.span.stop = byteSize (before ++ filler ++ text) := by
    rw [hspan, stop_between]
  have hoffset : r.token.span.offset = byteSize (before ++ filler) := by
    rw [hspan]
    exact offset_start _
  have hgap : Gap source (Span.point (Position.start.afterAll before)) r.token.span :=
    ⟨before, filler, text ++ after, hsource, offset_start before, hoffset, h⟩
  have htext : r.token.span.textIn? source = some text := by
    rw [Span.textIn?, hoffset, hstop, hsource, ← List.append_assoc]
    exact textBetween?_append _ text after
  -- the later tokens are in order and behind the place where this one stops
  obtain ⟨hfirst, hordered⟩ := List.pairwise_cons.mp hlater.ordered
  refine ⟨List.forall_mem_cons.mpr ⟨hr.kind, hlater.kinds⟩, hlater.finish, hlater.atEnd, ?_,
    List.forall_mem_cons.mpr ⟨⟨text, htext, hne, hr.lexeme⟩, hlater.lexemes⟩, ?_, ?_⟩
  · have hbefore : (Span.point (Position.start.afterAll before)).stop ≤ r.token.span.offset := by
      rw [hoffset, byteSize_append]
      exact Nat.le_add_right_of_le (offset_start before).le
    have hafter : ∀ t ∈ later.spans, r.token.span.stop ≤ t.offset := fun t ht => by
      rw [hstop, ← offset_start]
      exact hfirst t ht
    refine List.pairwise_cons.mpr ⟨List.forall_mem_cons.mpr ⟨hbefore, fun t ht => ?_⟩,
      List.pairwise_cons.mpr ⟨hafter, hordered⟩⟩
    exact hbefore.trans ((Nat.le_add_right _ _).trans (hafter t ht))
  · have hplace : (Span.point (Position.start.afterAll (before ++ filler ++ text))).stop =
        r.token.span.stop := (offset_start _).trans hstop.symm
    exact .cons_cons hgap (isChain_gap_congr hplace hlater.gaps)
  · have herror : r.error.toList.map (·.span) =
        if r.token.kind = .invalid then [r.token.span] else [] := by
      rw [← Option.toList_map, hr.error]
      split_ifs <;> rfl
    rw [List.map_append, herror, hlater.errors, List.filter_cons]
    split_ifs with hkind hinvalid hinvalid <;> simp_all

/-- **Reading on from a cursor tiles the rest of the text.** -/
theorem isTiling_readAll {n : Nat} {c : Cursor} (before : List Char) (h : c.rest.length < n)
    (hsource : source = before ++ c.rest) (hplace : c.position = Position.start.afterAll before) :
    (readAll n c).IsTiling source (Position.start.afterAll before) := by
  induction n generalizing c before with
  | zero => omega
  | succ n ih =>
    have hshorter := (Lexer.read_spec c).shorter
    have hread := Lexer.read_spec c
    rw [readAll]
    generalize Lexer.read c = r at hread hshorter ⊢
    cases hread with
    | finish hfiller =>
      have hend : (c.past c.rest []).position = Position.start.afterAll source := by
        rw [Cursor.past, hplace, ← Position.afterAll_append, ← hsource]
      simp only [Lexer.readEnd, if_pos, hend]
      exact isTiling_end hsource hfiller
    | token filler text rest hrest hfiller hne hcovers hspan hnext =>
      have hall : source = before ++ filler ++ (text ++ rest) := by
        rw [hsource, ← hrest, List.append_assoc]
      have hplaces (cs : List Char) :
          c.position.afterAll cs = Position.start.afterAll (before ++ cs) := by
        rw [hplace, Position.afterAll_append]
      rw [hplaces, hplaces, ← List.append_assoc] at hspan
      have hstop : r.next.position = Position.start.afterAll (before ++ filler ++ text) := by
        rw [hnext, Cursor.past, hplaces, List.append_assoc]
      have hbehind : source = before ++ filler ++ text ++ r.next.rest := by
        rw [hall, hnext, List.append_assoc _ text]
        rfl
      rw [if_neg hcovers.kind]
      -- what is behind the token is shorter, and tiled by the later ones
      have hless := hshorter hcovers.kind
      have hlater := ih _ (by omega) hbehind hstop
      exact hlater.cons hall hfiller hne hcovers hspan

end

end Tokens

/-! ### Token by token -/

/-- The next `n` tokens of a stream, and the stream behind them. -/
def Lexer.taken : Nat → Lexer → List Token × Lexer
  | 0, l => ([], l)
  | n + 1, l =>
    let (t, l) := l.next
    let (ts, l) := taken n l
    (t :: ts, l)

/-- A stream without lookahead hands out what reading at once finds. -/
theorem Tokens.taken_readAll {n : Nat} {c : Cursor} (errors : List LexError)
    (h : c.rest.length < n) :
    ∃ place, Lexer.taken ((readAll n c).tokens.length + 1) ⟨c, [], errors⟩ =
      ((readAll n c).tokens ++ [(readAll n c).finish],
        ⟨place, [], errors ++ (readAll n c).errors⟩) := by
  induction n generalizing c errors with
  | zero => omega
  | succ n ih =>
    have hnext : (⟨c, [], errors⟩ : Lexer).next = ((Lexer.read c).token,
        ⟨(Lexer.read c).next, [], errors ++ (Lexer.read c).error.toList⟩) := rfl
    have hshorter := (Lexer.read_spec c).shorter
    have hread := Lexer.read_spec c
    rw [readAll]
    generalize Lexer.read c = r at hread hnext hshorter ⊢
    by_cases hkind : r.token.kind = .endOfSource
    · have herror : r.error = none := by
        cases hread with
        | finish => rfl
        | token _ _ _ _ _ _ hcovers => exact (hcovers.kind hkind).elim
      exact ⟨r.next, by simp [hkind, Lexer.taken, hnext, herror]⟩
    · have hless := hshorter hkind
      obtain ⟨place, htaken⟩ := ih (c := r.next) (errors ++ r.error.toList) (by omega)
      refine ⟨place, ?_⟩
      rw [if_neg hkind, List.length_cons, Lexer.taken, hnext]
      simp [htaken]

/-- **The tokens of a text tile it**, and a stream that reads the text hands out just these tokens
and records just these errors. -/
theorem tokenize_tiles (cs : List Char) :
    (tokenize cs).IsTiling cs .start ∧
      ∃ place, (Lexer.ofText cs).taken ((tokenize cs).tokens.length + 1) =
        ((tokenize cs).tokens ++ [(tokenize cs).finish], ⟨place, [], (tokenize cs).errors⟩) := by
  have henough : (Cursor.ofText cs).rest.length < cs.length + 1 := Nat.lt_succ_self _
  exact ⟨Tokens.isTiling_readAll [] henough rfl rfl, Tokens.taken_readAll [] henough⟩

end JavaGraft
