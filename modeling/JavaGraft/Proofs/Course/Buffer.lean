import JavaGraft.Proofs.Course.Units
import Mathlib.Data.Nat.PSub

/-!
# Parsers on a buffer

Instead of tokens in front and tokens behind, a parser may keep one buffer of all tokens, the end of
the source being the last one, and an index into it (`JavaGraft.TokenBuffer`). Then everything it
does with tokens comes down to indices into the buffer, to slices of texts of tokens, cut at bytes
that are counted from either end, and to sums and differences of machine words. Each of these may
be out of range. The operations below give nothing if it is.

None of them ever is, as far as a source is shorter than a machine word can count
(`JavaGraft.readsInRange`): wherever a parser gets to, these operations give just what the
operations on states give.
-/

namespace JavaGraft

/-! ### Machine words and slices -/

/-- A number that fits a machine word of 32 bits. -/
def wordOf? (n : Nat) : Option Nat := if n < 2 ^ 32 then some n else none

theorem wordOf?_eq {n : Nat} (h : n < 2 ^ 32) : wordOf? n = some n := if_pos h

/-- A text without so many bytes at its start and at its end. -/
def trimBytes? (first last : Nat) (cs : List Char) : Option (List Char) := do
  textBetween? cs first (← (byteSize cs).psub last)

/-- Bytes can be cut off where characters start. -/
theorem trimBytes?_append (before text after : List Char) :
    trimBytes? (byteSize before) (byteSize after) (before ++ text ++ after) = some text := by
  have hsize : (byteSize (before ++ text ++ after)).psub (byteSize after)
      = some (byteSize (before ++ text)) := by
    rw [Nat.psub_eq_some, byteSize_append (before ++ text)]
  rw [trimBytes?, hsize]
  exact textBetween?_append before text after

namespace Span

/-- The offset one past the last byte, as a machine word. -/
def stop? (s : Span) : Option Nat := wordOf? (s.offset + s.length)

/-- The smallest span that covers both. -/
def merge? (s t : Span) : Option Span := do
  let first := if s.offset ≤ t.offset then s else t
  let length ← (max (← s.stop?) (← t.stop?)).psub first.offset
  return { first with length }

variable {source : List Char} {s t : Span}

theorem stop?_eq (hs : s.LiesIn source) (hsize : byteSize source < 2 ^ 32) :
    s.stop? = some s.stop :=
  wordOf?_eq (hs.stop_le.trans_lt hsize)

theorem merge?_eq (hs : s.LiesIn source) (ht : t.LiesIn source)
    (hsize : byteSize source < 2 ^ 32) : s.merge? t = some (s.merge t) := by
  have hle : (if s.offset ≤ t.offset then s else t).offset ≤ max s.stop t.stop := by
    split
    · exact s.offset_le_stop.trans (le_max_left _ _)
    · exact t.offset_le_stop.trans (le_max_right _ _)
  rw [merge?, stop?_eq hs hsize, stop?_eq ht hsize]
  simp only [Option.bind_eq_bind, Option.bind_some, Nat.psub_eq_sub hle]
  rfl

end Span

/-! ### Literals -/

namespace Literal

/-- What a literal says, without the suffix of a number and without quotes. A number of a kind that
need not have a suffix stays as it is. -/
def core? (kind : LiteralKind) (cs : List Char) : Option (List Char) :=
  match kind with
  | .int | .double => some cs
  | .long | .float => trimBytes? 0 1 cs
  | .char => trimBytes? 1 1 cs
  | .string => if threeQuotes.isPrefixOf cs then trimBytes? 3 3 cs else trimBytes? 1 1 cs

/-- What a literal denotes that says `core`; a string may be that of a text block. -/
def ofCore (kind : LiteralKind) (block : Bool) (core : List Char) : Except LiteralFault Literal :=
  match kind with
  | .int => ofInt core
  | .double => ofDouble core
  | .long =>
    match word? core with
    | none => .error .badLong
    | some n => .ok (.long (Int64.ofNat n))
  | .float =>
    match scientific? (dropSeparators core) with
    | none => .error .badFloat
    | some (m, e) => .ok (.float (UInt32.ofNat (BinaryFormat.single.ofDecimal m e)))
  | .char =>
    match Escape.unescape core with
    | none => .error .badEscape
    | some [c] => .ok (.char c)
    | some _ => .error .notOneChar
  | .string =>
    let lines := Lines.ofText (Escape.afterFirstLine core)
    let body := if block then
      Lines.unlines (lines.map fun l =>
        Lines.trimEnd (Escape.dropIndent (Escape.commonIndent lines) l))
      else core
    match Escape.unescape body with
    | none => .error .badEscape
    | some text => .ok (.string (String.ofList text))

/-- The value of a literal of a kind, cut at bytes. -/
def ofText? (kind : LiteralKind) (cs : List Char) : Option (Except LiteralFault Literal) :=
  (core? kind cs).map (ofCore kind (threeQuotes.isPrefixOf cs))

theorem trimBytes?_mark {mark : Char} (hmark : mark.utf8Size = 1) (body : List Char) :
    trimBytes? 0 1 (body ++ [mark]) = some body := by
  have h := trimBytes?_append [] body [mark]
  rwa [List.nil_append, show byteSize [mark] = 1 by simp [byteSize, hmark]] at h

theorem trimBytes?_quoted {quote : Char} (hquote : quote.utf8Size = 1) (body : List Char) :
    trimBytes? 1 1 (quote :: (body ++ [quote])) = some body := by
  have h := trimBytes?_append [quote] body [quote]
  rwa [show byteSize [quote] = 1 by simp [byteSize, hquote]] at h

theorem inside_quoted (quote : Char) (body : List Char) :
    inside (quote :: (body ++ [quote])) = body := by simp [inside]

/-- **Where a literal has the shape of its kind, it can be cut**, and denotes what it does. -/
theorem ofText?_eq {kind : LiteralKind} {cs : List Char}
    (h : (TokenKind.literal kind).Shape cs) : ofText? kind cs = some (ofText kind cs) := by
  unfold ofText? core?
  cases kind with
  | int => rfl
  | double => rfl
  | long =>
    obtain ⟨body, mark, rfl, hmark⟩ := h
    dsimp only
    rw [trimBytes?_mark (by rcases hmark with rfl | rfl <;> rfl), ofText, ofLong,
      List.dropLast_concat]
    rfl
  | float =>
    obtain ⟨body, mark, rfl, hmark⟩ := h
    dsimp only
    rw [trimBytes?_mark (by rcases hmark with rfl | rfl <;> rfl), ofText, ofFloat,
      List.dropLast_concat]
    rfl
  | char =>
    obtain ⟨body, rfl⟩ := h
    dsimp only
    rw [trimBytes?_quoted rfl, ofText, ofChar, inside_quoted]
    rfl
  | string =>
    -- a text block has three quotes at either end, and a string of one line has one
    rcases h with ⟨body, rfl⟩ | ⟨⟨body, rfl⟩, hplain⟩
    · have hblock : threeQuotes.isPrefixOf (threeQuotes ++ (body ++ threeQuotes)) = true := by
        simp
      have hcore : trimBytes? 3 3 (threeQuotes ++ (body ++ threeQuotes)) = some body := by
        rw [← List.append_assoc]
        exact trimBytes?_append threeQuotes body threeQuotes
      have hbody : ((threeQuotes ++ (body ++ threeQuotes)).drop 3).take
          ((threeQuotes ++ (body ++ threeQuotes)).length - 6) = body := by
        simp [threeQuotes]
      dsimp only
      rw [if_pos hblock, hcore, hblock, ofText, ofString, ← threeQuotes, if_pos hblock,
        Escape.blockBody, hbody]
      rfl
    · dsimp only
      rw [if_neg (by simp [hplain]), trimBytes?_quoted rfl, hplain, ofText, ofString, ← threeQuotes,
        if_neg (by simp [hplain]), inside_quoted]
      rfl

end Literal

/-! ### Buffers -/

/-- What a token of angles leaves behind its first angle. -/
def Token.behindAngle? (t : Token) (rest : TokenKind) : Option Token := do
  let text ← trimBytes? 1 0 t.text.toList
  let offset ← wordOf? (t.span.offset + 1)
  let length ← t.span.length.psub 1
  let column ← wordOf? (t.span.column + 1)
  return ⟨rest, String.ofList text, ⟨offset, length, t.span.line, column⟩⟩

/-- All tokens, the end of the source being the last one, and the index of the next one. -/
structure TokenBuffer where
  tokens : List Token
  position : Nat

namespace TokenBuffer

/-- The index of the last token. -/
def last? (b : TokenBuffer) : Option Nat := b.tokens.length.psub 1

/-- The token that comes `n` places after the next one; behind the last one it is the last one. -/
def nth? (b : TokenBuffer) (n : Nat) : Option Token := do
  b.tokens[min (b.position + n) (← b.last?)]?

/-- The last token consumed; before the first one it is the next token. -/
def previous? (b : TokenBuffer) : Option Token := b.tokens[b.position - 1]?

/-- Takes the next token; at the end it stays. -/
def advance? (b : TokenBuffer) : Option (Token × TokenBuffer) := do
  let t ← b.nth? 0
  return (t, if b.position < (← b.last?) then { b with position := b.position + 1 } else b)

/-- Replaces the next token. -/
def put? (b : TokenBuffer) (t : Token) : Option TokenBuffer :=
  if b.position < b.tokens.length then some { b with tokens := b.tokens.set b.position t }
  else none

/-- Takes one closing angle, if there is one to be taken. -/
def closeAngle? (b : TokenBuffer) : Option (Option TokenBuffer) := do
  let t ← b.nth? 0
  match Parser.dropAngle? t.kind with
  | none => return none
  | some none => return some (← b.advance?).2
  | some (some rest) => return some (← b.put? (← t.behindAngle? rest))

/-- The index of the parenthesis that closes the outermost one of `depth` that are open, if there is
one, the tokens having indices from `i` on. -/
def matchingParen? (depth i : Nat) : List Token → Option (Option Nat)
  | [] => some none
  | t :: ts =>
    if t.kind = Sign.lparen then matchingParen? (depth + 1) (i + 1) ts
    else if t.kind = Sign.rparen then do
      let depth ← depth.psub 1
      if depth = 0 then some (some i) else matchingParen? depth (i + 1) ts
    else if t.kind = Sign.lbrace ∨ t.kind = Sign.semicolon ∨ t.kind = .endOfSource then some none
    else matchingParen? depth (i + 1) ts

/-- Whether the parameters of a lambda follow, in parentheses. -/
def isLambda? (b : TokenBuffer) : Option Bool := do
  let close ← matchingParen? 0 b.position (b.tokens.drop b.position)
  return close.any fun i => (b.tokens[i + 1]?).any fun t => t.kind = .sign .arrow

end TokenBuffer

namespace ParserState

/-- The buffer that a state stands for. -/
def buffer (s : ParserState) : TokenBuffer := ⟨s.tokens ++ [s.finish], s.consumed.length⟩

variable {source : List Char} {s s' : ParserState}

theorem tokens_buffer (s : ParserState) :
    s.buffer.tokens = s.consumed.reverse ++ (s.ahead ++ [s.finish]) := by
  rw [buffer, tokens, List.append_assoc]

/-- What stands from the index on are the tokens ahead and the end of the source. -/
theorem drop_buffer (s : ParserState) :
    s.buffer.tokens.drop s.buffer.position = s.ahead ++ [s.finish] := by
  rw [tokens_buffer]
  exact List.drop_left' (List.length_reverse)

theorem last?_buffer (s : ParserState) :
    s.buffer.last? = some (s.consumed.length + s.ahead.length) := by
  rw [TokenBuffer.last?, tokens_buffer, Nat.psub_eq_some]
  simp [Nat.add_assoc]

theorem nth?_buffer (s : ParserState) (n : Nat) : s.buffer.nth? n = some (s.nth n) := by
  have hmin : min (s.buffer.position + n) (s.consumed.length + s.ahead.length)
      = s.buffer.position + min n s.ahead.length := Nat.add_min_add_left _ _ _
  have hdrop : s.buffer.tokens[s.buffer.position + min n s.ahead.length]?
      = (s.ahead ++ [s.finish])[min n s.ahead.length]? := by
    rw [← drop_buffer, List.getElem?_drop]
  rw [TokenBuffer.nth?, last?_buffer]
  simp only [Option.bind_eq_bind, Option.bind_some, hmin, hdrop, nth]
  rcases Nat.lt_or_ge n s.ahead.length with hn | hn
  · rw [min_eq_left hn.le, List.getElem?_append_left hn, List.getD_eq_getElem?_getD,
      List.getElem?_eq_getElem hn, Option.getD_some]
  · rw [min_eq_right hn, List.getElem?_append_right le_rfl, Nat.sub_self,
      List.getD_eq_getElem?_getD, List.getElem?_eq_none hn]
    rfl

theorem previous?_buffer (s : ParserState) : s.buffer.previous? = some s.previous := by
  rw [TokenBuffer.previous?, tokens_buffer, buffer, previous, next, nth]
  cases hconsumed : s.consumed with
  | nil => cases s.ahead <;> rfl
  | cons t ts => simp

theorem advance?_buffer (s : ParserState) :
    s.buffer.advance? = some (s.next, s.advance.buffer) := by
  rw [TokenBuffer.advance?, nth?_buffer, last?_buffer]
  simp only [Option.bind_eq_bind, Option.bind_some, Option.pure_def, Option.some.injEq,
    Prod.mk.injEq, next, true_and]
  cases hahead : s.ahead with
  | nil => simp [buffer, ParserState.advance, hahead]
  | cons t ts => simp [buffer, ParserState.advance, hahead, tokens]

/-- Replacing the next token, if it is not the end of the source. -/
theorem put?_buffer {t u : Token} {ts : List Token} (h : s.ahead = t :: ts) :
    s.buffer.put? u = some ({ s with ahead := u :: ts } : ParserState).buffer := by
  have hlt : s.buffer.position < s.buffer.tokens.length := by simp [buffer, tokens, h]
  rw [TokenBuffer.put?, if_pos hlt, tokens_buffer]
  simp [buffer, tokens, h, List.set_append_right]

end ParserState

/-- **A token of angles can be split** within a source that is not too long. -/
theorem Token.Fits.behindAngle?_eq {source : List Char} {t : Token} {rest : TokenKind}
    (ht : t.Fits source) (h : Parser.dropAngle? t.kind = some (some rest))
    (hsize : byteSize source < 2 ^ 32) : t.behindAngle? rest = some (t.behindAngle rest) := by
  have hfits := ht.behindAngle h
  obtain ⟨htext, -⟩ := Token.text_behindAngle h ht.shaped
  have hrest : (t.behindAngle rest).text.toList = t.text.toList.drop 1 := String.toList_ofList
  have hcut : trimBytes? 1 0 t.text.toList = some (t.text.toList.drop 1) := by
    have hcut := trimBytes?_append ['>'] (t.behindAngle rest).text.toList []
    rw [List.append_nil, List.singleton_append, ← htext, hrest] at hcut
    exact hcut
  -- what is left is not empty, so it starts within the source
  have hlength := ht.offset_lt_stop
  have hstop : t.span.offset + 1 < 2 ^ 32 :=
    (hfits.offset_lt_stop.trans_le hfits.liesIn.stop_le).trans hsize
  have hcolumn : t.span.column + 1 < 2 ^ 32 :=
    (hfits.liesIn.column_le.trans (hfits.offset_lt_stop.trans_le hfits.liesIn.stop_le)).trans_lt
      hsize
  have hsub : t.span.length.psub 1 = some (t.span.length - 1) :=
    Nat.psub_eq_sub (by simp only [Span.stop] at hlength; omega)
  rw [behindAngle?, hcut, wordOf?_eq hstop, hsub, wordOf?_eq hcolumn]
  rfl

namespace ParserState

variable {source : List Char} {s : ParserState}

/-- **Taking a closing angle** off the next token of the buffer. -/
theorem Regular.closeAngle?_buffer (hs : s.Regular source) (hsize : byteSize source < 2 ^ 32) :
    s.buffer.closeAngle? = some (match Parser.closeAngle s with
      | .ok _ s' => some s'.buffer
      | .error _ _ => none) := by
  have hnext : s.buffer.nth? 0 = some s.next := s.nth?_buffer 0
  rw [TokenBuffer.closeAngle?, hnext, Course.closeAngle_eq]
  simp only [Option.bind_eq_bind, Option.bind_some]
  cases hangle : Parser.dropAngle? s.next.kind with
  | none => rfl
  | some rest =>
    cases rest with
    | none => simp [advance?_buffer]
    | some rest =>
      rcases hs.next_cases with ⟨-, hfinish⟩ | ⟨ts, hahead, hfits⟩
      · rw [hfinish, hs.finish] at hangle
        cases hangle
      · have hput := put?_buffer (u := s.next.behindAngle rest) hahead
        simp only [hfits.behindAngle?_eq hangle hsize, Option.bind_some, hput, hahead]
        rfl

end ParserState

/-! ### Parentheses -/

/-- **The counter of open parentheses never gets below zero** if one is open at the start or comes
first, and the closing one is found where looking ahead finds it. -/
theorem TokenBuffer.matchingParen?_eq {tokens ts : List Token} {finish : Token} {depth i : Nat}
    (hfinish : finish.kind = .endOfSource) (htokens : tokens.drop i = ts ++ [finish])
    (hkinds : ∀ t ∈ ts, t.kind ≠ .endOfSource)
    (hopen : 0 < depth ∨ Lookahead.startsWith Sign.lparen ts) :
    ∃ close, matchingParen? depth i (ts ++ [finish]) = some close ∧
      close.map (fun j => tokens.drop (j + 1)) =
        (Lookahead.afterParens depth ts).map (· ++ [finish]) := by
  induction ts generalizing depth i with
  | nil =>
    refine ⟨none, ?_, rfl⟩
    simp [matchingParen?, hfinish]
  | cons t ts ih =>
    obtain ⟨hkind, hkinds⟩ := List.forall_mem_cons.mp hkinds
    have hrest : tokens.drop (i + 1) = ts ++ [finish] := by
      rw [← List.drop_drop, htokens]
      rfl
    rw [List.cons_append, matchingParen?, Lookahead.afterParens]
    by_cases hl : t.kind = Sign.lparen
    · rw [if_pos hl, if_pos hl]
      exact ih hrest hkinds (.inl (Nat.succ_pos depth))
    · have hdepth : 0 < depth := hopen.resolve_right (by simp [Lookahead.startsWith, hl])
      rw [if_neg hl, if_neg hl]
      by_cases hr : t.kind = Sign.rparen
      · -- one is open, so that one can be taken off the counter
        rw [if_pos hr, if_pos hr, Nat.psub_eq_sub hdepth]
        by_cases hlast : depth ≤ 1
        · refine ⟨some i, ?_, ?_⟩
          · simp [show depth - 1 = 0 by omega]
          · rw [if_pos hlast, Option.map_some, Option.map_some, hrest]
        · rw [if_neg hlast, Option.bind_eq_bind, Option.bind_some, if_neg (by omega)]
          exact ih hrest hkinds (.inl (by omega))
      · rw [if_neg hr, if_neg hr]
        by_cases hstop : t.kind = Sign.lbrace ∨ t.kind = Sign.semicolon
        · rw [if_pos hstop, if_pos (hstop.imp_right .inl)]
          exact ⟨none, rfl, rfl⟩
        · rw [if_neg hstop, if_neg (by simpa [hkind] using hstop)]
          exact ih hrest hkinds (.inl hdepth)

namespace ParserState

variable {s s' : ParserState}

/-- No token in front of the end of the source stands for it, wherever a parser gets to. -/
theorem Leads.kinds (h : s.Leads s') (hs : ∀ t ∈ s.tokens, t.kind ≠ .endOfSource) :
    ∀ t ∈ s'.tokens, t.kind ≠ .endOfSource := by
  refine h.keep (p := fun s => ∀ t ∈ s.tokens, t.kind ≠ .endOfSource) (fun {s s'} hstep hs => ?_) hs
  cases hstep with
  | @take t ts hahead => simpa [tokens, hahead] using hs
  | @split t ts rest hahead hrest =>
    have hkind : rest ≠ .endOfSource := by
      rcases Token.angles_of_dropAngle? hrest with ⟨-, rfl⟩ | ⟨-, rfl⟩ <;>
        exact TokenKind.ne_endOfSource rfl
    intro u hu
    simp only [tokens, List.mem_append, List.mem_cons] at hu
    rcases hu with hu | rfl | hu
    · exact hs u (List.mem_append_left _ hu)
    · exact hkind
    · exact hs u (mem_tokens_of_ahead (by rw [hahead]; exact List.mem_cons_of_mem _ hu))
  | note e => exact hs
  | number => exact hs

/-- **Looking for a lambda** behind an opening parenthesis. -/
theorem isLambda?_buffer (hfinish : s.finish.kind = .endOfSource)
    (hkinds : ∀ t ∈ s.tokens, t.kind ≠ .endOfSource) (h : s.next.kind = Sign.lparen) :
    s.buffer.isLambda? = some (Lookahead.isLambda s.ahead) := by
  have hopen : Lookahead.startsWith Sign.lparen s.ahead = true := by
    cases hahead : s.ahead with
    | nil => rw [next_of_ahead_nil hahead, hfinish] at h; cases h
    | cons t ts => simpa [Lookahead.startsWith, next_of_ahead hahead] using h
  obtain ⟨close, hrun, hclose⟩ := TokenBuffer.matchingParen?_eq hfinish s.drop_buffer
    (fun t ht => hkinds t (mem_tokens_of_ahead ht))
    (.inr hopen : 0 < 0 ∨ Lookahead.startsWith Sign.lparen s.ahead)
  rw [TokenBuffer.isLambda?, drop_buffer, hrun, Lookahead.isLambda]
  simp only [Option.bind_eq_bind, Option.bind_some, Option.pure_def, Option.some.injEq]
  cases hafter : Lookahead.afterParens 0 s.ahead with
  | none =>
    rw [hafter] at hclose
    rw [Option.map_eq_none_iff.mp hclose]
    rfl
  | some rest =>
    rw [hafter, Option.map_some, Option.map_eq_some_iff] at hclose
    obtain ⟨j, rfl, hdrop⟩ := hclose
    -- the token behind the parenthesis may be the end of the source
    have hget : s.buffer.tokens[j + 1]? = (rest ++ [s.finish])[0]? := by
      rw [← hdrop, List.getElem?_drop]
    rw [Option.any_some, Option.any_some, hget]
    cases rest with
    | nil => simp [Lookahead.startsWith, hfinish]
    | cons u us => rfl

end ParserState

/-! ### Wherever a parser gets to -/

/-- **Nothing is out of range at a place**: what is done on the buffer comes to what is done on the
state. -/
structure ParserState.InRange (s : ParserState) : Prop where
  /-- Looking at tokens, and taking one. -/
  nth : ∀ n, s.buffer.nth? n = some (s.nth n)
  previous : s.buffer.previous? = some s.previous
  advance : s.buffer.advance? = some (s.next, s.advance.buffer)
  /-- Splitting a token of angles, in the buffer. -/
  closeAngle : s.buffer.closeAngle? = some (match Parser.closeAngle s with
    | .ok _ s' => some s'.buffer
    | .error _ _ => none)
  /-- Cutting a literal, wherever it stands. -/
  literal : ∀ t ∈ s.tokens, ∀ kind, t.kind = .literal kind →
    Literal.ofText? kind t.text.toList = some (Literal.ofText kind t.text.toList)
  /-- Counting parentheses, which is done behind an opening one only. -/
  isLambda : s.next.kind = Sign.lparen → s.buffer.isLambda? = some (Lookahead.isLambda s.ahead)

/-- All operations that change a state lead on from it to where they end. -/
structure ParserState.LeadsOn (s : ParserState) : Prop where
  advance : s.Leads (Parser.endState (Parser.advance s))
  closeAngle : s.Leads (Parser.endState (Parser.closeAngle s))
  dims : s.Leads (Parser.endState (Parser.dims s))
  freshCall : s.Leads (Parser.endState (Parser.freshCall s))
  record : ∀ e, s.Leads (Parser.endState (Parser.record e s))
  synchronize : s.Leads (Parser.endState (Parser.synchronize s))

/-- All rules lead on from a state to where they end. -/
structure Rules.LeadOn (g : Rules) (s : ParserState) : Prop where
  sourceUnit : s.Leads (Parser.endState (Grammar.sourceUnit g s))
  expr : ∀ power, s.Leads (Parser.endState (g.expr power s))
  type : s.Leads (Parser.endState (g.type s))
  annot : s.Leads (Parser.endState (g.annot s))
  element : s.Leads (Parser.endState (g.element s))
  block : s.Leads (Parser.endState (g.block s))
  stmt : s.Leads (Parser.endState (g.stmt s))
  classBody : ∀ name, s.Leads (Parser.endState (g.classBody name s))
  typeDecl : ∀ modifiers, s.Leads (Parser.endState (g.typeDecl modifiers s))

/-- **Nothing is out of range in a source**, whatever is read of it. -/
structure ReadsInRange (source : List Char) (firstCall : Nat) : Prop where
  /-- The tokens are cut out of the source. -/
  lexemes : ∀ t ∈ (tokenize source).tokens, t.span.stop? = some t.span.stop ∧
    ∃ text, t.span.textIn? source = some text ∧
      t.text = if t.kind = .invalid then "" else String.ofList text
  /-- Spans are merged. -/
  merge : ∀ s t : Span, s.LiesIn source → t.LiesIn source → s.merge? t = some (s.merge t)
  /-- The zero of an octal number is cut off. -/
  octal : ∀ digits, trimBytes? 1 0 ('0' :: digits) = some digits
  /-- The indentation of a line is what it is longer by than without it. -/
  indent : ∀ line, (byteSize line).psub (byteSize (Lines.trimStart line))
    = some (Escape.indentOf line)
  /-- What is done at the places that a parser gets to. -/
  places : ∀ s, (ParserState.ofSource source firstCall).Leads s → s.InRange
  /-- All operations get to such places only. -/
  operations : ∀ s, (ParserState.ofSource source firstCall).Leads s → s.LeadsOn
  /-- So do all rules, at every depth. -/
  rules : ∀ s, (ParserState.ofSource source firstCall).Leads s → ∀ n, (grammar n).LeadOn s

theorem ParserState.Regular.inRange {source : List Char} {s : ParserState}
    (hs : s.Regular source) (hsize : byteSize source < 2 ^ 32)
    (hkinds : ∀ t ∈ s.tokens, t.kind ≠ .endOfSource) : s.InRange where
  nth := s.nth?_buffer
  previous := s.previous?_buffer
  advance := s.advance?_buffer
  closeAngle := hs.closeAngle?_buffer hsize
  literal t ht kind hkind := by
    have hshaped := (hs.fits t ht).shaped
    rw [Token.Shaped, hkind] at hshaped
    exact Literal.ofText?_eq hshaped
  isLambda h := isLambda?_buffer hs.finish hkinds h

theorem ParserState.leadsOn {s : ParserState} (hfinish : s.finish.kind = .endOfSource) :
    s.LeadsOn where
  advance := .advance s
  closeAngle := (@Course.closeAngle [] .absent .loose s hfinish).1
  dims := (Course.leads_dims s 0 s.consumed s.ahead).1
  freshCall := .single (.number s)
  record e := .single (.note s e)
  synchronize := Course.leads_skip s true s.consumed s.ahead

theorem Rules.leadOn (n : Nat) {s : ParserState} (hfinish : s.finish.kind = .endOfSource) :
    (grammar n).LeadOn s where
  sourceUnit := Grammar.leads_sourceUnit hfinish
  expr power := ((gathers_grammar [] n).expr power .absent .loose s hfinish).1
  type := ((gathers_grammar [] n).type .absent .loose s hfinish).1
  annot := ((gathers_grammar [] n).annot .absent .loose s hfinish).1
  element := ((gathers_grammar [] n).element .absent .loose s hfinish).1
  block := ((gathers_grammar [] n).block .absent .loose s hfinish).1
  stmt := ((gathers_grammar [] n).stmt .absent .loose s hfinish).1
  classBody name := ((gathers_grammar [] n).classBody name .absent .loose s hfinish).1
  typeDecl modifiers :=
    ((gathers_grammar [] n).typeDecl .absent s.next modifiers s hfinish).1

/-- **Nothing is out of range** in a source that is shorter than a machine word can count, neither
in the buffer of its tokens nor in their texts, at any place that a parser gets to. -/
theorem readsInRange (source : List Char) (firstCall : Nat) (hsize : byteSize source < 2 ^ 32) :
    ReadsInRange source firstCall := by
  have hstart := ParserState.regular_ofSource source firstCall
  have hkinds : ∀ t ∈ (ParserState.ofSource source firstCall).tokens, t.kind ≠ .endOfSource :=
    fun t ht => (areText_tokenize source).kinds t (List.mem_filter.mp ht).1
  refine ⟨fun t ht => ?_, fun s t hs ht => Span.merge?_eq hs ht hsize, fun digits => ?_,
    fun line => ?_, fun s hleads => (hstart.leads hleads).inRange hsize (hleads.kinds hkinds),
    fun s hleads => ParserState.leadsOn (hstart.leads hleads).finish,
    fun s hleads n => Rules.leadOn n (hstart.leads hleads).finish⟩
  · obtain ⟨text, htext, -, hlexeme⟩ := (isTiling_tokenize source).lexemes t ht
    exact ⟨Span.stop?_eq ((liesIn_tokenize source).1 t ht) hsize, text, htext, hlexeme⟩
  · have hcut := trimBytes?_append ['0'] digits []
    rwa [List.append_nil] at hcut
  · refine Nat.psub_eq_sub ?_
    obtain ⟨blanks, hblanks⟩ := List.dropWhile_suffix CharClass.isBlank (l := line)
    rw [Lines.trimStart]
    conv_rhs => rw [← hblanks, byteSize_append]
    exact Nat.le_add_left _ _

/-- The theorem applied to a lambda in which parentheses are counted, a token of angles is split and
literals are cut. -/
theorem readsInRange_lambda :
    byteSize "(L<L<A>> a) -> f(\"\"\"\n é\"\"\", \"\", 'é', 7L, 017, .5f)".toList < 2 ^ 32 ∧
      ReadsInRange "(L<L<A>> a) -> f(\"\"\"\n é\"\"\", \"\", 'é', 7L, 017, .5f)".toList 0 := by
  have hsize : byteSize
      "(L<L<A>> a) -> f(\"\"\"\n é\"\"\", \"\", 'é', 7L, 017, .5f)".toList < 2 ^ 32 := by
    decide
  exact ⟨hsize, readsInRange _ 0 hsize⟩

end JavaGraft
