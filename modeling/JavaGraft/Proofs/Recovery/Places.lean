import JavaGraft.Proofs.Grammar.Running
import Mathlib.Data.List.Infix

/-!
# Places in a part of a source

A part of a source that closes braces opened before it is an `Enclosure`. A place is within it as
long as braces are still to be closed there (`Enclosure.Within`), and a state that comes later is
still within it unless more braces were closed than opened in between (`Enclosure.Later`).

There is one way to lose a closing brace: recovery skips the next token whatever it is. An error is
*harmless* if recovery from it does not start at a closing brace. What `Later` says of two places
holds as long as all errors are harmless.
-/

namespace JavaGraft

/-! ### Braces -/

/-- By how much a token changes the number of braces still to be closed. -/
def TokenKind.closes : TokenKind → Int
  | .sign .rbrace => 1
  | .sign .lbrace => -1
  | _ => 0

/-- A kind that closes no brace and is not the end of the source. -/
def TokenKind.isInner : TokenKind → Bool
  | .sign .rbrace | .endOfSource => false
  | _ => true

namespace TokenKind

variable {kind : TokenKind}

theorem ne_endOfSource_of_inner (h : kind.isInner) : kind ≠ .endOfSource :=
  fun hkind => by rw [hkind] at h; cases h

theorem ne_rbrace_of_inner (h : kind.isInner) : kind ≠ Sign.rbrace :=
  fun hkind => by rw [hkind] at h; cases h

end TokenKind

/-- How many more closing than opening braces there are. -/
def Token.closers : List Token → Int
  | [] => 0
  | t :: ts => t.kind.closes + closers ts

@[simp]
theorem Token.closers_nil : closers [] = 0 := rfl

@[simp]
theorem Token.closers_cons (t : Token) (ts : List Token) :
    closers (t :: ts) = t.kind.closes + closers ts := rfl

theorem Token.closers_append (ts us : List Token) :
    closers (ts ++ us) = closers ts + closers us := by
  induction ts with
  | nil => exact (Int.zero_add _).symm
  | cons t ts ih => rw [List.cons_append, closers_cons, closers_cons, ih, Int.add_assoc]

/-- Whether a closing brace comes next, a `class` aside. -/
def Token.closesNext (ts : List Token) : Bool :=
  Lookahead.startsWith Sign.rbrace (ts.dropWhile fun t => t.kind = Keyword.kwClass)

/-- Whether a closing brace comes behind the token at a place, a `class` aside. -/
def Token.closesBehind (span : Span) : List Token → Bool
  | [] => false
  | t :: ts => (t.span = span && closesNext ts) || closesBehind span ts

theorem Token.closesBehind_of_suffix {span : Span} {ts us : List Token} (h : ts <:+ us)
    (hspan : closesBehind span ts) : closesBehind span us := by
  obtain ⟨vs, rfl⟩ := h
  induction vs with
  | nil => exact hspan
  | cons v vs ih => simp [closesBehind, ih]

/-! ### The next token -/

/-- The kind of the token that a list starts with; behind the last one the source ends. -/
def Token.firstKind (ts : List Token) : TokenKind := (ts.head?.map Token.kind).getD .endOfSource

namespace ParserState

variable {s : ParserState} {t : Token} {ts : List Token}

theorem next_of_ahead (h : s.ahead = t :: ts) : s.next = t := by
  rw [next, nth, h]
  rfl

theorem ahead_advance (h : s.ahead = t :: ts) : s.advance.ahead = ts := by
  rw [advance, h]

theorem next_of_ahead_nil (h : s.ahead = []) : s.next = s.finish := by
  rw [next, nth, h]
  rfl

theorem kind_next (hfinish : s.finish.kind = .endOfSource) :
    s.next.kind = Token.firstKind s.ahead := by
  cases hahead : s.ahead with
  | nil => rw [next_of_ahead_nil hahead, hfinish]; rfl
  | cons t ts => rw [next_of_ahead hahead]; rfl

theorem next_ne_rbrace (hfinish : s.finish.kind = .endOfSource)
    (h : Token.closesNext s.ahead = false) : s.next.kind ≠ Sign.rbrace := by
  intro hnext
  cases hahead : s.ahead with
  | nil => rw [next_of_ahead_nil hahead, hfinish] at hnext; cases hnext
  | cons t ts =>
    rw [next_of_ahead hahead] at hnext
    simp [hahead, Token.closesNext, Lookahead.startsWith, hnext] at h

/-- A `class` does not change what comes next in this sense. -/
theorem closesNext_advance (h : s.next.kind = Keyword.kwClass) :
    Token.closesNext s.advance.ahead = Token.closesNext s.ahead := by
  cases hahead : s.ahead with
  | nil => simp only [advance, hahead]
  | cons t ts =>
    rw [next_of_ahead hahead] at h
    rw [ahead_advance hahead, Token.closesNext, Token.closesNext,
      List.dropWhile_cons_of_pos (by simp [h])]

theorem ahead_of_next (h : s.next.kind ≠ .endOfSource) (hfinish : s.finish.kind = .endOfSource) :
    s.ahead ≠ [] :=
  fun hnil => h (by rw [next_of_ahead_nil hnil, hfinish])

/-- What is ahead starts with the next token. -/
theorem ahead_eq (h : s.next.kind ≠ .endOfSource) (hfinish : s.finish.kind = .endOfSource) :
    s.ahead = s.next :: s.advance.ahead := by
  obtain ⟨t, ts, hahead⟩ := List.exists_cons_of_ne_nil (ahead_of_next h hfinish)
  rw [next_of_ahead hahead, ahead_advance hahead, hahead]

theorem consumed_advance (h : s.next.kind ≠ .endOfSource)
    (hfinish : s.finish.kind = .endOfSource) : s.advance.consumed = s.next :: s.consumed := by
  rw [advance, ahead_eq h hfinish]

theorem next_advance (s : ParserState) : s.advance.next = s.nth 1 := by
  obtain ⟨consumed, _ | ⟨t, ts⟩, finish, errors, nextCall⟩ := s <;> rfl

@[simp]
theorem finish_advance (s : ParserState) : s.advance.finish = s.finish := by
  obtain ⟨consumed, _ | ⟨t, ts⟩, finish, errors, nextCall⟩ := s <;> rfl

@[simp]
theorem errors_advance (s : ParserState) : s.advance.errors = s.errors := by
  obtain ⟨consumed, _ | ⟨t, ts⟩, finish, errors, nextCall⟩ := s <;> rfl

/-- Taking a token leaves less. -/
theorem remaining_advance (h : s.ahead ≠ []) : s.advance.remaining + 1 ≤ s.remaining := by
  obtain ⟨t, ts, hahead⟩ := List.exists_cons_of_ne_nil h
  have hweight := t.one_le_weight
  simp only [advance, remaining, hahead, Token.totalWeight]
  omega

/-- An inner token is there to be taken. -/
theorem remaining_advance_of_inner (h : s.next.kind.isInner)
    (hfinish : s.finish.kind = .endOfSource) : s.advance.remaining + 1 ≤ s.remaining :=
  remaining_advance (ahead_of_next (TokenKind.ne_endOfSource_of_inner h) hfinish)

end ParserState

/-- What skipping tokens leaves. -/
theorem Parser.skip_spec (s : ParserState) (first : Bool) (consumed ts : List Token) :
    (synchronize.skip s first consumed ts).finish = s.finish ∧
      (synchronize.skip s first consumed ts).errors = s.errors ∧
      (synchronize.skip s first consumed ts).remaining + (if first = true ∧ ts ≠ [] then 1 else 0)
        ≤ Token.totalWeight ts := by
  fun_induction synchronize.skip s first consumed ts with
  | case1 first consumed => exact ⟨rfl, rfl, by simp [ParserState.remaining]⟩
  | case2 consumed t ts h =>
    have hweight := t.one_le_weight
    refine ⟨rfl, rfl, ?_⟩
    simp only [ParserState.remaining, Token.totalWeight]
    split <;> omega
  | case3 consumed t ts h ih =>
    obtain ⟨hfinish, herrors, hremaining⟩ := ih
    have hweight := t.one_le_weight
    refine ⟨hfinish, herrors, ?_⟩
    simp only [Bool.false_eq_true, false_and, if_false] at hremaining
    simp only [Token.totalWeight]
    split <;> omega
  | case4 first consumed t ts hfirst h =>
    exact ⟨rfl, rfl, by simp [hfirst, ParserState.remaining]⟩
  | case5 first consumed t ts hfirst h ih =>
    obtain ⟨hfinish, herrors, hremaining⟩ := ih
    refine ⟨hfinish, herrors, ?_⟩
    simp only [hfirst, false_and, if_false, Bool.false_eq_true] at hremaining ⊢
    simp only [Token.totalWeight]
    omega

namespace ParserState

/-- The state behind the tokens that recovery from an error skips. -/
def recovered (s : ParserState) (e : ParseError) : ParserState :=
  Parser.synchronize.skip { s with errors := s.errors ++ [e] } true s.consumed s.ahead

variable {s s' : ParserState} (e : ParseError)

theorem finish_recovered (s : ParserState) : (s.recovered e).finish = s.finish :=
  (Parser.skip_spec _ _ _ _).1

theorem errors_recovered (s : ParserState) : (s.recovered e).errors = s.errors ++ [e] :=
  (Parser.skip_spec _ _ _ _).2.1

/-- A token is taken before recovery or by it. -/
theorem remaining_recovered (h : s'.remaining ≤ s.remaining) (hahead : s.ahead ≠ []) :
    (s'.recovered e).remaining + 1 ≤ s.remaining := by
  have hskip := (Parser.skip_spec { s' with errors := s'.errors ++ [e] } true s'.consumed
    s'.ahead).2.2
  rw [← recovered] at hskip
  by_cases hnil : s'.ahead = []
  · rw [if_neg (by simp [hnil]), hnil, Token.totalWeight] at hskip
    have hpositive := remaining_advance hahead
    omega
  · rw [if_pos ⟨rfl, hnil⟩, ← remaining] at hskip
    omega

end ParserState

namespace Parser

variable {α : Type} {p : Parser (Option α)} {s s' : ParserState}

theorem recovering_ok {a : Option α} (h : p s = .ok a s') : recovering p s = .ok a s' := by
  simp only [recovering, tryCatch, tryCatchThe, MonadExceptOf.tryCatch, EStateM.tryCatch, h]

theorem recovering_rejected {e : ParseError} (h : p s = .error (.rejected e) s') :
    recovering p s = .ok none (s'.recovered e) := by
  simp only [recovering, tryCatch, tryCatchThe, MonadExceptOf.tryCatch, EStateM.tryCatch, h]
  rfl

theorem recovering_exhausted (h : p s = .error .exhausted s') :
    recovering p s = .error .exhausted s' := by
  simp only [recovering, tryCatch, tryCatchThe, MonadExceptOf.tryCatch, EStateM.tryCatch, h]
  rfl

end Parser

/-! ### Errors and braces -/

/-- The kind of token that a fault says was found. -/
def ParseFault.found? : ParseFault → Option TokenKind
  | expectedToken _ found | unexpectedToken found | expectedExpression found | expectedType found
  | expectedDeclaration found | expectedIdentifier found => some found
  | _ => none

/-- A part of a source that must not be left, and errors from which recovery does not start at a
closing brace within it. -/
structure Enclosure where
  /-- The tokens of the source. -/
  tokens : List Token
  /-- The tokens behind the part. -/
  outside : List Token
  /-- The errors from which recovery does not start at a closing brace. -/
  harmless : ParseError → Prop
  /-- An error that was noticed at a closing brace is not harmless, except for a missing
  declaration, which is noticed outside of all braces only. -/
  harmless_found : ∀ {e}, harmless e → e.fault.found? = some (.sign .rbrace) →
    ∃ found, e.fault = .expectedDeclaration found
  /-- These are noticed when the token is consumed already. -/
  harmless_behind : ∀ {e}, harmless e →
    (e.fault = .notATypeName ∨ ∃ fault text, e.fault = .badLiteral fault text) →
    Token.closesBehind e.span tokens = false

namespace Enclosure

variable (c : Enclosure)

/-- The tokens ahead are within the part, and at least so many braces are still to be closed. -/
structure Within (depth : Int) (ts : List Token) : Prop where
  inside : ∃ us, ts = us ++ c.outside ∧ depth ≤ Token.closers us
  rest : ts.drop 1 <:+ c.tokens
  /-- Only the next token can be what is left of a token of angles. -/
  whole : ts <:+ c.tokens ∨ ∃ t ∈ ts.head?, t.kind = Sign.greater ∨ t.kind = Sign.shr

/-- All errors so far are harmless. -/
def Unharmed (s : ParserState) : Prop := ∀ e ∈ s.errors, c.harmless e

/-- How a state comes after another one, `opened` braces being closed in between besides those
that are opened. -/
structure Later (opened : Nat) (s s' : ParserState) : Prop where
  finish : s'.finish = s.finish
  errors : s.errors <+: s'.errors
  place : c.Unharmed s' → ∀ depth, 1 ≤ depth → c.Within (depth + opened) s.ahead →
    c.Within depth s'.ahead

/-- How a run ends: with a value, at least so many tokens having been taken, or with an error that
is not harmless if it was noticed at a closing brace. -/
def EndsWell {α : Type} (opened : Nat) (take : α → Nat) (s : ParserState) :
    EStateM.Result Failure ParserState α → Prop
  | .ok a s' => s'.remaining + take a ≤ s.remaining ∧ c.Later opened s s'
  | .error (.rejected e) s' => s'.remaining ≤ s.remaining ∧ c.Later opened s s' ∧
    (c.Unharmed s' → c.harmless e → ∀ depth, 1 ≤ depth → c.Within (depth + opened) s.ahead →
      s'.next.kind ≠ Sign.rbrace)
  | .error .exhausted _ => False

end Enclosure

/-! ### Within the part -/

namespace Enclosure

variable {c : Enclosure} {depth depth' : Int} {opened : Nat} {s s' s'' : ParserState}

theorem closes_nonpos {kind : TokenKind} (h : kind ≠ Sign.rbrace) : kind.closes ≤ 0 := by
  unfold TokenKind.closes
  split
  · exact absurd rfl h
  · decide
  · exact Int.le_refl 0

namespace Within

variable {t : Token} {ts : List Token}

theorem mono (h : c.Within depth ts) (hdepth : depth' ≤ depth) : c.Within depth' ts := by
  obtain ⟨us, hus, hclosers⟩ := h.inside
  exact ⟨⟨us, hus, by omega⟩, h.rest, h.whole⟩

/-- Within the part there is a next token. -/
theorem cons (h : c.Within depth ts) (hdepth : 1 ≤ depth) :
    ∃ t us, ts = t :: (us ++ c.outside) ∧ depth ≤ t.kind.closes + Token.closers us := by
  obtain ⟨us, hus, hclosers⟩ := h.inside
  cases us with
  | nil => rw [Token.closers_nil] at hclosers; omega
  | cons t us => exact ⟨t, us, hus, hclosers⟩

/-- Taking the next token changes the depth as the token says. -/
theorem tail (h : c.Within depth (t :: ts)) (hdepth : 1 ≤ depth) :
    c.Within (depth - t.kind.closes) ts := by
  obtain ⟨t', us, hcons, hclosers⟩ := h.cons hdepth
  obtain ⟨rfl, rfl⟩ := List.cons_eq_cons.mp hcons
  exact ⟨⟨us, rfl, by omega⟩, (List.drop_suffix 1 _).trans h.rest, .inl h.rest⟩

theorem advance (h : c.Within depth s.ahead) (hdepth : 1 ≤ depth) :
    c.Within (depth - s.next.kind.closes) s.advance.ahead := by
  obtain ⟨t, us, hahead, -⟩ := h.cons hdepth
  rw [ParserState.next_of_ahead hahead, ParserState.ahead_advance hahead]
  exact (hahead ▸ h).tail hdepth

/-- Taking a token that is no closing brace. -/
theorem take (h : c.Within depth (t :: ts)) (hdepth : 1 ≤ depth) (ht : t.kind ≠ Sign.rbrace) :
    c.Within depth ts :=
  (h.tail hdepth).mono (by have := closes_nonpos ht; omega)

/-- No closing brace comes behind a token for which a harmless error is noticed there. -/
theorem behind {e : ParseError} (hs : c.Within depth s.ahead) (hdepth : 1 ≤ depth)
    (hgreater : s.next.kind ≠ Sign.greater) (hshr : s.next.kind ≠ Sign.shr) (he : c.harmless e)
    (hfault : e.fault = .notATypeName ∨ ∃ fault text, e.fault = .badLiteral fault text)
    (hspan : e.span = s.next.span) : Token.closesNext s.advance.ahead = false := by
  obtain ⟨t, us, hahead, -⟩ := hs.cons hdepth
  have hnext := ParserState.next_of_ahead hahead
  have hsuffix : t :: (us ++ c.outside) <:+ c.tokens := by
    rcases hs.whole with h | ⟨t', ht', h⟩
    · rwa [hahead] at h
    · rw [hahead, List.head?_cons, Option.mem_some_iff] at ht'
      rw [hnext, ht'] at hgreater hshr
      exact (h.elim hgreater hshr).elim
  rw [ParserState.ahead_advance hahead, Bool.eq_false_iff]
  intro hcloses
  have hbehind : Token.closesBehind t.span c.tokens :=
    Token.closesBehind_of_suffix hsuffix (by simp [Token.closesBehind, hcloses])
  rw [← hnext, ← hspan, c.harmless_behind he hfault] at hbehind
  cases hbehind

end Within

theorem Unharmed.of_prefix (h : c.Unharmed s') (hs : s.errors <+: s'.errors) : c.Unharmed s :=
  fun e he => h e (hs.subset he)

namespace Later

theorem refl (s : ParserState) : c.Later opened s s :=
  ⟨rfl, List.prefix_rfl, fun _ _ _ h => h.mono (by omega)⟩

theorem trans (h : c.Later 0 s s') (h' : c.Later 0 s' s'') : c.Later 0 s s'' :=
  ⟨h'.finish.trans h.finish, h.errors.trans h'.errors, fun hs'' depth hdepth hs =>
    h'.place hs'' depth hdepth (by
      simpa using h.place (hs''.of_prefix h'.errors) depth hdepth hs)⟩

/-- What has not closed a brace may be said to have closed some. -/
theorem widen (h : c.Later 0 s s') : c.Later opened s s' :=
  ⟨h.finish, h.errors, fun hs' depth hdepth hs =>
    (h.place hs' (depth + opened) (by omega) (by simpa using hs)).mono (by omega)⟩

/-- Taking a token that is no closing brace. -/
theorem advance (hnext : s.next.kind ≠ Sign.rbrace) : c.Later 0 s s.advance where
  finish := s.finish_advance
  errors := by rw [ParserState.errors_advance]
  place _ depth hdepth hs := by
    have hcloses := closes_nonpos hnext
    exact (hs.advance (by omega)).mono (by omega)

end Later

/-- What ends well from a later state does so from an earlier one. -/
theorem EndsWell.after {α : Type} {opened' n : Nat} {take : α → Nat}
    {r : EStateM.Result Failure ParserState α} (htake : s'.remaining + n ≤ s.remaining)
    (hfinish : s'.finish = s.finish) (herrors : s.errors <+: s'.errors)
    (hplace : c.Unharmed s' → ∀ depth, 1 ≤ depth → c.Within (depth + opened) s.ahead →
      c.Within (depth + opened') s'.ahead)
    (h : c.EndsWell opened' (fun a => take a - n) s' r) : c.EndsWell opened take s r := by
  rcases r with ⟨a, s''⟩ | ⟨_ | _, s''⟩
  · obtain ⟨htake', hlater⟩ := h
    dsimp only at htake'
    refine ⟨by omega, hlater.finish.trans hfinish, herrors.trans hlater.errors, ?_⟩
    exact fun hs'' depth hdepth hs => hlater.place hs'' depth hdepth
      (hplace (hs''.of_prefix hlater.errors) depth hdepth hs)
  · obtain ⟨htake', hlater, hnoticed⟩ := h
    refine ⟨by omega, ⟨hlater.finish.trans hfinish, herrors.trans hlater.errors, ?_⟩, ?_⟩
    · exact fun hs'' depth hdepth hs => hlater.place hs'' depth hdepth
        (hplace (hs''.of_prefix hlater.errors) depth hdepth hs)
    · exact fun hs'' he depth hdepth hs => hnoticed hs'' he depth hdepth
        (hplace (hs''.of_prefix hlater.errors) depth hdepth hs)
  · exact h

/-- Taking an inner token first. -/
theorem EndsWell.advanced {α : Type} {take : α → Nat} {r : EStateM.Result Failure ParserState α}
    (hnext : s.next.kind.isInner) (hfinish : s.finish.kind = .endOfSource)
    (h : c.EndsWell opened (fun a => take a - 1) s.advance r) : c.EndsWell opened take s r := by
  have hlater : c.Later 0 s s.advance := .advance (TokenKind.ne_rbrace_of_inner hnext)
  refine .after (ParserState.remaining_advance_of_inner hnext hfinish) hlater.finish hlater.errors
    (fun hs' depth hdepth hwithin => ?_) h
  exact hlater.place hs' _ (by omega) (by simpa using hwithin)

end Enclosure

end JavaGraft
