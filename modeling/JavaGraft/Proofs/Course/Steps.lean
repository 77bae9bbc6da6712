import JavaGraft.Proofs.Recovery.Places
import JavaGraft.Proofs.Token.Places
import Mathlib.Logic.Relation

/-!
# The steps of a parser

Whatever a parser does to its state, it does in four kinds of steps (`JavaGraft.ParserState.Step`):
it takes the next token, takes one angle off it, records an error, or hands out the number of a
call. The states that can be reached in such steps are those that a state leads to
(`JavaGraft.ParserState.Leads`). Nothing that was consumed is given back on the way, and no number
is handed out twice.

A state is *regular* for a source if its tokens fit the source and stand there one behind the other
(`JavaGraft.ParserState.Regular`). So does the state before the first token, and every step keeps
it: a token that an angle is taken off still covers its own text.
-/

namespace JavaGraft

/-! ### Tokens of angles -/

namespace Token

variable {source : List Char} {t : Token} {rest : TokenKind}

/-- What a token of angles leaves behind its first angle. -/
def behindAngle (t : Token) (rest : TokenKind) : Token :=
  ⟨rest, String.ofList (t.text.toList.drop 1), t.span.dropByte⟩

/-- An angle is taken off two or three of them, and what is left is one less. -/
theorem angles_of_dropAngle? (h : Parser.dropAngle? t.kind = some (some rest)) :
    (t.kind = Sign.shr ∧ rest = Sign.greater) ∨ (t.kind = Sign.ushr ∧ rest = Sign.shr) := by
  rcases Parser.kind_of_dropAngle? h with ⟨-, hrest⟩ | ⟨hkind, hrest⟩ | ⟨hkind, hrest⟩
  · cases hrest
  · exact .inl ⟨hkind, Option.some.inj hrest⟩
  · exact .inr ⟨hkind, Option.some.inj hrest⟩

theorem weight_behindAngle (h : Parser.dropAngle? t.kind = some (some rest)) :
    (t.behindAngle rest).weight + 1 = t.weight := by
  rcases angles_of_dropAngle? h with ⟨hkind, rfl⟩ | ⟨hkind, rfl⟩ <;>
    simp [weight, behindAngle, hkind]

/-- The text of a token of angles is that of its first angle and of what is left. -/
theorem text_behindAngle (h : Parser.dropAngle? t.kind = some (some rest)) (ht : t.Shaped) :
    t.text.toList = '>' :: (t.behindAngle rest).text.toList ∧
      (t.behindAngle rest).text.toList ≠ [] ∧ (t.behindAngle rest).Shaped := by
  simp only [behindAngle, Shaped, String.toList_ofList]
  unfold Shaped at ht
  rcases angles_of_dropAngle? h with ⟨hkind, rfl⟩ | ⟨hkind, rfl⟩
  all_goals
    rw [hkind] at ht
    rw [show t.text.toList = _ from ht]
    refine ⟨by decide, by decide, ?_⟩
    change _ = String.toList _
    decide

/-- The rest of a token of angles fits a source as the token did. -/
theorem Fits.behindAngle (ht : t.Fits source) (h : Parser.dropAngle? t.kind = some (some rest)) :
    (t.behindAngle rest).Fits source := by
  obtain ⟨htext, hne, hshaped⟩ := text_behindAngle h ht.shaped
  obtain ⟨before, after, hsource, hspan⟩ := ht.covers
  refine ⟨⟨before ++ ['>'], after, ?_, ?_⟩, hne, hshaped⟩
  · rw [hsource, htext, List.append_assoc]
    rfl
  · have hplace : Position.start.afterAll (before ++ ['>']) =
        (Position.start.afterAll before).after '>' := Position.afterAll_append _ _ _
    have hall : before ++ ['>'] ++ (t.behindAngle rest).text.toList = before ++ t.text.toList := by
      rw [htext, List.append_assoc]
      rfl
    have hsize : '>'.utf8Size = 1 := rfl
    rw [hall, hplace, Position.after, if_neg (by decide), hsize]
    change t.span.dropByte = _
    rw [hspan]
    simp only [Span.between, Span.dropByte, Span.mk.injEq, and_self, and_true, true_and]
    omega

end Token

namespace ParserState

/-! ### Steps -/

/-- One step of a parser. -/
inductive Step : ParserState → ParserState → Prop
  /-- The next token is taken. -/
  | take {s : ParserState} {t : Token} {ts : List Token} (h : s.ahead = t :: ts) :
      Step s { s with consumed := t :: s.consumed, ahead := ts }
  /-- An angle is taken off the next token. -/
  | split {s : ParserState} {t : Token} {ts : List Token} {rest : TokenKind}
      (h : s.ahead = t :: ts) (hrest : Parser.dropAngle? t.kind = some (some rest)) :
      Step s { s with ahead := t.behindAngle rest :: ts }
  /-- An error is recorded. -/
  | note (s : ParserState) (e : ParseError) : Step s { s with errors := s.errors ++ [e] }
  /-- The number of a call is handed out. -/
  | number (s : ParserState) : Step s { s with nextCall := s.nextCall + 1 }

/-- A state leads to all states that can be reached in steps. -/
def Leads : ParserState → ParserState → Prop := Relation.ReflTransGen Step

variable {s s' s'' : ParserState}

/-- What a step keeps, or changes in one direction only. -/
structure Onward (s s' : ParserState) : Prop where
  finish : s'.finish = s.finish
  consumed : s.consumed <:+ s'.consumed
  remaining : s'.remaining ≤ s.remaining
  errors : s.errors <+: s'.errors
  nextCall : s.nextCall ≤ s'.nextCall

theorem Onward.refl (s : ParserState) : s.Onward s :=
  ⟨rfl, List.suffix_rfl, le_rfl, List.prefix_rfl, le_rfl⟩

theorem Onward.trans (h : s.Onward s') (h' : s'.Onward s'') : s.Onward s'' :=
  ⟨h'.finish.trans h.finish, h.consumed.trans h'.consumed, h'.remaining.trans h.remaining,
    h.errors.trans h'.errors, h.nextCall.trans h'.nextCall⟩

/-- **A step goes onward.** -/
theorem Step.onward (h : s.Step s') : s.Onward s' := by
  cases h with
  | @take t ts h =>
    refine ⟨rfl, List.suffix_cons _ _, ?_, List.prefix_rfl, le_rfl⟩
    simp only [remaining, h, Token.totalWeight]
    omega
  | @split t ts rest h hrest =>
    refine ⟨rfl, List.suffix_rfl, ?_, List.prefix_rfl, le_rfl⟩
    have := Token.weight_behindAngle hrest
    simp only [remaining, h, Token.totalWeight]
    omega
  | note e => exact ⟨rfl, List.suffix_rfl, le_rfl, List.prefix_append _ _, le_rfl⟩
  | number => exact ⟨rfl, List.suffix_rfl, le_rfl, List.prefix_rfl, Nat.le_succ _⟩

namespace Leads

theorem refl (s : ParserState) : s.Leads s := Relation.ReflTransGen.refl

theorem trans (h : s.Leads s') (h' : s'.Leads s'') : s.Leads s'' :=
  Relation.ReflTransGen.trans h h'

theorem single (h : s.Step s') : s.Leads s' := Relation.ReflTransGen.single h

/-- What every step keeps is kept. -/
theorem keep {p : ParserState → Prop} (hstep : ∀ {s s'}, s.Step s' → p s → p s')
    (h : s.Leads s') (hs : p s) : p s' := by
  induction h with
  | refl => exact hs
  | tail _ h ih => exact hstep h ih

/-- **What a state leads to lies onward**: nothing is given back. -/
theorem onward (h : s.Leads s') : s.Onward s' := by
  induction h with
  | refl => exact .refl s
  | tail _ h ih => exact ih.trans h.onward

/-- If nothing was recorded in the end, nothing was recorded before. -/
theorem errors_nil (h : s.Leads s') (herrors : s'.errors = []) : s.errors = [] :=
  List.prefix_nil.mp (herrors ▸ h.onward.errors)

theorem advance (s : ParserState) : s.Leads s.advance := by
  cases h : s.ahead with
  | nil => simp only [ParserState.advance, h]; exact .refl s
  | cons t ts => simp only [ParserState.advance, h]; exact .single (.take h)

end Leads

/-! ### Regular states -/

/-- A state is **regular** for a source: its tokens fit the source, they and the end of it stand one
behind the other, and the source ends where it should. -/
structure Regular (source : List Char) (s : ParserState) : Prop where
  finish : s.finish.kind = .endOfSource
  ending : s.finish.span.LiesIn source
  fits : ∀ t ∈ s.tokens, t.Fits source
  ordered : (s.tokens ++ [s.finish]).Pairwise fun t u => t.span.stop ≤ u.span.offset

variable {source : List Char}

theorem mem_tokens_of_consumed {t : Token} (h : t ∈ s.consumed) : t ∈ s.tokens :=
  List.mem_append_left _ (List.mem_reverse.mpr h)

theorem mem_tokens_of_ahead {t : Token} (h : t ∈ s.ahead) : t ∈ s.tokens :=
  List.mem_append_right _ h

namespace Regular

/-- A token may be replaced by one that starts later and ends where it did. -/
theorem replace {t u : Token} {ts : List Token} (hs : s.Regular source) (h : s.ahead = t :: ts)
    (hu : u.Fits source) (hoffset : t.span.offset ≤ u.span.offset)
    (hstop : u.span.stop = t.span.stop) : ({ s with ahead := u :: ts } : ParserState).Regular
      source := by
  obtain ⟨hfinish, hending, hfits, hordered⟩ := hs
  have htokens : s.tokens = s.consumed.reverse ++ (t :: ts) := by rw [tokens, h]
  rw [htokens] at hfits hordered
  refine ⟨hfinish, hending, fun v hv => ?_, ?_⟩
  · rcases List.mem_append.mp hv with hv | hv
    · exact hfits v (List.mem_append_left _ hv)
    · rcases List.mem_cons.mp hv with rfl | hv
      · exact hu
      · exact hfits v (List.mem_append_right _ (List.mem_cons_of_mem _ hv))
  · change (s.consumed.reverse ++ (u :: ts) ++ [s.finish]).Pairwise _
    rw [List.append_assoc, List.cons_append, List.pairwise_append, List.pairwise_cons] at hordered ⊢
    obtain ⟨hconsumed, ⟨hhead, hlater⟩, hcross⟩ := hordered
    refine ⟨hconsumed, ⟨fun v hv => hstop ▸ hhead v hv, hlater⟩, fun v hv w hw => ?_⟩
    rcases List.mem_cons.mp hw with rfl | hw
    · exact (hcross v hv t List.mem_cons_self).trans hoffset
    · exact hcross v hv w (List.mem_cons_of_mem _ hw)

/-- **Every step keeps regular states regular.** -/
theorem step (h : s.Step s') (hs : s.Regular source) : s'.Regular source := by
  cases h with
  | @take t ts h =>
    have htokens : ({ s with consumed := t :: s.consumed, ahead := ts } : ParserState).tokens
        = s.tokens := by simp [tokens, h]
    exact ⟨hs.finish, hs.ending, htokens ▸ hs.fits, by rw [htokens]; exact hs.ordered⟩
  | @split t ts rest h hrest =>
    have ht := hs.fits t (mem_tokens_of_ahead (by rw [h]; exact List.mem_cons_self))
    have hlength := ht.offset_lt_stop
    refine hs.replace h (ht.behindAngle hrest) (Nat.le_succ _) ?_
    simp only [Token.behindAngle, Span.dropByte, Span.stop] at hlength ⊢
    omega
  | note e => exact ⟨hs.finish, hs.ending, hs.fits, hs.ordered⟩
  | number => exact ⟨hs.finish, hs.ending, hs.fits, hs.ordered⟩

/-- **Regular states lead to regular states.** -/
theorem leads (h : s.Leads s') (hs : s.Regular source) : s'.Regular source := h.keep step hs

/-- The next token is the end of the source or fits it. -/
theorem next_cases (hs : s.Regular source) :
    (s.ahead = [] ∧ s.next = s.finish) ∨
      ∃ ts, s.ahead = s.next :: ts ∧ s.next.Fits source := by
  cases h : s.ahead with
  | nil => exact .inl ⟨rfl, next_of_ahead_nil h⟩
  | cons t ts =>
    have ht := hs.fits t (mem_tokens_of_ahead (by rw [h]; exact List.mem_cons_self))
    rw [next_of_ahead h]
    exact .inr ⟨ts, rfl, ht⟩

theorem liesIn_next (hs : s.Regular source) : s.next.span.LiesIn source := by
  rcases hs.next_cases with ⟨-, hnext⟩ | ⟨ts, -, hfits⟩
  · rw [hnext]
    exact hs.ending
  · exact hfits.liesIn

/-- What was consumed ends before what is ahead starts. -/
theorem stop_le_next {t : Token} (hs : s.Regular source) (ht : t ∈ s.consumed) :
    t.span.stop ≤ s.next.span.offset := by
  have hordered := hs.ordered
  rw [tokens, List.append_assoc, List.pairwise_append] at hordered
  refine hordered.2.2 t (List.mem_reverse.mpr ht) _ ?_
  rcases hs.next_cases with ⟨-, hnext⟩ | ⟨ts, hahead, -⟩
  · rw [hnext]
    exact List.mem_append_right _ (List.mem_singleton.mpr rfl)
  · rw [hahead]
    exact List.mem_append_left _ List.mem_cons_self

end Regular

/-- **The state before the first token of a source is regular.** -/
theorem regular_ofSource (source : List Char) (n : Nat) : (ofSource source n).Regular source := by
  have htiling := isTiling_tokenize source
  have htokens : (ofSource source n).tokens = (tokenize source).tokens.filter (·.kind ≠ .invalid) :=
    List.nil_append _
  refine ⟨htiling.finish.1, (liesIn_tokenize source).2.1, fun t ht => ?_, ?_⟩
  · rw [htokens, List.mem_filter] at ht
    exact fits_tokenize source t ht.1 (by simpa using ht.2)
  · rw [htokens]
    have hspans := (List.pairwise_cons.mp htiling.ordered).2
    rw [Tokens.spans, List.pairwise_map] at hspans
    exact hspans.sublist (List.filter_sublist.append (.refl _))

/-! ### How far a parser has got -/

/-- Where the last token consumed ends. -/
def reached (s : ParserState) : Nat := (s.consumed.head?.map fun t => t.span.stop).getD 0

theorem reached_of_consumed {t : Token} {ts : List Token} (h : s.consumed = t :: ts) :
    s.reached = t.span.stop := by
  rw [reached, h]
  rfl

theorem Regular.reached_le_next (hs : s.Regular source) : s.reached ≤ s.next.span.offset := by
  cases h : s.consumed with
  | nil => rw [reached, h]; exact Nat.zero_le _
  | cons t ts =>
    rw [reached_of_consumed h]
    exact hs.stop_le_next (by rw [h]; exact List.mem_cons_self)

/-- The next token ends before the one behind it starts. -/
theorem Regular.stop_le_offset {t : Token} {ts : List Token} (hs : s.Regular source)
    (h : s.ahead = t :: ts) : t.span.stop ≤ (ts.headD s.finish).span.offset := by
  have hstep : s.Step { s with consumed := t :: s.consumed, ahead := ts } := .take h
  have hle := (hs.step hstep).stop_le_next (t := t) List.mem_cons_self
  cases ts <;> exact hle

/-- A step does not get back behind what was reached, nor behind what was next. -/
theorem Step.reached_le (h : s.Step s') (hs : s.Regular source) :
    s.reached ≤ s'.reached ∧ s.next.span.offset ≤ s'.next.span.offset := by
  cases h with
  | @take t ts h =>
    have hnext := next_of_ahead h
    have hreached := hs.reached_le_next
    have hstop := hs.stop_le_offset h
    have hle := t.span.offset_le_stop
    rw [hnext] at hreached ⊢
    refine ⟨hreached.trans hle, hle.trans ?_⟩
    cases ts <;> exact hstop
  | @split t ts rest h hrest =>
    rw [next_of_ahead h]
    exact ⟨le_rfl, Nat.le_succ _⟩
  | note e => exact ⟨le_rfl, le_rfl⟩
  | number => exact ⟨le_rfl, le_rfl⟩

/-- The next token ends no later than the one that is next after a step. -/
theorem Step.stop_next_le (h : s.Step s') (hs : s.Regular source) :
    s.next.span.stop ≤ s'.next.span.stop := by
  cases h with
  | @take t ts h =>
    rw [next_of_ahead h]
    have hstop := hs.stop_le_offset h
    cases ts <;> exact hstop.trans (Span.offset_le_stop _)
  | @split t ts rest h hrest =>
    have ht := hs.fits t (mem_tokens_of_ahead (by rw [h]; exact List.mem_cons_self))
    have hlength := ht.offset_lt_stop
    rw [next_of_ahead h]
    change _ ≤ t.span.dropByte.stop
    simp only [Span.dropByte, Span.stop] at hlength ⊢
    omega
  | note e => exact le_rfl
  | number => exact le_rfl

theorem Leads.reached_le (h : s.Leads s') (hs : s.Regular source) :
    s.reached ≤ s'.reached ∧ s.next.span.offset ≤ s'.next.span.offset := by
  induction h with
  | refl => exact ⟨le_rfl, le_rfl⟩
  | tail hleads h ih =>
    have hstep := h.reached_le (hs.leads hleads)
    exact ⟨ih.1.trans hstep.1, ih.2.trans hstep.2⟩

end ParserState

end JavaGraft
