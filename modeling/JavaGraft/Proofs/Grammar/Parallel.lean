import JavaGraft.Grammar.Parser
import JavaGraft.Proofs.Tree.Relabel
import Mathlib.Data.List.Forall2

/-!
# Two runs of a parser

What a parser does never depends on the number at which its calls start, and the spans of the
tokens matter to nothing but the spans in the result. To say so, two runs are compared. A
`Correspondence` tells in which labels they may differ: those that its two relabellings turn into
the same. It comes in two strengths, as spans either have to agree or are left out of account
altogether.

Two parsers are `Parallel` if from states that correspond to each other, they both succeed or both
fail, with values or failures that correspond, and end in states that correspond again; if the
bounds of the second one are wider, nothing is said where the first one is exhausted. Each way of
putting parsers together keeps this up, with one lemma below for every one of them, so the rules of
the grammar follow one by one.
-/

namespace JavaGraft

/-! ### Relabelling what a parser handles -/

namespace Token

/-- A token with its span relabelled. -/
def relabeled (ρ : Relabeling) (t : Token) : Token := ⟨t.kind, t.text, ρ.span t.span⟩

end Token

/-- A lexical error with its span relabelled. -/
def LexError.relabeled (ρ : Relabeling) (e : LexError) : LexError := ⟨e.fault, ρ.span e.span⟩

/-- The cause of a parse error with its spans relabelled. -/
def ParseFault.relabeled (ρ : Relabeling) : ParseFault → ParseFault
  | lexical e => lexical (e.relabeled ρ)
  | fault => fault

/-- A parse error with its spans relabelled. -/
def ParseError.relabeled (ρ : Relabeling) (e : ParseError) : ParseError :=
  ⟨e.fault.relabeled ρ, ρ.span e.span⟩

/-- A failure with its spans relabelled. -/
def Failure.relabeled (ρ : Relabeling) : Failure → Failure
  | rejected e => rejected (e.relabeled ρ)
  | exhausted => exhausted

/-! ### Correspondences -/

/-- Two relabellings, for which labels of two runs are compared. Either spans must be the same, or
any two correspond to each other. -/
structure Correspondence where
  left : Relabeling
  right : Relabeling
  spans : (left.span = id ∧ right.span = id) ∨ ∀ s t, left.span s = right.span t
  /-- The errors, relabelled, that the second run has recorded before the first one starts. -/
  earlier : List ParseError
  /-- Whether the bounds of the second run may be wider. -/
  wider : Prop

namespace Correspondence

variable (c : Correspondence)

/-- Two values that the relabellings turn into the same. -/
abbrev Same {α : Type} (relabeled : Relabeling → α → α) (a b : α) : Prop :=
  relabeled c.left a = relabeled c.right b

/-- Two lists of values that correspond one by one. -/
abbrev SameList {α : Type} (relabeled : Relabeling → α → α) (as bs : List α) : Prop :=
  as.map (relabeled c.left) = bs.map (relabeled c.right)

/-- Two values that correspond, or none on both sides. -/
abbrev SameOption {α : Type} (relabeled : Relabeling → α → α) (a b : Option α) : Prop :=
  a.map (relabeled c.left) = b.map (relabeled c.right)

/-- Two spans that correspond. -/
abbrev SameSpan (s t : Span) : Prop := c.left.span s = c.right.span t

variable {c}

/-- Whatever is made of corresponding spans corresponds. -/
theorem sameSpan_of (make : Span → Span → Span) {s s' t t' : Span} (hs : c.SameSpan s s')
    (ht : c.SameSpan t t') : c.SameSpan (make s t) (make s' t') := by
  rcases c.spans with ⟨hleft, hright⟩ | hany
  · simp only [SameSpan, hleft, hright, id_eq] at hs ht ⊢
    rw [hs, ht]
  · exact hany _ _

theorem sameSpan_refl (s : Span) : c.SameSpan s s := by
  rcases c.spans with ⟨hleft, hright⟩ | hany
  · simp only [SameSpan, hleft, hright]
  · exact hany _ _

theorem SameSpan.merge {s s' t t' : Span} (hs : c.SameSpan s s') (ht : c.SameSpan t t') :
    c.SameSpan (s.merge t) (s'.merge t') :=
  sameSpan_of Span.merge hs ht

theorem SameSpan.map (make : Span → Span) {s s' : Span} (hs : c.SameSpan s s') :
    c.SameSpan (make s) (make s') :=
  sameSpan_of (fun s _ => make s) hs hs

theorem SameList.isEmpty {α : Type} {relabeled : Relabeling → α → α} {as as' : List α}
    (h : c.SameList relabeled as as') : as.isEmpty = as'.isEmpty := by
  rw [← List.isEmpty_map (f := relabeled c.left), h, List.isEmpty_map]

theorem SameOption.isNone {α : Type} {relabeled : Relabeling → α → α} {a a' : Option α}
    (h : c.SameOption relabeled a a') : a.isNone = a'.isNone := by
  rw [← Option.isNone_map (f := relabeled c.left), h, Option.isNone_map]

/-- Values that correspond stand at corresponding places. -/
theorem Same.span {α : Type} {relabeled : Relabeling → α → α} {span : α → Span} {a a' : α}
    (hspan : ∀ ρ a, span (relabeled ρ a) = ρ.span (span a)) (h : c.Same relabeled a a') :
    c.SameSpan (span a) (span a') := by
  rw [SameSpan, ← hspan, ← hspan, h]

theorem same_fault (fault : ParseFault) : c.Same ParseFault.relabeled fault fault := by
  cases fault with
  | lexical e =>
    simp only [Same, ParseFault.relabeled, LexError.relabeled, sameSpan_refl (c := c) e.span]
  | _ => rfl

variable (c)

/-- Tokens that correspond: they differ in nothing but their spans. -/
structure SameToken (t t' : Token) : Prop where
  kind : t.kind = t'.kind
  text : t.text = t'.text
  span : c.SameSpan t.span t'.span

/-- Tokens that are consumed already correspond. They show in nothing but spans. -/
def SameConsumed (ts ts' : List Token) : Prop :=
  (∀ s t, c.SameSpan s t) ∨ List.Forall₂ c.SameToken ts ts'

/-- States that correspond. The numbers of the calls still to come correspond one by one. -/
structure SameState (s s' : ParserState) : Prop where
  consumed : c.SameConsumed s.consumed s'.consumed
  ahead : List.Forall₂ c.SameToken s.ahead s'.ahead
  finish : c.SameToken s.finish s'.finish
  errors : c.earlier ++ s.errors.map (ParseError.relabeled c.left)
    = s'.errors.map (ParseError.relabeled c.right)
  calls : ∀ i, c.left.call (s.nextCall + i) = c.right.call (s'.nextCall + i)

/-- Ends of runs that correspond. -/
def SameResult {α : Type} (R : α → α → Prop) :
    EStateM.Result Failure ParserState α → EStateM.Result Failure ParserState α → Prop
  | .ok a s, .ok a' s' => R a a' ∧ c.SameState s s'
  | .error e s, .error e' s' => c.Same Failure.relabeled e e' ∧ c.SameState s s'
  | _, _ => False

/-- The first run is exhausted, and the bounds of the second one may be wider. -/
def GivesUp {α : Type} (r : EStateM.Result Failure ParserState α) : Prop :=
  c.wider ∧ ∃ s, r = .error .exhausted s

/-- **Parsers whose runs correspond** if they start in corresponding states, the values being
related by `R`. -/
def Parallel {α : Type} (R : α → α → Prop) (p p' : Parser α) : Prop :=
  ∀ s s', c.SameState s s' → c.GivesUp (p s) ∨ c.SameResult R (p s) (p' s')

/-- The bounds of loops that correspond. -/
def SameRounds (rounds rounds' : Nat) : Prop := rounds = rounds' ∨ c.wider ∧ rounds ≤ rounds'

end Correspondence

/-! ### What a state shows -/

/-- One token more that is consumed. -/
theorem Correspondence.SameConsumed.cons {c : Correspondence} {ts ts' : List Token} {t t' : Token}
    (h : c.SameConsumed ts ts') (ht : c.SameToken t t') : c.SameConsumed (t :: ts) (t' :: ts') :=
  h.imp_right (.cons ht)

namespace Correspondence.SameState

variable {c : Correspondence} {s s' : ParserState}

theorem nth (h : c.SameState s s') (n : Nat) : c.SameToken (s.nth n) (s'.nth n) := by
  rw [ParserState.nth, ParserState.nth]
  have hfinish := h.finish
  have hahead := h.ahead
  generalize s.ahead = ts at hahead
  generalize s'.ahead = ts' at hahead
  induction hahead generalizing n with
  | nil => exact hfinish
  | cons ht _ ih =>
    cases n with
    | zero => exact ht
    | succ n => exact ih n

theorem next (h : c.SameState s s') : c.SameToken s.next s'.next := h.nth 0

theorem previous (h : c.SameState s s') : c.SameSpan s.previous.span s'.previous.span := by
  rw [ParserState.previous, ParserState.previous]
  rcases h.consumed with hany | hconsumed
  · exact hany _ _
  · generalize s.consumed = ts at hconsumed
    generalize s'.consumed = ts' at hconsumed
    cases hconsumed with
    | nil => exact h.next.span
    | cons ht _ => exact ht.span

theorem advance (h : c.SameState s s') : c.SameState s.advance s'.advance := by
  rw [ParserState.advance, ParserState.advance]
  cases hahead : s.ahead with
  | nil =>
    have hahead' := h.ahead
    rw [hahead, List.forall₂_nil_left_iff] at hahead'
    rw [hahead']
    exact h
  | cons t ts =>
    have hahead' := h.ahead
    rw [hahead, List.forall₂_cons_left_iff] at hahead'
    obtain ⟨t', ts', ht, hts, hs'⟩ := hahead'
    rw [hs']
    exact ⟨h.consumed.cons ht, hts, h.finish, h.errors, h.calls⟩

/-- States that correspond go on to do so if the tokens of both are replaced by corresponding
ones. -/
theorem withTokens (h : c.SameState s s') {consumed consumed' ahead ahead' : List Token}
    (hconsumed : c.SameConsumed consumed consumed')
    (hahead : List.Forall₂ c.SameToken ahead ahead') :
    c.SameState { s with consumed, ahead } { s' with consumed := consumed', ahead := ahead' } :=
  ⟨hconsumed, hahead, h.finish, h.errors, h.calls⟩

end Correspondence.SameState

/-- The bounds that are left after one round. -/
theorem Correspondence.SameRounds.succ {c : Correspondence} {rounds rounds' : Nat}
    (h : c.SameRounds (rounds + 1) rounds') :
    ∃ n, rounds' = n + 1 ∧ c.SameRounds rounds n := by
  rcases h with rfl | ⟨hwider, hle⟩
  · exact ⟨rounds, rfl, .inl rfl⟩
  · exact ⟨rounds' - 1, by omega, .inr ⟨hwider, by omega⟩⟩

/-! ### Putting parsers together -/

namespace Correspondence.Parallel

variable {c : Correspondence} {α β : Type} {R : α → α → Prop} {S : β → β → Prop}

theorem pure {a a' : α} (h : R a a') : c.Parallel R (Pure.pure a) (Pure.pure a') :=
  fun _ _ hs => .inr ⟨h, hs⟩

theorem bind {p p' : Parser α} {f f' : α → Parser β} (hp : c.Parallel R p p')
    (hf : ∀ a a', R a a' → c.Parallel S (f a) (f' a')) :
    c.Parallel S (p >>= f) (p' >>= f') := by
  intro s s' hs
  simp only [Bind.bind, EStateM.bind]
  rcases hp s s' hs with ⟨hwider, t, hexhausted⟩ | h
  · rw [hexhausted]
    exact .inl ⟨hwider, t, rfl⟩
  · revert h
    cases p s <;> cases p' s' <;> intro h
    · exact hf _ _ h.1 _ _ h.2
    · exact h.elim
    · exact h.elim
    · exact .inr h

theorem map {p p' : Parser α} {f f' : α → β} (hp : c.Parallel R p p')
    (hf : ∀ a a', R a a' → S (f a) (f' a')) : c.Parallel S (f <$> p) (f' <$> p') := by
  intro s s' hs
  simp only [Functor.map, EStateM.map]
  rcases hp s s' hs with ⟨hwider, t, hexhausted⟩ | h
  · rw [hexhausted]
    exact .inl ⟨hwider, t, rfl⟩
  · right
    revert h
    cases p s <;> cases p' s' <;> intro h
    · exact ⟨hf _ _ h.1, h.2⟩
    · exact h.elim
    · exact h.elim
    · exact h

theorem discard {p p' : Parser α} (hp : c.Parallel R p p') :
    c.Parallel (fun _ _ : Unit => True) (Functor.discard p) (Functor.discard p') :=
  hp.map fun _ _ _ => trivial

theorem wrap {f : Relabeling → α → α} {p p' : Parser α} (hp : c.Parallel (c.Same f) p p') :
    c.Parallel (c.SameOption f) (some <$> p) (some <$> p') :=
  hp.map fun _ _ h => congrArg some h

theorem ite {P P' : Prop} [Decidable P] [Decidable P'] {p p' q q' : Parser α} (h : P ↔ P')
    (hp : c.Parallel R p p') (hq : c.Parallel R q q') :
    c.Parallel R (if P then p else q) (if P' then p' else q') := by
  by_cases hP : P
  · rw [if_pos hP, if_pos (h.mp hP)]
    exact hp
  · rw [if_neg hP, if_neg (mt h.mpr hP)]
    exact hq

/-- A choice by what a parser tells. -/
theorem whether {b b' : Parser Bool} {p p' q q' : Parser α} (hb : c.Parallel Eq b b')
    (hp : c.Parallel R p p') (hq : c.Parallel R q q') :
    c.Parallel R (b >>= fun x => if x then p else q) (b' >>= fun x => if x then p' else q') :=
  hb.bind fun x x' hx => ite (by rw [hx]) hp hq

/-- A choice by what a parser tells, after which both ways go on alike. -/
theorem joining {b b' : Parser Bool} {p p' q q' : Parser α} {k k' : α → Parser β}
    (hb : c.Parallel Eq b b') (hp : c.Parallel R p p') (hq : c.Parallel R q q')
    (hk : ∀ a a', R a a' → c.Parallel S (k a) (k' a')) :
    c.Parallel S (b >>= fun x => if x then p >>= k else q >>= k)
      (b' >>= fun x => if x then p' >>= k' else q' >>= k') :=
  whether hb (hp.bind hk) (hq.bind hk)

theorem exhausted : c.Parallel R (throw .exhausted) (throw .exhausted) :=
  fun _ _ hs => .inr ⟨rfl, hs⟩

/-- Nothing is said where the first run is exhausted and the second one goes on. -/
theorem exhausted_left {p : Parser α} (h : c.wider) : c.Parallel R (throw .exhausted) p :=
  fun s _ _ => .inl ⟨h, s, rfl⟩

theorem reject {s s' : Span} (fault : ParseFault) (h : c.SameSpan s s') :
    c.Parallel R (Parser.reject fault s) (Parser.reject fault s') := by
  intro t t' ht
  refine .inr ⟨?_, ht⟩
  simp only [Same, Failure.relabeled, ParseError.relabeled]
  rw [same_fault fault, h]

/-! ### Tokens -/

theorem get : c.Parallel c.SameState MonadState.get MonadState.get :=
  fun _ _ hs => .inr ⟨hs, hs⟩

theorem peek : c.Parallel c.SameToken Parser.peek Parser.peek :=
  get.bind fun _ _ hs => pure hs.next

theorem kindAt (n : Nat) : c.Parallel Eq (Parser.kindAt n) (Parser.kindAt n) :=
  get.bind fun _ _ hs => pure (hs.nth n).kind

theorem check (kind : TokenKind) : c.Parallel Eq (Parser.check kind) (Parser.check kind) :=
  get.bind fun _ _ hs => pure (by rw [hs.next.kind])

theorem checkNth (n : Nat) (kind : TokenKind) :
    c.Parallel Eq (Parser.checkNth n kind) (Parser.checkNth n kind) :=
  get.bind fun _ _ hs => pure (by rw [(hs.nth n).kind])

theorem atEnd : c.Parallel Eq Parser.atEnd Parser.atEnd := check _

theorem rejectNext (fault : TokenKind → ParseFault) :
    c.Parallel R (Parser.rejectNext fault) (Parser.rejectNext fault) := by
  refine get.bind fun s s' hs => ?_
  simp only [hs.next.kind]
  exact reject _ hs.next.span

theorem advance : c.Parallel c.SameToken Parser.advance Parser.advance :=
  fun _ _ hs => .inr ⟨hs.next, hs.advance⟩

theorem eat? (kind : TokenKind) :
    c.Parallel (Option.Rel c.SameToken) (Parser.eat? kind) (Parser.eat? kind) :=
  whether (check kind) (advance.bind fun _ _ ht => pure (.some ht)) (pure .none)

theorem eat (kind : TokenKind) : c.Parallel Eq (Parser.eat kind) (Parser.eat kind) :=
  (eat? kind).bind fun _ _ h => pure (by cases h <;> rfl)

theorem expect (kind : TokenKind) :
    c.Parallel c.SameToken (Parser.expect kind) (Parser.expect kind) :=
  whether (check kind) advance (whether atEnd (rejectNext _) (rejectNext _))

theorem identifier : c.Parallel (c.Same Ident.relabeled) Parser.identifier Parser.identifier :=
  (expect _).bind fun t t' ht => pure (by
    simp only [Same, Ident.relabeled]
    rw [ht.text, ht.span])

theorem spanFrom {s s' : Span} (h : c.SameSpan s s') :
    c.Parallel c.SameSpan (Parser.spanFrom s) (Parser.spanFrom s') :=
  get.bind fun _ _ hs => pure (h.merge hs.previous)

theorem closeAngle : c.Parallel (fun _ _ => True) Parser.closeAngle Parser.closeAngle := by
  refine peek.bind fun t t' ht => ?_
  rw [ht.kind]
  match Parser.dropAngle? t'.kind with
  | none => exact reject _ ht.span
  | some none => exact advance.discard
  | some (some rest) =>
    intro s s' hs
    refine .inr ⟨trivial, hs.withTokens hs.consumed (.cons ⟨rfl, ?_, ht.span.map Span.dropByte⟩ ?_)⟩
    · rw [ht.text]
    · exact List.forall₂_drop 1 hs.ahead

theorem dims : c.Parallel Eq Parser.dims Parser.dims := by
  intro s s' hs
  -- The loop runs over the tokens ahead, so the claim is made for all tokens at once.
  suffices h : ∀ n ts ts' consumed consumed', List.Forall₂ c.SameToken ts ts' →
      c.SameConsumed consumed consumed' →
      (Parser.dims.count s n consumed ts).1 = (Parser.dims.count s' n consumed' ts').1 ∧
        c.SameState (Parser.dims.count s n consumed ts).2
          (Parser.dims.count s' n consumed' ts').2 from
    .inr (h 0 _ _ _ _ hs.ahead hs.consumed)
  intro n ts ts' consumed consumed' hts hconsumed
  fun_induction Parser.dims.count s n consumed ts generalizing ts' consumed' with
  | case1 n consumed t u ts h ih =>
    rcases hts with _ | ⟨ht, _ | ⟨hu, hts⟩⟩
    simp only [Parser.dims.count, ← ht.kind, ← hu.kind, if_pos h]
    exact ih _ _ hts ((hconsumed.cons ht).cons hu)
  | case2 n consumed t u ts h =>
    rcases hts with _ | ⟨ht, _ | ⟨hu, hts⟩⟩
    simp only [Parser.dims.count, ← ht.kind, ← hu.kind, if_neg h]
    exact ⟨trivial, hs.withTokens hconsumed (.cons ht (.cons hu hts))⟩
  | case3 n consumed ts hshort =>
    rcases hts with _ | ⟨ht, _ | ⟨hu, hts⟩⟩
    · exact ⟨rfl, hs.withTokens hconsumed .nil⟩
    · exact ⟨rfl, hs.withTokens hconsumed (.cons ht .nil)⟩
    · exact (hshort _ _ _ rfl).elim

theorem freshCall :
    c.Parallel (fun n n' => c.left.call n = c.right.call n') Parser.freshCall
      Parser.freshCall := by
  intro s s' hs
  refine .inr ⟨hs.calls 0, hs.consumed, hs.ahead, hs.finish, hs.errors, fun i => ?_⟩
  -- The numbers after the next one are those that come later now.
  have h := hs.calls (1 + i)
  rwa [← Nat.add_assoc, ← Nat.add_assoc] at h

/-! ### Recovery -/

theorem record {e e' : ParseError} (h : c.Same ParseError.relabeled e e') :
    c.Parallel (fun _ _ => True) (Parser.record e) (Parser.record e') := by
  intro s s' hs
  refine .inr ⟨trivial, hs.consumed, hs.ahead, hs.finish, ?_, hs.calls⟩
  simp only [List.map_append, List.map_cons, List.map_nil, ← List.append_assoc, hs.errors, h]

theorem synchronize : c.Parallel (fun _ _ => True) Parser.synchronize Parser.synchronize := by
  intro s s' hs
  refine .inr ⟨trivial, ?_⟩
  -- The same again: skipping runs over the tokens ahead and remembers the one before, except that
  -- the first one is skipped whatever was before it.
  suffices h : ∀ first ts ts' consumed consumed', List.Forall₂ c.SameToken ts ts' →
      c.SameConsumed consumed consumed' →
      (first = false → (consumed.head?.any fun p => p.kind = .sign .semicolon)
        = consumed'.head?.any fun p => p.kind = .sign .semicolon) →
      c.SameState (Parser.synchronize.skip s first consumed ts)
        (Parser.synchronize.skip s' first consumed' ts') from
    h true _ _ _ _ hs.ahead hs.consumed nofun
  intro first ts ts' consumed consumed' hts hconsumed hlast
  induction hts generalizing first consumed consumed' with
  | nil => exact hs.withTokens hconsumed .nil
  | @cons t t' ts ts' ht hts ih =>
    have hnext : c.SameState (Parser.synchronize.skip s false (t :: consumed) ts)
        (Parser.synchronize.skip s' false (t' :: consumed') ts') :=
      ih _ _ _ (hconsumed.cons ht) fun _ => by
        simp only [List.head?_cons, Option.any_some, ht.kind]
    cases first with
    | true =>
      simp only [Parser.synchronize.skip, ← ht.kind, if_true]
      split
      · exact hs.withTokens (hconsumed.cons ht) hts
      · exact hnext
    | false =>
      simp only [Parser.synchronize.skip, ← ht.kind, ← hlast rfl, Bool.false_eq_true, if_false]
      split
      · exact hs.withTokens hconsumed (.cons ht hts)
      · exact hnext

variable {f : Relabeling → α → α}

theorem recovering {p p' : Parser (Option α)}
    (hp : c.Parallel (c.SameOption f) p p') :
    c.Parallel (c.SameOption f) (Parser.recovering p)
      (Parser.recovering p') := by
  intro s s' hs
  simp only [Parser.recovering, tryCatch, tryCatchThe, MonadExceptOf.tryCatch, EStateM.tryCatch,
    EStateM.Backtrackable.restore, EStateM.dummyRestore]
  rcases hp s s' hs with ⟨hwider, t, hexhausted⟩ | h
  · rw [hexhausted]
    exact .inl ⟨hwider, t, rfl⟩
  revert h
  cases p s with
  | ok a t =>
    cases p' s' with
    | ok a' t' => exact .inr
    | error e' t' => exact False.elim
  | error e t =>
    cases p' s' with
    | ok a' t' => exact False.elim
    | error e' t' =>
      rintro ⟨he, ht⟩
      -- Corresponding failures are of one kind; only a rejection is recovered from.
      cases e with
      | exhausted =>
        cases e' with
        | exhausted => exact .inr ⟨rfl, ht⟩
        | rejected e' => cases he
      | rejected e =>
        cases e' with
        | exhausted => cases he
        | rejected e' =>
          have he : c.Same ParseError.relabeled e e' := Failure.rejected.inj he
          exact (record he).bind (fun _ _ _ => synchronize.bind fun _ _ _ => pure rfl) _ _ ht

/-! ### Repetition -/

theorem iterate {B : β → β → Prop} {step step' : β → Parser (β ⊕ α)}
    (hstep : ∀ b b', B b b' → c.Parallel (Sum.LiftRel B R) (step b) (step' b'))
    {rounds rounds' : Nat} (hrounds : c.SameRounds rounds rounds') {b b' : β} (h : B b b') :
    c.Parallel R (Parser.iterate step rounds b) (Parser.iterate step' rounds' b') := by
  induction rounds generalizing rounds' b b' with
  | zero =>
    rcases hrounds with rfl | ⟨hwider, -⟩
    · exact exhausted
    · exact exhausted_left hwider
  | succ rounds ih =>
    obtain ⟨rounds', rfl, hless⟩ := hrounds.succ
    refine (hstep b b' h).bind fun x x' hx => ?_
    cases hx with
    | inl hb => exact ih hless hb
    | inr ha => exact pure ha

/-- One value more in front of corresponding ones. -/
theorem same_cons {a a' : α} {as as' : List α} (h : c.Same f a a')
    (hs : c.SameList f as as') :
    c.SameList f (a :: as) (a' :: as') := by
  simp only [SameList, List.map_cons, h, hs]

theorem same_reverse {as as' : List α} (hs : c.SameList f as as') :
    c.SameList f as.reverse as'.reverse := by
  simp only [SameList, List.map_reverse, hs]

theorem collect {rounds rounds' : Nat} (hrounds : c.SameRounds rounds rounds')
    {item item' : Parser (Option α)}
    (hitem : c.Parallel (c.SameOption f) item item') :
    c.Parallel (c.SameList f) (Parser.collect rounds item)
      (Parser.collect rounds' item') := by
  refine iterate (B := c.SameList f) (fun as as' has => ?_) hrounds rfl
  refine hitem.bind fun a a' ha => ?_
  cases a <;> cases a' <;> simp only [SameOption, Option.map_some, Option.map_none,
    reduceCtorEq, Option.some.injEq] at ha
  · exact pure (.inr (same_reverse has))
  · exact pure (.inl (same_cons ha has))

theorem collectWhile {rounds rounds' : Nat} (hrounds : c.SameRounds rounds rounds')
    {more more' : Parser Bool} {item item' : Parser (Option α)}
    (hmore : c.Parallel Eq more more')
    (hitem : c.Parallel (c.SameOption f) item item') :
    c.Parallel (c.SameList f) (Parser.collectWhile rounds more item)
      (Parser.collectWhile rounds' more' item') := by
  refine iterate (B := c.SameList f) (fun as as' has => ?_) hrounds rfl
  refine whether hmore (hitem.bind fun a a' ha => ?_) (pure (.inr (same_reverse has)))
  cases a <;> cases a' <;> simp only [SameOption, Option.map_some, Option.map_none,
    reduceCtorEq, Option.some.injEq] at ha
  · exact pure (.inl has)
  · exact pure (.inl (same_cons ha has))

theorem sepBy {rounds rounds' : Nat} (hrounds : c.SameRounds rounds rounds')
    (separator : TokenKind) {item item' : Parser α}
    (hitem : c.Parallel (c.Same f) item item') :
    c.Parallel (c.SameList f) (Parser.sepBy rounds separator item)
      (Parser.sepBy rounds' separator item') := by
  refine iterate (B := c.SameList f) (fun as as' has => ?_) hrounds rfl
  refine hitem.bind fun a a' ha => ?_
  exact whether (eat separator) (pure (.inl (same_cons ha has)))
    (pure (.inr (same_reverse (same_cons ha has))))

theorem before (close : TokenKind) :
    c.Parallel Eq (Parser.before close) (Parser.before close) :=
  (kindAt 0).bind fun _ _ hk => pure (by rw [hk])

theorem sepUntil {rounds rounds' : Nat} (hrounds : c.SameRounds rounds rounds')
    (separator close : TokenKind) {item item' : Parser α}
    (hitem : c.Parallel (c.Same f) item item') :
    c.Parallel (c.SameList f) (Parser.sepUntil rounds separator close item)
      (Parser.sepUntil rounds' separator close item') := by
  refine iterate (B := c.SameList f) (fun as as' has => ?_) hrounds rfl
  refine whether (before close) (hitem.bind fun a a' ha => ?_) (pure (.inr (same_reverse has)))
  exact whether (eat separator) (pure (.inl (same_cons ha has)))
    (pure (.inr (same_reverse (same_cons ha has))))

end Correspondence.Parallel

end JavaGraft
