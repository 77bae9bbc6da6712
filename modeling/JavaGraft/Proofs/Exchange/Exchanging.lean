import JavaGraft.Proofs.Course.Units
import JavaGraft.Proofs.Exchange.Passing

/-!
# Exchanging what follows a run

What a parser reads is decided by the tokens that it takes and by the token behind them. Where an
expression or a statement ends, a few kinds of tokens may follow that go on with neither, and it
makes no difference which of them does (`JavaGraft.TokenKind.isEnd`): a part of a source is read as
it is read alone.

`JavaGraft.Exchange.CarriesFrom` says this of one parser: if a run records no error and stops before
what is exchanged, then the run before the other tokens has the same result and stops before them.
Two more things are known of such a run. It has taken some tokens, and so there is a token to look
at before it; and what it has passed is balanced in its parentheses, but for those that were opened
before. The second one decides what is seen by looking far ahead.

Some parsers look one token further than they take, and some look for the end of parentheses that
are open. They need room before what is exchanged (`JavaGraft.Exchange.Room`).

Each way of putting parsers together carries over, with one lemma below for every one of them.
-/

namespace JavaGraft

/-! ### Kinds -/

/-- Something that is taken without opening or closing parentheses. -/
def TokenKind.isLevel (kind : TokenKind) : Bool := kind.isFlat && kind.hasText

/-- **A kind of token before which an expression or a statement ends.** -/
def TokenKind.isEnd : TokenKind → Bool
  | .endOfSource | .sign .comma | .sign .colon | .sign .arrow | .sign .rbrace => true
  | _ => false

/-- A kind of token that an angle can be taken off. -/
def TokenKind.isAngle (kind : TokenKind) : Bool := (Parser.dropAngle? kind).isSome

/-- **A kind of token that may be exchanged.** -/
def TokenKind.isBound (kind : TokenKind) : Bool := kind.isEnd || kind.isAngle

theorem TokenKind.isBound_of_isEnd {kind : TokenKind} (h : kind.isEnd) : kind.isBound := by
  rw [isBound, h, Bool.true_or]

theorem TokenKind.isAngle_of_isEnd {kind : TokenKind} (h : kind.isEnd) : kind.isAngle = false := by
  unfold isEnd at h
  split at h
  case h_6 => cases h
  all_goals rfl

/-- A kind that the next token is not of, whatever is exchanged. -/
def TokenKind.isTelling (kind : TokenKind) : Bool := !kind.isBound

namespace Token

theorem totalWeight_cons (t : Token) (ts : List Token) :
    totalWeight ts + 1 ≤ totalWeight (t :: ts) := by
  have := t.one_le_weight
  rw [totalWeight]
  omega

theorem totalWeight_pos {ts : List Token} : 0 < totalWeight ts ↔ ts ≠ [] := by
  cases ts with
  | nil => simp [totalWeight]
  | cons t ts =>
    exact iff_of_true ((Nat.succ_pos _).trans_le (totalWeight_cons t ts)) (List.cons_ne_nil t ts)

end Token

namespace ParserState

variable {s s' : ParserState}

/-- The state with other tokens ahead. -/
def having (s : ParserState) (ts : List Token) : ParserState := { s with ahead := ts }

@[simp] theorem ahead_having (s : ParserState) (ts : List Token) : (s.having ts).ahead = ts := rfl

@[simp] theorem having_self (s : ParserState) : s.having s.ahead = s := rfl

theorem next_having (s : ParserState) (t : Token) (ts : List Token) :
    (s.having (t :: ts)).next = t := rfl

theorem advance_having {t : Token} {ts : List Token} (h : s.ahead = t :: ts) (us : List Token) :
    (s.having (t :: us)).advance = s.advance.having us := by
  simp only [advance, having, h]

/-- What a state leads to has tokens ahead that the state has ahead, but that angles may be taken
off the first one. -/
theorem Leads.suffix (h : s.Leads s') : s'.ahead <:+ s.ahead ∨
    ∃ t ts, s'.ahead = t :: ts ∧ ts <:+ s.ahead ∧ (t.kind = Sign.greater ∨ t.kind = Sign.shr) := by
  induction h with
  | refl => exact .inl List.suffix_rfl
  | tail _ hstep ih =>
    cases hstep with
    | take hahead =>
      left
      rcases ih with hsuffix | ⟨t, ts, hcons, hsuffix, -⟩
      · rw [hahead] at hsuffix
        exact (List.suffix_cons _ _).trans hsuffix
      · obtain ⟨-, rfl⟩ := List.cons_eq_cons.mp (hahead.symm.trans hcons)
        exact hsuffix
    | @split t ts rest hahead hrest =>
      right
      refine ⟨_, ts, rfl, ?_, ?_⟩
      · rcases ih with hsuffix | ⟨t', ts', hcons, hsuffix, -⟩
        · rw [hahead] at hsuffix
          exact (List.suffix_cons _ _).trans hsuffix
        · obtain ⟨-, rfl⟩ := List.cons_eq_cons.mp (hahead.symm.trans hcons)
          exact hsuffix
      · rcases Token.angles_of_dropAngle? hrest with ⟨-, rfl⟩ | ⟨-, rfl⟩
        · exact .inl rfl
        · exact .inr rfl
    | note e => exact ih
    | number => exact ih

/-- Further on the source still ends, and something was consumed. -/
theorem Leads.goesOn (h : s.Leads s') (hfinish : s.finish.kind = .endOfSource)
    (hconsumed : s.consumed ≠ []) : s'.finish.kind = .endOfSource ∧ s'.consumed ≠ [] :=
  ⟨h.onward.finish ▸ hfinish, fun hnil =>
    hconsumed (List.suffix_nil.mp (hnil ▸ h.onward.consumed))⟩

end ParserState

namespace Parser

variable {α : Type} {keep : α → Bool} {p : Parser α} {s t : ParserState} {a : α}

/-- A parser of which only certain results are of interest. -/
def only (keep : α → Bool) (p : Parser α) : Parser α := do
  let a ← p
  if keep a then return a else throw .exhausted

theorem only_ok (h : p s = .ok a t) (ha : keep a) : only keep p s = .ok a t := by
  rw [only, bind_ok h, if_pos ha]
  rfl

theorem of_only (h : only keep p s = .ok a t) : p s = .ok a t ∧ keep a := by
  obtain ⟨b, u, hrun, h⟩ := exists_of_bind_ok h
  split_ifs at h with hb
  · cases h
    exact ⟨hrun, hb⟩
  · cases h

theorem only_bind {β : Type} {p : Parser β} {f : β → Parser α} :
    only keep (p >>= f) = p >>= fun b => only keep (f b) := by
  rw [only, bind_assoc]
  rfl

theorem only_ite {P : Prop} [Decidable P] {q : Parser α} :
    only keep (if P then p else q) = if P then only keep p else only keep q := by
  split <;> rfl

/-- A parser that runs only where something is seen. -/
def guarded (P : ParserState → Prop) [DecidablePred P] (p : Parser α) : Parser α := fun s =>
  if P s then p s else .error .exhausted s

theorem guarded_ok {P : ParserState → Prop} [DecidablePred P] (hs : P s) :
    guarded P p s = p s := if_pos hs

theorem guarded_peek {P : ParserState → Prop} [DecidablePred P] {f : Token → Parser α} :
    guarded P (peek >>= f) = peek >>= fun t => guarded P (f t) := rfl

theorem of_guarded {P : ParserState → Prop} [DecidablePred P] (h : guarded P p s = .ok a t) :
    P s ∧ p s = .ok a t := by
  unfold guarded at h
  split_ifs at h with hs
  exact ⟨hs, h⟩

end Parser

/-- **What follows a run, and what is put in its place**: tokens before which an expression or a
statement ends, or a closing angle. -/
structure Exchange where
  rest : List Token
  rest' : List Token
  bound : (Token.firstKind rest).isBound
  bound' : (Token.firstKind rest').isBound

namespace Exchange

/-- Whether an angle is exchanged. -/
def hasAngle (c : Exchange) : Bool :=
  (Token.firstKind c.rest).isAngle || (Token.firstKind c.rest').isAngle

variable {c : Exchange}

/-- If it is no angle, something is exchanged before which an expression ends. -/
theorem ends (h : c.hasAngle = false) :
    (Token.firstKind c.rest).isEnd ∧ (Token.firstKind c.rest').isEnd := by
  obtain ⟨hangle, hangle'⟩ := Bool.or_eq_false_iff.mp h
  exact ⟨(Bool.or_eq_true_iff.mp c.bound).resolve_right (by rw [hangle]; exact Bool.false_ne_true),
    (Bool.or_eq_true_iff.mp c.bound').resolve_right (by rw [hangle']; exact Bool.false_ne_true)⟩

/-- Tokens in the place of the end of the source. -/
def ofEnd (ts : List Token) (h : (Token.firstKind ts).isEnd) : Exchange where
  rest := []
  rest' := ts
  bound := rfl
  bound' := TokenKind.isBound_of_isEnd h

/-- How much room there is before what is exchanged: at level 1 there is a token, and from level 2
on a parenthesis is closed that was opened before. Before an angle there is always a token. -/
def Room (c : Exchange) : Nat → List Token → Prop
  | 0, y => c.hasAngle → y ≠ []
  | 1, y => y ≠ []
  | _ + 2, y => ∃ z, Passes 1 y z

/-- The room before what is passed, by the room behind it. -/
def Makes (room take opened room₁ : Nat) : Prop :=
  room₁ ≤ room ∨ room₁ ≤ 1 ∧ 1 ≤ take ∨ 1 ≤ opened

namespace Room

variable {n room room₁ take opened : Nat} {x y : List Token}

theorem ne_nil (h : c.Room n y) (hn : 1 ≤ n) : y ≠ [] := by
  match n, h with
  | 1, h => exact h
  | _ + 2, ⟨z, hz⟩ =>
    rintro rfl
    cases hz

theorem le (h : c.Room n y) (hle : room ≤ n) : c.Room room y := by
  match room, n, h with
  | 0, 0, h => exact h
  | 0, _ + 1, h => exact fun _ => h.ne_nil (Nat.le_add_left _ _)
  | 1, _, h => exact h.ne_nil hle
  | _ + 2, _ + 2, h => exact h

/-- Tokens in the place of the end of the source need no room. -/
theorem ofEnd {ts : List Token} (h : (Token.firstKind ts).isEnd) : (ofEnd ts h).Room 0 y := by
  intro hangle
  have hnot : (Exchange.ofEnd ts h).hasAngle = false := TokenKind.isAngle_of_isEnd h
  rw [hnot] at hangle
  cases hangle

theorem of_passes (h : Passes (n + 1) x y) : c.Room room x := by
  obtain ⟨z, hz, -⟩ := h.split (Nat.add_comm n 1)
  exact Room.le (n := room + 2) ⟨z, hz⟩ (Nat.le_add_right _ _)

theorem before (h : c.Room room y) (hmakes : Makes room take opened room₁)
    (hweight : Token.totalWeight y + take ≤ Token.totalWeight x) (hpasses : Passes opened x y) :
    c.Room room₁ x := by
  rcases hmakes with hle | ⟨hle, htake⟩ | hopened
  · match room₁, h.le hle with
    | 0, hy =>
      exact fun hangle => Token.totalWeight_pos.mp
        ((Token.totalWeight_pos.mpr (hy hangle)).trans_le (by omega))
    | 1, hy => exact Token.totalWeight_pos.mp ((Token.totalWeight_pos.mpr hy).trans_le (by omega))
    | _ + 2, ⟨z, hz⟩ => exact of_passes (hpasses.trans hz)
  · exact Room.le (n := 1) (Token.totalWeight_pos.mp (by omega)) hle
  · obtain ⟨n, rfl⟩ : ∃ n, opened = n + 1 := ⟨opened - 1, by omega⟩
    exact of_passes hpasses

end Room

/-! ### Runs before what is exchanged -/

section

variable (c : Exchange)

/-- A run from one state to another one, before what is exchanged: the tokens ahead of both. -/
structure Stretch (room opened take : Nat) (s t : ParserState) (x y : List Token) : Prop where
  before : s.ahead = x ++ c.rest
  after : t.ahead = y ++ c.rest
  weight : Token.totalWeight y + take ≤ Token.totalWeight x
  passes : Passes opened x y
  room : c.Room room y

/-- A run has the same result before the other tokens, if it records no error. -/
def Recasts {α : Type} (room opened take : Nat) (p : Parser α) (s : ParserState) (a : α)
    (t : ParserState) : Prop :=
  t.errors = s.errors → ∀ y, t.ahead = y ++ c.rest → c.Room room y →
    ∃ x, c.Stretch room opened take s t x y ∧
      p (s.having (x ++ c.rest')) = .ok a (t.having (y ++ c.rest'))

/-- **What a parser carries over** to the other tokens if it starts in certain states, and if there
is room behind it. It closes parentheses that were opened before, and takes some tokens. -/
def CarriesFrom {α : Type} (start : ParserState → Prop) (room opened take : Nat) (p : Parser α) :
    Prop :=
  ∀ s a t, start s → s.finish.kind = .endOfSource → s.consumed ≠ [] → p s = .ok a t →
    s.Leads t ∧ c.Recasts room opened take p s a t

/-- What a parser carries over wherever it starts. -/
abbrev Carries {α : Type} (room opened take : Nat) (p : Parser α) : Prop :=
  c.CarriesFrom (fun _ => True) room opened take p

end

variable {α β γ : Type} {start start' : ParserState → Prop}
  {room room₁ opened take take₁ : Nat}

/-! ### What is seen -/

theorem firstKind_ne {kind : TokenKind} (hkind : kind.isTelling) :
    Token.firstKind c.rest ≠ kind ∧ Token.firstKind c.rest' ≠ kind := by
  have htold {k : TokenKind} (hk : k.isBound) : k ≠ kind := by
    rintro rfl
    rw [TokenKind.isTelling, hk] at hkind
    cases hkind
  exact ⟨htold c.bound, htold c.bound'⟩

namespace Stretch

variable {s t : ParserState} {x y : List Token} (h : c.Stretch room opened take s t x y)

include h

/-- Tokens before what is exchanged are the same. -/
theorem nth_eq {n : Nat} (hn : n < x.length) : (s.having (x ++ c.rest')).nth n = s.nth n := by
  simp only [ParserState.nth, ParserState.having, h.before, List.getD_eq_getElem?_getD,
    List.getElem?_append_left hn]

theorem next_eq (hx : x ≠ []) : (s.having (x ++ c.rest')).next = s.next :=
  h.nth_eq (List.length_pos_iff.mpr hx)

theorem ne_nil_of_after (hy : y ≠ []) : x ≠ [] :=
  Token.totalWeight_pos.mp ((Token.totalWeight_pos.mpr hy).trans_le
    ((Nat.le_add_right _ _).trans h.weight))

theorem ne_nil (hsome : 1 ≤ room ∨ 1 ≤ take) : x ≠ [] := by
  rcases hsome with hroom | htake
  · exact h.ne_nil_of_after (h.room.ne_nil hroom)
  · exact Token.totalWeight_pos.mp (htake.trans ((Nat.le_add_left _ _).trans h.weight))

/-- Where nothing stands before what is exchanged, an expression ends. -/
theorem ends (hx : x = []) :
    (Token.firstKind c.rest).isEnd ∧ (Token.firstKind c.rest').isEnd :=
  c.ends (Bool.eq_false_iff.mpr fun hangle =>
    h.ne_nil_of_after (h.room.le (Nat.zero_le _) hangle) hx)

/-- A token that is taken is followed by another one if more is taken, or if there is room. -/
theorem one_lt (hweight : s.next.weight = 1) (hmore : 1 ≤ room ∧ 1 ≤ take ∨ 2 ≤ take) :
    1 < x.length := by
  have hleft : Token.totalWeight y + take ≤ Token.totalWeight x := h.weight
  obtain ⟨u, us, rfl⟩ := List.exists_cons_of_ne_nil (h.ne_nil (hmore.imp And.left (by omega)))
  rw [ParserState.next_of_ahead h.before] at hweight
  rw [Token.totalWeight, hweight] at hleft
  have hus : us ≠ [] := by
    refine Token.totalWeight_pos.mp ?_
    rcases hmore with ⟨hroom, htake⟩ | htake
    · have := Token.totalWeight_pos.mpr (h.room.ne_nil hroom)
      omega
    · omega
  have := List.length_pos_iff.mpr hus
  rw [List.length_cons]
  omega

/-- The kind of the first token that is exchanged. -/
theorem kind_last (hfinish : s.finish.kind = .endOfSource) :
    (s.nth x.length).kind = Token.firstKind c.rest ∧
      ((s.having (x ++ c.rest')).nth x.length).kind = Token.firstKind c.rest' := by
  have hfirst (ts : List Token) : ((x ++ ts).getD x.length s.finish).kind = Token.firstKind ts := by
    rw [List.getD_eq_getElem?_getD, List.getElem?_append_right le_rfl, Nat.sub_self]
    cases ts with
    | nil => exact hfinish
    | cons t ts => rfl
  exact ⟨by rw [ParserState.nth, h.before, hfirst], hfirst c.rest'⟩

/-- Up to the first token of what is exchanged, a kind that tells is seen where it was seen. -/
theorem nth_kind_iff {n : Nat} {kind : TokenKind} (hfinish : s.finish.kind = .endOfSource)
    (hn : n ≤ x.length) (hkind : kind.isTelling) :
    ((s.having (x ++ c.rest')).nth n).kind = kind ↔ (s.nth n).kind = kind := by
  rcases Nat.lt_or_eq_of_le hn with hlt | rfl
  · rw [h.nth_eq hlt]
  · obtain ⟨hbefore, hafter⟩ := h.kind_last hfinish
    rw [hbefore, hafter]
    exact iff_of_false (firstKind_ne hkind).2 (firstKind_ne hkind).1

theorem next_kind_iff {kind : TokenKind} (hfinish : s.finish.kind = .endOfSource)
    (hkind : kind.isTelling ∨ 1 ≤ room ∨ 1 ≤ take) :
    (s.having (x ++ c.rest')).next.kind = kind ↔ s.next.kind = kind := by
  rcases hkind with hkind | hsome
  · exact h.nth_kind_iff hfinish (Nat.zero_le _) hkind
  · rw [h.next_eq (h.ne_nil hsome)]

/-- A token of a kind that tells is not exchanged. -/
theorem ne_nil_of_next {kind : TokenKind} (hfinish : s.finish.kind = .endOfSource)
    (hkind : kind.isTelling) (hnext : s.next.kind = kind) : x ≠ [] := by
  rintro rfl
  rw [ParserState.kind_next hfinish, h.before] at hnext
  exact (firstKind_ne hkind).1 hnext

/-- Before what is exchanged, a sign is a token that is not exchanged. -/
theorem sign_and_iff {sign : Sign} {Q : ParserState → Prop}
    (hfinish : s.finish.kind = .endOfSource) (hsign : (TokenKind.sign sign).isTelling)
    (hQ : x ≠ [] → (Q (s.having (x ++ c.rest')) ↔ Q s)) :
    ((s.having (x ++ c.rest')).next.kind = sign ∧ Q (s.having (x ++ c.rest'))) ↔
      (s.next.kind = sign ∧ Q s) := by
  rw [h.next_kind_iff hfinish (.inl hsign)]
  exact and_congr_right fun hnext => hQ (h.ne_nil_of_next hfinish hsign hnext)

/-- A look at the token behind the next one. -/
theorem second_iff {kind : TokenKind} (hfinish : s.finish.kind = .endOfSource)
    (hkind : kind.isTelling) (hx : x ≠ []) :
    ((s.having (x ++ c.rest')).nth 1).kind = kind ↔ (s.nth 1).kind = kind :=
  h.nth_kind_iff hfinish (List.length_pos_iff.mpr hx) hkind

end Stretch

/-- Where the result is of interest, nothing else is said of the parser itself. -/
theorem Recasts.of_only {keep : α → Bool} {p : Parser α} {s t : ParserState} {a : α}
    (h : c.Recasts room opened take (Parser.only keep p) s a t) :
    c.Recasts room opened take p s a t := by
  intro herrors y hy hroom
  obtain ⟨x, hx, hrun⟩ := h herrors y hy hroom
  exact ⟨x, hx, (Parser.of_only hrun).1⟩

/-- **One run behind another one** has the same result before the other tokens if both have. -/
theorem Recasts.seq {opened₁ take₂ : Nat} {p : Parser β} {f : β → Parser α} {s t u : ParserState}
    {a : α} {b : β} (h₁ : c.Recasts room₁ opened₁ take₁ p s b u)
    (h₂ : c.Recasts room opened take₂ (f b) u a t) (hleads₁ : s.Leads u)
    (hleads₂ : u.Leads t) (hmakes : Makes room take₂ opened room₁) (htake : take ≤ take₁ + take₂) :
    c.Recasts room (opened₁ + opened) take (p >>= f) s a t := by
  intro herrors y hy hroom
  have hsame : u.errors = s.errors := by
    have hle₁ := hleads₁.onward.errors
    have hle₂ := hleads₂.onward.errors
    rw [herrors] at hle₂
    exact (hle₁.eq_of_length_le hle₂.length_le).symm
  obtain ⟨z, hz, hrun₂⟩ := h₂ (herrors.trans hsame.symm) y hy hroom
  obtain ⟨x, hx, hrun₁⟩ := h₁ hsame z hz.before (hroom.before hmakes hz.weight hz.passes)
  refine ⟨x, ⟨hx.before, hy, ?_, hx.passes.trans hz.passes, hroom⟩, ?_⟩
  · have := hx.weight
    have := hz.weight
    omega
  · rw [Parser.bind_ok hrun₁]
    exact hrun₂

/-- One run behind another one, which leaves parentheses as they are. -/
theorem Recasts.bindIn {take₂ : Nat} {p : Parser β} {f : β → Parser α} {s t u : ParserState}
    {a : α} {b : β} (h₁ : c.Recasts room₁ 0 take₁ p s b u)
    (h₂ : c.Recasts room opened take₂ (f b) u a t) (hleads₁ : s.Leads u)
    (hleads₂ : u.Leads t) (hmakes : Makes room take₂ opened room₁) (htake : take ≤ take₁ + take₂) :
    c.Recasts room opened take (p >>= f) s a t := by
  have h := h₁.seq h₂ hleads₁ hleads₂ hmakes htake
  rwa [Nat.zero_add] at h

namespace CarriesFrom

/-! ### Putting parsers together -/

/-- It may be said of fewer states, with more room, and of fewer tokens taken. -/
theorem weaken {p : Parser α} (h : c.CarriesFrom start room₁ opened take₁ p)
    (hstart : ∀ s, start' s → start s) (hmakes : room₁ ≤ room) (htake : take ≤ take₁) :
    c.CarriesFrom start' room opened take p := by
  intro s a t hs hfinish hconsumed hrun
  obtain ⟨hleads, hrecasts⟩ := h s a t (hstart s hs) hfinish hconsumed hrun
  refine ⟨hleads, fun herrors y hy hroom => ?_⟩
  obtain ⟨x, hx, hrun'⟩ := hrecasts herrors y hy (hroom.le hmakes)
  have hweight := hx.weight
  exact ⟨x, ⟨hx.before, hx.after, by omega, hx.passes, hroom⟩, hrun'⟩

theorem anywhere {p : Parser α} (h : c.Carries room opened take p) :
    c.CarriesFrom start room opened take p := h.weaken (fun _ _ => trivial) le_rfl le_rfl

theorem taking {p : Parser α} (h : c.CarriesFrom start room opened take₁ p) (htake : take ≤ take₁) :
    c.CarriesFrom start room opened take p := h.weaken (fun _ => id) le_rfl htake

theorem stays {p : Parser α} (h : c.CarriesFrom start room opened take p) :
    c.CarriesFrom start room opened 0 p := h.taking (Nat.zero_le _)

theorem pure {a : α} : c.CarriesFrom start room 0 0 (pure a) := by
  rintro s _ _ - - - ⟨⟩
  exact ⟨.refl s, fun _ y hy hroom => ⟨y, ⟨hy, hy, le_rfl, .refl y, hroom⟩, rfl⟩⟩

theorem reject {fault : ParseFault} {span : Span} :
    c.CarriesFrom start room opened take (Parser.reject fault span : Parser α) :=
  fun _ _ _ _ _ _ hrun => nomatch hrun

theorem rejectNext {fault : TokenKind → ParseFault} :
    c.CarriesFrom start room opened take (Parser.rejectNext fault : Parser α) :=
  fun _ _ _ _ _ _ hrun => nomatch hrun

theorem exhausted : c.CarriesFrom start room opened take (throw .exhausted : Parser α) :=
  fun _ _ _ _ _ _ hrun => nomatch hrun

/-- One run behind another one, by the states in between. -/
theorem seqFrom {opened₁ : Nat} {p : Parser β} {f : β → Parser α}
    (hp : c.CarriesFrom start room₁ opened₁ take₁ p) (between : β → ParserState → Prop)
    (hbetween : ∀ s b u, start s → s.finish.kind = .endOfSource → p s = .ok b u → between b u)
    (hf : ∀ b, c.CarriesFrom (between b) room opened (take - take₁) (f b))
    (hmakes : Makes room (take - take₁) opened room₁) :
    c.CarriesFrom start room (opened₁ + opened) take (p >>= f) := by
  intro s a t hs hfinish hconsumed hrun
  obtain ⟨b, u, hrun₁, hrun₂⟩ := Parser.exists_of_bind_ok hrun
  obtain ⟨hleads₁, hrecasts₁⟩ := hp s b u hs hfinish hconsumed hrun₁
  obtain ⟨hfinish', hconsumed'⟩ := hleads₁.goesOn hfinish hconsumed
  obtain ⟨hleads₂, hrecasts₂⟩ :=
    hf b u a t (hbetween s b u hs hfinish hrun₁) hfinish' hconsumed' hrun₂
  exact ⟨hleads₁.trans hleads₂,
    hrecasts₁.seq hrecasts₂ hleads₁ hleads₂ hmakes (by omega)⟩

/-- One run behind another one, which may need more room than what follows both. -/
theorem seq {opened₁ : Nat} {p : Parser β} {f : β → Parser α}
    (hp : c.CarriesFrom start room₁ opened₁ take₁ p)
    (hf : ∀ b, c.Carries room opened (take - take₁) (f b))
    (hmakes : Makes room (take - take₁) opened room₁) :
    c.CarriesFrom start room (opened₁ + opened) take (p >>= f) :=
  hp.seqFrom (fun _ _ => True) (fun _ _ _ _ _ _ => trivial) hf hmakes

/-- One run behind another one, which leaves parentheses as they are. -/
theorem bindIn {p : Parser β} {f : β → Parser α} (hp : c.CarriesFrom start room₁ 0 take₁ p)
    (hf : ∀ b, c.Carries room opened (take - take₁) (f b))
    (hmakes : Makes room (take - take₁) opened room₁) :
    c.CarriesFrom start room opened take (p >>= f) := by
  have h := hp.seq hf hmakes
  rwa [Nat.zero_add] at h

/-- One run behind another one, which needs no room. -/
theorem bind {p : Parser β} {f : β → Parser α} (hp : c.CarriesFrom start 0 0 take₁ p)
    (hf : ∀ b, c.Carries room opened (take - take₁) (f b)) :
    c.CarriesFrom start room opened take (p >>= f) := hp.bindIn hf (.inl (Nat.zero_le _))

theorem map {p : Parser α} (hp : c.CarriesFrom start room opened take p) (f : α → β) :
    c.CarriesFrom start room opened take (f <$> p) := by
  have hpure (a : α) : c.Carries room 0 (take - take) (Pure.pure (f a)) :=
    pure.weaken (fun _ => id) le_rfl (Nat.sub_self take).le
  have h : c.CarriesFrom start room (opened + 0) take (p >>= fun a => Pure.pure (f a)) :=
    hp.seq hpure (.inl le_rfl)
  rwa [← map_eq_pure_bind] at h

theorem discard {p : Parser α} (hp : c.CarriesFrom start room opened take p) :
    c.CarriesFrom start room opened take (Functor.discard p) := hp.map _

theorem ite {P : Prop} [Decidable P] {p q : Parser α}
    (hp : P → c.CarriesFrom start room opened take p)
    (hq : ¬P → c.CarriesFrom start room opened take q) :
    c.CarriesFrom start room opened take (if P then p else q) := by
  split
  · next h => exact hp h
  · next h => exact hq h

/-- A parser that succeeds as another one does. -/
theorem of_ok_iff {m p : Parser α} (hp : c.CarriesFrom start room opened take p)
    (hok : ∀ s a t, m s = .ok a t ↔ p s = .ok a t) : c.CarriesFrom start room opened take m := by
  intro s a t hs hfinish hconsumed hrun
  obtain ⟨hleads, hrecasts⟩ := hp s a t hs hfinish hconsumed ((hok s a t).mp hrun)
  refine ⟨hleads, fun herrors y hy hroom => ?_⟩
  obtain ⟨x, hx, hrun'⟩ := hrecasts herrors y hy hroom
  exact ⟨x, hx, (hok _ _ _).mpr hrun'⟩

/-- **What is seen is settled** by what the parser takes. -/
theorem guard {P : ParserState → Prop} [DecidablePred P] {p : Parser α}
    (hp : c.CarriesFrom (fun s => P s ∧ start s) room opened take p)
    (hP : ∀ s t a x y, P s → start s → s.finish.kind = .endOfSource → p s = .ok a t →
      c.Stretch room opened take s t x y → P (s.having (x ++ c.rest'))) :
    c.CarriesFrom start room opened take (Parser.guarded P p) := by
  intro s a t hs hfinish hconsumed hrun
  obtain ⟨hsees, hrun⟩ := Parser.of_guarded hrun
  obtain ⟨hleads, hrecasts⟩ := hp s a t ⟨hsees, hs⟩ hfinish hconsumed hrun
  refine ⟨hleads, fun herrors y hy hroom => ?_⟩
  obtain ⟨x, hx, hrun'⟩ := hrecasts herrors y hy hroom
  exact ⟨x, hx, (Parser.guarded_ok (hP s t a x y hsees hs hfinish hrun hx)).trans hrun'⟩

/-- What is seen is settled by what the first one of two parsers takes. -/
theorem guardSeq {opened₁ opened₂ : Nat} {P : ParserState → Prop} [DecidablePred P] {p : Parser β}
    {f : β → Parser α} (hp : c.CarriesFrom (fun s => P s ∧ start s) room₁ opened₁ take₁ p)
    (hf : ∀ b, c.Carries room opened₂ (take - take₁) (f b))
    (hmakes : Makes room (take - take₁) opened₂ room₁) (hopened : opened₁ + opened₂ = opened)
    (hP : ∀ s u t a b x z, P s → start s → s.finish.kind = .endOfSource → s.Leads u →
      f b u = .ok a t → c.Stretch room₁ opened₁ take₁ s u x z → P (s.having (x ++ c.rest'))) :
    c.CarriesFrom start room opened take (Parser.guarded P (p >>= f)) := by
  subst hopened
  intro s a t hs hfinish hconsumed hrun
  obtain ⟨hsees, hrun⟩ := Parser.of_guarded hrun
  obtain ⟨b, u, hrun₁, hrun₂⟩ := Parser.exists_of_bind_ok hrun
  obtain ⟨hleads₁, hrecasts₁⟩ := hp s b u ⟨hsees, hs⟩ hfinish hconsumed hrun₁
  obtain ⟨hfinish', hconsumed'⟩ := hleads₁.goesOn hfinish hconsumed
  obtain ⟨hleads₂, hrecasts₂⟩ := hf b u a t trivial hfinish' hconsumed' hrun₂
  refine ⟨hleads₁.trans hleads₂, ?_⟩
  -- where the first parser runs again, the same is seen
  have hrecasts : c.Recasts room₁ opened₁ take₁ (Parser.guarded P p) s b u := by
    intro herrors y hy hroom
    obtain ⟨x, hx, hrun'⟩ := hrecasts₁ herrors y hy hroom
    refine ⟨x, hx, (Parser.guarded_ok ?_).trans hrun'⟩
    exact hP s u t a b x y hsees hs hfinish hleads₁ hrun₂ hx
  intro herrors y hy hroom
  obtain ⟨x, hx, hrun'⟩ := hrecasts.seq hrecasts₂ hleads₁ hleads₂ hmakes
    (show take ≤ take₁ + (take - take₁) by omega) herrors y hy hroom
  refine ⟨x, hx, ?_⟩
  obtain ⟨b', u', hrun₁', hrun₂'⟩ := Parser.exists_of_bind_ok hrun'
  obtain ⟨hsees', hrun₁'⟩ := Parser.of_guarded hrun₁'
  rw [Parser.guarded_ok hsees', Parser.bind_ok hrun₁', hrun₂']

/-- **A choice by what is seen**, which is settled whatever it is. -/
theorem lookGuarded (look : ParserState → β) [DecidableEq β] {m : Parser α} {f : β → Parser α}
    (hm : ∀ s, m s = f (look s) s)
    (hf : ∀ b, c.CarriesFrom start room opened take (Parser.guarded (fun s => look s = b) (f b))) :
    c.CarriesFrom start room opened take m := by
  intro s a t hs hfinish hconsumed hrun
  have hguarded : Parser.guarded (fun u => look u = look s) (f (look s)) s = .ok a t :=
    (Parser.guarded_ok (P := fun u => look u = look s) rfl).trans ((hm s).symm.trans hrun)
  obtain ⟨hleads, hrecasts⟩ := hf (look s) s a t hs hfinish hconsumed hguarded
  refine ⟨hleads, fun herrors y hy hroom => ?_⟩
  obtain ⟨x, hx, hrun'⟩ := hrecasts herrors y hy hroom
  obtain ⟨hsees, hrun'⟩ := Parser.of_guarded (P := fun u => look u = look s) hrun'
  exact ⟨x, hx, by rw [hm, hsees, hrun']⟩

/-- A choice by what the state is, which is settled before what is exchanged. -/
theorem choose {P : ParserState → Prop} [DecidablePred P] {m p q : Parser α}
    (hm : ∀ s, m s = if P s then p s else q s)
    (hP : ∀ s t a, start s → s.finish.kind = .endOfSource → m s = .ok a t →
      ∀ x y, c.Stretch room opened take s t x y → (P (s.having (x ++ c.rest')) ↔ P s))
    (hp : c.CarriesFrom (fun s => P s ∧ start s) room opened take p)
    (hq : c.CarriesFrom (fun s => ¬P s ∧ start s) room opened take q) :
    c.CarriesFrom start room opened take m := by
  refine lookGuarded (fun s => decide (P s)) (f := fun b => if b then p else q)
    (fun s => ?_) fun b => ?_
  · rw [hm]
    by_cases h : P s
    · rw [if_pos h, decide_eq_true h, if_pos rfl]
    · rw [if_neg h, decide_eq_false h, if_neg Bool.false_ne_true]
  · cases b with
    | true =>
      refine guard (hp.weaken (fun s hs => ⟨of_decide_eq_true hs.1, hs.2⟩) le_rfl le_rfl)
        fun s t a x y hsees hs hfinish hrun hx => ?_
      have h : P s := of_decide_eq_true hsees
      exact decide_eq_true ((hP s t a hs hfinish (by rw [hm, if_pos h]; exact hrun) x y hx).mpr h)
    | false =>
      refine guard (hq.weaken (fun s hs => ⟨of_decide_eq_false hs.1, hs.2⟩) le_rfl le_rfl)
        fun s t a x y hsees hs hfinish hrun hx => ?_
      have h : ¬P s := of_decide_eq_false hsees
      exact decide_eq_false fun h' =>
        h ((hP s t a hs hfinish (by rw [hm, if_neg h]; exact hrun) x y hx).mp h')

/-- A parser that does nothing of its own where something is not seen. -/
theorem orElse {P : ParserState → Prop} [DecidablePred P] {m q : Parser α}
    (hm : ∀ s, ¬P s → m s = q s)
    (hP : ∀ s t x y, start s → s.finish.kind = .endOfSource →
      c.Stretch room opened take s t x y → (P (s.having (x ++ c.rest')) ↔ P s))
    (hp : c.CarriesFrom (fun s => P s ∧ start s) room opened take m)
    (hq : c.CarriesFrom (fun s => ¬P s ∧ start s) room opened take q) :
    c.CarriesFrom start room opened take m := by
  refine choose (p := m) (fun s => ?_) (fun s t _ hs hfinish _ x y => hP s t x y hs hfinish) hp hq
  split_ifs with h
  · rfl
  · exact hm s h

/-! ### Looking at tokens -/

theorem chooseGet {P : ParserState → Prop} [DecidablePred P] {p q : Parser α}
    (hP : ∀ s t x y, start s → s.finish.kind = .endOfSource →
      c.Stretch room opened take s t x y → (P (s.having (x ++ c.rest')) ↔ P s))
    (hp : c.CarriesFrom (fun s => P s ∧ start s) room opened take p)
    (hq : c.CarriesFrom (fun s => ¬P s ∧ start s) room opened take q) :
    c.CarriesFrom start room opened take (MonadState.get >>= fun s => if P s then p else q) := by
  refine choose (fun s => ?_) (fun s t _ hs hfinish _ x y => hP s t x y hs hfinish) hp hq
  rw [Parser.bind_ok (Parser.get_eq s)]
  split <;> rfl

/-- A choice for which the state is looked at twice. -/
theorem chooseTwice {P : ParserState → ParserState → Prop} [∀ s t, Decidable (P s t)]
    {p q : Parser α}
    (hP : ∀ s t x y, start s → s.finish.kind = .endOfSource →
      c.Stretch room opened take s t x y →
        (P (s.having (x ++ c.rest')) (s.having (x ++ c.rest')) ↔ P s s))
    (hp : c.CarriesFrom (fun s => P s s ∧ start s) room opened take p)
    (hq : c.CarriesFrom (fun s => ¬P s s ∧ start s) room opened take q) :
    c.CarriesFrom start room opened take
      (MonadState.get >>= fun s => MonadState.get >>= fun t => if P s t then p else q) :=
  chooseGet (P := fun s => P s s) hP hp hq

theorem peek_bind {f : Token → Parser α}
    (h : ∀ t, c.CarriesFrom (fun s => s.next = t ∧ start s) room opened take (f t))
    (hsome : 1 ≤ room ∨ 1 ≤ take) :
    c.CarriesFrom start room opened take (Parser.peek >>= f) := by
  intro s a t hs hfinish hconsumed hrun
  obtain ⟨hleads, hrecasts⟩ := h s.next s a t ⟨rfl, hs⟩ hfinish hconsumed hrun
  refine ⟨hleads, fun herrors y hy hroom => ?_⟩
  obtain ⟨x, hx, hrun'⟩ := hrecasts herrors y hy hroom
  refine ⟨x, hx, ?_⟩
  rw [Parser.bind_ok (Parser.peek_eq _), hx.next_eq (hx.ne_nil hsome)]
  exact hrun'

/-- Where it does not matter what comes next. -/
theorem peeking {f : Token → Parser α} (h : ∀ t, c.CarriesFrom start room opened take (f t))
    (hsome : 1 ≤ room ∨ 1 ≤ take) :
    c.CarriesFrom start room opened take (Parser.peek >>= f) :=
  peek_bind (fun t => (h t).weaken (fun _ hs => hs.2) le_rfl le_rfl) hsome

theorem ifNth {n : Nat} {kind : TokenKind} {p q : Parser α}
    (hsees : ∀ s t x y, start s → s.finish.kind = .endOfSource →
      c.Stretch room opened take s t x y →
        (((s.having (x ++ c.rest')).nth n).kind = kind ↔ (s.nth n).kind = kind))
    (hp : c.CarriesFrom (fun s => (s.nth n).kind = kind ∧ start s) room opened take p)
    (hq : c.CarriesFrom (fun s => (s.nth n).kind ≠ kind ∧ start s) room opened take q) :
    c.CarriesFrom start room opened take
      (Parser.checkNth n kind >>= fun b => if b then p else q) := by
  refine choose (P := fun s => (s.nth n).kind = kind) (fun s => ?_)
    (fun s t a hs hfinish _ x y hx => hsees s t x y hs hfinish hx) hp hq
  rw [Parser.bind_ok (Parser.checkNth_eq n kind s)]
  by_cases h : (s.nth n).kind = kind
  · rw [decide_eq_true h, if_pos h]
    rfl
  · rw [decide_eq_false h, if_neg h]
    rfl

theorem ifNext {kind : TokenKind} {p q : Parser α}
    (hkind : kind.isTelling ∨ 1 ≤ room ∨ 1 ≤ take)
    (hp : c.CarriesFrom (fun s => s.next.kind = kind ∧ start s) room opened take p)
    (hq : c.CarriesFrom (fun s => s.next.kind ≠ kind ∧ start s) room opened take q) :
    c.CarriesFrom start room opened take
      (Parser.check kind >>= fun b => if b then p else q) :=
  ifNth (fun _ _ _ _ _ hfinish hx => hx.next_kind_iff hfinish hkind) hp hq

/-- A choice by the next token, where there is one. -/
theorem ifTest {more : Parser Bool} {p q : Parser α} (test : TokenKind → Bool)
    (hmore : ∀ s, more s = .ok (test s.next.kind) s) (hsome : 1 ≤ room ∨ 1 ≤ take)
    (hp : c.CarriesFrom (fun s => test s.next.kind ∧ start s) room opened take p)
    (hq : c.CarriesFrom (fun s => ¬test s.next.kind ∧ start s) room opened take q) :
    c.CarriesFrom start room opened take (more >>= fun b => if b then p else q) := by
  refine choose (P := fun s => test s.next.kind) (fun s => ?_)
    (fun s t a _ _ _ x y hx => by rw [hx.next_eq (hx.ne_nil hsome)]) hp hq
  rw [Parser.bind_ok (hmore s)]
  split <;> rfl

/-- A choice by the token behind the next one, which is taken. -/
theorem ifSecond {kind : TokenKind} {p q : Parser α} (hkind : kind.isTelling)
    (hsome : 1 ≤ room ∨ 1 ≤ take)
    (hp : c.CarriesFrom (fun s => (s.nth 1).kind = kind ∧ start s) room opened take p)
    (hq : c.CarriesFrom (fun s => (s.nth 1).kind ≠ kind ∧ start s) room opened take q) :
    c.CarriesFrom start room opened take
      (Parser.checkNth 1 kind >>= fun b => if b then p else q) :=
  ifNth (fun _ _ _ _ _ hfinish hx =>
    hx.nth_kind_iff hfinish (List.length_pos_iff.mpr (hx.ne_nil hsome)) hkind) hp hq

/-- A choice by the next token, after which both ways go on alike. -/
theorem joinNext {kind : TokenKind} {p q : Parser β} {f : β → Parser α}
    (hkind : kind.isTelling ∨ 1 ≤ room ∨ 1 ≤ take)
    (hp : c.CarriesFrom (fun s => s.next.kind = kind ∧ start s) room₁ 0 0 p)
    (hq : c.CarriesFrom (fun s => s.next.kind ≠ kind ∧ start s) room₁ 0 0 q)
    (hf : ∀ b, c.Carries room opened take (f b)) (hmakes : Makes room take opened room₁) :
    c.CarriesFrom start room opened take
      (Parser.check kind >>= fun b => if b then p >>= f else q >>= f) :=
  ifNext hkind (hp.bindIn hf hmakes) (hq.bindIn hf hmakes)

/-- A parser that only looks back at what was consumed. -/
theorem looksBack {p : Parser α} (h : ∀ s : ParserState, s.consumed ≠ [] →
    ∃ a, ∀ ts, p (s.having ts) = .ok a (s.having ts)) : c.CarriesFrom start room 0 0 p := by
  intro s a t _ _ hconsumed hrun
  obtain ⟨b, hb⟩ := h s hconsumed
  have hsame := hb s.ahead
  rw [s.having_self, hrun] at hsame
  cases hsame
  exact ⟨.refl s, fun _ y hy hroom => ⟨y, ⟨hy, hy, le_rfl, .refl y, hroom⟩, hb _⟩⟩

theorem previous_having {s : ParserState} (h : s.consumed ≠ []) (ts : List Token) :
    (s.having ts).previous = s.previous := by
  obtain ⟨u, us, hu⟩ := List.exists_cons_of_ne_nil h
  rw [ParserState.previous, ParserState.previous, ParserState.having, hu]
  rfl

theorem spanFrom (span : Span) : c.CarriesFrom start room 0 0 (Parser.spanFrom span) :=
  looksBack fun s hs => ⟨span.merge s.previous.span, fun ts => by
    rw [Parser.spanFrom_eq, previous_having hs]⟩

theorem freshCall : c.CarriesFrom start room 0 0 Parser.freshCall := by
  rintro s _ _ - - - ⟨⟩
  exact ⟨.single (.number s), fun _ y hy hroom => ⟨y, ⟨hy, hy, le_rfl, .refl y, hroom⟩, rfl⟩⟩

/-! ### Taking tokens -/

/-- Taking a token, by what it does to the parentheses. -/
theorem advanceBy (hend : ∀ s, start s → s.next.kind ≠ .endOfSource)
    (hpasses : ∀ s, start s → ∀ y, Passes opened (s.next :: y) y) :
    c.CarriesFrom start room opened 1 Parser.advance := by
  rintro s _ _ hs hfinish - ⟨⟩
  refine ⟨.advance s, fun _ y hy hroom => ?_⟩
  obtain ⟨t, ts, hahead⟩ := List.exists_cons_of_ne_nil
    (ParserState.ahead_of_next (hend s hs) hfinish)
  have hnext := ParserState.next_of_ahead hahead
  obtain rfl : ts = y ++ c.rest := (ParserState.ahead_advance hahead).symm.trans hy
  refine ⟨t :: y, ⟨hahead, hy, Token.totalWeight_cons t y, hnext ▸ hpasses s hs y, hroom⟩, ?_⟩
  rw [List.cons_append, Parser.advance_eq, ParserState.advance_having hahead,
    ParserState.next_having, hnext]

theorem advance (h : ∀ s, start s → s.next.kind.isLevel) :
    c.CarriesFrom start room 0 1 Parser.advance := by
  simp only [TokenKind.isLevel, Bool.and_eq_true] at h
  exact advanceBy (fun s hs => TokenKind.ne_endOfSource (h s hs).2)
    fun s hs y => .flat (h s hs).1 (.refl y)

theorem advance_twice {f : Unit → Parser α}
    (h : ∀ s, start s → s.next.kind.isLevel ∧ (s.nth 1).kind.isLevel)
    (hf : c.Carries room opened (take - 1 - 1) (f ())) :
    c.CarriesFrom start room opened take
      (Functor.discard Parser.advance >>= fun _ => Functor.discard Parser.advance >>= f) := by
  have hfirst : c.CarriesFrom start 0 0 1 (Functor.discard Parser.advance) :=
    (advance fun s hs => (h s hs).1).discard
  have hsecond : c.CarriesFrom (fun s => s.next.kind.isLevel) 0 0 1
      (Functor.discard Parser.advance) := (advance fun _ hs => hs).discard
  have hboth := hfirst.seqFrom (fun _ s => s.next.kind.isLevel)
    (fun s _ _ hs _ hrun => by cases hrun; exact s.next_advance ▸ (h s hs).2)
    (fun _ => hsecond.bind fun _ => hf) (.inl (Nat.zero_le room))
  rwa [Nat.zero_add] at hboth

/-- Taking a token of a kind, if it comes next. -/
theorem eat?_cases {kind : TokenKind} {f : Option Token → Parser α}
    (hkind : kind.isTelling ∨ 1 ≤ room ∨ 1 ≤ take)
    (hp : c.CarriesFrom (fun s => s.next.kind = kind ∧ start s) room opened take
      (Parser.advance >>= fun t => f (some t)))
    (hq : c.CarriesFrom (fun s => s.next.kind ≠ kind ∧ start s) room opened take (f none)) :
    c.CarriesFrom start room opened take (Parser.eat? kind >>= f) := by
  refine choose (P := fun s => s.next.kind = kind) (fun s => ?_)
    (fun s t a _ hfinish _ x y hx => hx.next_kind_iff hfinish hkind) hp hq
  by_cases h : s.next.kind = kind
  · rw [if_pos h, Parser.bind_ok (Parser.eat?_ok h)]
    rfl
  · rw [if_neg h, Parser.bind_ok (Parser.eat?_no h)]

theorem eat?_bind {kind : TokenKind} {f : Option Token → Parser α}
    (hlevel : kind.isLevel) (hkind : kind.isTelling ∨ 1 ≤ room ∨ 1 ≤ take)
    (hp : ∀ t, c.Carries room opened (take - 1) (f (some t)))
    (hq : c.CarriesFrom (fun s => s.next.kind ≠ kind ∧ start s) room opened take (f none)) :
    c.CarriesFrom start room opened take (Parser.eat? kind >>= f) :=
  eat?_cases hkind ((advance fun s hs => by rw [hs.1]; exact hlevel).bind hp) hq

theorem ifEat {kind : TokenKind} {p q : Parser α}
    (hlevel : kind.isLevel) (hkind : kind.isTelling ∨ 1 ≤ room ∨ 1 ≤ take)
    (hp : c.Carries room opened (take - 1) p)
    (hq : c.CarriesFrom (fun s => s.next.kind ≠ kind ∧ start s) room opened take q) :
    c.CarriesFrom start room opened take (Parser.eat kind >>= fun b => if b then p else q) := by
  rw [Parser.eat, bind_assoc]
  exact eat?_bind hlevel hkind (fun _ => hp) hq

theorem eat? {kind : TokenKind} (hlevel : kind.isLevel) (hkind : kind.isTelling) :
    c.Carries room 0 0 (Parser.eat? kind) := by
  have h : c.Carries room 0 0 (Parser.eat? kind >>= Pure.pure) :=
    eat?_bind hlevel (.inl hkind) (fun _ => .pure) .pure
  rwa [bind_pure] at h

theorem eat {kind : TokenKind} (hlevel : kind.isLevel) (hkind : kind.isTelling) :
    c.Carries room 0 0 (Parser.eat kind) :=
  eat?_bind hlevel (.inl hkind) (fun _ => .pure) .pure

/-- A choice by whether a token is taken, after which both ways go on alike. -/
theorem joinEat {kind : TokenKind} {p q : Parser β} {f : β → Parser α}
    (hlevel : kind.isLevel) (hkind : kind.isTelling ∨ 1 ≤ room ∨ 1 ≤ take)
    (hp : c.Carries room₁ 0 0 p) (hq : c.Carries room₁ 0 0 q)
    (hf : ∀ b, c.Carries room opened take (f b)) (hmakes : Makes room take opened room₁) :
    c.CarriesFrom start room opened take
      (Parser.eat kind >>= fun b => if b then p >>= f else q >>= f) :=
  ifEat hlevel hkind
    ((hp.bindIn hf hmakes).weaken (fun _ => id) le_rfl (Nat.sub_le _ _))
    (hq.anywhere.bindIn hf hmakes)

/-- Where something is expected, it is taken. -/
theorem expect_bind {kind : TokenKind} {f : Token → Parser α}
    (hkind : kind.isTelling ∨ 1 ≤ room ∨ 1 ≤ take)
    (h : c.CarriesFrom (fun s => s.next.kind = kind ∧ start s) room opened take
      (Parser.advance >>= f)) :
    c.CarriesFrom start room opened take (Parser.expect kind >>= f) := by
  refine choose (P := fun s => s.next.kind = kind) (q := Parser.expect kind >>= f) (fun s => ?_)
    (fun s t a _ hfinish _ x y hx => hx.next_kind_iff hfinish hkind) h ?_
  · by_cases hnext : s.next.kind = kind
    · rw [if_pos hnext, Parser.bind_ok (Parser.expect_ok hnext)]
      rfl
    · rw [if_neg hnext]
  · intro s a t hs _ _ hrun
    obtain ⟨e, he⟩ := Parser.expect_no hs.1
    rw [Parser.bind_error he] at hrun
    cases hrun

theorem expect {kind : TokenKind} (hlevel : kind.isLevel) :
    c.Carries room 0 1 (Parser.expect kind) := by
  have h : c.Carries room 0 1 (Parser.expect kind >>= Pure.pure) :=
    expect_bind (.inr (.inr le_rfl))
      ((advance fun s hs => by rw [hs.1]; exact hlevel).bind fun _ => .pure)
  rwa [bind_pure] at h

theorem identifier : c.Carries room 0 1 Parser.identifier :=
  (expect rfl).bind fun _ => .pure

/-! ### Parentheses -/

/-- Behind an opening parenthesis, one parenthesis more is closed. -/
theorem open_advance {f : Token → Parser α} (hopen : ∀ s, start s → s.next.kind = Sign.lparen)
    (hf : ∀ t, c.Carries room (opened + 1) (take - 1) (f t)) :
    c.CarriesFrom start room opened take (Parser.advance >>= f) := by
  intro s a t hs hfinish hconsumed hrun
  have hkind := hopen s hs
  obtain ⟨u, us, hahead⟩ := List.exists_cons_of_ne_nil
    (ParserState.ahead_of_next (by rw [hkind]; exact nofun) hfinish)
  have hnext := ParserState.next_of_ahead hahead
  rw [Parser.bind_ok (Parser.advance_eq s)] at hrun
  have hfinish' : s.advance.finish.kind = .endOfSource := by rwa [s.finish_advance]
  have hconsumed' : s.advance.consumed ≠ [] := by
    simp only [ParserState.advance, hahead]
    exact List.cons_ne_nil _ _
  obtain ⟨hleads, hrecasts⟩ := hf s.next s.advance a t trivial hfinish' hconsumed' hrun
  refine ⟨(ParserState.Leads.advance s).trans hleads, fun herrors y hy hroom => ?_⟩
  obtain ⟨x, hx, hrun'⟩ := hrecasts (herrors.trans s.errors_advance.symm) y hy hroom
  obtain rfl : us = x ++ c.rest := (ParserState.ahead_advance hahead).symm.trans hx.before
  refine ⟨u :: x, ⟨hahead, hy, ?_, .opening (hnext ▸ hkind) hx.passes, hroom⟩, ?_⟩
  · have := hx.weight
    have := Token.totalWeight_cons u x
    omega
  · rw [List.cons_append, Parser.bind_ok (Parser.advance_eq _),
      ParserState.advance_having hahead, ParserState.next_having, ← hnext]
    exact hrun'

theorem open_bind {f : Token → Parser α}
    (hf : ∀ t, c.Carries room (opened + 1) (take - 1) (f t)) :
    c.CarriesFrom start room opened take (Parser.expect Sign.lparen >>= f) :=
  expect_bind (.inl rfl) (open_advance (fun _ hs => hs.1) hf)

theorem ifOpen {p q : Parser α} (hp : c.Carries room (opened + 1) (take - 1) p)
    (hq : c.CarriesFrom (fun s => s.next.kind ≠ Sign.lparen ∧ start s) room opened take q) :
    c.CarriesFrom start room opened take
      (Parser.eat Sign.lparen >>= fun b => if b then p else q) := by
  rw [Parser.eat, bind_assoc]
  exact eat?_cases (.inl rfl) (open_advance (fun _ hs => hs.1) fun _ => hp) hq

/-- A closing parenthesis closes one. -/
theorem close_bind {f : Token → Parser α} (hf : ∀ t, c.Carries room opened (take - 1) (f t)) :
    c.CarriesFrom start room (opened + 1) take (Parser.expect Sign.rparen >>= f) := by
  have hclose : c.CarriesFrom (fun s => s.next.kind = Sign.rparen ∧ start s) 0 1 1
      Parser.advance :=
    advanceBy (fun s hs => by rw [hs.1]; exact nofun) fun s hs y => .closing hs.1 (.refl y)
  have h := hclose.seq hf (.inl (Nat.zero_le _))
  rw [Nat.add_comm] at h
  exact expect_bind (.inl rfl) h

theorem opening {f : Unit → Parser α} (hf : c.Carries room (opened + 1) (take - 1) (f ())) :
    c.CarriesFrom start room opened take
      (Functor.discard (Parser.expect Sign.lparen) >>= f) := by
  rw [Functor.discard, map_const, Function.comp_apply, bind_map_left]
  exact open_bind fun _ => hf

theorem closing {f : Unit → Parser α} (hf : c.Carries room opened (take - 1) (f ())) :
    c.CarriesFrom start room (opened + 1) take
      (Functor.discard (Parser.expect Sign.rparen) >>= f) := by
  rw [Functor.discard, map_const, Function.comp_apply, bind_map_left]
  exact close_bind fun _ => hf

/-! ### Tokens of angles and brackets -/

theorem closeAngle_of_ahead {s : ParserState} {u : Token} {us : List Token}
    (h : s.ahead = u :: us) : Parser.closeAngle s = match Parser.dropAngle? u.kind with
      | none => .error (.rejected ⟨.expectedToken "'>'" u.kind, u.span⟩) s
      | some none => .ok () s.advance
      | some (some rest) => .ok () (s.having (u.behindAngle rest :: us)) := by
  rw [Course.closeAngle_eq, ParserState.next_of_ahead h, h]
  rfl

theorem leads_of_closeAngle {s t : ParserState} (hfinish : s.finish.kind = .endOfSource)
    (hrun : Parser.closeAngle s = .ok () t) : s.Leads t := by
  rcases Course.closeAngle_cases hfinish with hreject | ⟨t', hrun', hstep, -⟩
  · rw [hreject] at hrun
    cases hrun
  · rw [hrun'] at hrun
    cases hrun
    exact .single hstep

/-- What is left of a token of angles is an angle. -/
theorem kind_behindAngle {u : Token} {rest : TokenKind}
    (h : Parser.dropAngle? u.kind = some (some rest)) :
    (u.behindAngle rest).kind.isFlat ∧ (u.behindAngle rest).kind.isAngle := by
  rcases Token.angles_of_dropAngle? h with ⟨-, rfl⟩ | ⟨-, rfl⟩
  · exact ⟨rfl, rfl⟩
  · exact ⟨rfl, rfl⟩

theorem closeAngle : c.Carries room 0 1 Parser.closeAngle := by
  intro s a t _ hfinish _ hrun
  refine ⟨leads_of_closeAngle hfinish hrun, fun _ y hy hroom => ?_⟩
  cases hahead : s.ahead with
  | nil =>
    rw [Course.closeAngle_eq, ParserState.next_of_ahead_nil hahead, hfinish] at hrun
    cases hrun
  | cons u us =>
    have heq (vs : List Token) := closeAngle_of_ahead (s := s.having (u :: vs)) rfl
    rw [closeAngle_of_ahead hahead] at hrun
    cases hangle : Parser.dropAngle? u.kind with
    | none =>
      rw [hangle] at hrun
      cases hrun
    | some left =>
      have hflat : u.kind.isFlat := by
        rcases Parser.kind_of_dropAngle? hangle with h | h | h <;> rw [h.1] <;> rfl
      rw [hangle] at hrun heq
      cases left with
      | none =>
        cases hrun
        obtain rfl : us = y ++ c.rest := (ParserState.ahead_advance hahead).symm.trans hy
        refine ⟨u :: y, ⟨hahead, hy, Token.totalWeight_cons u y, .flat hflat (.refl y), hroom⟩, ?_⟩
        rw [List.cons_append, heq, ParserState.advance_having hahead]
      | some rest =>
        cases hrun
        have hweight := Token.weight_behindAngle hangle
        obtain ⟨hflat', hleft⟩ := kind_behindAngle hangle
        have hcons : u.behindAngle rest :: us = y ++ c.rest := hy
        rcases List.cons_eq_append_iff.mp hcons with ⟨rfl, hrest⟩ | ⟨z, rfl, rfl⟩
        · -- what is left of a token of angles is an angle, and so there is room before it
          have hbefore : c.hasAngle := by
            rw [hasAngle, hrest]
            exact Bool.or_eq_true_iff.mpr (.inl hleft)
          exact absurd rfl (hroom.le (Nat.zero_le _) hbefore)
        · refine ⟨u :: z, ⟨hahead, hy, ?_, .angle hflat hflat' (.refl _), hroom⟩, ?_⟩
          · simp only [Token.totalWeight]
            omega
          rw [List.cons_append, heq]
          rfl

/-- Where no pair of brackets comes next, none is taken. -/
theorem count_stays {s : ParserState} {n : Nat} {consumed ts : List Token}
    (h : Token.firstKind ts = Sign.lbracket → Token.firstKind (ts.drop 1) ≠ Sign.rbracket) :
    Parser.dims.count s n consumed ts
      = (min n DataType.maxDims, { s with consumed, ahead := ts }) := by
  fun_cases Parser.dims.count s n consumed ts with
  | case1 t u ts hbrackets => exact absurd hbrackets.2 (h hbrackets.1)
  | case2 => rfl
  | case3 => rfl

theorem count_exchange {s : ParserState} {n : Nat} {consumed ts y : List Token}
    (hy : (Parser.dims.count s n consumed ts).2.ahead = y ++ c.rest) :
    ∃ x, ts = x ++ c.rest ∧ Token.totalWeight y ≤ Token.totalWeight x ∧ Passes 0 x y ∧
      ∀ us, Parser.dims.count (s.having us) n consumed (x ++ c.rest')
        = ((Parser.dims.count s n consumed ts).1,
          (Parser.dims.count s n consumed ts).2.having (y ++ c.rest')) := by
  have hstays (hpair : Token.firstKind (y ++ c.rest) = Sign.lbracket →
        Token.firstKind ((y ++ c.rest).drop 1) ≠ Sign.rbracket) :
      Token.firstKind (y ++ c.rest') = Sign.lbracket →
        Token.firstKind ((y ++ c.rest').drop 1) ≠ Sign.rbracket := by
    rcases y with _ | ⟨t, _ | ⟨u, y⟩⟩
    · exact fun h => absurd h (firstKind_ne rfl).2
    · exact fun _ => (firstKind_ne rfl).2
    · exact hpair
  fun_induction Parser.dims.count s n consumed ts with
  | case1 n consumed t u ts h ih =>
    obtain ⟨x, rfl, hweight, hpasses, hcount⟩ := ih hy
    refine ⟨t :: u :: x, rfl, ?_, ?_, fun us => ?_⟩
    · simp only [Token.totalWeight]
      omega
    · exact .flat (by rw [h.1]; rfl) (.flat (by rw [h.2]; rfl) hpasses)
    · rw [List.cons_append, List.cons_append, Parser.dims.count, if_pos h, hcount]
  | case2 n consumed t u ts h =>
    refine ⟨y, hy, le_rfl, .refl y, fun us => count_stays (hstays ?_)⟩
    rw [← show t :: u :: ts = y ++ c.rest from hy]
    exact fun ht hu => h ⟨ht, hu⟩
  | case3 n consumed ts hshort =>
    refine ⟨y, hy, le_rfl, .refl y, fun us => count_stays (hstays ?_)⟩
    rw [← show ts = y ++ c.rest from hy]
    rcases ts with _ | ⟨t, _ | ⟨u, ts⟩⟩
    · rintro ⟨⟩
    · rintro - ⟨⟩
    · exact (hshort _ _ _ rfl).elim

theorem dims : c.Carries room 0 0 Parser.dims := by
  rintro s _ _ - - - ⟨⟩
  refine ⟨(Course.leads_dims s 0 s.consumed s.ahead).1, fun _ y hy hroom => ?_⟩
  obtain ⟨x, hx, hweight, hpasses, hcount⟩ := count_exchange hy
  refine ⟨x, ⟨hx, hy, hweight, hpasses, hroom⟩, ?_⟩
  exact congrArg (fun r : Nat × ParserState => EStateM.Result.ok r.1 r.2) (hcount _)

/-! ### Recovery -/

/-- Recording an error, after which nothing is said. -/
theorem record (e : ParseError) : c.CarriesFrom start room opened take (Parser.record e) := by
  rintro s _ _ - - - ⟨⟩
  refine ⟨.single (.note s e), fun herrors => absurd herrors ?_⟩
  simp

theorem recovering {p : Parser (Option α)} (hp : c.CarriesFrom start room opened take p)
    (hleads : ∀ s : ParserState, s.finish.kind = .endOfSource →
      s.Leads (Parser.endState (p s))) :
    c.CarriesFrom start room opened take (Parser.recovering p) := by
  intro s a t hs hfinish hconsumed hrun
  rcases hrun₁ : p s with ⟨b, u⟩ | ⟨e | _, u⟩
  · rw [Parser.recovering_ok hrun₁] at hrun
    obtain ⟨hle, hrecasts⟩ := hp s a t hs hfinish hconsumed (hrun₁.trans hrun)
    refine ⟨hle, fun herrors y hy hroom => ?_⟩
    obtain ⟨x, hx, hrun'⟩ := hrecasts herrors y hy hroom
    exact ⟨x, hx, Parser.recovering_ok hrun'⟩
  · rw [Parser.recovering_rejected hrun₁] at hrun
    cases hrun
    have hle : s.Leads u := by
      have h := hleads s hfinish
      rwa [hrun₁] at h
    refine ⟨hle.trans (Course.leads_recovered u e), fun herrors => ?_⟩
    have hlength := hle.onward.errors.length_le
    rw [ParserState.errors_recovered] at herrors
    have := congrArg List.length herrors
    simp only [List.length_append, List.length_singleton] at this
    omega
  · rw [Parser.recovering_exhausted hrun₁] at hrun
    cases hrun

/-! ### Repetition -/

theorem iterate {step : β → Parser (β ⊕ γ)} (hstep : ∀ b, c.Carries room 0 take (step b))
    (rounds : Nat) (b : β) : c.Carries room 0 take (Parser.iterate step rounds b) := by
  induction rounds generalizing b with
  | zero => exact .exhausted
  | succ rounds ih =>
    rw [Parser.iterate]
    refine (hstep b).bindIn (fun r => ?_) (.inl le_rfl)
    rw [Nat.sub_self]
    cases r with
    | inl b => exact (ih b).stays
    | inr a => exact .pure

theorem collect {item : Parser (Option α)} (hitem : c.Carries room 0 0 item) (rounds : Nat) :
    c.Carries room 0 0 (Parser.collect rounds item) := by
  refine iterate (fun found => hitem.bindIn (fun a => ?_) (.inl le_rfl)) rounds _
  cases a <;> exact .pure

/-- As long as the next token allows it, where there is one. -/
theorem collectWhile {more : Parser Bool} {item : Parser (Option α)} (test : TokenKind → Bool)
    (hmore : ∀ s, more s = .ok (test s.next.kind) s) (hroom : 1 ≤ room)
    (hitem : c.Carries room 0 0 item) (rounds : Nat) :
    c.Carries room 0 0 (Parser.collectWhile rounds more item) := by
  refine iterate (fun found => ifTest test hmore (.inl hroom) ?_ .pure) rounds _
  refine hitem.anywhere.bindIn (fun a => ?_) (.inl le_rfl)
  cases a <;> exact .pure

/-- Items up to a closing token. -/
theorem collectBefore {close : TokenKind} {item : Parser (Option α)} (hroom : 1 ≤ room)
    (hitem : c.Carries room 0 0 item) (rounds : Nat) :
    c.Carries room 0 0 (Parser.collectWhile rounds (Parser.before close) item) :=
  collectWhile (fun kind => kind ≠ close && kind ≠ .endOfSource) (fun _ => rfl) hroom hitem rounds

theorem sepBy {separator : TokenKind} {item : Parser α} (hlevel : separator.isLevel)
    (hkind : separator.isTelling ∨ 1 ≤ room) (hitem : c.Carries room₁ 0 take item)
    (hroom : room₁ ≤ room) (rounds : Nat) :
    c.Carries room 0 take (Parser.sepBy rounds separator item) := by
  refine iterate (fun found => hitem.bindIn (fun a => ?_) (.inl hroom)) rounds _
  rw [Nat.sub_self]
  exact ifEat hlevel (hkind.imp_right .inl) .pure .pure

theorem sepUntil {separator close : TokenKind} {item : Parser α} (hlevel : separator.isLevel)
    (hitem : c.Carries room₁ 0 0 item) (hle : room₁ ≤ room) (hroom : 1 ≤ room) (rounds : Nat) :
    c.Carries room 0 0 (Parser.sepUntil rounds separator close item) := by
  refine iterate (fun found => ifTest (fun kind => kind ≠ close && kind ≠ .endOfSource)
    (fun _ => rfl) (.inl hroom) ?_ .pure) rounds _
  exact hitem.anywhere.bindIn (fun a => ifEat hlevel (.inr (.inl hroom)) .pure .pure) (.inl hle)

/-! ### Certain results -/

/-- Where all results are of interest. -/
theorem of_only {keep : α → Bool} {p : Parser α} (hall : ∀ a, keep a)
    (h : c.CarriesFrom start room opened take (Parser.only keep p)) :
    c.CarriesFrom start room opened take p := by
  intro s a t hs hfinish hconsumed hrun
  obtain ⟨hleads, hrecasts⟩ := h s a t hs hfinish hconsumed (Parser.only_ok hrun (hall a))
  exact ⟨hleads, hrecasts.of_only⟩

/-- Fewer results are carried over as well. -/
theorem only {keep : α → Bool} {p : Parser α} (h : c.CarriesFrom start room opened take p) :
    c.CarriesFrom start room opened take (Parser.only keep p) := by
  intro s a t hs hfinish hconsumed hrun
  obtain ⟨hrun, ha⟩ := Parser.of_only hrun
  obtain ⟨hleads, hrecasts⟩ := h s a t hs hfinish hconsumed hrun
  refine ⟨hleads, fun herrors y hy hroom => ?_⟩
  obtain ⟨x, hx, hrun'⟩ := hrecasts herrors y hy hroom
  exact ⟨x, hx, Parser.only_ok hrun' ha⟩

/-- One run behind another one of which only certain results lead on. -/
theorem onlyBind {keep : β → Bool} {p : Parser β} {f : β → Parser α}
    (hp : c.CarriesFrom start room₁ 0 take₁ (Parser.only keep p))
    (hf : ∀ b, c.Carries room opened (take - take₁) (f b))
    (hmakes : Makes room (take - take₁) opened room₁)
    (hkept : ∀ b s a t, f b s = .ok a t → keep b) :
    c.CarriesFrom start room opened take (p >>= f) := by
  refine (hp.bindIn hf hmakes).of_ok_iff fun s a t => ⟨fun hrun => ?_, fun hrun => ?_⟩
  · obtain ⟨b, u, hrun₁, hrun₂⟩ := Parser.exists_of_bind_ok hrun
    rw [Parser.bind_ok (Parser.only_ok hrun₁ (hkept b u a t hrun₂)), hrun₂]
  · obtain ⟨b, u, hrun₁, hrun₂⟩ := Parser.exists_of_bind_ok hrun
    rw [Parser.bind_ok (Parser.of_only hrun₁).1, hrun₂]

/-- A result that is made of another one. -/
theorem onlyReturn {keep : β → Bool} {keep' : α → Bool} {p : Parser β} {build : β → α}
    (hp : c.CarriesFrom start room 0 take (Parser.only keep p))
    (hkeep : ∀ b, keep' (build b) = keep b) : c.CarriesFrom start room 0 take
      (p >>= fun b => Parser.only keep' (Pure.pure (build b))) := by
  refine hp.onlyBind (fun b => ?_) (.inl le_rfl) fun b s a t hrun => ?_
  · rw [Nat.sub_self]
    exact pure.only
  · obtain ⟨⟨⟩, ha⟩ := Parser.of_only hrun
    rwa [hkeep] at ha

/-- **One run behind another one** of which not all results are carried over: behind the others,
something is taken. -/
theorem seqOnly {keep : β → Bool} {p : Parser β} {f : β → Parser α}
    (hkept : c.CarriesFrom start room 0 take₁ (Parser.only keep p))
    (hroom : c.CarriesFrom start 1 0 take₁ p)
    (hf : ∀ b, keep b → c.Carries room opened (take - take₁) (f b))
    (hf' : ∀ b, ¬keep b → c.Carries room opened (max 1 (take - take₁)) (f b)) :
    c.CarriesFrom start room opened take (p >>= f) := by
  intro s a t hs hfinish hconsumed hrun
  obtain ⟨b, u, hrun₁, hrun₂⟩ := Parser.exists_of_bind_ok hrun
  have htake := Nat.le_max_right 1 (take - take₁)
  obtain ⟨hleads, hrecasts⟩ := hroom s b u hs hfinish hconsumed hrun₁
  obtain ⟨hfinish', hconsumed'⟩ := hleads.goesOn hfinish hconsumed
  by_cases hb : keep b
  · obtain ⟨-, hrecasts⟩ := hkept s b u hs hfinish hconsumed (Parser.only_ok hrun₁ hb)
    obtain ⟨hleads', hrecasts'⟩ := hf b hb u a t trivial hfinish' hconsumed' hrun₂
    refine ⟨hleads.trans hleads', ?_⟩
    exact hrecasts.of_only.bindIn hrecasts' hleads hleads' (.inl le_rfl) (by omega)
  · obtain ⟨hleads', hrecasts'⟩ := hf' b hb u a t trivial hfinish' hconsumed' hrun₂
    refine ⟨hleads.trans hleads', ?_⟩
    exact hrecasts.bindIn hrecasts' hleads hleads' (.inr (.inl ⟨le_rfl, Nat.le_max_left _ _⟩))
      (by omega)

end CarriesFrom

end Exchange

end JavaGraft
