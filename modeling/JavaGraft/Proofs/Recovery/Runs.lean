import JavaGraft.Proofs.Recovery.Places

/-!
# What a run of a parser keeps

Wherever it starts, a parser of this grammar goes forward through the tokens and adds to the errors.
Two more things are kept, and shown rule by rule for all rules of the grammar at once
(`Enclosure.RunsFrom`).

*The bounds suffice.* The run of a parser is not exhausted if few enough tokens remain, and how many
of them it takes at least is known, so that this can be said again of what follows.

*Braces are kept.* In a part of the source that closes braces opened before it, a parser never
closes more of them than it has opened itself. So it never gets behind this part, whatever errors it
recovers from, as long as all of them are harmless.

Each way of putting parsers together keeps this up, with one lemma below for every one of them.
-/

namespace JavaGraft

namespace Parser

variable {α : Type}

/-- The loop of `collectWhile` when some items are found already. -/
def collectFrom (more : Parser Bool) (item : Parser (Option α)) :
    (rounds : Nat) → (found : List α) → Parser (List α) :=
  iterate fun found : List α => do
    if ← more then
      match ← item with
      | some a => return .inl (a :: found)
      | none => return .inl found
    else return .inr found.reverse

theorem collectWhile_eq (rounds : Nat) (more : Parser Bool) (item : Parser (Option α)) :
    collectWhile rounds more item = collectFrom more item rounds [] := rfl

end Parser

namespace Enclosure

section

variable (c : Enclosure)

/-- **What a parser keeps** if it starts in certain states in which less than `bound` remains. -/
def RunsFrom {α : Type} (start : ParserState → Prop) (bound opened : Nat) (take : α → Nat)
    (p : Parser α) : Prop :=
  ∀ s, start s → s.finish.kind = .endOfSource → s.remaining < bound →
    c.EndsWell opened take s (p s)

/-- What a parser keeps wherever it starts. -/
abbrev Runs {α : Type} (bound opened : Nat) (take : α → Nat) (p : Parser α) : Prop :=
  c.RunsFrom (fun _ => True) bound opened take p

/-- A parser that may succeed without taking anything. -/
abbrev Stays {α : Type} (bound : Nat) (p : Parser α) : Prop := c.Runs bound 0 (fun _ => 0) p

/-- A parser that takes something if it succeeds. -/
abbrev Moves {α : Type} (bound : Nat) (p : Parser α) : Prop := c.Runs bound 0 (fun _ => 1) p

/-- A parser that takes something if it finds something. -/
abbrev Finds {α : Type} (bound : Nat) (p : Parser (Option α)) : Prop :=
  c.Runs bound 0 (fun a => a.toList.length) p

end

variable {c : Enclosure} {opened : Nat}

/-! ### Putting parsers together -/

namespace RunsFrom

variable {α β γ : Type} {start start' : ParserState → Prop} {bound bound' : Nat}
  {take take' : α → Nat}

/-- It may be said of fewer states, of fewer remaining tokens, and of fewer tokens taken. -/
theorem weaken {p : Parser α} (h : c.RunsFrom start bound opened take p)
    (hstart : ∀ s, start' s → start s) (hbound : bound' ≤ bound) (htake : ∀ a, take' a ≤ take a) :
    c.RunsFrom start' bound' opened take' p := by
  intro s hs hfinish hremaining
  have hp := h s (hstart s hs) hfinish (by omega)
  revert hp
  rcases p s with ⟨a, s'⟩ | ⟨_ | _, s'⟩
  · have := htake a
    exact fun hp => ⟨by have := hp.1; omega, hp.2⟩
  · exact id
  · exact id

theorem anywhere {p : Parser α} (h : c.Runs bound opened take p) :
    c.RunsFrom start bound opened take p :=
  h.weaken (fun _ _ => trivial) le_rfl fun _ => le_rfl

theorem below {p : Parser α} (h : c.RunsFrom start bound opened take p) (hbound : bound' ≤ bound) :
    c.RunsFrom start bound' opened take p :=
  h.weaken (fun _ => id) hbound fun _ => le_rfl

theorem stays {p : Parser α} (h : c.RunsFrom start bound opened take p) :
    c.RunsFrom start bound opened (fun _ => 0) p :=
  h.weaken (fun _ => id) le_rfl fun _ => Nat.zero_le _

theorem pure {a : α} (h : take a = 0) : c.RunsFrom start bound opened take (pure a) :=
  fun s _ _ _ => ⟨by rw [h]; exact le_rfl, .refl s⟩

theorem bind {take' : β → Nat} {p : Parser α} {f : α → Parser β}
    (hp : c.RunsFrom start bound 0 take p)
    (hf : ∀ a, c.Runs (bound - take a) opened (fun b => take' b - take a) (f a)) :
    c.RunsFrom start bound opened take' (p >>= f) := by
  intro s hs hfinish hremaining
  have h := hp s hs hfinish hremaining
  simp only [Bind.bind, EStateM.bind]
  revert h
  rcases p s with ⟨a, s'⟩ | ⟨_ | _, s'⟩
  · rintro ⟨htake, hlater⟩
    refine .after htake hlater.finish hlater.errors (fun hs' depth hdepth hplace => ?_)
      (hf a s' trivial (by rw [hlater.finish]; exact hfinish) (by omega))
    exact hlater.place hs' _ (by omega) (by simpa using hplace)
  · rintro ⟨htake, hlater, hnoticed⟩
    refine ⟨htake, hlater.widen, fun hs'' he depth hdepth hplace => ?_⟩
    exact hnoticed hs'' he _ (by omega : 1 ≤ depth + opened) (by simpa using hplace)
  · exact id

theorem map {take' : β → Nat} {p : Parser α} {f : α → β}
    (hp : c.RunsFrom start bound opened take p) (hf : ∀ a, take' (f a) = take a) :
    c.RunsFrom start bound opened take' (f <$> p) := by
  intro s hs hfinish hremaining
  have h := hp s hs hfinish hremaining
  simp only [Functor.map, EStateM.map]
  revert h
  rcases p s with ⟨a, s'⟩ | ⟨_ | _, s'⟩
  · exact fun h => ⟨by rw [hf]; exact h.1, h.2⟩
  · exact id
  · exact id

/-- Where one form of a value is dropped, what was taken stays taken. -/
theorem discard {n : Nat} {p : Parser α} (hp : c.RunsFrom start bound opened (fun _ => n) p) :
    c.RunsFrom start bound opened (fun _ => n) (Functor.discard p) :=
  hp.map fun _ => rfl

/-- A value is wrapped where it may be missing otherwise. -/
theorem wrap {n : Nat} {p : Parser α} (hp : c.RunsFrom start bound opened (fun _ => n) p) :
    c.RunsFrom start bound opened (fun _ => n) (some <$> p) :=
  hp.map fun _ => rfl

theorem ite {P : Prop} [Decidable P] {p q : Parser α}
    (hp : P → c.RunsFrom start bound opened take p)
    (hq : ¬P → c.RunsFrom start bound opened take q) :
    c.RunsFrom start bound opened take (if P then p else q) := by
  split
  · next h => exact hp h
  · next h => exact hq h

/-! ### Looking at tokens -/

/-- A parser that only looks. -/
theorem looks {p : Parser α} (h : ∀ s, ∃ a, p s = .ok a s) :
    c.RunsFrom start bound 0 (fun _ => 0) p := by
  intro s _ _ _
  obtain ⟨a, ha⟩ := h s
  rw [ha]
  exact ⟨le_rfl, .refl s⟩

theorem spanFrom (span : Span) : c.RunsFrom start bound 0 (fun _ => 0) (Parser.spanFrom span) :=
  looks fun _ => ⟨_, rfl⟩

theorem freshCall : c.RunsFrom start bound 0 (fun _ => 0) Parser.freshCall :=
  fun _ _ _ _ => ⟨le_rfl, rfl, List.prefix_rfl, fun _ _ _ h => by simpa using h⟩

theorem get_bind {f : ParserState → Parser α}
    (h : ∀ s₀, c.RunsFrom (fun s => s = s₀ ∧ start s) bound opened take (f s₀)) :
    c.RunsFrom start bound opened take (MonadState.get >>= f) :=
  fun s hs => h s s ⟨rfl, hs⟩

theorem peek_bind {f : Token → Parser α}
    (h : ∀ t, c.RunsFrom (fun s => s.next = t ∧ start s) bound opened take (f t)) :
    c.RunsFrom start bound opened take (Parser.peek >>= f) :=
  fun s hs => h s.next s ⟨rfl, hs⟩

theorem kindAt_bind {n : Nat} {f : TokenKind → Parser α}
    (h : ∀ k, c.RunsFrom (fun s => (s.nth n).kind = k ∧ start s) bound opened take (f k)) :
    c.RunsFrom start bound opened take (Parser.kindAt n >>= f) :=
  fun s hs => h _ s ⟨rfl, hs⟩

/-- Where it does not matter what comes next. -/
theorem peeking {f : Token → Parser α} (h : ∀ t, c.Runs bound opened take (f t)) :
    c.RunsFrom start bound opened take (Parser.peek >>= f) :=
  peek_bind fun t => (h t).anywhere

/-- Where it does not matter what the state is. -/
theorem getting {f : ParserState → Parser α} (h : ∀ s, c.Runs bound opened take (f s)) :
    c.RunsFrom start bound opened take (MonadState.get >>= f) :=
  get_bind fun s => (h s).anywhere

theorem ifNth {n : Nat} {kind : TokenKind} {p q : Parser α}
    (hp : c.RunsFrom (fun s => (s.nth n).kind = kind ∧ start s) bound opened take p)
    (hq : c.RunsFrom (fun s => (s.nth n).kind ≠ kind ∧ start s) bound opened take q) :
    c.RunsFrom start bound opened take
      (Parser.checkNth n kind >>= fun b => if b then p else q) := by
  intro s hs
  by_cases h : (s.nth n).kind = kind
  · have heq : (Parser.checkNth n kind >>= fun b => if b then p else q) s = p s := by
      rw [Parser.bind_ok (Parser.checkNth_eq n kind s), decide_eq_true h]
      rfl
    rw [heq]
    exact hp s ⟨h, hs⟩
  · have heq : (Parser.checkNth n kind >>= fun b => if b then p else q) s = q s := by
      rw [Parser.bind_ok (Parser.checkNth_eq n kind s), decide_eq_false h]
      rfl
    rw [heq]
    exact hq s ⟨h, hs⟩

theorem ifNext {kind : TokenKind} {p q : Parser α}
    (hp : c.RunsFrom (fun s => s.next.kind = kind ∧ start s) bound opened take p)
    (hq : c.RunsFrom (fun s => s.next.kind ≠ kind ∧ start s) bound opened take q) :
    c.RunsFrom start bound opened take (Parser.check kind >>= fun b => if b then p else q) :=
  ifNth hp hq

theorem unlessNext {kind : TokenKind} {p q : Parser α}
    (hp : c.RunsFrom (fun s => s.next.kind ≠ kind ∧ start s) bound opened take p)
    (hq : c.RunsFrom (fun s => s.next.kind = kind ∧ start s) bound opened take q) :
    c.RunsFrom start bound opened take (Parser.check kind >>= fun b => if !b then p else q) := by
  rw [Parser.unless_eq]
  exact ifNext hq hp

/-- A choice by the next token, after which both ways go on alike. -/
theorem joinNext {kind : TokenKind} {p q : Parser α} {k : α → Parser β} {take : β → Nat}
    (hp : c.RunsFrom (fun s => s.next.kind = kind ∧ start s) bound 0 (fun _ => 0) p)
    (hq : c.RunsFrom (fun s => s.next.kind ≠ kind ∧ start s) bound 0 (fun _ => 0) q)
    (hk : ∀ a, c.Runs bound opened take (k a)) :
    c.RunsFrom start bound opened take
      (Parser.check kind >>= fun b => if b then p >>= k else q >>= k) :=
  ifNext (hp.bind hk) (hq.bind hk)

/-! ### Taking tokens -/

/-- Taking a token that closes no brace. -/
theorem advance (h : ∀ s, start s → s.next.kind.isInner) :
    c.RunsFrom start bound 0 (fun _ => 1) Parser.advance := by
  intro s hs hfinish _
  exact ⟨ParserState.remaining_advance_of_inner (h s hs) hfinish,
    .advance (TokenKind.ne_rbrace_of_inner (h s hs))⟩

theorem eat?_bind {kind : TokenKind} (hkind : kind.isInner) {f : Option Token → Parser α}
    (hp : ∀ t, c.Runs (bound - 1) opened (fun a => take a - 1) (f (some t)))
    (hq : c.RunsFrom (fun s => s.next.kind ≠ kind ∧ start s) bound opened take (f none)) :
    c.RunsFrom start bound opened take (Parser.eat? kind >>= f) := by
  intro s hs hfinish hremaining
  by_cases h : s.next.kind = kind
  · have hadvance : c.RunsFrom (fun s => s.next.kind = kind) bound 0 (fun _ => 1) Parser.advance :=
      advance fun s hs => hs ▸ hkind
    have heq : (Parser.eat? kind >>= f) s = (Parser.advance >>= fun t => f (some t)) s := by
      rw [Parser.bind_ok (Parser.eat?_ok h)]
      rfl
    rw [heq]
    exact hadvance.bind hp s h hfinish hremaining
  · have heq : (Parser.eat? kind >>= f) s = f none s := by
      rw [Parser.bind_ok (Parser.eat?_no h)]
    rw [heq]
    exact hq s ⟨h, hs⟩ hfinish hremaining

theorem eat? {kind : TokenKind} (hkind : kind.isInner) :
    c.Finds bound (Parser.eat? kind) := by
  have h : c.Finds bound (Parser.eat? kind >>= Pure.pure) :=
    eat?_bind hkind (fun _ => .pure rfl) (.pure rfl)
  rwa [bind_pure] at h

theorem ifEat {kind : TokenKind} (hkind : kind.isInner) {p q : Parser α}
    (hp : c.Runs (bound - 1) opened (fun a => take a - 1) p)
    (hq : c.RunsFrom (fun s => s.next.kind ≠ kind ∧ start s) bound opened take q) :
    c.RunsFrom start bound opened take (Parser.eat kind >>= fun b => if b then p else q) := by
  rw [Parser.eat, bind_assoc]
  exact eat?_bind hkind (fun _ => hp) hq

/-- A choice by whether a token is taken, after which both ways go on alike. -/
theorem joinEat {kind : TokenKind} (hkind : kind.isInner) {p q : Parser α} {k : α → Parser β}
    {take : β → Nat} (hp : c.Stays (bound - 1) p) (hq : c.Stays bound q)
    (hk : ∀ a, c.Runs bound opened take (k a)) :
    c.RunsFrom start bound opened take
      (Parser.eat kind >>= fun b => if b then p >>= k else q >>= k) :=
  ifEat hkind
    (hp.bind fun a => (hk a).weaken (fun _ => id) (Nat.sub_le bound 1) fun _ => by omega)
    (hq.anywhere.bind hk)

theorem eat {kind : TokenKind} (hkind : kind.isInner) : c.Stays bound (Parser.eat kind) :=
  eat?_bind hkind (fun _ => .pure rfl) (.pure rfl)

/-- Taking two tokens that close no braces. -/
theorem advance_twice {f : Unit → Parser α}
    (h : ∀ s, start s → s.next.kind.isInner ∧ (s.nth 1).kind.isInner)
    (hf : c.Runs (bound - 1 - 1) opened (fun a => take a - 1 - 1) (f ())) :
    c.RunsFrom start bound opened take
      (Functor.discard Parser.advance >>= fun _ => Functor.discard Parser.advance >>= f) := by
  intro s hs hfinish hremaining
  obtain ⟨hfirst, hsecond⟩ := h s hs
  have hadvance : c.RunsFrom (fun u => u.next = s.nth 1) (bound - 1) 0 (fun _ => 1)
      Parser.advance := advance fun u hu => hu ▸ hsecond
  have hrest : c.RunsFrom (fun u => u.next = s.nth 1) (bound - 1) opened (fun a => take a - 1)
      (Functor.discard Parser.advance >>= f) := hadvance.discard.bind fun _ => hf
  have hremaining' := ParserState.remaining_advance_of_inner hfirst hfinish
  exact .advanced hfirst hfinish (hrest s.advance s.next_advance
    (s.finish_advance ▸ hfinish) (by omega))

/-- Taking a token, where a place behind it may be rejected for it. -/
theorem advance_orReject {f : Token → Parser α}
    (h : ∀ s, start s → s.next.kind.isInner ∧ s.next.kind ≠ Sign.greater ∧ s.next.kind ≠ Sign.shr)
    (hf : ∀ t, c.Runs (bound - 1) opened (fun a => take a - 1) (f t) ∨
      ∃ fault, (fault = .notATypeName ∨ ∃ f text, fault = .badLiteral f text) ∧
        f t = Parser.reject fault t.span) :
    c.RunsFrom start bound opened take (Parser.advance >>= f) := by
  intro s hs hfinish hremaining
  obtain ⟨hinner, hgreater, hshr⟩ := h s hs
  have hremaining' := ParserState.remaining_advance_of_inner hinner hfinish
  have hfinish' : s.advance.finish.kind = .endOfSource := by rwa [ParserState.finish_advance]
  rw [Parser.bind_ok (Parser.advance_eq s)]
  rcases hf s.next with hrun | ⟨fault, hfault, hreject⟩
  · exact .advanced hinner hfinish (hrun s.advance trivial hfinish' (by omega))
  · rw [hreject]
    refine ⟨by omega, (Later.advance (TokenKind.ne_rbrace_of_inner hinner)).widen,
      fun _ he depth hdepth hwithin => ?_⟩
    exact ParserState.next_ne_rbrace hfinish'
      (hwithin.behind (by omega) hgreater hshr he hfault rfl)

/-! ### Rejecting -/

/-- Rejecting the next token. It is not harmless to do so at a closing brace. -/
theorem rejectNext {fault : TokenKind → ParseFault}
    (h : ∀ s, start s → s.next.kind = Sign.rbrace → ∀ span, ¬c.harmless ⟨fault Sign.rbrace, span⟩) :
    c.RunsFrom start bound opened take (Parser.rejectNext fault) := by
  intro s hs _ _
  refine ⟨le_rfl, .refl s, fun _ he _ _ _ hnext => ?_⟩
  rw [hnext] at he
  exact h s hs hnext _ he

/-- A fault that tells what was found. -/
theorem rejectFound {fault : TokenKind → ParseFault}
    (hfound : (fault Sign.rbrace).found? = some (.sign .rbrace))
    (hfault : ∀ found, fault Sign.rbrace ≠ .expectedDeclaration found) :
    c.RunsFrom start bound opened take (Parser.rejectNext fault) :=
  rejectNext fun _ _ _ _ he =>
    let ⟨found, hdeclaration⟩ := c.harmless_found he hfound
    hfault found hdeclaration

/-- Where something is expected that does not come, nothing follows. -/
theorem expect_bind {kind : TokenKind} {f : Token → Parser α}
    (h : c.RunsFrom (fun s => s.next.kind = kind) bound opened take (Parser.advance >>= f)) :
    c.RunsFrom start bound opened take (Parser.expect kind >>= f) := by
  have hreject : c.RunsFrom (fun s => s.next.kind ≠ kind ∧ start s) bound 0 (fun _ => bound)
      (Parser.atEnd >>= fun b => if b then Parser.rejectNext fun _ => .endOfSource
        else Parser.rejectNext (.expectedToken kind.description) : Parser Token) := by
    refine ifNext (rejectNext fun s hs hnext => ?_) (rejectFound rfl nofun)
    rw [hs.1] at hnext
    cases hnext
  rw [Parser.expect, bind_assoc]
  have hf : ∀ b : Bool, ((if b then Parser.advance else
      Parser.atEnd >>= fun b => if b then Parser.rejectNext fun _ => .endOfSource
        else Parser.rejectNext (.expectedToken kind.description)) >>= f)
      = if b then Parser.advance >>= f else
        (Parser.atEnd >>= fun b => if b then Parser.rejectNext fun _ => .endOfSource
          else Parser.rejectNext (.expectedToken kind.description)) >>= f := by
    intro b
    cases b <;> rfl
  simp only [hf]
  refine ifNext (h.weaken (fun s hs => hs.1) le_rfl fun _ => le_rfl) (hreject.bind fun a => ?_)
  rw [Nat.sub_self]
  exact fun s _ _ hs => absurd hs (Nat.not_lt_zero _)

theorem expect {kind : TokenKind} (hkind : kind.isInner) : c.Moves bound (Parser.expect kind) := by
  have hadvance : c.RunsFrom (fun s => s.next.kind = kind) bound 0 (fun _ => 1) Parser.advance :=
    advance fun s hs => hs ▸ hkind
  have h : c.Moves bound (Parser.expect kind >>= Pure.pure) :=
    expect_bind (hadvance.bind fun _ => .pure rfl)
  rwa [bind_pure] at h

/-- Behind an opening brace, one brace more is closed. -/
theorem open_bind {f : Token → Parser α}
    (h : ∀ t, c.Runs (bound - 1) (opened + 1) (fun a => take a - 1) (f t)) :
    c.RunsFrom start bound opened take (Parser.expect Sign.lbrace >>= f) := by
  refine expect_bind fun s hs hfinish hremaining => ?_
  have hlater : c.Later 0 s s.advance := .advance (by rw [hs]; exact nofun)
  have htake : s.advance.remaining + 1 ≤ s.remaining :=
    ParserState.remaining_advance (ParserState.ahead_of_next (by rw [hs]; exact nofun) hfinish)
  refine .after htake hlater.finish hlater.errors (fun _ depth hdepth hplace => ?_)
    (h s.next s.advance trivial (by rw [hlater.finish]; exact hfinish) (by omega))
  have hadvance := hplace.advance (by omega)
  rw [hs] at hadvance
  exact hadvance.mono (by simp only [TokenKind.closes]; omega)

/-- A closing brace closes one. -/
theorem close_bind {f : Token → Parser α}
    (h : ∀ t, c.Runs (bound - 1) opened (fun a => take a - 1) (f t)) :
    c.RunsFrom start bound (opened + 1) take (Parser.expect Sign.rbrace >>= f) := by
  refine expect_bind fun s hs hfinish hremaining => ?_
  have htake : s.advance.remaining + 1 ≤ s.remaining :=
    ParserState.remaining_advance (ParserState.ahead_of_next (by rw [hs]; exact nofun) hfinish)
  refine .after htake s.finish_advance (by rw [s.errors_advance]) (fun _ depth hdepth hplace => ?_)
    (h s.next s.advance trivial (by rw [s.finish_advance]; exact hfinish) (by omega))
  have hclose := hplace.advance (by omega)
  rw [hs] at hclose
  exact hclose.mono (by simp only [TokenKind.closes]; omega)

theorem opening {f : Unit → Parser α}
    (h : c.Runs (bound - 1) (opened + 1) (fun a => take a - 1) (f ())) :
    c.RunsFrom start bound opened take (Functor.discard (Parser.expect Sign.lbrace) >>= f) := by
  rw [Functor.discard, map_const, Function.comp_apply, bind_map_left]
  exact open_bind fun _ => h

theorem closing {f : Unit → Parser α}
    (h : c.Runs (bound - 1) opened (fun a => take a - 1) (f ())) :
    c.RunsFrom start bound (opened + 1) take
      (Functor.discard (Parser.expect Sign.rbrace) >>= f) := by
  rw [Functor.discard, map_const, Function.comp_apply, bind_map_left]
  exact close_bind fun _ => h

theorem identifier : c.Moves bound Parser.identifier :=
  (expect rfl).bind fun _ => .pure rfl

/-! ### Tokens of angles and brackets -/

/-- What is left of a token of angles weighs less, and closes no brace either. -/
theorem rest_of_dropAngle? {kind rest : TokenKind}
    (h : Parser.dropAngle? kind = some (some rest)) (t left : Token) (ht : t.kind = kind)
    (hleft : left.kind = rest) :
    left.weight + 1 ≤ t.weight ∧ t.kind.closes = 0 ∧ left.kind.closes = 0 ∧
      (left.kind = Sign.greater ∨ left.kind = Sign.shr) := by
  rcases Parser.kind_of_dropAngle? h with ⟨-, hrest⟩ | ⟨hkind, hrest⟩ | ⟨hkind, hrest⟩
  · cases hrest
  · obtain rfl := Option.some.inj hrest
    simp [Token.weight, ht, hkind, hleft, TokenKind.closes]
  · obtain rfl := Option.some.inj hrest
    simp [Token.weight, ht, hkind, hleft, TokenKind.closes]

theorem closeAngle : c.Moves bound Parser.closeAngle := by
  refine peek_bind fun t => ?_
  cases hangle : Parser.dropAngle? t.kind with
  | none =>
    intro s hs _ _
    refine ⟨le_rfl, .refl s, fun _ he _ _ _ hnext => ?_⟩
    obtain ⟨found, hfound⟩ := c.harmless_found he (by rw [← hs.1, hnext]; rfl)
    cases hfound
  | some rest =>
    have hinner : t.kind.isInner := by
      rcases Parser.kind_of_dropAngle? hangle with h | h | h <;> rw [h.1] <;> rfl
    cases rest with
    | none =>
      have hadvance : c.RunsFrom (fun s => s.next = t ∧ True) bound 0 (fun _ => 1)
          Parser.advance := advance fun s hs => by rw [hs.1]; exact hinner
      exact hadvance.discard
    | some rest =>
      intro s hs hfinish _
      obtain ⟨u, us, hahead⟩ := List.exists_cons_of_ne_nil (ParserState.ahead_of_next
        (by rw [hs.1]; rintro hend; rw [hend] at hinner; cases hinner) hfinish)
      obtain rfl : u = t := (ParserState.next_of_ahead hahead).symm.trans hs.1
      obtain ⟨hweight, hcloses, hleft, hkind⟩ := rest_of_dropAngle? hangle u
        ⟨rest, String.ofList (u.text.toList.drop 1), u.span.dropByte⟩ rfl rfl
      -- what is left of the token weighs less than it and closes no brace
      refine ⟨?_, rfl, List.prefix_rfl, fun _ depth hdepth hwithin => ?_⟩
      · simp only [ParserState.remaining, hahead, Token.totalWeight, List.drop_succ_cons,
          List.drop_zero]
        omega
      · rw [hahead] at hwithin
        obtain ⟨t', ts, hcons, hclosers⟩ := hwithin.cons (by omega)
        obtain ⟨rfl, rfl⟩ := List.cons_eq_cons.mp hcons
        refine ⟨⟨_ :: ts, by simp only [hahead]; rfl, ?_⟩, ?_, .inr ⟨_, rfl, hkind⟩⟩
        · rw [Token.closers_cons]
          omega
        · simpa [hahead] using hwithin.rest

/-- The state behind brackets. -/
theorem dims_count (s : ParserState) (n : Nat) (consumed ts : List Token) :
    (Parser.dims.count s n consumed ts).2.finish = s.finish ∧
      (Parser.dims.count s n consumed ts).2.errors = s.errors ∧
      (Parser.dims.count s n consumed ts).2.remaining ≤ Token.totalWeight ts ∧
      ∀ depth, 1 ≤ depth → c.Within depth ts →
        c.Within depth (Parser.dims.count s n consumed ts).2.ahead := by
  fun_induction Parser.dims.count s n consumed ts with
  | case1 n consumed t u ts h ih =>
    obtain ⟨hfinish, herrors, hremaining, hwithin⟩ := ih
    refine ⟨hfinish, herrors, ?_, fun depth hdepth hts => hwithin depth hdepth ?_⟩
    · simp only [Token.totalWeight]
      omega
    · refine (hts.take hdepth ?_).take hdepth ?_
      · rw [h.1]; decide
      · rw [h.2]; decide
  | case2 n consumed t u ts h => exact ⟨rfl, rfl, le_rfl, fun _ _ => id⟩
  | case3 n consumed ts hshort => exact ⟨rfl, rfl, le_rfl, fun _ _ => id⟩

theorem dims : c.Stays bound Parser.dims := by
  intro s _ _ _
  obtain ⟨hfinish, herrors, hremaining, hwithin⟩ := dims_count (c := c) s 0 s.consumed s.ahead
  exact ⟨hremaining, hfinish, by rw [herrors], fun _ depth hdepth hs =>
    hwithin depth hdepth (by simpa using hs)⟩

/-! ### Recovery -/

theorem record (e : ParseError) : c.RunsFrom start bound 0 (fun _ => 0) (Parser.record e) :=
  fun _ _ _ _ => ⟨le_rfl, rfl, List.prefix_append _ _,
    fun _ _ _ h => by simpa using h⟩

/-- Skipping tokens takes a closing brace only if it starts at one. -/
theorem skip_within (s : ParserState) (first : Bool) (consumed ts : List Token) {depth : Int}
    (hfirst : first = true → ∀ t ∈ ts.head?, t.kind ≠ Sign.rbrace) (hdepth : 1 ≤ depth)
    (hts : c.Within depth ts) :
    c.Within depth (Parser.synchronize.skip s first consumed ts).ahead := by
  fun_induction Parser.synchronize.skip s first consumed ts with
  | case1 first consumed => exact hts
  | case2 consumed t ts h => exact absurd h (hfirst rfl t rfl)
  | case3 consumed t ts h ih => exact ih (fun h => Bool.noConfusion h) (hts.take hdepth h)
  | case4 first consumed t ts _ h => exact hts
  | case5 first consumed t ts _ h ih =>
    simp only [Bool.or_eq_true, not_or, decide_eq_true_eq] at h
    exact ih (fun h => Bool.noConfusion h) (hts.take hdepth h.2)

/-- Recovery takes a closing brace only if it starts at one. -/
theorem recovered_within {s : ParserState} (e : ParseError) {depth : Int}
    (hnext : s.next.kind ≠ Sign.rbrace) (hdepth : 1 ≤ depth) (hs : c.Within depth s.ahead) :
    c.Within depth (s.recovered e).ahead := by
  refine skip_within _ true _ _ (fun _ t ht => ?_) hdepth hs
  obtain ⟨ts, hts⟩ := List.head?_eq_some_iff.mp ht
  exact ParserState.next_of_ahead hts ▸ hnext

theorem recovering {p : Parser (Option α)} (hp : c.RunsFrom start bound 0 (fun _ => 1) p)
    (hstart : ∀ s, start s → s.next.kind ≠ .endOfSource) :
    c.RunsFrom start bound 0 (fun _ => 1) (Parser.recovering p) := by
  intro s hs hfinish hremaining
  have h := hp s hs hfinish hremaining
  have hahead := ParserState.ahead_of_next (hstart s hs) hfinish
  revert h
  rcases hrun : p s with ⟨a, s'⟩ | ⟨e | _, s'⟩
  · rw [Parser.recovering_ok hrun]
    exact id
  · rw [Parser.recovering_rejected hrun]
    rintro ⟨htake, hlater, hnoticed⟩
    have herrors := s'.errors_recovered e
    refine ⟨ParserState.remaining_recovered e htake hahead,
      (s'.finish_recovered e).trans hlater.finish, ?_, fun hs' depth hdepth hplace => ?_⟩
    · rw [herrors]
      exact hlater.errors.trans (List.prefix_append _ _)
    · have hunharmed : c.Unharmed s' ∧ c.harmless e := by
        rw [Enclosure.Unharmed, herrors] at hs'
        exact ⟨fun e' he' => hs' e' (List.mem_append_left _ he'), hs' e (by simp)⟩
      exact recovered_within e (hnoticed hunharmed.1 hunharmed.2 depth hdepth hplace) hdepth
        (hlater.place hunharmed.1 depth hdepth hplace)
  · intro h
    exact h.elim

/-! ### Repetition -/

theorem iterate {step : β → Parser (β ⊕ γ)} {take : γ → Nat} {rounds : Nat}
    (hstep : ∀ b, c.Runs bound 0 (Sum.elim (fun _ => 1) take) (step b)) (hbound : bound ≤ rounds)
    (b : β) : c.Runs bound 0 take (Parser.iterate step rounds b) := by
  induction rounds generalizing bound b with
  | zero => exact fun s _ _ hs => absurd hs (by omega)
  | succ rounds ih =>
    rw [Parser.iterate]
    refine (hstep b).bind fun r => ?_
    cases r with
    | inl b =>
      exact (ih (fun b => (hstep b).below (Nat.sub_le bound 1)) (by omega) b).weaken
        (fun _ => id) le_rfl fun _ => Nat.sub_le _ _
    | inr a => exact .pure (Nat.sub_self _)

theorem collect {item : Parser (Option α)} {rounds : Nat} (hitem : c.Finds bound item)
    (hbound : bound ≤ rounds) : c.Stays bound (Parser.collect rounds item) := by
  refine iterate (fun found => hitem.bind fun a => ?_) hbound _
  cases a <;> exact .pure rfl

theorem collectFrom {more : Parser Bool} {item : Parser (Option α)} {rounds : Nat}
    (test : ParserState → Bool) (hmore : ∀ s, more s = .ok (test s) s)
    (hitem : c.RunsFrom (fun s => test s = true) bound 0 (fun _ => 1) item)
    (hbound : bound ≤ rounds) (found : List α) :
    c.Stays bound (Parser.collectFrom more item rounds found) := by
  refine iterate (fun found => ?_) hbound _
  have hfound : c.RunsFrom (fun s => test s = true) bound 0 (Sum.elim (fun _ => 1) fun _ => 0)
      (item >>= fun a => match a with
        | some a => Pure.pure (.inl (a :: found))
        | none => Pure.pure (.inl found) : Parser (List α ⊕ List α)) :=
    hitem.bind fun a => by cases a <;> exact .pure rfl
  intro s hs hfinish hremaining
  rw [Parser.bind_ok (hmore s)]
  by_cases h : test s = true
  · rw [if_pos h]
    exact hfound s h hfinish hremaining
  · rw [if_neg h]
    exact ⟨le_rfl, .refl s⟩

theorem collectWhile {more : Parser Bool} {item : Parser (Option α)} {rounds : Nat}
    (test : ParserState → Bool) (hmore : ∀ s, more s = .ok (test s) s)
    (hitem : c.RunsFrom (fun s => test s = true) bound 0 (fun _ => 1) item)
    (hbound : bound ≤ rounds) : c.Stays bound (Parser.collectWhile rounds more item) := by
  rw [Parser.collectWhile_eq]
  exact collectFrom test hmore hitem hbound []

/-- Items up to a closing token. -/
theorem collectBefore {close : TokenKind} {item : Parser (Option α)} {rounds : Nat}
    (hitem : c.RunsFrom (fun s => s.next.kind ≠ close ∧ s.next.kind ≠ .endOfSource) bound 0
      (fun _ => 1) item) (hbound : bound ≤ rounds) :
    c.Stays bound (Parser.collectWhile rounds (Parser.before close) item) :=
  collectWhile (fun s => s.next.kind ≠ close && s.next.kind ≠ .endOfSource) (fun _ => rfl)
    (hitem.weaken (fun s hs => by simpa using hs) le_rfl fun _ => le_rfl) hbound

theorem sepBy {separator : TokenKind} {item : Parser α} {rounds : Nat}
    (hseparator : separator.isInner) (hitem : c.Moves bound item) (hbound : bound ≤ rounds) :
    c.Moves bound (Parser.sepBy rounds separator item) :=
  iterate (fun _ => hitem.bind fun _ => ifEat hseparator (.pure rfl) (.pure rfl)) hbound _

theorem sepUntil {separator close : TokenKind} {item : Parser α} {rounds : Nat}
    (hseparator : separator.isInner) (hitem : c.Moves bound item) (hbound : bound ≤ rounds) :
    c.Stays bound (Parser.sepUntil rounds separator close item) := by
  refine iterate (fun _ => (looks fun s => ⟨_, rfl⟩).bind fun b => .ite (fun _ => ?_) fun _ => ?_)
    hbound _
  · exact hitem.bind fun _ => ifEat hseparator (.pure rfl) (.pure rfl)
  · exact .pure rfl

end RunsFrom

end Enclosure

end JavaGraft
