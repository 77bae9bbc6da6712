import JavaGraft.Proofs.Course.Holding

/-!
# What a run of a parser gathers

A run of a parser adds to the extents that are held. Where it starts some are held, and where it
succeeds those are held that belong to its result (`JavaGraft.Course.GathersFrom`); where it rejects
the source, its error lies in the source. Wherever it starts and however it ends, it leads to its
last state in steps.

A parser that *moves* takes a token if it succeeds, so what it reads stands up to the end of the
last token consumed, even if something empty was held before. A parser that *stays* may succeed
without taking a token.

What holds of single tokens and of parsers that are run one after the other is said here. How nodes
are closed and what loops gather is said in `JavaGraft.Proofs.Course.Closing`.
-/

namespace JavaGraft

/-- A kind of which there is something to be taken, which is every one but the end of the source. -/
def TokenKind.hasText : TokenKind → Bool
  | .endOfSource => false
  | _ => true

theorem TokenKind.ne_endOfSource {kind : TokenKind} (h : kind.hasText) : kind ≠ .endOfSource :=
  fun hkind => by rw [hkind] at h; cases h

/-- An error **lies in a source**: its span does, and that of the lexical error that it stands for
if it stands for one. -/
structure ParseError.LiesIn (source : List Char) (e : ParseError) : Prop where
  span : e.span.LiesIn source
  lexical : ∀ l, e.fault = .lexical l → l.span.LiesIn source

/-- All errors recorded so far lie in the source. -/
def ParserState.Noted (source : List Char) (s : ParserState) : Prop :=
  ∀ e ∈ s.errors, e.LiesIn source

/-- Taking a token notes no error. -/
theorem ParserState.Noted.advance {source : List Char} {s : ParserState} (h : s.Noted source) :
    s.advance.Noted source := by
  rw [Noted, s.errors_advance]
  exact h

/-- The state in which a run ends. -/
def Parser.endState {α : Type} : EStateM.Result Failure ParserState α → ParserState
  | .ok _ s | .error _ s => s

namespace Course

variable {α β γ : Type} {source : List Char}

/-- How a run ends: what belongs to its result is held, or its error lies in the source. -/
def EndsWell (source : List Char) (base : Span) (first : Nat) (e : Edge) (ext : α → List Extent) :
    EStateM.Result Failure ParserState α → Prop
  | .ok a s => s.Noted source ∧ Held source base first e s (ext a)
  | .error (.rejected err) s => s.Noted source ∧ err.LiesIn source
  | .error .exhausted _ => True

/-- **What a parser gathers** if it starts in certain states: the extents `acc` become those of its
result. Wherever it starts, it leads to its last state. -/
def GathersFrom (source : List Char) (start : ParserState → Prop) (base : Span) (e : Edge)
    (acc : List Extent) (p : Parser α) (e' : Edge) (ext : α → List Extent) : Prop :=
  ∀ s, s.finish.kind = .endOfSource → s.Leads (Parser.endState (p s)) ∧
    (start s → s.Regular source → s.Noted source →
      ∀ first, Held source base first e s acc → EndsWell source base first e' ext (p s))

/-- What a parser gathers wherever it starts. -/
abbrev Gathers (source : List Char) (base : Span) (e : Edge) (acc : List Extent) (p : Parser α)
    (e' : Edge) (ext : α → List Extent) : Prop :=
  GathersFrom source (fun _ => True) base e acc p e' ext

/-- A parser that takes a token if it succeeds. -/
def MovesFrom (source : List Char) (start : ParserState → Prop) (p : Parser α)
    (ext : α → List Extent) : Prop :=
  ∀ base e, GathersFrom source start base e [] p .tight ext

/-- A parser that may succeed without taking a token. -/
def StaysFrom (source : List Char) (start : ParserState → Prop) (p : Parser α)
    (ext : α → List Extent) : Prop :=
  ∀ base e, GathersFrom source start base e [] p e ext

/-- A parser that takes a token wherever it starts. -/
abbrev Moves (source : List Char) (p : Parser α) (ext : α → List Extent) : Prop :=
  MovesFrom source (fun _ => True) p ext

/-- A parser that may stay wherever it starts. -/
abbrev Stays (source : List Char) (p : Parser α) (ext : α → List Extent) : Prop :=
  StaysFrom source (fun _ => True) p ext

variable {start start' : ParserState → Prop} {base base' : Span} {e e' e₁ : Edge}
  {acc acc' : List Extent} {ext : α → List Extent} {ext₁ : β → List Extent}

/-! ### Runs one after the other -/

namespace GathersFrom

theorem weaken {p : Parser α} (h : GathersFrom source start base e acc p e' ext)
    (hstart : ∀ s, start' s → start s) : GathersFrom source start' base e acc p e' ext :=
  fun s hfinish => ⟨(h s hfinish).1, fun hs => (h s hfinish).2 (hstart s hs)⟩

theorem anywhere {p : Parser α} (h : Gathers source base e acc p e' ext) :
    GathersFrom source start base e acc p e' ext := h.weaken fun _ _ => trivial

/-- What is held where a run starts may be described in another way, and so may what is held where
it ends. -/
theorem adapt {p : Parser α} {e₀ : Edge} {ext' : α → List Extent}
    (h : GathersFrom source start base' e acc' p e₁ ext)
    (hbefore : ∀ s first, start s → s.Regular source → Held source base first e₀ s acc →
      ∃ first', Held source base' first' e s acc' ∧ ∀ s' a, s.Leads s' →
        Held source base' first' e₁ s' (ext a) → Held source base first e' s' (ext' a)) :
    GathersFrom source start base e₀ acc p e' ext' := by
  intro s hfinish
  have hrun := h s hfinish
  refine ⟨hrun.1, fun hstart hs hnoted first hacc => ?_⟩
  obtain ⟨first', hacc', hbehind⟩ := hbefore s first hstart hs hacc
  have hends := hrun.2 hstart hs hnoted first' hacc'
  revert hrun hends
  rcases p s with ⟨a, s'⟩ | ⟨err | _, s'⟩
  · exact fun hrun hends => ⟨hends.1, hbehind s' a hrun.1 hends.2⟩
  · exact fun _ hends => hends
  · exact fun _ _ => trivial

theorem congr {p : Parser α} {ext' : α → List Extent}
    (h : GathersFrom source start base e acc p e' ext) (hext : ∀ a, ext' a = ext a) :
    GathersFrom source start base e acc p e' ext' :=
  h.adapt fun _ first _ _ hacc => ⟨first, hacc, fun _ a _ h' => hext a ▸ h'⟩

/-- Extents that are held may be dropped. -/
theorem drop {p : Parser α} (h : GathersFrom source start base e acc' p e' ext)
    (hacc : acc'.Sublist acc) : GathersFrom source start base e acc p e' ext :=
  h.adapt fun _ first _ _ hheld => ⟨first, hheld.sublist hacc, fun _ _ _ h' => h'⟩

/-- What ends behind a token may be said to end at any edge. -/
theorem loosen {p : Parser α} (h : GathersFrom source start base e acc p .tight ext) :
    GathersFrom source start base e acc p e' ext := by
  intro s hfinish
  have hrun := h s hfinish
  refine ⟨hrun.1, fun hstart hs hnoted first hacc => ?_⟩
  have hends := hrun.2 hstart hs hnoted first hacc
  revert hrun hends
  rcases p s with ⟨a, s'⟩ | ⟨err | _, s'⟩
  · exact fun hrun hends => ⟨hends.1, hends.2.of_tight (hs.leads hrun.1) e'⟩
  · exact fun _ hends => hends
  · exact fun _ _ => trivial

/-- One run behind another, in whose result more is known of the state. -/
theorem seq_when {start' : β → ParserState → Prop} {p : Parser β} {f : β → Parser α}
    (hp : GathersFrom source start base e acc p e₁ ext₁)
    (hpost : ∀ s first b s', start s → s.Regular source → s.Noted source →
      Held source base first e s acc → p s = .ok b s' → start' b s')
    (hf : ∀ b, GathersFrom source (start' b) base e₁ (ext₁ b) (f b) e' ext) :
    GathersFrom source start base e acc (p >>= f) e' ext := by
  intro s hfinish
  obtain ⟨hleads, hends⟩ := hp s hfinish
  simp only [Bind.bind, EStateM.bind]
  rcases hrun : p s with ⟨b, s'⟩ | ⟨err | _, s'⟩
  · rw [hrun] at hleads hends
    have hleads : s.Leads s' := hleads
    have hfinish' : s'.finish.kind = .endOfSource := by rw [hleads.onward.finish]; exact hfinish
    obtain ⟨hleads', hends'⟩ := hf b s' hfinish'
    refine ⟨hleads.trans hleads', fun hstart hs hnoted first hacc => ?_⟩
    obtain ⟨hnoted', hheld⟩ := hends hstart hs hnoted first hacc
    exact hends' (hpost s first b s' hstart hs hnoted hacc hrun) (hs.leads hleads) hnoted' first
      hheld
  · rw [hrun] at hleads hends
    exact ⟨hleads, hends⟩
  · rw [hrun] at hleads
    exact ⟨hleads, fun _ _ _ _ _ => trivial⟩

/-- One run behind another. -/
theorem seq {p : Parser β} {f : β → Parser α} (hp : GathersFrom source start base e acc p e₁ ext₁)
    (hf : ∀ b, Gathers source base e₁ (ext₁ b) (f b) e' ext) :
    GathersFrom source start base e acc (p >>= f) e' ext :=
  hp.seq_when (fun _ _ _ _ _ _ _ _ _ => trivial) hf

theorem pure {a : α} (h : ext a = acc) : GathersFrom source start base e acc (pure a) e ext :=
  fun s _ => ⟨.refl s, fun _ _ hnoted _ hacc => ⟨hnoted, h ▸ hacc⟩⟩

theorem exhausted : GathersFrom source start base e acc (throw .exhausted : Parser α) e' ext :=
  fun s _ => ⟨.refl s, fun _ _ _ _ _ => trivial⟩

theorem ite {P : Prop} [Decidable P] {p q : Parser α}
    (hp : P → GathersFrom source start base e acc p e' ext)
    (hq : ¬P → GathersFrom source start base e acc q e' ext) :
    GathersFrom source start base e acc (if P then p else q) e' ext := by
  split
  · next h => exact hp h
  · next h => exact hq h

/-- What holds whatever the next token is. -/
theorem by_next {p : Parser α} (h : ∀ t, GathersFrom source (fun s => s.next = t ∧ start s) base e
    acc p e' ext) : GathersFrom source start base e acc p e' ext :=
  fun s hfinish => ⟨(h s.next s hfinish).1, fun hs => (h s.next s hfinish).2 ⟨rfl, hs⟩⟩

/-- A node that is held alone can be the base of what follows. -/
theorem rebase {x : Extent} {p : Parser α} (hx : x.span = base')
    (h : GathersFrom source start base' .tight [x] p e' ext) :
    GathersFrom source start base .tight [x] p e' ext := by
  subst hx
  exact h.adapt fun s first _ hs hheld => ⟨first, hheld.atNode, fun s' a hleads h' =>
    hheld.rebase (hleads.carries_tight hs e') le_rfl
      (hheld.behind x (List.mem_singleton.mpr rfl)) h'⟩

/-- What is held from a later base on may be the beginning of what follows. -/
theorem rebase_when {p : Parser α} (h : GathersFrom source start base' e acc p .tight ext)
    (hstart : ∀ s first, start s → s.Regular source → Held source base first e s acc →
      Held source base' first e s acc ∧ base.offset ≤ base'.offset ∧ base.stop ≤ base'.stop) :
    GathersFrom source start base e acc p .tight ext :=
  h.adapt fun s first hs hregular hheld =>
    have ⟨hheld', hoffset, hstop⟩ := hstart s first hs hregular hheld
    ⟨first, hheld', fun _ _ _ h' => h'.earlier hheld.liesIn hoffset hstop⟩

/-- A node that is held alone may be read as another one without calls. -/
theorem exchange {x y : Extent} {p : Parser α} (hsound : x.Sound source → y.Sound source)
    (hordered : x.Sound source → Extent.InOrder [x] → Extent.InOrder [y])
    (hspan : y.span = x.span) (hcalls : y.calls = [])
    (h : GathersFrom source start base e [y] p e' ext) :
    GathersFrom source start base e [x] p e' ext :=
  h.adapt fun _ first _ _ hheld =>
    ⟨first, hheld.exchange hsound hordered hspan hcalls, fun _ _ _ h' => h'⟩

end GathersFrom

/-! ### Behind what is held -/

namespace StaysFrom

variable {p : Parser β} {f : β → Parser α}

theorem frame (hp : StaysFrom source start p ext₁) :
    GathersFrom source start base e acc p e fun b => acc ++ ext₁ b := by
  intro s hfinish
  obtain ⟨hleads, hends⟩ := hp base e s hfinish
  refine ⟨hleads, fun hstart hs hnoted first hacc => ?_⟩
  replace hends := hends hstart hs hnoted _ (.nil hacc.liesIn hacc.past)
  -- the same run, seen from the next token, tells where it is that the parts start
  have hnext := (hp s.next.span .loose s hfinish).2 hstart hs hnoted _ (.nil_next hs)
  revert hleads hends hnext
  rcases p s with ⟨b, s'⟩ | ⟨err | _, s'⟩
  · exact fun hleads hends hnext =>
      ⟨hends.1, hacc.append hs (hleads.carries hs e) hends.2 hnext.2.behind⟩
  · exact fun _ hends _ => hends
  · exact fun _ _ _ => trivial

/-- What is read is held with what was held before. -/
theorem bind (hp : StaysFrom source start p ext₁)
    (hf : ∀ b, Gathers source base e (acc ++ ext₁ b) (f b) e' ext) :
    GathersFrom source start base e acc (p >>= f) e' ext := hp.frame.seq hf

/-- What is read is dropped. -/
theorem skip (hp : StaysFrom source start p ext₁)
    (hf : ∀ b, Gathers source base e acc (f b) e' ext) :
    GathersFrom source start base e acc (p >>= f) e' ext :=
  hp.bind fun b => (hf b).drop (List.sublist_append_left _ _)

theorem weaken (hp : StaysFrom source start p ext₁) (hstart : ∀ s, start' s → start s) :
    StaysFrom source start' p ext₁ := fun base e => (hp base e).weaken hstart

theorem congr {ext₁' : β → List Extent} (hp : StaysFrom source start p ext₁)
    (hext : ∀ b, ext₁' b = ext₁ b) : StaysFrom source start p ext₁' :=
  fun base e => (hp base e).congr hext

theorem anywhere (hp : Stays source p ext₁) : StaysFrom source start p ext₁ :=
  hp.weaken fun _ _ => trivial

theorem discard (hp : StaysFrom source start p ext₁) :
    StaysFrom source start (Functor.discard p) fun _ => [] :=
  fun _ _ => hp.skip fun _ => .pure rfl

end StaysFrom

namespace MovesFrom

variable {p : Parser β} {f : β → Parser α}

/-- **What a parser reads from the next token on** is held with what was held before. -/
theorem behind (h : ∀ t, GathersFrom source (fun s => s.next = t ∧ start s) t.span .loose [] p
    .tight ext₁) : GathersFrom source start base e acc p .tight fun b => acc ++ ext₁ b := by
  refine .by_next fun t => (h t).adapt fun s first hs hregular hacc => ?_
  rw [← hs.1]
  refine ⟨s.nextCall, .nil_next hregular, fun s' a hleads h' => ?_⟩
  exact hacc.append hregular (ParserState.carries_of_next hregular h'.past e) h' h'.behind

/-- A rule has its base at the next token. -/
theorem of_next (h : ∀ t, GathersFrom source (fun s => s.next = t ∧ start s) t.span .loose [] p
    .tight ext₁) : MovesFrom source start p ext₁ := fun _ _ => behind h

/-- A rule has its base at the next token, which is known. -/
theorem of_known {t : Token} (hstart : ∀ s, start s → s.next = t)
    (h : GathersFrom source start t.span .loose [] p .tight ext₁) : MovesFrom source start p ext₁ :=
  of_next fun u s hfinish => ⟨(h s hfinish).1, fun hs => by
    obtain rfl : u = t := hs.1.symm.trans (hstart s hs.2)
    exact (h s hfinish).2 hs.2⟩

/-- A rule has its base at the next token, which it looks at first. -/
theorem of_peek {f : Token → Parser β} (h : ∀ t, GathersFrom source (fun s => s.next = t ∧ start s)
    t.span .loose [] (f t) .tight ext₁) : MovesFrom source start (Parser.peek >>= f) ext₁ :=
  of_next fun t s hfinish => ⟨(h s.next s hfinish).1, fun hs => by
    have hrun := (h t s hfinish).2 hs
    rw [← hs.1] at hrun ⊢
    exact hrun⟩

theorem frame (hp : MovesFrom source start p ext₁) :
    GathersFrom source start base e acc p .tight fun b => acc ++ ext₁ b :=
  behind fun t => (hp t.span .loose).weaken fun _ hs => hs.2

/-- What is read is held with what was held before. -/
theorem bind (hp : MovesFrom source start p ext₁)
    (hf : ∀ b, Gathers source base .tight (acc ++ ext₁ b) (f b) e' ext) :
    GathersFrom source start base e acc (p >>= f) e' ext := hp.frame.seq hf

/-- What is read is dropped. -/
theorem skip (hp : MovesFrom source start p ext₁)
    (hf : ∀ b, Gathers source base .tight acc (f b) e' ext) :
    GathersFrom source start base e acc (p >>= f) e' ext :=
  hp.bind fun b => (hf b).drop (List.sublist_append_left _ _)

/-- What is read first is the base of what follows. -/
theorem lead {x : β → Extent} {place : β → Span} (hp : MovesFrom source start p fun b => [x b])
    (hx : ∀ b, (x b).span = place b)
    (hf : ∀ b, Gathers source (place b) .tight [x b] (f b) .tight ext) :
    MovesFrom source start (p >>= f) ext :=
  fun base e => (hp base e).seq fun b => (hf b).rebase (hx b)

/-- What is read first is the base of what follows, and is dropped. -/
theorem lead_skip {x : β → Extent} {place : β → Span}
    (hp : MovesFrom source start p fun b => [x b]) (hx : ∀ b, (x b).span = place b)
    (hf : ∀ b, Gathers source (place b) .tight [] (f b) .tight ext) :
    MovesFrom source start (p >>= f) ext :=
  hp.lead hx fun b => (hf b).drop (List.nil_sublist _)

theorem stays (hp : MovesFrom source start p ext₁) : StaysFrom source start p ext₁ :=
  fun base e => (hp base e).loosen

theorem weaken (hp : MovesFrom source start p ext₁) (hstart : ∀ s, start' s → start s) :
    MovesFrom source start' p ext₁ := fun base e => (hp base e).weaken hstart

theorem anywhere (hp : Moves source p ext₁) : MovesFrom source start p ext₁ :=
  hp.weaken fun _ _ => trivial

theorem map {g : β → α} (hp : MovesFrom source start p ext₁) (hg : ∀ b, ext (g b) = ext₁ b) :
    MovesFrom source start (g <$> p) ext := by
  rw [map_eq_pure_bind]
  exact fun _ _ => hp.bind fun b => .pure (by rw [hg, List.nil_append])

theorem discard (hp : MovesFrom source start p ext₁) :
    MovesFrom source start (Functor.discard p) fun _ => [] :=
  fun _ _ => hp.skip fun _ => .pure rfl

end MovesFrom

/-! ### Looking at tokens -/

namespace GathersFrom

/-- A parser that only looks. -/
theorem looks {p : Parser α} (h : ∀ s, ∃ a, p s = .ok a s) (hext : ∀ a, (ext a).Sublist acc) :
    GathersFrom source start base e acc p e ext := by
  intro s _
  obtain ⟨a, ha⟩ := h s
  rw [ha]
  exact ⟨.refl s, fun _ _ hnoted _ hacc => ⟨hnoted, hacc.sublist (hext a)⟩⟩

theorem get_bind {f : ParserState → Parser α}
    (h : ∀ s₀, GathersFrom source (fun s => s = s₀ ∧ start s) base e acc (f s₀) e' ext) :
    GathersFrom source start base e acc (MonadState.get >>= f) e' ext :=
  fun s hfinish => ⟨(h s s hfinish).1, fun hs => (h s s hfinish).2 ⟨rfl, hs⟩⟩

theorem peek_bind {f : Token → Parser α}
    (h : ∀ t, GathersFrom source (fun s => s.next = t ∧ start s) base e acc (f t) e' ext) :
    GathersFrom source start base e acc (Parser.peek >>= f) e' ext :=
  fun s hfinish => ⟨(h s.next s hfinish).1, fun hs => (h s.next s hfinish).2 ⟨rfl, hs⟩⟩

theorem kindAt_bind {n : Nat} {f : TokenKind → Parser α}
    (h : ∀ k, GathersFrom source (fun s => (s.nth n).kind = k ∧ start s) base e acc (f k) e' ext) :
    GathersFrom source start base e acc (Parser.kindAt n >>= f) e' ext :=
  fun s hfinish => ⟨(h _ s hfinish).1, fun hs => (h _ s hfinish).2 ⟨rfl, hs⟩⟩

/-- Where it does not matter what comes next. -/
theorem peeking {f : Token → Parser α} (h : ∀ t, GathersFrom source start base e acc (f t) e' ext) :
    GathersFrom source start base e acc (Parser.peek >>= f) e' ext :=
  peek_bind fun t => (h t).weaken fun _ hs => hs.2

/-- Where it does not matter what the state is. -/
theorem getting {f : ParserState → Parser α}
    (h : ∀ s, GathersFrom source start base e acc (f s) e' ext) :
    GathersFrom source start base e acc (MonadState.get >>= f) e' ext :=
  get_bind fun s => (h s).weaken fun _ hs => hs.2

/-- A choice by a test of the state. -/
theorem ifTest {test : ParserState → Bool} {look : Parser Bool} {p q : Parser α}
    (hlook : ∀ s, look s = .ok (test s) s)
    (hp : GathersFrom source (fun s => test s = true ∧ start s) base e acc p e' ext)
    (hq : GathersFrom source (fun s => test s = false ∧ start s) base e acc q e' ext) :
    GathersFrom source start base e acc (look >>= fun b => if b then p else q) e' ext := by
  intro s hfinish
  rw [Parser.bind_ok (hlook s)]
  by_cases h : test s = true
  · rw [if_pos h]
    exact ⟨(hp s hfinish).1, fun hs => (hp s hfinish).2 ⟨h, hs⟩⟩
  · rw [if_neg h]
    exact ⟨(hq s hfinish).1, fun hs => (hq s hfinish).2 ⟨Bool.eq_false_iff.mpr h, hs⟩⟩

theorem ifNth {n : Nat} {kind : TokenKind} {p q : Parser α}
    (hp : GathersFrom source (fun s => (s.nth n).kind = kind ∧ start s) base e acc p e' ext)
    (hq : GathersFrom source (fun s => (s.nth n).kind ≠ kind ∧ start s) base e acc q e' ext) :
    GathersFrom source start base e acc
      (Parser.checkNth n kind >>= fun b => if b then p else q) e' ext :=
  ifTest (Parser.checkNth_eq n kind) (hp.weaken fun _ hs => ⟨of_decide_eq_true hs.1, hs.2⟩)
    (hq.weaken fun _ hs => ⟨of_decide_eq_false hs.1, hs.2⟩)

theorem ifNext {kind : TokenKind} {p q : Parser α}
    (hp : GathersFrom source (fun s => s.next.kind = kind ∧ start s) base e acc p e' ext)
    (hq : GathersFrom source (fun s => s.next.kind ≠ kind ∧ start s) base e acc q e' ext) :
    GathersFrom source start base e acc
      (Parser.check kind >>= fun b => if b then p else q) e' ext := ifNth hp hq

theorem unlessNext {kind : TokenKind} {p q : Parser α}
    (hp : GathersFrom source (fun s => s.next.kind ≠ kind ∧ start s) base e acc p e' ext)
    (hq : GathersFrom source (fun s => s.next.kind = kind ∧ start s) base e acc q e' ext) :
    GathersFrom source start base e acc
      (Parser.check kind >>= fun b => if !b then p else q) e' ext := by
  rw [Parser.unless_eq]
  exact ifNext hq hp

/-- A choice by the next token, after which both ways go on alike. -/
theorem joinNext {kind : TokenKind} {p q : Parser β} {k : β → Parser α} (ext₁ : β → List Extent)
    (hp : StaysFrom source (fun s => s.next.kind = kind ∧ start s) p ext₁)
    (hq : StaysFrom source (fun s => s.next.kind ≠ kind ∧ start s) q ext₁)
    (hk : ∀ b, Gathers source base e (acc ++ ext₁ b) (k b) e' ext) :
    GathersFrom source start base e acc
      (Parser.check kind >>= fun b => if b then p >>= k else q >>= k) e' ext :=
  ifNext (hp.bind hk) (hq.bind hk)

/-! ### Rejecting -/

/-- Rejecting the source at a span that lies in it. -/
theorem rejectAt {fault : ParseFault} {span : Span} (hfault : ∀ l, fault ≠ .lexical l)
    (h : ∀ s first, start s → s.Regular source → Held source base first e s acc →
      span.LiesIn source) :
    GathersFrom source start base e acc (Parser.reject fault span) e' ext :=
  fun s _ => ⟨.refl s, fun hstart hs hnoted first hacc =>
    ⟨hnoted, h s first hstart hs hacc, fun l hl => absurd hl (hfault l)⟩⟩

/-- Rejecting the source at a node that is held. -/
theorem reject {fault : ParseFault} {span : Span} {x : Extent} (hfault : ∀ l, fault ≠ .lexical l)
    (hx : x ∈ acc) (hspan : x.span = span) :
    GathersFrom source start base e acc (Parser.reject fault span) e' ext :=
  rejectAt hfault fun _ _ _ _ hacc => hspan ▸ (hacc.sound x hx).liesIn

theorem rejectNext {fault : TokenKind → ParseFault} (hfault : ∀ k l, fault k ≠ .lexical l) :
    GathersFrom source start base e acc (Parser.rejectNext fault) e' ext :=
  get_bind fun s₀ => rejectAt (hfault _) fun s _ hs hregular _ => by
    rw [← hs.1]
    exact hregular.liesIn_next

end GathersFrom

/-! ### Taking tokens -/

namespace MovesFrom

/-- A parser that takes the next token, whose result stands for it. -/
theorem take {p : Parser α} (hp : ∀ s, ∃ a, p s = .ok a s.advance ∧
    (start s → s.next.kind.hasText ∧ ext a = [.leaf s.next.span])) :
    MovesFrom source start p ext := by
  refine of_next fun t s hfinish => ?_
  obtain ⟨a, hrun, hext⟩ := hp s
  rw [hrun]
  refine ⟨.advance s, fun hstart hs hnoted first hheld => ?_⟩
  obtain ⟨hkind, hext⟩ := hext hstart.2
  obtain ⟨u, us, hahead⟩ := List.exists_cons_of_ne_nil
    (ParserState.ahead_of_next (TokenKind.ne_endOfSource hkind) hfinish)
  obtain rfl : u = t := (ParserState.next_of_ahead hahead).symm.trans hstart.1
  have htoken := Held.token hs hahead
  refine ⟨hnoted.advance, ?_⟩
  rw [hext, hstart.1]
  exact hheld.rebase (ParserState.carries_of_next hs (hstart.1 ▸ htoken.past) .loose) hheld.since
    le_rfl htoken

theorem advance (h : ∀ s, start s → s.next.kind.hasText) :
    MovesFrom source start Parser.advance fun t => [.leaf t.span] :=
  take fun s => ⟨s.next, rfl, fun hs => ⟨h s hs, rfl⟩⟩

theorem token {kind : TokenKind} (hkind : kind.hasText) :
    MovesFrom source (fun s => s.next.kind = kind ∧ start s) Parser.advance
      fun t => [.leaf t.span] :=
  advance fun _ hs => by rw [hs.1]; exact hkind

/-- Taking a token that was looked at before. -/
theorem known {t : Token} (h : ∀ s, start s → s.next = t) (ht : t.kind.hasText) :
    MovesFrom source start (Functor.discard Parser.advance) fun _ => [.leaf t.span] :=
  take fun s => ⟨(), Parser.discard_ok (Parser.advance_eq s), fun hs =>
    ⟨by rw [h s hs]; exact ht, by rw [h s hs]⟩⟩

end MovesFrom

/-- Taking whatever comes next, if anything does. -/
theorem advance : Stays source (Functor.discard Parser.advance) fun _ => [] := by
  intro base e s _
  rw [Parser.discard_ok (Parser.advance_eq s)]
  exact ⟨.advance s, fun _ hs hnoted first hheld => ⟨hnoted.advance, hheld.later hs (.advance s)⟩⟩

namespace GathersFrom

variable {kind : TokenKind} {p q : Parser α}

theorem eat?_cases {f : Option Token → Parser α}
    (hp : GathersFrom source (fun s => s.next.kind = kind ∧ start s) base e acc
      (Parser.advance >>= fun t => f (some t)) e' ext)
    (hq : GathersFrom source (fun s => s.next.kind ≠ kind ∧ start s) base e acc (f none) e' ext) :
    GathersFrom source start base e acc (Parser.eat? kind >>= f) e' ext := by
  intro s hfinish
  by_cases h : s.next.kind = kind
  · have heq : (Parser.eat? kind >>= f) s = (Parser.advance >>= fun t => f (some t)) s := by
      rw [Parser.bind_ok (Parser.eat?_ok h)]
      rfl
    rw [heq]
    exact ⟨(hp s hfinish).1, fun hs => (hp s hfinish).2 ⟨h, hs⟩⟩
  · have heq : (Parser.eat? kind >>= f) s = f none s := by
      rw [Parser.bind_ok (Parser.eat?_no h)]
    rw [heq]
    exact ⟨(hq s hfinish).1, fun hs => (hq s hfinish).2 ⟨h, hs⟩⟩

/-- A token that may be there and is the base of what follows. -/
theorem eat?_lead (hkind : kind.hasText) {f : Option Token → Parser α}
    (hp : ∀ t : Token, Gathers source t.span .tight [] (f (some t)) .tight ext)
    (hq : GathersFrom source (fun s => s.next.kind ≠ kind ∧ start s) base e [] (f none) e' ext) :
    GathersFrom source start base e [] (Parser.eat? kind >>= f) e' ext :=
  eat?_cases ((MovesFrom.token hkind).lead_skip (fun _ => rfl) hp _ _).loosen
    hq

theorem ifEat (hkind : kind.hasText) (hp : Gathers source base .tight acc p e' ext)
    (hq : GathersFrom source (fun s => s.next.kind ≠ kind ∧ start s) base e acc q e' ext) :
    GathersFrom source start base e acc (Parser.eat kind >>= fun b => if b then p else q) e' ext :=
  by
    rw [Parser.eat, bind_assoc]
    exact eat?_cases ((MovesFrom.token hkind).skip fun _ => hp) hq

/-- A choice by whether a token is taken, after which both ways go on alike. -/
theorem joinEat (hkind : kind.hasText) {p q : Parser β} {k : β → Parser α}
    (ext₁ : β → List Extent) (hp : Stays source p ext₁) (hq : Stays source q ext₁)
    (hk : ∀ b, Gathers source base .tight (acc ++ ext₁ b) (k b) .tight ext)
    (hk' : ∀ b, Gathers source base e (acc ++ ext₁ b) (k b) e' ext) :
    GathersFrom source start base e acc
      (Parser.eat kind >>= fun b => if b then p >>= k else q >>= k) e' ext :=
  ifEat hkind (hp.bind hk).loosen (hq.anywhere.bind hk')

end GathersFrom

variable {kind : TokenKind}

theorem eat? (hkind : kind.hasText) :
    Stays source (Parser.eat? kind) fun t => t.toList.map fun t => .leaf t.span := by
  intro base e
  have h : Gathers source base e [] (Parser.eat? kind >>= pure) e
      fun t => t.toList.map fun t => .leaf t.span :=
    .eat?_cases ((MovesFrom.token hkind).stays.bind fun _ => .pure rfl)
      (.pure rfl)
  rwa [bind_pure] at h

theorem eat (hkind : kind.hasText) : Stays source (Parser.eat kind) fun _ => [] :=
  fun _ _ => .eat?_cases
    ((MovesFrom.token hkind).stays.skip fun _ => .pure rfl) (.pure rfl)

theorem expect (hkind : kind.hasText) :
    Moves source (Parser.expect kind) fun t => [.leaf t.span] := by
  intro base e
  refine .ifNext (MovesFrom.token hkind base e) (.ifNext ?_ ?_)
  · exact .rejectNext fun _ _ => nofun
  · exact .rejectNext fun _ _ => nofun

theorem identifier : Moves source Parser.identifier fun i => [i.extent] := by
  unfold Parser.identifier
  exact fun _ _ => (expect rfl).bind fun _ => .pure rfl

/-! ### Tokens of angles and brackets -/

/-- Taking one closing angle, by what the next token leaves behind one. -/
theorem closeAngle_eq (s : ParserState) :
    Parser.closeAngle s = match Parser.dropAngle? s.next.kind with
      | none => .error (.rejected ⟨.expectedToken "'>'" s.next.kind, s.next.span⟩) s
      | some none => .ok () s.advance
      | some (some rest) =>
        .ok () { s with ahead := s.next.behindAngle rest :: s.ahead.drop 1 } := by
  rw [Parser.closeAngle, Parser.bind_ok (Parser.peek_eq s)]
  rcases Parser.dropAngle? s.next.kind with _ | _ | rest <;> rfl

/-- Taking one closing angle is one step, or is rejected. -/
theorem closeAngle_cases {s : ParserState} (hfinish : s.finish.kind = .endOfSource) :
    Parser.closeAngle s = .error (.rejected ⟨.expectedToken "'>'" s.next.kind, s.next.span⟩) s ∨
      ∃ s', Parser.closeAngle s = .ok () s' ∧ s.Step s' ∧ s'.errors = s.errors := by
  rw [closeAngle_eq]
  cases hangle : Parser.dropAngle? s.next.kind with
  | none => exact .inl rfl
  | some rest =>
    have hkind : s.next.kind ≠ .endOfSource := fun h => by rw [h] at hangle; cases hangle
    obtain ⟨t, ts, hahead⟩ := List.exists_cons_of_ne_nil (ParserState.ahead_of_next hkind hfinish)
    cases rest with
    | none =>
      refine .inr ⟨_, rfl, ?_, s.errors_advance⟩
      rw [ParserState.advance, hahead]
      exact .take hahead
    | some rest =>
      rw [ParserState.next_of_ahead hahead] at hangle ⊢
      refine .inr ⟨_, rfl, ?_, rfl⟩
      rw [hahead]
      exact .split hahead hangle

theorem closeAngle : Stays source Parser.closeAngle fun _ => [] := by
  intro base e s hfinish
  rcases closeAngle_cases hfinish with hrun | ⟨s', hrun, hstep, herrors⟩
  · rw [hrun]
    exact ⟨.refl s, fun _ hs hnoted _ _ => ⟨hnoted, hs.liesIn_next, nofun⟩⟩
  · rw [hrun]
    refine ⟨.single hstep, fun _ hs hnoted first hheld => ⟨?_, hheld.later hs (.single hstep)⟩⟩
    rw [ParserState.Noted, herrors]
    exact hnoted

/-- Brackets are taken one by one. -/
theorem leads_dims (s : ParserState) (n : Nat) (consumed ts : List Token) :
    ({ s with consumed, ahead := ts } : ParserState).Leads
        (Parser.dims.count s n consumed ts).2 ∧
      (Parser.dims.count s n consumed ts).2.errors = s.errors := by
  fun_induction Parser.dims.count s n consumed ts with
  | case1 n consumed t u ts h ih =>
    refine ⟨.trans ?_ ih.1, ih.2⟩
    exact .trans (.single (.take rfl)) (.single (.take rfl))
  | case2 n consumed t u ts h => exact ⟨.refl _, rfl⟩
  | case3 n consumed ts hshort => exact ⟨.refl _, rfl⟩

theorem dims : Stays source Parser.dims fun _ => [] := by
  intro base e s _
  obtain ⟨hleads, herrors⟩ := leads_dims s 0 s.consumed s.ahead
  refine ⟨hleads, fun _ hs hnoted first hheld => ⟨?_, hheld.later hs hleads⟩⟩
  rw [ParserState.Noted, herrors]
  exact hnoted

end Course

end JavaGraft
