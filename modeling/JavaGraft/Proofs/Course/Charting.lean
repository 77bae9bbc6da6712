import JavaGraft.Proofs.Course.Closing
import JavaGraft.Proofs.Tree.Charts

/-!
# What a run of a parser charts

While a parser reads from left to right, the places of what it has read increase: everything
charted so far starts no later than the last token consumed, so before the next token, and
whatever is read from there on starts no earlier than that (`JavaGraft.Charted.append`).

A parser *charts* the places of its result if they are increasing behind those charted where it
starts (`JavaGraft.Course.ChartsFrom`). Only runs that succeed matter. What is read without calls
in it is known from what it gathers, and passed over (`JavaGraft.Course.ChartsFrom.skip`).

The span of a node that is put together last starts where its first part does, since the spans that
are merged start in the order of the chart (`JavaGraft.Course.ChartsFrom.spanning` and
`JavaGraft.Course.ChartsFrom.merging`).
-/

namespace JavaGraft

/-! ### Charts at a place -/

/-- **What is charted at a place** since another one: places in increasing order, none of them
before the one or behind the last token consumed. -/
structure Charted (first : Nat) (s : ParserState) (xs : List Nat) : Prop where
  next : first ≤ s.next.span.offset
  increasing : xs.Pairwise (· < ·)
  behind : ∀ x ∈ xs, first ≤ x
  taken : ∀ x ∈ xs, ∃ t ∈ s.consumed, x ≤ t.span.offset

namespace Charted

variable {source : List Char} {first : Nat} {s s' : ParserState} {xs ys : List Nat}

theorem nil (s : ParserState) : Charted s.next.span.offset s [] :=
  ⟨le_rfl, .nil, nofun, nofun⟩

theorem sublist (h : Charted first s xs) (hys : ys.Sublist xs) : Charted first s ys :=
  ⟨h.next, h.increasing.sublist hys, fun x hx => h.behind x (hys.subset hx),
    fun x hx => h.taken x (hys.subset hx)⟩

/-- What is charted stays charted further on. -/
theorem later (h : Charted first s xs) (hs : s.Regular source) (hleads : s.Leads s') :
    Charted first s' xs :=
  ⟨h.next.trans (hleads.reached_le hs).2, h.increasing, h.behind, fun x hx =>
    have ⟨t, ht, hle⟩ := h.taken x hx
    ⟨t, hleads.onward.consumed.subset ht, hle⟩⟩

/-- Everything charted lies before the next token. -/
theorem lt_next (h : Charted first s xs) (hs : s.Regular source) :
    ∀ x ∈ xs, x < s.next.span.offset := by
  intro x hx
  obtain ⟨t, ht, hle⟩ := h.taken x hx
  have hlt := (hs.fits t (ParserState.mem_tokens_of_consumed ht)).offset_lt_stop
  exact hle.trans_lt (hlt.trans_le (hs.stop_le_next ht))

/-- **What is charted from the next token on** is charted with what was charted before. -/
theorem append (h : Charted first s xs) (hs : s.Regular source) (hleads : s.Leads s')
    (h' : Charted s.next.span.offset s' ys) : Charted first s' (xs ++ ys) := by
  have hxs := h.later hs hleads
  refine ⟨hxs.next, ?_, fun x hx => ?_, fun x hx => ?_⟩
  · exact List.pairwise_append.mpr ⟨h.increasing, h'.increasing, fun x hx y hy =>
      (h.lt_next hs x hx).trans_le (h'.behind y hy)⟩
  · exact (List.mem_append.mp hx).elim (h.behind x) fun hx => h.next.trans (h'.behind x hx)
  · exact (List.mem_append.mp hx).elim (hxs.taken x) (h'.taken x)

/-- Everything charted starts no later than the last token consumed. -/
theorem le_previous (h : Charted first s xs) (hs : s.Regular source) :
    ∀ x ∈ xs, x ≤ s.previous.span.offset := by
  intro x hx
  obtain ⟨t, ht, hle⟩ := h.taken x hx
  cases hconsumed : s.consumed with
  | nil => rw [hconsumed] at ht; cases ht
  | cons u us =>
    have hprevious : s.previous = u := by rw [ParserState.previous, hconsumed]; rfl
    rw [hprevious]
    rw [hconsumed] at ht
    rcases List.mem_cons.mp ht with rfl | ht
    · exact hle
    · -- tokens consumed before the last one end before it starts
      have hordered := hs.ordered
      rw [ParserState.tokens, hconsumed, List.reverse_cons, List.append_assoc, List.append_assoc,
        List.pairwise_append] at hordered
      have hstop := hordered.2.2 t (List.mem_reverse.mpr ht) u (by simp)
      exact hle.trans (t.span.offset_le_stop.trans hstop)

end Charted

namespace Course

variable {α β γ : Type} {source : List Char}

/-- **What a parser charts** if it starts in certain states and succeeds: the places `acc` become
those of its result. -/
def ChartsFrom (source : List Char) (start : ParserState → Prop) (acc : List Nat) (p : Parser α)
    (chart : α → List Nat) : Prop :=
  ∀ s a s' first, s.Regular source → s.Noted source → start s → Charted first s acc →
    p s = .ok a s' → s.Leads s' ∧ s'.Noted source ∧ Charted first s' (chart a)

/-- What a parser charts wherever it starts. -/
abbrev Charts (source : List Char) (acc : List Nat) (p : Parser α) (chart : α → List Nat) : Prop :=
  ChartsFrom source (fun _ => True) acc p chart

variable {start start' : ParserState → Prop} {acc acc' : List Nat} {chart chart' : α → List Nat}
  {chart₁ : β → List Nat}

namespace ChartsFrom

/-! ### Runs one after the other -/

theorem weaken {p : Parser α} (h : ChartsFrom source start acc p chart)
    (hstart : ∀ s, start' s → start s) : ChartsFrom source start' acc p chart :=
  fun s a s' first hs hnoted hs' => h s a s' first hs hnoted (hstart s hs')

theorem anywhere {p : Parser α} (h : Charts source acc p chart) :
    ChartsFrom source start acc p chart := h.weaken fun _ _ => trivial

/-- Places may be dropped before a run. -/
theorem drop {p : Parser α} (h : ChartsFrom source start acc' p chart) (hacc : acc'.Sublist acc) :
    ChartsFrom source start acc p chart :=
  fun s a s' first hs hnoted hs' hcharted => h s a s' first hs hnoted hs' (hcharted.sublist hacc)

/-- Places may be dropped behind a run. -/
theorem narrow {p : Parser α} (h : ChartsFrom source start acc p chart)
    (hchart : ∀ a, (chart' a).Sublist (chart a)) : ChartsFrom source start acc p chart' := by
  intro s a s' first hs hnoted hs' hcharted hrun
  obtain ⟨hleads, hnoted', hcharted'⟩ := h s a s' first hs hnoted hs' hcharted hrun
  exact ⟨hleads, hnoted', hcharted'.sublist (hchart a)⟩

theorem congr {p : Parser α} (h : ChartsFrom source start acc p chart)
    (hchart : ∀ a, chart' a = chart a) : ChartsFrom source start acc p chart' :=
  h.narrow fun a => hchart a ▸ .refl _

/-- One run behind another. -/
theorem seq {p : Parser β} {f : β → Parser α} (hp : ChartsFrom source start acc p chart₁)
    (hf : ∀ b, Charts source (chart₁ b) (f b) chart) :
    ChartsFrom source start acc (p >>= f) chart := by
  intro s a s' first hs hnoted hs' hcharted hrun
  simp only [Bind.bind, EStateM.bind] at hrun
  rcases hrun₁ : p s with ⟨b, s₁⟩ | ⟨err, s₁⟩
  · rw [hrun₁] at hrun
    obtain ⟨hleads, hnoted₁, hcharted₁⟩ := hp s b s₁ first hs hnoted hs' hcharted hrun₁
    obtain ⟨hleads', hend⟩ :=
      hf b s₁ a s' first (hs.leads hleads) hnoted₁ trivial hcharted₁ hrun
    exact ⟨hleads.trans hleads', hend⟩
  · rw [hrun₁] at hrun
    cases hrun

/-- **What a parser charts from the next token on** is charted with what was charted before. -/
theorem frame {p : Parser β} (hp : ChartsFrom source start [] p chart₁) :
    ChartsFrom source start acc p fun b => acc ++ chart₁ b := by
  intro s b s' first hs hnoted hs' hcharted hrun
  obtain ⟨hleads, hnoted', hcharted'⟩ := hp s b s' _ hs hnoted hs' (.nil s) hrun
  exact ⟨hleads, hnoted', hcharted.append hs hleads hcharted'⟩

theorem bind {p : Parser β} {f : β → Parser α} (hp : ChartsFrom source start [] p chart₁)
    (hf : ∀ b, Charts source (acc ++ chart₁ b) (f b) chart) :
    ChartsFrom source start acc (p >>= f) chart := hp.frame.seq hf

/-- A result that is known already. -/
theorem given {b : β} {f : β → Parser α} (hf : ChartsFrom source start acc (f b) chart) :
    ChartsFrom source start acc (Pure.pure b >>= f) chart := hf

theorem pure {a : α} (h : chart a = acc) : ChartsFrom source start acc (pure a) chart := by
  intro s b s' first _ hnoted _ hcharted hrun
  cases hrun
  exact ⟨.refl s, hnoted, h ▸ hcharted⟩

/-- What is charted is dropped again. -/
theorem pass {p : Parser β} {f : β → Parser α} (hp : ChartsFrom source start [] p chart₁)
    (hf : ∀ b, Charts source acc (f b) chart) : ChartsFrom source start acc (p >>= f) chart :=
  hp.bind fun b => (hf b).drop (List.sublist_append_left _ _)

theorem map {p : Parser β} {g : β → α} (hp : ChartsFrom source start [] p chart₁)
    (hg : ∀ b, chart (g b) = chart₁ b) : ChartsFrom source start [] (g <$> p) chart := by
  rw [map_eq_pure_bind]
  exact hp.bind fun b => .pure (by rw [hg, List.nil_append])

/-- A parser that never succeeds. -/
theorem fails {p : Parser α} (h : ∀ s, ∃ e s', p s = .error e s') :
    ChartsFrom source start acc p chart := by
  intro s a s' first _ _ _ _ hrun
  obtain ⟨e, s₁, herror⟩ := h s
  rw [herror] at hrun
  cases hrun

theorem exhausted : ChartsFrom source start acc (throw .exhausted : Parser α) chart :=
  fails fun s => ⟨_, s, rfl⟩

theorem reject {fault : ParseFault} {span : Span} :
    ChartsFrom source start acc (Parser.reject fault span) chart := fails fun s => ⟨_, s, rfl⟩

theorem rejectNext {fault : TokenKind → ParseFault} :
    ChartsFrom source start acc (Parser.rejectNext fault) chart := fails fun s => ⟨_, s, rfl⟩

theorem ite {P : Prop} [Decidable P] {p q : Parser α}
    (hp : P → ChartsFrom source start acc p chart) (hq : ¬P → ChartsFrom source start acc q chart) :
    ChartsFrom source start acc (if P then p else q) chart := by
  split
  · next h => exact hp h
  · next h => exact hq h

/-! ### What is known from what is gathered -/

/-- Nothing is charted of what a parser reads. -/
theorem beyond {p : Parser β} {ext : β → List Extent} (hp : StaysFrom source start p ext) :
    ChartsFrom source start acc p fun _ => acc := by
  intro s b s' first hs hnoted hs' hcharted hrun
  obtain ⟨hleads, hends⟩ := hp s.next.span .loose s hs.finish
  have hends := hends hs' hs hnoted _ (.nil_next hs)
  rw [hrun] at hleads hends
  exact ⟨hleads, hends.1, hcharted.later hs hleads⟩

/-- What a parser reads is passed over. -/
theorem skip {p : Parser β} {f : β → Parser α} {ext : β → List Extent}
    (hp : StaysFrom source start p ext) (hf : ∀ b, Charts source acc (f b) chart) :
    ChartsFrom source start acc (p >>= f) chart := (beyond hp).seq hf

/-- **The node that a parser reads is charted** with its place. -/
theorem node {p : Parser β} {x : β → Extent} (place : β → Nat)
    (hp : MovesFrom source start p fun b => [x b]) (hx : ∀ b, (x b).span.offset = place b) :
    ChartsFrom source start [] p fun b => [place b] := by
  intro s b s' first hs hnoted hs' hcharted hrun
  obtain ⟨hleads, hends⟩ := hp s.next.span .loose s hs.finish
  have hends := hends hs' hs hnoted _ (.nil_next hs)
  rw [hrun] at hleads hends
  obtain ⟨hnoted', hheld⟩ := hends
  have hmem := List.mem_singleton.mpr (Eq.refl (x b))
  obtain ⟨t, ts, hconsumed, hoffset, -⟩ := hheld.before _ hmem
  have hlater := hcharted.later hs hleads
  refine ⟨hleads, hnoted', hlater.next, List.pairwise_singleton _ _, ?_, ?_⟩
  · exact List.forall_mem_singleton.mpr (hcharted.next.trans (hx b ▸ hheld.behind _ hmem))
  · exact List.forall_mem_singleton.mpr
      ⟨t, by rw [hconsumed]; exact List.mem_cons_self, hx b ▸ hoffset⟩

/-- The place of the next token is charted once a parser has moved on. -/
theorem lead {t : Token} {p : Parser β} {ext : β → List Extent} (hp : Moves source p ext) :
    ChartsFrom source (fun s => s.next = t ∧ start s) [] p fun _ => [t.span.offset] := by
  rintro s b s' first hs hnoted ⟨rfl, -⟩ hcharted hrun
  obtain ⟨hleads, hends⟩ := hp s.next.span .loose s hs.finish
  have hends := hends trivial hs hnoted _ (.nil_next hs)
  rw [hrun] at hleads hends
  obtain ⟨hnoted', hheld⟩ := hends
  obtain ⟨t, ts, hconsumed, hoffset, -⟩ := hheld.past
  have hlater := hcharted.later hs hleads
  refine ⟨hleads, hnoted', hlater.next, List.pairwise_singleton _ _, ?_, ?_⟩
  · exact List.forall_mem_singleton.mpr hcharted.next
  · exact List.forall_mem_singleton.mpr
      ⟨t, by rw [hconsumed]; exact List.mem_cons_self, hoffset⟩

theorem expect {kind : TokenKind} (hkind : kind.hasText) :
    ChartsFrom source start [] (Parser.expect kind) fun t => [t.span.offset] :=
  node _ (Course.expect hkind).anywhere fun _ => rfl

theorem advance (h : ∀ s, start s → s.next.kind.hasText) :
    ChartsFrom source start [] Parser.advance fun t => [t.span.offset] :=
  node _ (.advance h) fun _ => rfl

theorem known {t : Token} (h : ∀ s, start s → s.next = t) (ht : t.kind.hasText) :
    ChartsFrom source start [] (Functor.discard Parser.advance) fun _ => [t.span.offset] :=
  node (fun _ => t.span.offset) (.known h ht) fun _ => rfl

/-- Whatever comes next is passed over. -/
theorem advancing {f : Token → Parser α} (hf : ∀ t, Charts source acc (f t) chart) :
    ChartsFrom source start acc (Parser.advance >>= f) chart := by
  intro s a s' first hs hnoted _ hcharted hrun
  rw [Parser.bind_ok (Parser.advance_eq s)] at hrun
  have hleads : s.Leads s.advance := .advance s
  obtain ⟨hleads', hend⟩ :=
    hf _ _ a s' first (hs.leads hleads) hnoted.advance trivial (hcharted.later hs hleads) hrun
  exact ⟨hleads.trans hleads', hend⟩

/-! ### Looking at tokens -/

theorem get_bind {f : ParserState → Parser α}
    (h : ∀ s₀, ChartsFrom source (fun s => s = s₀ ∧ start s) acc (f s₀) chart) :
    ChartsFrom source start acc (MonadState.get >>= f) chart :=
  fun s a s' first hs hnoted hs' => h s s a s' first hs hnoted ⟨rfl, hs'⟩

/-- Where it does not matter what the state is. -/
theorem getting {f : ParserState → Parser α} (h : ∀ s, ChartsFrom source start acc (f s) chart) :
    ChartsFrom source start acc (MonadState.get >>= f) chart :=
  get_bind fun s => (h s).weaken fun _ hs => hs.2

/-- The next token lies in the source, and everything charted lies before it. -/
theorem peek_bind {f : Token → Parser α} (h : ∀ t : Token, t.span.LiesIn source →
    (∀ x ∈ acc, x < t.span.offset) →
    ChartsFrom source (fun s => s.next = t ∧ start s) acc (f t) chart) :
    ChartsFrom source start acc (Parser.peek >>= f) chart :=
  fun s a s' first hs hnoted hs' hcharted =>
    h s.next hs.liesIn_next (hcharted.lt_next hs) s a s' first hs hnoted ⟨rfl, hs'⟩ hcharted

/-- Where it does not matter what comes next. -/
theorem peeking {f : Token → Parser α} (h : ∀ t, ChartsFrom source start acc (f t) chart) :
    ChartsFrom source start acc (Parser.peek >>= f) chart :=
  peek_bind fun t _ _ => (h t).weaken fun _ hs => hs.2

theorem kindAt_bind {n : Nat} {f : TokenKind → Parser α}
    (h : ∀ k, ChartsFrom source start acc (f k) chart) :
    ChartsFrom source start acc (Parser.kindAt n >>= f) chart :=
  fun s a s' first hs hnoted hs' => h _ s a s' first hs hnoted hs'

/-- A choice by a test of the state. -/
theorem ifTest {test : ParserState → Bool} {look : Parser Bool} {p q : Parser α}
    (hlook : ∀ s, look s = .ok (test s) s)
    (hp : ChartsFrom source (fun s => test s = true ∧ start s) acc p chart)
    (hq : ChartsFrom source (fun s => test s = false ∧ start s) acc q chart) :
    ChartsFrom source start acc (look >>= fun b => if b then p else q) chart := by
  intro s a s' first hs hnoted hs' hcharted hrun
  rw [Parser.bind_ok (hlook s)] at hrun
  by_cases h : test s = true
  · rw [if_pos h] at hrun
    exact hp s a s' first hs hnoted ⟨h, hs'⟩ hcharted hrun
  · rw [if_neg h] at hrun
    exact hq s a s' first hs hnoted ⟨Bool.eq_false_iff.mpr h, hs'⟩ hcharted hrun

theorem ifNth {n : Nat} {kind : TokenKind} {p q : Parser α}
    (hp : ChartsFrom source start acc p chart) (hq : ChartsFrom source start acc q chart) :
    ChartsFrom source start acc (Parser.checkNth n kind >>= fun b => if b then p else q) chart :=
  ifTest (Parser.checkNth_eq n kind) (hp.weaken fun _ hs => hs.2) (hq.weaken fun _ hs => hs.2)

theorem ifNext {kind : TokenKind} {p q : Parser α} (hp : ChartsFrom source start acc p chart)
    (hq : ChartsFrom source start acc q chart) :
    ChartsFrom source start acc (Parser.check kind >>= fun b => if b then p else q) chart :=
  ifNth hp hq

theorem unlessNext {kind : TokenKind} {p q : Parser α} (hp : ChartsFrom source start acc p chart)
    (hq : ChartsFrom source start acc q chart) :
    ChartsFrom source start acc (Parser.check kind >>= fun b => if !b then p else q) chart := by
  rw [Parser.unless_eq]
  exact ifNext hq hp

/-- A choice by the next token, after which both ways go on alike. -/
theorem joinNext {kind : TokenKind} {p q : Parser β} {k : β → Parser α} (chart₁ : β → List Nat)
    (hp : Charts source [] p chart₁) (hq : Charts source [] q chart₁)
    (hk : ∀ b, Charts source (acc ++ chart₁ b) (k b) chart) :
    ChartsFrom source start acc
      (Parser.check kind >>= fun b => if b then p >>= k else q >>= k) chart :=
  ifNext (hp.anywhere.bind hk) (hq.anywhere.bind hk)

theorem ifEat {kind : TokenKind} {p q : Parser α} (hkind : kind.hasText)
    (hp : Charts source acc p chart) (hq : Charts source acc q chart) :
    ChartsFrom source start acc (Parser.eat kind >>= fun b => if b then p else q) chart :=
  skip (eat hkind).anywhere fun _ => .ite (fun _ => hp) fun _ => hq

/-- A choice by whether a token is taken, after which both ways go on alike. -/
theorem joinEat {kind : TokenKind} (hkind : kind.hasText) {p q : Parser β} {k : β → Parser α}
    (chart₁ : β → List Nat) (hp : Charts source [] p chart₁) (hq : Charts source [] q chart₁)
    (hk : ∀ b, Charts source (acc ++ chart₁ b) (k b) chart) :
    ChartsFrom source start acc
      (Parser.eat kind >>= fun b => if b then p >>= k else q >>= k) chart :=
  ifEat hkind (hp.bind hk) (hq.bind hk)

/-! ### Spans and numbers -/

/-- The span from something charted to the last token consumed starts where that does. -/
theorem spanning {base : Span} {f : Span → Parser α} (hbase : base.offset ∈ acc)
    (hf : ∀ span : Span, span.offset = base.offset → Charts source acc (f span) chart) :
    ChartsFrom source start acc (Parser.spanFrom base >>= f) chart := by
  intro s a s' first hs hnoted _ hcharted hrun
  rw [Parser.bind_ok (Parser.spanFrom_eq base s)] at hrun
  have hoffset : (base.merge s.previous.span).offset = base.offset := by
    rw [Span.offset_merge]
    exact min_eq_left (hcharted.le_previous hs _ hbase)
  exact hf _ hoffset s a s' first hs hnoted trivial hcharted hrun

/-- Where it does not matter what the span is. -/
theorem closing {base : Span} {f : Span → Parser α}
    (hf : ∀ span, Charts source acc (f span) chart) :
    ChartsFrom source start acc (Parser.spanFrom base >>= f) chart := by
  intro s a s' first hs hnoted _ hcharted hrun
  rw [Parser.bind_ok (Parser.spanFrom_eq base s)] at hrun
  exact hf _ s a s' first hs hnoted trivial hcharted hrun

/-- Two spans charted one behind the other start, together, where the first one does. -/
theorem merging {a b : Span} {p : Parser α} (h : [a.offset, b.offset].Sublist acc)
    (hp : (a.merge b).offset = a.offset → ChartsFrom source start acc p chart) :
    ChartsFrom source start acc p chart := by
  intro s x s' first hs hnoted hs' hcharted hrun
  have hlt : a.offset < b.offset := by simpa using hcharted.increasing.sublist h
  have hoffset : (a.merge b).offset = a.offset := by
    rw [Span.offset_merge]
    exact min_eq_left hlt.le
  exact hp hoffset s x s' first hs hnoted hs' hcharted hrun

theorem freshCall {f : Nat → Parser α} (hf : ∀ n, Charts source acc (f n) chart) :
    ChartsFrom source start acc (Parser.freshCall >>= f) chart := by
  intro s a s' first hs hnoted _ hcharted hrun
  rw [Parser.bind_ok (Parser.freshCall_eq s)] at hrun
  have hleads : s.Leads { s with nextCall := s.nextCall + 1 } := .single (.number s)
  obtain ⟨hleads', hend⟩ :=
    hf _ _ a s' first (hs.leads hleads) hnoted trivial (hcharted.later hs hleads) hrun
  exact ⟨hleads.trans hleads', hend⟩

/-- Recording an error that lies in the source. -/
theorem recording {err : ParseError} {f : Unit → Parser α} (herr : err.LiesIn source)
    (hf : Charts source acc (f ()) chart) :
    ChartsFrom source start acc (Parser.record err >>= f) chart := by
  intro s a s' first hs hnoted _ hcharted hrun
  have hleads : s.Leads { s with errors := s.errors ++ [err] } := .single (.note s err)
  have hnoted' : ({ s with errors := s.errors ++ [err] } : ParserState).Noted source := by
    intro err' herr'
    rcases List.mem_append.mp herr' with herr' | herr'
    · exact hnoted err' herr'
    · rwa [List.mem_singleton.mp herr']
  obtain ⟨hleads', hend⟩ :=
    hf _ a s' first (hs.leads hleads) hnoted' trivial (hcharted.later hs hleads) hrun
  exact ⟨hleads.trans hleads', hend⟩

/-- **Recovery** charts nothing of what was rejected. -/
theorem recovering {p : Parser (Option β)} {x : β → Extent} {chart₁ : β → List Nat}
    (hgathers : StaysFrom source start p fun b => b.toList.map x)
    (hp : ChartsFrom source start [] p fun b => b.toList.flatMap chart₁) :
    ChartsFrom source start [] (Parser.recovering p) fun b => b.toList.flatMap chart₁ := by
  intro s b s' first hs hnoted hs' hcharted hrun
  rcases hrun₁ : p s with ⟨b₁, s₁⟩ | ⟨err | _, s₁⟩
  · rw [Parser.recovering_ok hrun₁] at hrun
    cases hrun
    exact hp s b s' first hs hnoted hs' hcharted hrun₁
  · obtain ⟨hleads, hends⟩ := hgathers.recovering s.next.span .loose s hs.finish
    have hends := hends hs' hs hnoted _ (.nil_next hs)
    rw [hrun] at hleads hends
    rw [Parser.recovering_rejected hrun₁] at hrun
    cases hrun
    exact ⟨hleads, hends.1, hcharted.later hs hleads⟩
  · rw [Parser.recovering_exhausted hrun₁] at hrun
    cases hrun

end ChartsFrom

/-! ### Repetition -/

namespace Charts

/-- **A loop charts what its rounds chart.** -/
theorem iterate {step : β → Parser (β ⊕ γ)} (held : β → List Nat) {chart : γ → List Nat}
    (hstep : ∀ b, Charts source (held b) (step b) (Sum.elim held chart)) (rounds : Nat) (b : β) :
    Charts source (held b) (Parser.iterate step rounds b) chart := by
  induction rounds generalizing b with
  | zero => exact .exhausted
  | succ rounds ih =>
    rw [Parser.iterate]
    refine (hstep b).seq fun r => ?_
    cases r with
    | inl b => exact ih b
    | inr c => exact .pure rfl

variable {rounds : Nat} {separator close : TokenKind} {x : α → List Nat}

theorem collect {item : Parser (Option α)}
    (hitem : Charts source [] item fun a => a.toList.flatMap x) :
    Charts source [] (Parser.collect rounds item) fun as => as.flatMap x := by
  refine iterate (fun found => found.reverse.flatMap x) (fun found => ?_) rounds []
  exact hitem.bind fun a => by cases a <;> exact .pure (by simp)

theorem collectWhile {more : Parser Bool} {item : Parser (Option α)} (test : ParserState → Bool)
    (hmore : ∀ s, more s = .ok (test s) s)
    (hitem : Charts source [] item fun a => a.toList.flatMap x) :
    Charts source [] (Parser.collectWhile rounds more item) fun as => as.flatMap x := by
  refine iterate (fun found => found.reverse.flatMap x) (fun found => ?_) rounds []
  refine .ifTest hmore ?_ (.pure rfl)
  exact hitem.anywhere.bind fun a => by cases a <;> exact .pure (by simp)

theorem sepBy {item : Parser α} (hseparator : separator.hasText)
    (hitem : Charts source [] item x) :
    Charts source [] (Parser.sepBy rounds separator item) fun as => as.flatMap x := by
  refine iterate (fun found => found.reverse.flatMap x) (fun found => ?_) rounds []
  exact hitem.bind fun a => .ifEat hseparator (.pure (by simp)) (.pure (by simp))

theorem sepUntil {item : Parser α} (hseparator : separator.hasText)
    (hitem : Charts source [] item x) :
    Charts source [] (Parser.sepUntil rounds separator close item) fun as => as.flatMap x := by
  refine iterate (fun found => found.reverse.flatMap x) (fun found => ?_) rounds []
  refine .ifTest (before_eq close) (hitem.anywhere.bind fun a => ?_) (.pure rfl)
  exact .ifEat hseparator (.pure (by simp)) (.pure (by simp))

end Charts

end Course

end JavaGraft
