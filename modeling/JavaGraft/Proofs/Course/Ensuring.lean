import JavaGraft.Proofs.Course.Charting

/-!
# What a run of a parser ensures

A parser *ensures* something of its result and of the state it ends in, if that holds of every run
that succeeds, starting from a regular state of a certain kind (`JavaGraft.Course.Ensures`). Where
what is read only has to be known in part, this is easier to handle than what is gathered or
charted; what is gathered tells where the result stands (`JavaGraft.Course.Ensures.gathered`).
-/

namespace JavaGraft.Course

variable {α β γ : Type} {source : List Char}

/-- **What a parser ensures** if it starts in certain states and succeeds. -/
def Ensures (source : List Char) (start : ParserState → Prop) (p : Parser α)
    (finish : α → ParserState → Prop) : Prop :=
  ∀ s a s', s.Regular source → s.Noted source → start s → p s = .ok a s' →
    s.Leads s' ∧ s'.Noted source ∧ finish a s'

/-- What a parser ensures of its result, wherever it starts. -/
abbrev Yields (source : List Char) (p : Parser α) (good : α → Prop) : Prop :=
  Ensures source (fun _ => True) p fun a _ => good a

variable {start start' : ParserState → Prop} {finish finish' : α → ParserState → Prop}
  {middle : β → ParserState → Prop}

namespace Ensures

/-! ### Runs one after the other -/

theorem weaken {p : Parser α} (h : Ensures source start p finish)
    (hstart : ∀ s, start' s → start s) : Ensures source start' p finish :=
  fun s a s' hs hnoted hs' => h s a s' hs hnoted (hstart s hs')

theorem mono {p : Parser α} (h : Ensures source start p finish)
    (hfinish : ∀ a s, finish a s → finish' a s) : Ensures source start p finish' := by
  intro s a s' hs hnoted hs' hrun
  obtain ⟨hleads, hnoted', hend⟩ := h s a s' hs hnoted hs' hrun
  exact ⟨hleads, hnoted', hfinish a s' hend⟩

theorem bind {p : Parser β} {f : β → Parser α} (hp : Ensures source start p middle)
    (hf : ∀ b, Ensures source (middle b) (f b) finish) : Ensures source start (p >>= f) finish := by
  intro s a s' hs hnoted hs' hrun
  rcases hrun₁ : p s with ⟨b, s₁⟩ | ⟨err, s₁⟩
  · rw [Parser.bind_ok hrun₁] at hrun
    obtain ⟨hleads, hnoted₁, hmiddle⟩ := hp s b s₁ hs hnoted hs' hrun₁
    obtain ⟨hleads', hend⟩ := hf b s₁ a s' (hs.leads hleads) hnoted₁ hmiddle hrun
    exact ⟨hleads.trans hleads', hend⟩
  · rw [Parser.bind_error hrun₁] at hrun
    cases hrun

theorem pure {a : α} (h : ∀ s, start s → finish a s) : Ensures source start (pure a) finish := by
  intro s b s' _ hnoted hs' hrun
  cases hrun
  exact ⟨.refl s, hnoted, h s hs'⟩

/-- A result that is known already. -/
theorem given {b : β} {f : β → Parser α} (hf : Ensures source start (f b) finish) :
    Ensures source start (Pure.pure b >>= f) finish := hf

theorem map {p : Parser β} {g : β → α} (h : Ensures source start p fun b => finish (g b)) :
    Ensures source start (g <$> p) finish := by
  rw [map_eq_pure_bind]
  exact h.bind fun b => .pure fun _ hs => hs

/-- A parser that only looks. -/
theorem looks {p : Parser α} (h : ∀ s, ∃ a, p s = .ok a s) :
    Ensures source start p fun _ => start := by
  intro s a s' _ hnoted hs' hrun
  obtain ⟨b, hb⟩ := h s
  rw [hb] at hrun
  cases hrun
  exact ⟨.refl s, hnoted, hs'⟩

/-- A parser that never succeeds. -/
theorem exhausted : Ensures source start (throw .exhausted : Parser α) finish :=
  fun _ _ _ _ _ _ hrun => nomatch hrun

theorem ite {P : Prop} [Decidable P] {p q : Parser α}
    (hp : P → Ensures source start p finish) (hq : ¬P → Ensures source start q finish) :
    Ensures source start (if P then p else q) finish := by
  split
  · next h => exact hp h
  · next h => exact hq h

/-! ### What is known otherwise -/

/-- A parser of which nothing but the way it takes is of interest. -/
theorem passed {p : Parser β} {chart : β → List Nat} (hp : ChartsFrom source start [] p chart) :
    Ensures source start p fun _ _ => True := by
  intro s b s' hs hnoted hs' hrun
  obtain ⟨hleads, hnoted', -⟩ := hp s b s' _ hs hnoted hs' (.nil s) hrun
  exact ⟨hleads, hnoted', trivial⟩

/-- What a parser reads is passed over; what is known stays known. -/
theorem skip {p : Parser β} {f : β → Parser α} {ext : β → List Extent} {known : Prop}
    (hp : Stays source p ext) (hf : ∀ b, Ensures source (fun _ => known) (f b) finish) :
    Ensures source (fun _ => known) (p >>= f) finish :=
  fun s a s' hs hnoted hknown => ((passed (.beyond hp)).bind fun b =>
    (hf b).weaken fun _ _ => hknown) s a s' hs hnoted trivial

/-- The same for what only looks. -/
theorem looking {p : Parser β} {f : β → Parser α} (hp : ∀ s, ∃ b, p s = .ok b s)
    (hf : ∀ b, Ensures source start (f b) finish) : Ensures source start (p >>= f) finish :=
  (looks hp).bind hf

/-- **What is gathered from the next token on** is sound, starts there and ends before the token
that follows. -/
theorem gathered {p : Parser β} {ext : β → List Extent} (hp : StaysFrom source start p ext)
    (bound : Nat) : Ensures source (fun s => start s ∧ bound ≤ s.next.span.offset) p fun b s' =>
      ∀ x ∈ ext b, x.Sound source ∧ bound ≤ x.span.offset ∧ x.span.stop ≤ s'.next.span.offset := by
  rintro s b s' hs hnoted ⟨hs', hbound⟩ hrun
  obtain ⟨hleads, hends⟩ := hp s.next.span .loose s hs.finish
  have hends := hends hs' hs hnoted _ (.nil_next hs)
  rw [hrun] at hleads hends
  obtain ⟨hnoted', hheld⟩ := hends
  exact ⟨hleads, hnoted', fun x hx => ⟨hheld.sound x hx, hbound.trans (hheld.behind x hx),
    (hheld.before x hx).stop_le_next (hs.leads hleads)⟩⟩

/-! ### Tokens -/

/-- **Taking an expected token**: what ended before it ends before its end, and it is the last one
consumed. -/
theorem expect {kind : TokenKind} (hkind : kind.hasText) (bounds : List Nat) :
    Ensures source (fun s => ∀ n ∈ bounds, n ≤ s.next.span.offset) (Parser.expect kind) fun t s' =>
      s'.previous = t ∧ ∀ n ∈ bounds, n < t.span.stop := by
  intro s t s' hs hnoted hbounds hrun
  by_cases hnext : s.next.kind = kind
  · rw [Parser.expect_ok hnext] at hrun
    cases hrun
    refine ⟨.advance s, hnoted.advance, ?_⟩
    rcases hs.next_cases with ⟨-, hfinish⟩ | ⟨ts, hahead, hfits⟩
    · -- the end of the source is no token to be expected
      rw [hfinish, hs.finish] at hnext
      exact absurd hnext.symm (TokenKind.ne_endOfSource hkind)
    · refine ⟨by rw [ParserState.advance, hahead]; rfl, fun n hn => ?_⟩
      exact (hbounds n hn).trans_lt hfits.offset_lt_stop
  · obtain ⟨e, he⟩ := Parser.expect_no hnext
    rw [he] at hrun
    cases hrun

/-- Where the token itself is of no interest. -/
theorem closing {kind : TokenKind} (hkind : kind.hasText) (bounds : List Nat) :
    Ensures source (fun s => ∀ n ∈ bounds, n ≤ s.next.span.offset)
      (Functor.discard (Parser.expect kind)) fun _ s' => ∀ n ∈ bounds, n < s'.previous.span.stop :=
  .map ((expect hkind bounds).mono fun _ _ hs => hs.1 ▸ hs.2)

/-- The span up to the last token consumed. -/
theorem spanFrom (base : Span) : Ensures source start (Parser.spanFrom base) fun span s =>
    start s ∧ span = base.merge s.previous.span := by
  intro s span s' _ hnoted hs' hrun
  cases hrun
  exact ⟨.refl s, hnoted, hs', rfl⟩

/-! ### Recovery and repetition -/

/-- **Recovery** comes to a result that was found, or to none. -/
theorem recovering {p : Parser (Option β)} {x : β → Extent} {good : β → Prop}
    (hgathers : StaysFrom source start p fun b => b.toList.map x)
    (hp : Ensures source start p fun b _ => ∀ a ∈ b, good a) :
    Ensures source start (Parser.recovering p) fun b _ => ∀ a ∈ b, good a := by
  intro s b s' hs hnoted hs' hrun
  obtain ⟨hleads, hnoted', -⟩ := passed (.beyond hgathers.recovering) s b s' hs hnoted hs' hrun
  refine ⟨hleads, hnoted', ?_⟩
  rcases hrun₁ : p s with ⟨b₁, s₁⟩ | ⟨err | _, s₁⟩
  · rw [Parser.recovering_ok hrun₁] at hrun
    cases hrun
    exact (hp s b s' hs hnoted hs' hrun₁).2.2
  · rw [Parser.recovering_rejected hrun₁] at hrun
    cases hrun
    exact fun _ ha => nomatch ha
  · rw [Parser.recovering_exhausted hrun₁] at hrun
    cases hrun

/-- **A loop** whose rounds keep an invariant. -/
theorem iterate {step : β → Parser (β ⊕ γ)} {invariant : β → ParserState → Prop}
    {finish : γ → ParserState → Prop}
    (hstep : ∀ b, Ensures source (invariant b) (step b) (Sum.elim invariant finish))
    (rounds : Nat) (b : β) :
    Ensures source (invariant b) (Parser.iterate step rounds b) finish := by
  induction rounds generalizing b with
  | zero => exact .exhausted
  | succ rounds ih =>
    rw [Parser.iterate]
    refine (hstep b).bind fun r => ?_
    cases r with
    | inl b => exact ih b
    | inr c => exact .pure fun _ hs => hs

/-- **Items that are collected** follow each other in the source, and each of them is what an item
is ensured to be. -/
theorem collectWhile {more : Parser Bool} {item : Parser (Option β)} {rounds : Nat}
    {x : β → Extent} {good : β → Prop} (hmore : ∀ s, ∃ b, more s = .ok b s)
    (hgathers : Stays source item fun b => b.toList.map x)
    (hitem : Yields source item fun b => ∀ a ∈ b, good a) :
    Ensures source (fun _ => True) (Parser.collectWhile rounds more item) fun as s =>
      as.Pairwise (fun a b => (x a).span.stop ≤ (x b).span.offset) ∧
        ∀ a ∈ as, (x a).Sound source ∧ good a ∧ (x a).span.stop ≤ s.next.span.offset := by
  -- The items found so far are in reverse, and all of them end before the next token.
  let invariant (found : List β) (s : ParserState) : Prop :=
    found.Pairwise (fun a b => (x b).span.stop ≤ (x a).span.offset) ∧
      ∀ a ∈ found, (x a).Sound source ∧ good a ∧ (x a).span.stop ≤ s.next.span.offset
  have hlater (found : List β) (s s' : ParserState) (hs : s.Regular source) (hleads : s.Leads s')
      (h : invariant found s) : invariant found s' :=
    ⟨h.1, fun a ha => ⟨(h.2 a ha).1, (h.2 a ha).2.1,
      (h.2 a ha).2.2.trans (hleads.reached_le hs).2⟩⟩
  have hstart (s : ParserState) : invariant [] s := ⟨.nil, nofun⟩
  refine .weaken (.iterate (fun found => (?_ : Ensures source (invariant found) _ _)) rounds [])
    fun s _ => hstart s
  refine .looking hmore fun b => .ite (fun _ => ?_) fun _ => .pure fun s hs => ?_
  · -- one more round: what it finds starts at the next token or later
    have hround : Ensures source (invariant found) item fun b s' => invariant found s' ∧
        ∀ a ∈ b, (x a).Sound source ∧ good a ∧ (x a).span.stop ≤ s'.next.span.offset ∧
          ∀ c ∈ found, (x c).span.stop ≤ (x a).span.offset := by
      intro s b s' hs hnoted hfound hrun
      obtain ⟨hleads, hnoted', hgood⟩ := hitem s b s' hs hnoted trivial hrun
      obtain ⟨-, -, hplaces⟩ := gathered hgathers _ s b s' hs hnoted ⟨trivial, le_rfl⟩ hrun
      refine ⟨hleads, hnoted', hlater found s s' hs hleads hfound, fun a ha => ?_⟩
      obtain ⟨hsound, hoffset, hstop⟩ := hplaces (x a)
        (List.mem_map_of_mem (Option.mem_toList.mpr ha))
      exact ⟨hsound, hgood a ha, hstop, fun c hc => (hfound.2 c hc).2.2.trans hoffset⟩
    refine hround.bind fun b => ?_
    cases b with
    | none => exact .pure fun s hs => hs.1
    | some a =>
      refine .pure fun s hs => ?_
      obtain ⟨hsound, hgood, hstop, hbehind⟩ := hs.2 a rfl
      exact ⟨List.pairwise_cons.mpr ⟨hbehind, hs.1.1⟩,
        List.forall_mem_cons.mpr ⟨⟨hsound, hgood, hstop⟩, hs.1.2⟩⟩
  · exact ⟨List.pairwise_reverse.mpr hs.1, fun a ha => hs.2 a (List.mem_reverse.mp ha)⟩

end Ensures

end JavaGraft.Course
