import JavaGraft.Proofs.Build.Order
import JavaGraft.Proofs.Course.Declarations
import JavaGraft.Proofs.Recovery.Declarations

/-!
# Whole source files

A source file is always read to its end: its package, its imports and its types are read with
recovery, so that nothing in it is rejected, and the loop over the types goes on as long as there
are tokens (`JavaGraft.parseUnit_reads`). What comes of it is gathered like everything else, only
that its span need not start at the first thing read.

So all positions in a source file, in its tokens, in its errors and in the nodes of its tree, lie
in the source, and every node covers its children (`JavaGraft.parseUnit_liesIn`). And all calls of
the files that are built together have numbers of their own (`JavaGraft.callIds_distinct`).
-/

namespace JavaGraft

namespace Parser

variable {α β γ : Type} {s s' : ParserState}

/-! ### Parsers that accept everything -/

/-- A parser that never rejects the source. -/
def Accepts (p : Parser α) : Prop := ∀ s e s', p s ≠ .error (.rejected e) s'

namespace Accepts

theorem pure (a : α) : Accepts (pure a) := fun _ _ _ => nofun

theorem bind {p : Parser β} {f : β → Parser α} (hp : Accepts p) (hf : ∀ b, Accepts (f b)) :
    Accepts (p >>= f) := by
  intro s e s' h
  rcases hrun : p s with ⟨b, s₁⟩ | ⟨e₁, s₁⟩
  · rw [bind_ok hrun] at h
    exact hf b s₁ e s' h
  · rw [bind_error hrun] at h
    cases h
    exact hp s e s' hrun

theorem ite {P : Prop} [Decidable P] {p q : Parser α} (hp : Accepts p) (hq : Accepts q) :
    Accepts (if P then p else q) := by
  split
  · exact hp
  · exact hq

/-- A parser that only looks. -/
theorem looks {p : Parser α} (h : ∀ s, ∃ a, p s = .ok a s) : Accepts p := by
  intro s e s' hrun
  obtain ⟨a, ha⟩ := h s
  rw [ha] at hrun
  cases hrun

/-- What is rejected is recovered from. -/
theorem recovering (p : Parser (Option α)) : Accepts (recovering p) := by
  intro s e s' h
  rcases hrun : p s with ⟨a, s₁⟩ | ⟨e₁ | _, s₁⟩
  · rw [recovering_ok hrun] at h
    cases h
  · rw [recovering_rejected hrun] at h
    cases h
  · rw [recovering_exhausted hrun] at h
    cases h

theorem iterate {step : β → Parser (β ⊕ γ)} (hstep : ∀ b, Accepts (step b)) (rounds : Nat)
    (b : β) : Accepts (iterate step rounds b) := by
  induction rounds generalizing b with
  | zero =>
    intro s e s' h
    cases h
  | succ rounds ih =>
    rw [Parser.iterate]
    refine (hstep b).bind fun r => ?_
    cases r with
    | inl b => exact ih b
    | inr c => exact .pure c

theorem collectWhile {more : Parser Bool} {item : Parser (Option α)} (rounds : Nat)
    (hmore : ∀ s, ∃ b, more s = .ok b s) (hitem : Accepts item) :
    Accepts (collectWhile rounds more item) :=
  iterate (fun _ => (looks hmore).bind fun _ =>
    .ite (hitem.bind fun a => by cases a <;> exact .pure _) (.pure _)) rounds []

end Accepts

/-! ### The last round -/

/-- A loop ends with its last round. -/
theorem iterate_last {step : β → Parser (β ⊕ γ)} {rounds : Nat} {b : β} {c : γ}
    (h : iterate step rounds b s = .ok c s') : ∃ b₁ s₁, step b₁ s₁ = .ok (.inr c) s' := by
  induction rounds generalizing b s with
  | zero => cases h
  | succ rounds ih =>
    rw [iterate] at h
    obtain ⟨r, s₁, hstep, hrest⟩ := exists_of_bind_ok h
    cases r with
    | inl b₁ => exact ih hrest
    | inr c₁ =>
      cases hrest
      exact ⟨b, s, hstep⟩

/-- A loop that goes on as long as the next token allows it ends where it does not. -/
theorem collectWhile_last {more : Parser Bool} {item : Parser (Option α)} {rounds : Nat}
    {as : List α} (test : ParserState → Bool) (hmore : ∀ s, more s = .ok (test s) s)
    (h : collectWhile rounds more item s = .ok as s') : test s' = false := by
  obtain ⟨found, s₁, hlast⟩ := iterate_last h
  rw [bind_ok (hmore s₁)] at hlast
  by_cases htest : test s₁ = true
  · rw [if_pos htest] at hlast
    obtain ⟨a, s₂, -, hnext⟩ := exists_of_bind_ok hlast
    cases a <;> cases hnext
  · rw [if_neg htest] at hlast
    cases hlast
    exact Bool.eq_false_iff.mpr htest

end Parser

/-! ### Reading to the end -/

namespace Grammar

variable {s s' : ParserState}

theorem accepts_unitParts (g : Rules) : Parser.Accepts (unitParts g) := by
  have hcheck (kind : TokenKind) (s : ParserState) : ∃ b, Parser.check kind s = .ok b s := ⟨_, rfl⟩
  unfold unitParts
  refine (Parser.Accepts.looks (hcheck _)).bind fun b => ?_
  refine .ite (.bind (.recovering _) fun name => ?_) (.bind (.pure _) fun name => ?_)
  all_goals
    refine .bind (.collectWhile _ (hcheck _) (.recovering _)) fun imports => ?_
    exact .bind (.collectWhile _ (fun s => ⟨_, rfl⟩) (.recovering _)) fun types => .pure _

/-- The loop over the types of a source file is its last part, and ends where the source does. -/
theorem unitParts_last {g : Rules} {x : Option Path × List ImportDecl × List TypeDecl}
    (h : unitParts g s = .ok x s') : s'.next.kind = .endOfSource := by
  unfold unitParts at h
  obtain ⟨b, s₁, -, h⟩ := Parser.exists_of_bind_ok h
  have hrest {name : Option Path} {s₂ : ParserState}
      (h : (Parser.collectWhile g.rounds (Parser.check Keyword.kwImport)
        (Parser.recovering (some <$> importDecl g)) >>= fun imports =>
          Parser.collectWhile g.rounds (return !(← Parser.atEnd))
            (Parser.recovering (topLevel g)) >>= fun types =>
          pure (name, imports, types)) s₂ = .ok x s') : s'.next.kind = .endOfSource := by
    obtain ⟨imports, s₃, -, h⟩ := Parser.exists_of_bind_ok h
    obtain ⟨types, s₄, htypes, h⟩ := Parser.exists_of_bind_ok h
    cases h
    have hlast := Parser.collectWhile_last (fun s => !decide (s.next.kind = .endOfSource))
      (fun _ => rfl) htypes
    simpa using hlast
  cases b with
  | true =>
    obtain ⟨name, s₂, -, h⟩ := Parser.exists_of_bind_ok h
    exact hrest h
  | false => exact hrest h

theorem accepts_sourceUnit (g : Rules) : Parser.Accepts (sourceUnit g) := by
  rw [sourceUnit_eq_parts]
  refine (Parser.Accepts.looks fun s => ⟨_, rfl⟩).bind fun t => ?_
  exact (accepts_unitParts g).bind fun x =>
    (Parser.Accepts.looks fun s => ⟨_, rfl⟩).bind fun span => .pure _

/-- **A source file** is a file of its parts, and its span reaches from the first token to the
last one consumed. -/
theorem of_sourceUnit {g : Rules} {u : SourceUnit} (h : sourceUnit g s = .ok u s') :
    ∃ x, unitParts g s = .ok x s' ∧
      u = ⟨x.1, x.2.1, x.2.2, s.next.span.merge s'.previous.span⟩ := by
  rw [sourceUnit_eq_parts, Parser.bind_ok (Parser.peek_eq s)] at h
  obtain ⟨x, s₁, hparts, h⟩ := Parser.exists_of_bind_ok h
  rw [Parser.bind_ok (Parser.spanFrom_eq _ s₁)] at h
  cases h
  exact ⟨x, hparts, rfl⟩

/-- A source file is read in steps. -/
theorem leads_sourceUnit {n : Nat} (hfinish : s.finish.kind = .endOfSource) :
    s.Leads (Parser.endState (sourceUnit (grammar n) s)) := by
  have hparts := (gathers_unitParts (gathers_grammar [] n) .absent .loose s hfinish).1
  rw [sourceUnit_eq_parts, Parser.bind_ok (Parser.peek_eq s)]
  rcases hrun : unitParts (grammar n) s with ⟨x, s'⟩ | ⟨e, s'⟩
  · rw [Parser.bind_ok hrun, Parser.bind_ok (Parser.spanFrom_eq _ s')]
    rwa [hrun] at hparts
  · rw [Parser.bind_error hrun]
    rwa [hrun] at hparts

end Grammar

/-- **A source file is read to its end**, whatever errors are in it. -/
theorem parseUnit_reads (source : List Char) (n : Nat) :
    ∃ s', Grammar.sourceUnit (grammar (ParserState.ofSource source n).depth) (.ofSource source n)
        = .ok (parseUnit source n).unit s' ∧
      (parseUnit source n).errors = s'.errors ∧ (parseUnit source n).nextCall = s'.nextCall := by
  rcases hrun : Grammar.sourceUnit (grammar (ParserState.ofSource source n).depth)
    (.ofSource source n) with ⟨u, s'⟩ | ⟨e | _, s'⟩
  · rw [parseUnit, Parser.run, hrun]
    exact ⟨s', rfl, rfl, rfl⟩
  · exact absurd hrun (Grammar.accepts_sourceUnit _ _ e s')
  · exact absurd hrun (sourceUnit_not_exhausted source n s')

/-! ### The tree of a source file -/

namespace ParserState

variable {source : List Char} {s s' : ParserState}

/-- The last token consumed lies in the source, and what has been read ends no later. -/
theorem Regular.previous (hs : s.Regular source) :
    s.previous.span.LiesIn source ∧ s.reached ≤ s.previous.span.stop := by
  cases h : s.consumed with
  | nil =>
    rw [ParserState.previous, reached, h]
    exact ⟨hs.liesIn_next, Nat.zero_le _⟩
  | cons t ts =>
    rw [ParserState.previous, reached_of_consumed h, h]
    have ht := hs.fits t (mem_tokens_of_consumed (by rw [h]; exact List.mem_cons_self))
    exact ⟨ht.liesIn, le_rfl⟩

theorem noted_ofSource (source : List Char) (n : Nat) : (ofSource source n).Noted source := by
  intro e he
  obtain ⟨l, hl, rfl⟩ := List.mem_map.mp he
  have hspan := (liesIn_tokenize source).2.2 l hl
  exact ⟨hspan, fun l' hl' => by cases hl'; exact hspan⟩

end ParserState

/-- The span at which every source starts. -/
theorem Span.liesIn_origin (source : List Char) : (⟨0, 0, 1, 1⟩ : Span).LiesIn source :=
  ⟨⟨[], source, rfl, rfl, rfl, rfl⟩, Nat.zero_le _⟩

/-- **The tree of a source file** is sound and in order, and the numbers of its calls are different
and were handed out while it was read. -/
theorem Grammar.sourceUnit_sound {source : List Char} {s s' : ParserState} {n : Nat}
    {u : SourceUnit} (hs : s.Regular source) (hnoted : s.Noted source)
    (h : sourceUnit (grammar n) s = .ok u s') :
    s'.Noted source ∧ u.extent.Sound source ∧ Extent.InOrder [u.extent] ∧
      u.extent.calls.Nodup ∧ ∀ i ∈ u.extent.calls, s.nextCall ≤ i ∧ i < s'.nextCall := by
  obtain ⟨x, hparts, rfl⟩ := of_sourceUnit h
  have hgathers := gathers_unitParts (gathers_grammar source n)
  -- what is read stands behind the next token, and before the last one consumed
  obtain ⟨hleads, hends⟩ := hgathers s.next.span .loose s hs.finish
  have hends' := (hgathers ⟨0, 0, 1, 1⟩ .bare s hs.finish).2 trivial hs hnoted _
    (.nil (Span.liesIn_origin source) (Nat.zero_le _))
  replace hends := hends trivial hs hnoted _ (.nil_next hs)
  rw [hparts] at hleads hends hends'
  obtain ⟨hnoted', hheld⟩ := hends
  obtain ⟨hprevious, hreached⟩ := (hs.leads hleads).previous
  have hspan := hs.liesIn_next.merge hprevious
  have hoffset : (s.next.span.merge s'.previous.span).offset ≤ s.next.span.offset :=
    Span.offset_merge _ _ ▸ min_le_left _ _
  refine ⟨hnoted', .node hspan (fun y hy => ⟨hoffset.trans (hheld.behind y hy), ?_⟩) hheld.sound,
    Extent.inOrder_node.mpr ⟨?_, hheld.ordered⟩, ?_, ?_⟩
  · rw [Span.stop_merge]
    have hstop : y.span.stop ≤ s'.reached := hends'.2.before y hy
    exact (hstop.trans hreached).trans (le_max_right _ _)
  · exact Extent.le_places hheld.sound fun y hy => hoffset.trans (hheld.behind y hy)
  · simpa [SourceUnit.extent] using hheld.distinct
  · simpa [SourceUnit.extent] using hheld.numbers

/-- What is read of a source file stands in the source and in its order, and the errors stand in the
source as well. -/
theorem parseUnit_sound (source : List Char) (n : Nat) :
    (∀ e ∈ (parseUnit source n).errors, e.LiesIn source) ∧
      (parseUnit source n).unit.extent.Sound source ∧
      Extent.InOrder [(parseUnit source n).unit.extent] := by
  obtain ⟨s', hrun, hnotes, -⟩ := parseUnit_reads source n
  obtain ⟨hnoted, hsound, hordered, -⟩ :=
    Grammar.sourceUnit_sound (ParserState.regular_ofSource source n)
      (ParserState.noted_ofSource source n) hrun
  exact ⟨hnotes ▸ hnoted, hsound, hordered⟩

/-- **All positions lie in the source**: those of the tokens and of the lexical errors, those of
the tokens at any place that a parser gets to, those of the errors in a source file, and those of
the nodes of its tree, each of which covers its children. -/
theorem parseUnit_liesIn (source : List Char) (n : Nat) :
    (∀ t ∈ (tokenize source).tokens ++ [(tokenize source).finish], t.span.LiesIn source) ∧
      (∀ e ∈ (tokenize source).errors, e.span.LiesIn source) ∧
      (∀ s, (ParserState.ofSource source n).Leads s → ∀ t ∈ s.tokens, t.span.LiesIn source) ∧
      (∀ e ∈ (parseUnit source n).errors, e.LiesIn source) ∧
      (parseUnit source n).unit.extent.Sound source := by
  obtain ⟨htokens, hfinish, herrors⟩ := liesIn_tokenize source
  have hs := ParserState.regular_ofSource source n
  obtain ⟨hnoted, hsound, -⟩ := parseUnit_sound source n
  refine ⟨fun t ht => ?_, herrors, fun s hleads t ht => ((hs.leads hleads).fits t ht).liesIn,
    hnoted, hsound⟩
  rcases List.mem_append.mp ht with ht | ht
  · exact htokens t ht
  · rw [List.mem_singleton.mp ht]
    exact hfinish

/-! ### The numbers of calls -/

/-- The numbers of the calls in a source file. -/
def SourceUnit.callIds (u : SourceUnit) : List Nat := u.types.flatMap TypeDecl.callIds

/-- **The extent of a source file holds the numbers of all its calls**, in their order. -/
theorem SourceUnit.calls_extent (u : SourceUnit) : u.extent.calls = u.callIds := by
  have htypes (ds : List TypeDecl) :
      Extent.allCalls (ds.map TypeDecl.extent) = ds.flatMap TypeDecl.callIds := by
    induction ds with
    | nil => exact Extent.allCalls_nil
    | cons d ds ih =>
      rw [List.map_cons, Extent.allCalls_cons, d.calls_extent, ih, List.flatMap_cons]
  have himport (d : ImportDecl) : d.extent.calls = [] := by simp [ImportDecl.extent]
  simp [extent, callIds, htypes, Extent.allCalls_map_nil Path.calls_extent,
    Extent.allCalls_map_nil himport]

/-- The calls of a source file have numbers of their own, from the first one up to the next one. -/
theorem parseUnit_callIds (source : List Char) (n : Nat) :
    (parseUnit source n).unit.callIds.Nodup ∧
      (∀ i ∈ (parseUnit source n).unit.callIds, n ≤ i ∧ i < (parseUnit source n).nextCall) ∧
      n ≤ (parseUnit source n).nextCall := by
  have hs := ParserState.regular_ofSource source n
  obtain ⟨s', hrun, -, hnext⟩ := parseUnit_reads source n
  obtain ⟨-, -, -, hdistinct, hnumbers⟩ :=
    Grammar.sourceUnit_sound hs (ParserState.noted_ofSource source n) hrun
  rw [SourceUnit.calls_extent] at hdistinct hnumbers
  have hleads : (ParserState.ofSource source n).Leads s' := by
    have hleads := Grammar.leads_sourceUnit (n := (ParserState.ofSource source n).depth) hs.finish
    rwa [hrun] at hleads
  exact ⟨hdistinct, fun i hi => hnext ▸ hnumbers i hi, hnext ▸ hleads.onward.nextCall⟩

/-- The calls of files that are numbered on from each other have numbers of their own. -/
theorem parseSources_callIds (n : Nat) (sources : List (String × String)) :
    ((sourceFiles (parseSources n sources)).flatMap fun f => f.unit.callIds).Nodup ∧
      ∀ i ∈ (sourceFiles (parseSources n sources)).flatMap fun f => f.unit.callIds, n ≤ i := by
  induction sources generalizing n with
  | nil => exact ⟨List.nodup_nil, nofun⟩
  | cons x rest ih =>
    obtain ⟨name, source⟩ := x
    obtain ⟨hdistinct, hnumbers, hnext⟩ := parseUnit_callIds source.toList n
    obtain ⟨hrest, hlater⟩ := ih (parseUnit source.toList n).nextCall
    change ((parseUnit source.toList n).unit.callIds ++ _).Nodup ∧
      ∀ i ∈ (parseUnit source.toList n).unit.callIds ++ _, n ≤ i
    refine ⟨hdistinct.append hrest fun i hi hi' => ?_, fun i hi => ?_⟩
    · exact Nat.lt_irrefl i ((hnumbers i hi).2.trans_le (hlater i hi'))
    · rcases List.mem_append.mp hi with hi | hi
      · exact (hnumbers i hi).1
      · exact hnext.trans (hlater i hi)

/-- **No number is handed out twice.** In every source file, with or without errors, different calls
have different numbers, from the first one that was to be handed out up to the next one; and so have
the calls of all files of a unit, so that no two files share a number. -/
theorem callIds_distinct (source : List Char) (n : Nat) (u : BuildUnit) :
    (parseUnit source n).unit.callIds.Nodup ∧
      (∀ i ∈ (parseUnit source n).unit.callIds, n ≤ i ∧ i < (parseUnit source n).nextCall) ∧
      (u.files.flatMap fun f => f.unit.callIds).Nodup ∧
      u.files.Pairwise fun f f' => f.unit.callIds.Disjoint f'.unit.callIds := by
  obtain ⟨hdistinct, hnumbers, -⟩ := parseUnit_callIds source n
  have hfiles := (parseSources_callIds 0 u.sources).1
  exact ⟨hdistinct, hnumbers, hfiles, (List.nodup_flatMap.mp hfiles).2⟩

end JavaGraft
