import JavaGraft.Proofs.Course.Gathering

/-!
# Nodes and loops

A rule that starts a node has read its children when the node's span is taken: it reaches from the
base to the last token consumed, or to the end of the part read last. Then what is held becomes the
children of that node (`JavaGraft.Course.GathersFrom.close` and its variants).

A loop gathers what its rounds gather, one round behind the other. If a parser is rejected within a
loop, nothing is held of what it had read, its error is recorded, and the loop goes on where
skipping tokens ends (`JavaGraft.Course.StaysFrom.recovering`).
-/

namespace JavaGraft.Course

variable {α β γ : Type} {source : List Char} {start : ParserState → Prop} {base : Span}
  {e e' e₁ : Edge} {acc : List Extent} {ext : α → List Extent}

/-! ### Closing nodes -/

namespace GathersFrom

/-- Taking the span from the base to the last token consumed. -/
theorem spanning (nodes : Span → List Extent) {f : Span → Parser α}
    (hnodes : ∀ s first, s.Regular source → Held source base first .tight s acc →
      Held source base first .tight s (nodes (base.merge s.previous.span)))
    (hf : ∀ span, Gathers source base .tight (nodes span) (f span) e' ext) :
    GathersFrom source start base .tight acc (Parser.spanFrom base >>= f) e' ext := by
  intro s hfinish
  rw [Parser.bind_ok (Parser.spanFrom_eq base s)]
  have hrun := hf (base.merge s.previous.span) s hfinish
  exact ⟨hrun.1, fun _ hs hnoted first hacc => hrun.2 trivial hs hnoted first
    (hnodes s first hs hacc)⟩

/-- **All that is held becomes one node.** -/
theorem close {build : Span → α} (hbuild : ∀ span, ext (build span) = [.node span none acc]) :
    GathersFrom source start base .tight acc (Parser.spanFrom base >>= fun span =>
      Pure.pure (build span)) .tight ext :=
  spanning (fun span => [.node span none acc])
    (fun _ _ hs hacc => Held.group [] (by simpa using hacc) hs) fun span => .pure (hbuild span)

/-- What is held becomes a node within which its first part is a node of the same span. -/
theorem close_both {xs ys : List Extent} {build : Span → α} (hacc : acc = xs ++ ys)
    (hbuild : ∀ span, ext (build span) = [.node span none (.node span none xs :: ys)]) :
    GathersFrom source start base .tight acc (Parser.spanFrom base >>= fun span =>
      Pure.pure (build span)) .tight ext := by
  subst hacc
  refine spanning (fun span => [.node span none (.node span none xs :: ys)])
    (fun s _ hs hheld => ?_) fun span => .pure (hbuild span)
  have hinner := Held.group ys hheld hs
  exact Held.group [] (by simpa using hinner) hs

/-- A node is widened up to the last token consumed. -/
theorem close_wider {call : Option Nat} {parts : List Extent} {build : Span → α}
    (hbuild : ∀ span, ext (build span) = [.node span call parts]) :
    GathersFrom source start base .tight [.node base call parts] (Parser.spanFrom base >>=
      fun span => Pure.pure (build span)) .tight ext :=
  spanning (fun span => [.node span call parts])
    (fun _ _ hs hheld => hheld.widen hs) fun span => .pure (hbuild span)

/-- **All that is held becomes a call** with the next number. -/
theorem close_call {build : Nat → Span → α}
    (hbuild : ∀ id span, ext (build id span) = [.node span (some id) acc]) :
    GathersFrom source start base .tight acc (Parser.freshCall >>= fun id =>
      Parser.spanFrom base >>= fun span => Pure.pure (build id span)) .tight ext := by
  intro s _
  rw [Parser.bind_ok (Parser.freshCall_eq s), Parser.bind_ok (Parser.spanFrom_eq base _)]
  refine ⟨.single (.number s), fun _ hs hnoted first hacc => ⟨hnoted, ?_⟩⟩
  rw [hbuild]
  exact hacc.call hs

/-- Each of the extents that are held becomes a node of its own. -/
theorem wrapped {a : α} (h : ext a = acc.map fun x => .node x.span none [x]) :
    GathersFrom source start base e acc (Pure.pure a) e ext :=
  fun s _ => ⟨.refl s, fun _ _ hnoted _ hacc => ⟨hnoted, h ▸ hacc.wrap⟩⟩

variable {p : Parser β} {x : β → Extent}

/-- **A node ends where the part read last does**, which need not be a child of it. -/
theorem through (kept : β → List Extent) {f : β → Parser α}
    (hp : MovesFrom source start p fun b => [x b]) (hkept : ∀ b, (kept b).Sublist [x b])
    (hf : ∀ b, Gathers source base .tight [.node (base.merge (x b).span) none (acc ++ kept b)]
      (f b) e' ext) :
    GathersFrom source start base e acc (p >>= f) e' ext := by
  have hpart (t : Token) : GathersFrom source (fun s => s.next = t ∧ start s) base e acc p .tight
      fun b => [.node (base.merge (x b).span) none (acc ++ kept b)] := by
    refine ((hp t.span .loose).weaken fun _ hs => hs.2).adapt fun s first hs hregular hacc => ?_
    rw [← hs.1]
    refine ⟨s.nextCall, .nil_next hregular, fun s' b hleads h' => ?_⟩
    exact hacc.enclose hregular (ParserState.carries_of_next hregular h'.past e) h' (hkept b)
  exact (by_next hpart).seq hf

/-- The part read last is the last child of the node. -/
theorem close_with {build : β → α} (hp : MovesFrom source start p fun b => [x b])
    (hbuild : ∀ b, ext (build b) = [.node (base.merge (x b).span) none (acc ++ [x b])]) :
    GathersFrom source start base e acc (p >>= fun b => Pure.pure (build b)) .tight ext :=
  through (fun b => [x b]) hp (fun _ => .refl _) fun b => .pure (hbuild b)

/-- The part read last only ends the node. -/
theorem close_by {build : β → α} (hp : MovesFrom source start p fun b => [x b])
    (hbuild : ∀ b, ext (build b) = [.node (base.merge (x b).span) none acc]) :
    GathersFrom source start base e acc (p >>= fun b => Pure.pure (build b)) .tight ext :=
  through (fun _ => []) hp (fun _ => List.nil_sublist _) fun b =>
    .pure (by rw [hbuild, List.append_nil])

end GathersFrom

/-- A part whose span is that from its first token to its last one. -/
theorem MovesFrom.spanned {p : Parser β} {f : β → Span → Parser α} {ext₁ : β → List Extent}
    (hp : Moves source p ext₁)
    (hf : ∀ b span, Gathers source base .tight (acc ++ [.node span none (ext₁ b)]) (f b span)
      e' ext) :
    GathersFrom source start base e acc (Parser.peek >>= fun t => p >>= fun b =>
      Parser.spanFrom t.span >>= f b) e' ext := by
  have hpart : MovesFrom source start (Parser.peek >>= fun t => p >>= fun b =>
      Parser.spanFrom t.span >>= fun span => Pure.pure (b, span))
      fun b => [.node b.2 none (ext₁ b.1)] :=
    .of_peek fun t => ((hp t.span .loose).anywhere).seq fun b => .close fun _ => rfl
  have hrun : GathersFrom source start base e acc _ e' ext := hpart.bind fun b => hf b.1 b.2
  simpa only [bind_assoc, pure_bind] using hrun

/-! ### Recovery -/

/-- Tokens are skipped one by one. -/
theorem leads_skip (s : ParserState) (first : Bool) (consumed ts : List Token) :
    ({ s with consumed, ahead := ts } : ParserState).Leads
      (Parser.synchronize.skip s first consumed ts) := by
  fun_induction Parser.synchronize.skip s first consumed ts with
  | case1 first consumed => exact .refl _
  | case2 consumed t ts h => exact .single (.take rfl)
  | case3 consumed t ts h ih => exact .trans (.single (.take rfl)) ih
  | case4 first consumed t ts _ h => exact .refl _
  | case5 first consumed t ts _ h ih => exact .trans (.single (.take rfl)) ih

theorem leads_recovered (s : ParserState) (err : ParseError) : s.Leads (s.recovered err) :=
  .trans (.single (.note s err))
    (leads_skip { s with errors := s.errors ++ [err] } true s.consumed s.ahead)

/-- Recording an error that lies in the source. -/
theorem GathersFrom.recording {err : ParseError} {f : Unit → Parser α}
    (herr : ∀ s first, Held source base first e s acc → err.LiesIn source)
    (hf : Gathers source base e acc (f ()) e' ext) :
    GathersFrom source start base e acc (Parser.record err >>= f) e' ext := by
  have hrecord : GathersFrom source start base e acc (Parser.record err) e fun _ => acc := by
    intro s _
    have hstep : s.Step { s with errors := s.errors ++ [err] } := .note s err
    refine ⟨.single hstep, fun _ hs hnoted first hacc => ⟨?_, hacc.later hs (.single hstep)⟩⟩
    intro err' herr'
    rcases List.mem_append.mp herr' with herr' | herr'
    · exact hnoted err' herr'
    · rw [List.mem_singleton.mp herr']
      exact herr s first hacc
  exact hrecord.seq fun _ => hf

/-- **Recovery** holds nothing of what was rejected. -/
theorem StaysFrom.recovering {p : Parser (Option β)} {x : β → Extent}
    (hp : StaysFrom source start p fun b => b.toList.map x) :
    StaysFrom source start (Parser.recovering p) fun b => b.toList.map x := by
  intro base e s hfinish
  obtain ⟨hleads, hends⟩ := hp base e s hfinish
  rcases hrun : p s with ⟨b, s'⟩ | ⟨err | _, s'⟩
  · rw [Parser.recovering_ok hrun]
    rw [hrun] at hleads hends
    exact ⟨hleads, hends⟩
  · rw [Parser.recovering_rejected hrun]
    rw [hrun] at hleads hends
    have hleads : s.Leads (s'.recovered err) := .trans hleads (leads_recovered s' err)
    refine ⟨hleads, fun hstart hs hnoted first hacc => ⟨?_, hacc.later hs hleads⟩⟩
    obtain ⟨hnoted', herr⟩ := hends hstart hs hnoted first hacc
    rw [ParserState.Noted, s'.errors_recovered]
    intro err' herr'
    rcases List.mem_append.mp herr' with herr' | herr'
    · exact hnoted' err' herr'
    · rwa [List.mem_singleton.mp herr']
  · rw [Parser.recovering_exhausted hrun]
    rw [hrun] at hleads
    exact ⟨hleads, fun _ _ _ _ _ => trivial⟩

/-! ### Repetition -/

/-- **A loop gathers what its rounds gather.** The first round may start at another edge. -/
theorem iterate {step : β → Parser (β ⊕ γ)} (held : β → List Extent) {ext : γ → List Extent}
    (hfirst : ∀ b, Gathers source base e (held b) (step b) e₁ (Sum.elim held ext))
    (hagain : ∀ b, Gathers source base e₁ (held b) (step b) e₁ (Sum.elim held ext))
    (rounds : Nat) (b : β) :
    Gathers source base e (held b) (Parser.iterate step rounds b) e₁ ext := by
  induction rounds generalizing e b with
  | zero => exact .exhausted
  | succ rounds ih =>
    rw [Parser.iterate]
    refine (hfirst b).seq fun r => ?_
    cases r with
    | inl b => exact ih hagain b
    | inr c => exact .pure rfl

/-- A loop whose rounds end at the edge at which they start. -/
theorem loop {step : β → Parser (β ⊕ γ)} (held : β → List Extent) {ext : γ → List Extent}
    (hstep : ∀ b, Gathers source base e (held b) (step b) e (Sum.elim held ext)) (rounds : Nat)
    (b : β) : Gathers source base e (held b) (Parser.iterate step rounds b) e ext :=
  iterate held hstep hstep rounds b

variable {x : α → Extent} {rounds : Nat} {separator close : TokenKind}

theorem collect {item : Parser (Option α)} (hitem : Stays source item fun a => a.toList.map x) :
    Stays source (Parser.collect rounds item) fun as => as.map x := by
  refine fun _ _ => loop (fun found => found.reverse.map x) (fun found => ?_) rounds []
  exact hitem.bind fun a => by cases a <;> exact .pure (by simp)

theorem collectWhile {more : Parser Bool} {item : Parser (Option α)}
    (test : ParserState → Bool) (hmore : ∀ s, more s = .ok (test s) s)
    (hitem : StaysFrom source (fun s => test s = true) item fun a => a.toList.map x) :
    Stays source (Parser.collectWhile rounds more item) fun as => as.map x := by
  refine fun _ _ => loop (fun found => found.reverse.map x) (fun found => ?_) rounds []
  refine .ifTest hmore ?_ (.pure rfl)
  exact (hitem.weaken fun _ hs => hs.1).bind fun a => by cases a <;> exact .pure (by simp)

/-- Looking whether there is something in front of a closing token. -/
theorem before_eq (close : TokenKind) (s : ParserState) :
    Parser.before close s = .ok (s.next.kind ≠ close && s.next.kind ≠ .endOfSource) s := rfl

/-- Items up to a closing token. -/
theorem collectBefore {item : Parser (Option α)}
    (hitem : Stays source item fun a => a.toList.map x) :
    Stays source (Parser.collectWhile rounds (Parser.before close) item) fun as => as.map x :=
  collectWhile _ (before_eq close) hitem.anywhere

theorem sepBy {item : Parser α} (hseparator : separator.hasText)
    (hitem : Moves source item fun a => [x a]) :
    Moves source (Parser.sepBy rounds separator item) fun as => as.map x := by
  intro base e
  refine iterate (fun found => found.reverse.map x) (fun found => ?_) (fun found => ?_) rounds []
  all_goals exact hitem.bind fun a => .ifEat hseparator (.pure (by simp)) (.pure (by simp))

/-- Items that are not nodes themselves, but have several. -/
theorem sepUntil_flat {item : Parser α} {xs : α → List Extent}
    (hseparator : separator.hasText) (hitem : Moves source item xs) :
    Stays source (Parser.sepUntil rounds separator close item) fun as => as.flatMap xs := by
  refine fun _ _ => loop (fun found => found.reverse.flatMap xs) (fun found => ?_) rounds []
  refine .ifTest (before_eq close) (hitem.stays.anywhere.bind fun a => ?_) (.pure rfl)
  exact (eat hseparator).skip fun b => .ite (fun _ => .pure (by simp)) fun _ => .pure (by simp)

theorem sepUntil {item : Parser α} (hseparator : separator.hasText)
    (hitem : Moves source item fun a => [x a]) :
    Stays source (Parser.sepUntil rounds separator close item) fun as => as.map x :=
  (sepUntil_flat hseparator hitem).congr fun as => (List.flatMap_pure_eq_map x as).symm

end JavaGraft.Course
