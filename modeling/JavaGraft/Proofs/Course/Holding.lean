import JavaGraft.Proofs.Course.Steps
import JavaGraft.Proofs.Tree.Extents

/-!
# What has been read at a place

At any place in a source a parser holds the extents of what it has read and not yet put together.
They are *sound* (`JavaGraft.Extent.Sound`): every node lies in the source and covers its children.
They stand between a *base*, the span at which the node starts that is being read, and an *edge*:
the end of the last token consumed, or, where a node may be empty, the start of the next token. They
stand in the order in which they are held (`JavaGraft.Extent.InOrder`). And the numbers of their
calls are different from each other, and were handed out since the reading of them began. All of
this is said by `JavaGraft.Held`.

The lemmas below say what can be done with extents that are held: more can be read behind them, some
can be dropped, and those of one stretch can be made the children of a new node
(`JavaGraft.Held.group`).
-/

namespace JavaGraft

/-! ### Sound extents -/

/-- An extent is **sound** for a source if all its nodes lie in the source and cover their
children. -/
inductive Extent.Sound (source : List Char) : Extent → Prop
  | node {span : Span} {call : Option Nat} {parts : List Extent} (hspan : span.LiesIn source)
      (hwithin : ∀ x ∈ parts, span.Contains x.span) (hparts : ∀ x ∈ parts, Sound source x) :
      Sound source (.node span call parts)

namespace Extent

variable {source : List Char}

theorem Sound.liesIn {x : Extent} (h : x.Sound source) : x.span.LiesIn source := by
  cases h with
  | node hspan _ _ => exact hspan

theorem sound_leaf {span : Span} (h : span.LiesIn source) : (leaf span).Sound source :=
  .node h nofun nofun

/-- A sound extent covers all its nodes. -/
theorem Sound.contains {x : Extent} (h : x.Sound source) : ∀ s ∈ x.places, x.span.Contains s := by
  induction h with
  | @node span call parts _ hwithin _ ih =>
    intro s hs
    rw [places_node] at hs
    rcases List.mem_cons.mp hs with rfl | hs
    · exact ⟨le_rfl, le_rfl⟩
    · obtain ⟨y, hy, hsy⟩ := mem_allPlaces.mp hs
      have hinner := ih y hy s hsy
      exact ⟨(hwithin y hy).1.trans hinner.1, hinner.2.trans (hwithin y hy).2⟩

/-- What holds of where sound extents start holds of where their nodes do. -/
theorem le_places {n : Nat} {xs : List Extent} (hsound : ∀ x ∈ xs, x.Sound source)
    (h : ∀ x ∈ xs, n ≤ x.span.offset) : ∀ b ∈ allPlaces xs, n ≤ b.offset := by
  intro b hb
  obtain ⟨x, hx, hb⟩ := mem_allPlaces.mp hb
  exact (h x hx).trans ((hsound x hx).contains b hb).1

/-! ### Extents in order -/

/-- Extents are **in order** if no node starts before one that comes before it, where a node comes
before its parts, and those before the next extent. -/
def InOrder (xs : List Extent) : Prop :=
  (allPlaces xs).Pairwise fun b c => b.offset ≤ c.offset

variable {span : Span} {call : Option Nat} {xs ys : List Extent}

theorem InOrder.nil : InOrder [] := by rw [InOrder, allPlaces_nil]; exact .nil

theorem InOrder.sublist (h : InOrder xs) (hys : ys.Sublist xs) : InOrder ys :=
  List.Pairwise.sublist (allPlaces_sublist hys) h

/-- A node with the extents behind it, if it starts where they do or before. -/
theorem inOrder_cons : InOrder (.node span call xs :: ys) ↔
    (∀ b ∈ allPlaces (xs ++ ys), span.offset ≤ b.offset) ∧ InOrder (xs ++ ys) := by
  rw [InOrder, InOrder, allPlaces_cons, places_node, List.cons_append, ← allPlaces_append,
    List.pairwise_cons]

theorem inOrder_node : InOrder [.node span call xs] ↔
    (∀ b ∈ allPlaces xs, span.offset ≤ b.offset) ∧ InOrder xs := by
  rw [inOrder_cons, List.append_nil]

theorem inOrder_leaf : InOrder [leaf span] := inOrder_node.mpr ⟨by simp, .nil⟩

/-- Extents behind others, all of which end where the former start or before. -/
theorem InOrder.append {n : Nat} (h : InOrder xs) (h' : InOrder ys)
    (hxs : ∀ x ∈ xs, x.Sound source) (hys : ∀ y ∈ ys, y.Sound source)
    (hend : ∀ x ∈ xs, x.span.stop ≤ n) (hstart : ∀ y ∈ ys, n ≤ y.span.offset) :
    InOrder (xs ++ ys) := by
  rw [InOrder, allPlaces_append, List.pairwise_append]
  refine ⟨h, h', fun b hb c hc => ?_⟩
  obtain ⟨x, hx, hb⟩ := mem_allPlaces.mp hb
  calc b.offset ≤ b.stop := b.offset_le_stop
    _ ≤ x.span.stop := ((hxs x hx).contains b hb).2
    _ ≤ n := hend x hx
    _ ≤ c.offset := le_places hys hstart c hc

/-- Extents at the end may each be put into a node of its own. -/
theorem InOrder.wrap (h : InOrder (xs ++ ys)) :
    InOrder (xs ++ ys.map fun y => .node y.span none [y]) := by
  induction ys generalizing xs with
  | nil => exact h
  | cons y ys ih =>
    have hwrapped : InOrder (xs ++ [.node y.span none [y]] ++ ys) := by
      -- all that is new is that the place of `y` stands there twice
      obtain ⟨below, hplaces⟩ := y.exists_places
      simp only [InOrder, allPlaces_append, allPlaces_cons, allPlaces_nil, places_node, hplaces,
        List.pairwise_append, List.pairwise_cons, List.mem_append, List.mem_cons] at h ⊢
      grind
    simpa using ih hwrapped

end Extent

/-! ### Edges -/

/-- How far what has been read may reach. -/
inductive Edge where
  /-- Up to the end of the last token consumed. -/
  | tight
  /-- The same, but where no token need have been consumed yet. -/
  | bare
  /-- Up to the start of the next token. -/
  | loose

namespace ParserState

/-- A span starts and ends no later than the token at an edge. -/
def Past (s : ParserState) (b : Span) : Edge → Prop
  | .tight => ∃ t ts, s.consumed = t :: ts ∧ b.offset ≤ t.span.offset ∧ b.stop ≤ t.span.stop
  | .bare => b.stop ≤ s.reached
  | .loose => b.offset ≤ s.next.span.offset ∧ b.stop ≤ s.next.span.stop

/-- A span does not reach over an edge. -/
def Before (s : ParserState) (b : Span) : Edge → Prop
  | .tight => s.Past b .tight
  | .bare => s.Past b .bare
  | .loose => b.stop ≤ s.next.span.offset

variable {source : List Char} {s s' : ParserState} {b b' : Span} {e e' : Edge}

theorem Before.past (h : s.Before b e) : s.Past b e := by
  cases e with
  | loose => exact ⟨b.offset_le_stop.trans h, Nat.le_trans h s.next.span.offset_le_stop⟩
  | _ => exact h

theorem Past.mono (h : s.Past b' e) (hoffset : b.offset ≤ b'.offset) (hstop : b.stop ≤ b'.stop) :
    s.Past b e := by
  cases e with
  | tight =>
    obtain ⟨t, ts, hconsumed, hoffset', hstop'⟩ := h
    exact ⟨t, ts, hconsumed, hoffset.trans hoffset', hstop.trans hstop'⟩
  | bare => exact hstop.trans h
  | loose => exact ⟨hoffset.trans h.1, hstop.trans h.2⟩

theorem Past.stop_le (h : s.Past b .tight) : b.stop ≤ s.reached := by
  obtain ⟨t, ts, hconsumed, -, hstop⟩ := h
  rwa [reached_of_consumed hconsumed]

/-- What ends before the next token is at no edge over it. -/
theorem Before.of_tight (h : s.Before b .tight) (hs : s.Regular source) (e : Edge) :
    s.Before b e := by
  cases e with
  | tight => exact h
  | bare => exact Past.stop_le h
  | loose => exact (Past.stop_le h).trans hs.reached_le_next

/-- What is past an edge is past the start of the next token. -/
theorem Past.loose (h : s.Past b e) (hs : s.Regular source) : s.Past b .loose := by
  have hb := b.offset_le_stop
  have hnext := hs.reached_le_next
  have hle := s.next.span.offset_le_stop
  cases e with
  | tight =>
    have := h.stop_le
    exact ⟨by omega, by omega⟩
  | bare =>
    have : b.stop ≤ s.reached := h
    exact ⟨by omega, by omega⟩
  | loose => exact h

/-- What does not reach over an edge ends before the next token starts. -/
theorem Before.stop_le_next (h : s.Before b e) (hs : s.Regular source) :
    b.stop ≤ s.next.span.offset := by
  cases e with
  | tight => exact (Past.stop_le h).trans hs.reached_le_next
  | bare => exact Nat.le_trans h hs.reached_le_next
  | loose => exact h

theorem Past.of_tight (h : s.Past b .tight) (hs : s.Regular source) (e : Edge) : s.Past b e :=
  (Before.of_tight h hs e).past

theorem Step.past (hstep : s.Step s') (hs : s.Regular source) (h : s.Past b e) : s'.Past b e := by
  cases e with
  | tight =>
    obtain ⟨t, ts, hconsumed, hoffset, hstop⟩ := h
    cases hstep with
    | @take u us hahead =>
      have hle := hs.stop_le_next (t := t) (by rw [hconsumed]; exact List.mem_cons_self)
      rw [next_of_ahead hahead] at hle
      have := t.span.offset_le_stop
      have := u.span.offset_le_stop
      exact ⟨u, _, rfl, by omega, by omega⟩
    | split _ _ => exact ⟨t, ts, hconsumed, hoffset, hstop⟩
    | note _ => exact ⟨t, ts, hconsumed, hoffset, hstop⟩
    | number => exact ⟨t, ts, hconsumed, hoffset, hstop⟩
  | bare => exact Nat.le_trans h (hstep.reached_le hs).1
  | loose => exact ⟨h.1.trans (hstep.reached_le hs).2, h.2.trans (hstep.stop_next_le hs)⟩

/-- **What is past stays past.** -/
theorem Leads.past (h : s.Leads s') (hs : s.Regular source) (hb : s.Past b e) : s'.Past b e := by
  induction h with
  | refl => exact hb
  | tail hleads h ih => exact h.past (hs.leads hleads) ih

theorem Leads.before (h : s.Leads s') (hs : s.Regular source) (hb : s.Before b e) :
    s'.Before b e := by
  cases e with
  | tight => exact Leads.past h hs (e := .tight) hb
  | bare => exact Leads.past h hs (e := .bare) hb
  | loose => exact Nat.le_trans hb (h.reached_le hs).2

/-- Whatever is at one edge of a state is at an edge of another state as well. -/
structure Carries (s : ParserState) (e : Edge) (s' : ParserState) (e' : Edge) : Prop where
  past : ∀ b, s.Past b e → s'.Past b e'
  before : ∀ b, s.Before b e → s'.Before b e'

theorem Leads.carries (h : s.Leads s') (hs : s.Regular source) (e : Edge) : s.Carries e s' e :=
  ⟨fun _ => h.past hs, fun _ => h.before hs⟩

theorem Leads.carries_tight (h : s.Leads s') (hs : s.Regular source) (e : Edge) :
    s.Carries .tight s' e :=
  ⟨fun _ hb => (h.past hs hb).of_tight (hs.leads h) e,
    fun _ hb => (h.before hs hb).of_tight (hs.leads h) e⟩

/-- Where the next token is left behind, so is everything before it. -/
theorem carries_of_next (hs : s.Regular source) (h : s'.Past s.next.span .tight) (e : Edge) :
    s.Carries e s' .tight :=
  have hpast (b : Span) (hb : s.Past b e) : s'.Past b .tight :=
    h.mono (hb.loose hs).1 (hb.loose hs).2
  ⟨hpast, fun b hb => hpast b hb.past⟩

end ParserState

/-! ### Extents that are held -/

/-- **What is held at a place**, since a node was started at a base and the number `first` was
the next one to be handed out. -/
structure Held (source : List Char) (base : Span) (first : Nat) (e : Edge) (s : ParserState)
    (xs : List Extent) : Prop where
  liesIn : base.LiesIn source
  past : s.Past base e
  sound : ∀ x ∈ xs, x.Sound source
  behind : ∀ x ∈ xs, base.offset ≤ x.span.offset
  before : ∀ x ∈ xs, s.Before x.span e
  ordered : Extent.InOrder xs
  since : first ≤ s.nextCall
  distinct : (Extent.allCalls xs).Nodup
  numbers : ∀ i ∈ Extent.allCalls xs, first ≤ i ∧ i < s.nextCall

namespace Held

variable {source : List Char} {base base' : Span} {first : Nat} {e e' : Edge} {s s' : ParserState}
  {x : Extent} {xs ys : List Extent}

theorem nil (hbase : base.LiesIn source) (hpast : s.Past base e) :
    Held source base s.nextCall e s [] :=
  ⟨hbase, hpast, nofun, nofun, nofun, .nil, le_rfl, by simp, by simp⟩

/-- Nothing is held where something starts at the next token. -/
theorem nil_next (hs : s.Regular source) : Held source s.next.span s.nextCall .loose s [] :=
  nil hs.liesIn_next ⟨le_rfl, le_rfl⟩

/-- What is held is held at another edge. -/
theorem carry (h : Held source base first e s xs) (hcarries : s.Carries e s' e')
    (hcall : s.nextCall ≤ s'.nextCall) : Held source base first e' s' xs :=
  ⟨h.liesIn, hcarries.past _ h.past, h.sound, h.behind,
    fun x hx => hcarries.before _ (h.before x hx), h.ordered, h.since.trans hcall, h.distinct,
    fun i hi => ⟨(h.numbers i hi).1, (h.numbers i hi).2.trans_le hcall⟩⟩

/-- What is held is held further on. -/
theorem later (h : Held source base first e s xs) (hs : s.Regular source) (hleads : s.Leads s') :
    Held source base first e s' xs :=
  h.carry (hleads.carries hs e) hleads.onward.nextCall

theorem of_tight (h : Held source base first .tight s xs) (hs : s.Regular source) (e : Edge) :
    Held source base first e s xs :=
  h.carry ((ParserState.Leads.refl s).carries_tight hs e) le_rfl

/-- Whatever is held ends before the next token starts. -/
theorem loosen (h : Held source base first e s xs) (hs : s.Regular source) :
    Held source base first .loose s xs :=
  h.carry ⟨fun _ hb => hb.loose hs, fun _ hb => hb.stop_le_next hs⟩ le_rfl

theorem sublist (h : Held source base first e s xs) (hys : ys.Sublist xs) :
    Held source base first e s ys := by
  have hcalls := Extent.allCalls_sublist hys
  exact ⟨h.liesIn, h.past, fun x hx => h.sound x (hys.subset hx),
    fun x hx => h.behind x (hys.subset hx), fun x hx => h.before x (hys.subset hx),
    h.ordered.sublist hys, h.since, h.distinct.sublist hcalls,
    fun i hi => h.numbers i (hcalls.subset hi)⟩

/-- **What is read behind the extents that are held** is held with them, if it starts at the next
token or behind it. -/
theorem append (h : Held source base first e s xs) (hs : s.Regular source)
    (hcarries : s.Carries e s' e') (h' : Held source base' s.nextCall e' s' ys)
    (hstart : ∀ y ∈ ys, s.next.span.offset ≤ y.span.offset) :
    Held source base first e' s' (xs ++ ys) := by
  have hxs := h.carry hcarries h'.since
  have hoffset : base.offset ≤ s.next.span.offset := (h.past.loose hs).1
  refine ⟨h.liesIn, hxs.past, fun x hx => ?_, fun x hx => ?_, fun x hx => ?_, ?_, hxs.since, ?_,
    fun i hi => ?_⟩
  · exact (List.mem_append.mp hx).elim (hxs.sound x) (h'.sound x)
  · exact (List.mem_append.mp hx).elim (hxs.behind x) fun hx => hoffset.trans (hstart x hx)
  · exact (List.mem_append.mp hx).elim (hxs.before x) (h'.before x)
  · exact h.ordered.append h'.ordered h.sound h'.sound
      (fun x hx => (h.before x hx).stop_le_next hs) hstart
  · -- numbers handed out later are greater
    rw [Extent.allCalls_append, List.nodup_append]
    refine ⟨h.distinct, h'.distinct, fun i hi j hj hij => ?_⟩
    have := (h.numbers i hi).2
    have := (h'.numbers j hj).1
    omega
  · rw [Extent.allCalls_append] at hi
    rcases List.mem_append.mp hi with hi | hi
    · exact hxs.numbers i hi
    · exact ⟨h.since.trans (h'.numbers i hi).1, (h'.numbers i hi).2⟩

/-- What is read from a later base on is held from the first base on. -/
theorem rebase {first' : Nat} (h : Held source base first e s xs) (hcarries : s.Carries e s' e')
    (hfirst : first ≤ first') (hoffset : base.offset ≤ base'.offset)
    (h' : Held source base' first' e' s' ys) : Held source base first e' s' ys :=
  ⟨h.liesIn, hcarries.past _ h.past, h'.sound, fun x hx => hoffset.trans (h'.behind x hx),
    h'.before, h'.ordered, hfirst.trans h'.since, h'.distinct,
    fun i hi => ⟨hfirst.trans (h'.numbers i hi).1, (h'.numbers i hi).2⟩⟩

/-- What is held from a base on is held from an earlier one on. -/
theorem earlier (h : Held source base' first e s xs) (hbase : base.LiesIn source)
    (hoffset : base.offset ≤ base'.offset) (hstop : base.stop ≤ base'.stop) :
    Held source base first e s xs :=
  ⟨hbase, h.past.mono hoffset hstop, h.sound, fun x hx => hoffset.trans (h.behind x hx), h.before,
    h.ordered, h.since, h.distinct, h.numbers⟩

/-- A node that is held alone can be the base of what follows. -/
theorem atNode (h : Held source base first .tight s [x]) : Held source x.span first .tight s [x] :=
  have hx := List.mem_singleton.mpr (Eq.refl x)
  ⟨(h.sound x hx).liesIn, h.before x hx, h.sound, List.forall_mem_singleton.mpr le_rfl, h.before,
    h.ordered, h.since, h.distinct, h.numbers⟩

/-- A token that was just taken. -/
theorem token {t : Token} {ts : List Token} (hs : s.Regular source) (h : s.ahead = t :: ts) :
    Held source t.span s.nextCall .tight s.advance [.leaf t.span] := by
  have ht := (hs.fits t (ParserState.mem_tokens_of_ahead (by rw [h]; simp))).liesIn
  have hadvance : s.advance = { s with consumed := t :: s.consumed, ahead := ts } := by
    rw [ParserState.advance, h]
  have hpast : s.advance.Past t.span .tight := by
    rw [hadvance]
    exact ⟨t, _, rfl, le_rfl, le_rfl⟩
  refine ⟨ht, hpast, ?_, List.forall_mem_singleton.mpr le_rfl, List.forall_mem_singleton.mpr hpast,
    Extent.inOrder_leaf, by rw [hadvance], by simp, by simp⟩
  exact List.forall_mem_singleton.mpr (Extent.sound_leaf ht)

/-- A node without calls of its own takes the place of its children, if it covers them and starts
no later than what stands behind it. -/
theorem node (post : List Extent) {span : Span}
    (h : Held source base first e s (xs ++ post)) (hspan : span.LiesIn source)
    (hbehind : base.offset ≤ span.offset) (hbefore : s.Before span e)
    (hcontains : ∀ x ∈ xs, span.Contains x.span)
    (hpost : ∀ x ∈ post, span.offset ≤ x.span.offset) :
    Held source base first e s (.node span none xs :: post) := by
  have hcalls : Extent.allCalls (.node span none xs :: post) = Extent.allCalls (xs ++ post) := by
    simp
  have hxs : ∀ x ∈ xs, x ∈ xs ++ post := fun x hx => List.mem_append_left _ hx
  refine ⟨h.liesIn, h.past, List.forall_mem_cons.mpr ⟨?_, fun x hx => ?_⟩,
    List.forall_mem_cons.mpr ⟨hbehind, fun x hx => ?_⟩,
    List.forall_mem_cons.mpr ⟨hbefore, fun x hx => ?_⟩, ?_, h.since, hcalls ▸ h.distinct,
    fun i hi => h.numbers i (hcalls ▸ hi)⟩
  · exact .node hspan hcontains fun x hx => h.sound x (hxs x hx)
  · exact h.sound x (List.mem_append_right _ hx)
  · exact h.behind x (List.mem_append_right _ hx)
  · exact h.before x (List.mem_append_right _ hx)
  · refine Extent.inOrder_cons.mpr ⟨Extent.le_places h.sound fun x hx => ?_, h.ordered⟩
    exact (List.mem_append.mp hx).elim (fun hx => (hcontains x hx).1) (hpost x)

/-- The span from the base to the last token consumed. -/
theorem span_spec (h : Held source base first .tight s xs) (hs : s.Regular source) :
    (base.merge s.previous.span).LiesIn source ∧
      (base.merge s.previous.span).offset = base.offset ∧
      s.Before (base.merge s.previous.span) .tight ∧
      ∀ b, s.Before b .tight → b.stop ≤ (base.merge s.previous.span).stop := by
  obtain ⟨t, ts, hconsumed, hoffset, hstop⟩ := h.past
  have ht := hs.fits t (ParserState.mem_tokens_of_consumed (by rw [hconsumed]; simp))
  have hprevious : s.previous = t := by rw [ParserState.previous, hconsumed]; rfl
  have hspan : (base.merge t.span).offset = base.offset ∧ (base.merge t.span).stop = t.span.stop :=
    ⟨by rw [Span.offset_merge]; exact min_eq_left hoffset,
      by rw [Span.stop_merge]; exact max_eq_right hstop⟩
  rw [hprevious]
  refine ⟨h.liesIn.merge ht.liesIn, hspan.1, ⟨t, ts, hconsumed, ?_, hspan.2.le⟩, ?_⟩
  · rw [hspan.1]
    exact hoffset
  · rintro b ⟨u, us, hu, -, hb⟩
    rw [hconsumed] at hu
    cases hu
    rw [hspan.2]
    exact hb

/-- **The extents of one stretch become the children of a node** from the base to the last token
consumed. -/
theorem group (post : List Extent) (h : Held source base first .tight s (xs ++ post))
    (hs : s.Regular source) : Held source base first .tight s
      (.node (base.merge s.previous.span) none xs :: post) := by
  obtain ⟨hspan, hoffset, hbefore, hstop⟩ := h.span_spec hs
  refine h.node post hspan hoffset.ge hbefore (fun x hx => ?_) fun x hx => ?_
  · have hx : x ∈ xs ++ post := List.mem_append_left _ hx
    exact ⟨hoffset.le.trans (h.behind x hx), hstop _ (h.before x hx)⟩
  · exact hoffset.le.trans (h.behind x (List.mem_append_right _ hx))

/-- **What is held and what is read behind it** become the children of a node that ends where the
latter does, which need not be one of them. -/
theorem enclose {kept : List Extent} (h : Held source base first e s xs) (hs : s.Regular source)
    (hcarries : s.Carries e s' .tight) (h' : Held source s.next.span s.nextCall .tight s' [x])
    (hkept : kept.Sublist [x]) :
    Held source base first .tight s' [.node (base.merge x.span) none (xs ++ kept)] := by
  have hx := List.mem_singleton.mpr (Eq.refl x)
  have hnext : s.next.span.offset ≤ x.span.offset := h'.behind x hx
  have hbase : base.offset ≤ x.span.offset := (h.past.loose hs).1.trans hnext
  have hoffset : (base.merge x.span).offset = base.offset := by
    rw [Span.offset_merge, min_eq_left hbase]
  have hall : Held source base first .tight s' (xs ++ kept) :=
    (h.append hs hcarries h' h'.behind).sublist ((List.Sublist.refl xs).append hkept)
  refine Held.node [] (by simpa using hall)
    (h.liesIn.merge (h'.sound x hx).liesIn) hoffset.ge ?_ (fun y hy => ⟨?_, ?_⟩) nofun
  · obtain ⟨t, ts, hconsumed, hle, hstop⟩ := hall.past
    obtain ⟨u, us, hu, -, hx⟩ := h'.before x hx
    rw [hconsumed] at hu
    cases hu
    exact ⟨t, ts, hconsumed, hoffset ▸ hle, by rw [Span.stop_merge]; exact max_le hstop hx⟩
  · rw [hoffset]
    exact hall.behind y hy
  · rw [Span.stop_merge]
    refine le_trans ?_ (le_max_right _ _)
    rcases List.mem_append.mp hy with hy | hy
    · exact ((h.before y hy).stop_le_next hs).trans (hnext.trans x.span.offset_le_stop)
    · rw [List.mem_singleton.mp (hkept.subset hy)]

/-- Each extent may become a node of its own. -/
theorem wrap (h : Held source base first e s xs) :
    Held source base first e s (xs.map fun x => .node x.span none [x]) := by
  have hcalls : Extent.allCalls (xs.map fun x => .node x.span none [x]) = Extent.allCalls xs := by
    clear h
    induction xs with
    | nil => rfl
    | cons x xs ih => simp [ih]
  have hordered : Extent.InOrder ([] ++ xs) := h.ordered
  refine ⟨h.liesIn, h.past, ?_, ?_, ?_, hordered.wrap, h.since, hcalls ▸ h.distinct,
    hcalls ▸ h.numbers⟩
  · refine List.forall_mem_map.mpr fun x hx => .node (h.sound x hx).liesIn ?_ ?_
    · exact List.forall_mem_singleton.mpr ⟨le_rfl, le_rfl⟩
    · exact List.forall_mem_singleton.mpr (h.sound x hx)
  · exact List.forall_mem_map.mpr h.behind
  · exact List.forall_mem_map.mpr h.before

/-- A node may be read as another one without calls. -/
theorem exchange {y : Extent} (h : Held source base first e s [x])
    (hsound : x.Sound source → y.Sound source)
    (hordered : x.Sound source → Extent.InOrder [x] → Extent.InOrder [y])
    (hspan : y.span = x.span) (hcalls : y.calls = []) : Held source base first e s [y] := by
  have hx := List.mem_singleton.mpr (Eq.refl x)
  refine ⟨h.liesIn, h.past, ?_, ?_, ?_, hordered (h.sound x hx) h.ordered, h.since,
    by simp [hcalls], by simp [hcalls]⟩
  · exact List.forall_mem_singleton.mpr (hsound (h.sound x hx))
  · exact List.forall_mem_singleton.mpr (hspan ▸ h.behind x hx)
  · exact List.forall_mem_singleton.mpr (hspan ▸ h.before x hx)

/-- The call behind whose arguments a number is handed out. -/
theorem call (h : Held source base first .tight s xs) (hs : s.Regular source) :
    Held source base first .tight { s with nextCall := s.nextCall + 1 }
      [.node (base.merge s.previous.span) (some s.nextCall) xs] := by
  obtain ⟨hspan, hoffset, hbefore, hstop⟩ := h.span_spec hs
  have hstarts := Extent.le_places h.sound fun x hx => hoffset.le.trans (h.behind x hx)
  refine ⟨h.liesIn, h.past, ?_, ?_, ?_, Extent.inOrder_node.mpr ⟨hstarts, h.ordered⟩,
    h.since.trans (Nat.le_succ _), ?_, fun i hi => ?_⟩
  · refine List.forall_mem_singleton.mpr (.node hspan (fun x hx => ?_) h.sound)
    exact ⟨hoffset.le.trans (h.behind x hx), hstop _ (h.before x hx)⟩
  · exact List.forall_mem_singleton.mpr hoffset.ge
  · exact List.forall_mem_singleton.mpr hbefore
  · -- the number of the call is greater than those of the calls in it
    have hnew : s.nextCall ∉ Extent.allCalls xs := fun hi => Nat.lt_irrefl _ (h.numbers _ hi).2
    simpa using ⟨hnew, h.distinct⟩
  · have hi : i = s.nextCall ∨ i ∈ Extent.allCalls xs := by simpa using hi
    rcases hi with rfl | hi
    · exact ⟨h.since, Nat.lt_succ_self _⟩
    · exact ⟨(h.numbers i hi).1, Nat.lt_succ_of_lt (h.numbers i hi).2⟩

/-- A node from the base on may be widened up to the last token consumed. -/
theorem widen {call : Option Nat} (h : Held source base first .tight s [.node base call xs])
    (hs : s.Regular source) :
    Held source base first .tight s [.node (base.merge s.previous.span) call xs] := by
  obtain ⟨hspan, hoffset, hbefore, hstop⟩ := h.span_spec hs
  have hmem := List.mem_singleton.mpr (Eq.refl (Extent.node base call xs))
  have hordered := Extent.inOrder_node.mp h.ordered
  refine ⟨h.liesIn, h.past, ?_, ?_, ?_,
    Extent.inOrder_node.mpr ⟨fun b hb => hoffset.le.trans (hordered.1 b hb), hordered.2⟩, h.since,
    by simpa using h.distinct, fun i hi => h.numbers i (by simpa using hi)⟩
  · cases h.sound _ hmem with
    | node _ hwithin hparts =>
      refine List.forall_mem_singleton.mpr (.node hspan (fun x hx => ?_) hparts)
      exact ⟨hoffset.le.trans (hwithin x hx).1, (hwithin x hx).2.trans (hstop _ (h.before _ hmem))⟩
  · exact List.forall_mem_singleton.mpr hoffset.ge
  · exact List.forall_mem_singleton.mpr hbefore

end Held

end JavaGraft
