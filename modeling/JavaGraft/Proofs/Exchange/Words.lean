import JavaGraft.Proofs.Exchange.Declarations
import JavaGraft.Proofs.Recovery.Containment

/-!
# Words alone and among others

What a rule reads of certain words is decided by these words: by their kinds and texts, and not by
where they stand, by what was read before or by what follows them, as long as an end follows. So a
part of a source is read as the text is that consists of nothing else
(`JavaGraft.Alone.reading_iff`,
`JavaGraft.ParserState.Along.reads`).
-/

namespace JavaGraft

open Correspondence

/-! ### States before the same words -/

/-- A keyword as a word. -/
def Keyword.lexeme (word : Keyword) : Lexeme := (.keyword word, word.spelling)

/-- Words that stand for themselves. -/
def Lexeme.AreText (ls : List Lexeme) : Prop := ∀ l ∈ ls, l.1.isText

namespace Lexeme.AreText

variable {l : Lexeme} {ls ls' : List Lexeme}

theorem cons (hl : l.1.isText) (h : AreText ls) : AreText (l :: ls) :=
  List.forall_mem_cons.mpr ⟨hl, h⟩

theorem append (h : AreText ls) (h' : AreText ls') : AreText (ls ++ ls') :=
  List.forall_mem_append.mpr ⟨h, h'⟩

theorem flatMap {α : Type} {as : List α} {f : α → List Lexeme} (h : ∀ a ∈ as, AreText (f a)) :
    AreText (as.flatMap f) := by
  intro l hl
  obtain ⟨a, ha, hl⟩ := List.mem_flatMap.mp hl
  exact h a ha l hl

end Lexeme.AreText

namespace ParserState

/-- **The words ahead** in a state without errors. -/
structure Shows (s : ParserState) (ls : List Lexeme) : Prop where
  ahead : s.ahead.map Token.lexeme = ls
  finish : s.finish.kind = .endOfSource
  text : s.finish.text = ""
  errors : s.errors = []

variable {s s' : ParserState} {ls : List Lexeme} {source : List Char}

theorem Shows.same (h : s.Shows ls) (h' : s'.Shows ls) : (unlabeled []).SameState s s' := by
  have hfinish : s.finish.lexeme = s'.finish.lexeme :=
    Prod.ext (h.finish.trans h'.finish.symm) (h.text.trans h'.text.symm)
  have hsame := sameState_unlabeled (h.ahead.trans h'.ahead.symm) hfinish h.errors
  rwa [h'.errors] at hsame

/-- A token ahead is of the kind of the word, and behind the words the source ends. -/
theorem Shows.nth_kind (h : s.Shows ls) (n : Nat) :
    (s.nth n).kind = (ls[n]?.map Prod.fst).getD .endOfSource := by
  rw [← h.ahead, List.getElem?_map, nth, List.getD_eq_getElem?_getD]
  cases s.ahead[n]? with
  | none => exact h.finish
  | some t => rfl

theorem Shows.next {l : Lexeme} (h : s.Shows (l :: ls)) : s.next.lexeme = l := by
  obtain ⟨t, ts, hahead, ht, -⟩ := List.map_eq_cons_iff.mp h.ahead
  rw [next_of_ahead hahead, ht]

theorem Shows.advance {l : Lexeme} (h : s.Shows (l :: ls)) : s.advance.Shows ls := by
  obtain ⟨t, ts, hahead, -, hts⟩ := List.map_eq_cons_iff.mp h.ahead
  rw [ParserState.advance]
  simp only [hahead]
  exact ⟨hts, h.finish, h.text, h.errors⟩

theorem Shows.kind_end (h : s.Shows []) : s.next.kind = .endOfSource := h.nth_kind 0

/-- If nothing is ahead, nothing is ahead in a state that corresponds. -/
theorem Shows.of_same (h : s.Shows []) (hsame : (unlabeled []).SameState s s') : s'.Shows [] where
  ahead := by
    have hahead := hsame.ahead
    rw [List.map_eq_nil_iff.mp h.ahead, List.forall₂_nil_left_iff] at hahead
    rw [hahead]
    rfl
  finish := hsame.finish.kind ▸ h.finish
  text := hsame.finish.text ▸ h.text
  errors := by
    have herrors := hsame.errors
    rw [h.errors] at herrors
    exact List.map_eq_nil_iff.mp herrors.symm

/-- Where the source ends, all words have been read. -/
theorem Shows.leads_nil (h : s.Shows ls) (hls : Lexeme.AreText ls) (hleads : s.Leads s')
    (hend : s'.next.kind = .endOfSource) : s'.ahead = [] := by
  rw [kind_next (hleads.onward.finish ▸ h.finish)] at hend
  cases hahead : s'.ahead with
  | nil => rfl
  | cons t ts =>
    rw [hahead] at hend
    have hkind : t.kind = .endOfSource := hend
    rcases hleads.suffix with hsuffix | ⟨u, us, hcons, -, hangle⟩
    · have hmem : t.lexeme ∈ ls := by
        rw [← h.ahead]
        exact List.mem_map_of_mem (hsuffix.subset (hahead ▸ List.mem_cons_self))
      have htext := hls _ hmem
      rw [Token.lexeme, hkind] at htext
      cases htext
    · obtain ⟨rfl, -⟩ := List.cons_eq_cons.mp (hahead.symm.trans hcons)
      rcases hangle with hangle | hangle <;> exact absurd (hkind.symm.trans hangle) nofun

theorem areText_of_errors (h : (ofSource source 0).errors = []) :
    Lexeme.AreText (tokenize source).lexemes := by
  intro l hl
  obtain ⟨t, ht, rfl⟩ := List.mem_map.mp hl
  have hvalid := (areText_tokenize source).valid (List.map_eq_nil_iff.mp h) t ht
  have hkind := (areText_tokenize source).kinds t ht
  simp only [Token.lexeme, TokenKind.isText, hvalid, hkind, ne_eq, not_false_eq_true, decide_true,
    Bool.and_self]

/-- **At the beginning of a source**, all its words are ahead. -/
theorem shows_ofSource (h : Lexeme.AreText (tokenize source).lexemes) :
    (ofSource source 0).Shows (tokenize source).lexemes := by
  have hvalid (t : Token) (ht : t ∈ (tokenize source).tokens) : t.kind ≠ .invalid := by
    intro hkind
    have htext := h _ (List.mem_map_of_mem ht)
    rw [Token.lexeme, hkind] at htext
    cases htext
  refine ⟨?_, (areText_tokenize source).finish, (areText_tokenize source).text, ?_⟩
  · rw [ofSource, Tokens.lexemes]
    dsimp only
    rw [List.filter_eq_self.mpr fun t ht => decide_eq_true (hvalid t ht)]
  · have herrors := (isTiling_tokenize source).errors
    rw [List.filter_eq_nil_iff.mpr fun t ht => by simpa using hvalid t ht, List.map_nil,
      List.map_eq_nil_iff] at herrors
    rw [ofSource, herrors]
    rfl

end ParserState

/-! ### Words alone -/

/-- What is read of a whole text, up to labels. -/
def reading {α : Type} (rule : Rules → Parser α) (relabeled : Relabeling → α → α)
    (source : List Char) : Option α :=
  (Parser.runAll rule source).toOption.map (relabeled .erased)

theorem reading_eq_some {α : Type} {rule : Rules → Parser α} {relabeled : Relabeling → α → α}
    {source : List Char} {a : α} : reading rule relabeled source = some a ↔
      ∃ b, Parser.runAll rule source = .ok b ∧ relabeled .erased b = a := by
  rw [reading]
  cases Parser.runAll rule source <;> simp [Except.toOption]

/-- A rule that reads the same words alike, and that comes to an end. -/
structure Alone {α : Type} (rule : Rules → Parser α) (relabeled : Relabeling → α → α) : Prop where
  parallel : ∀ g, (unlabeled []).Respects g g →
    (unlabeled []).Parallel ((unlabeled []).Same relabeled) (rule g) (rule g)
  settles : ∀ s : ParserState, s.finish.kind = .endOfSource →
    ∃ r, Settles rule (fun _ => 1) s r

theorem alone_expr (power : Nat) : Alone (fun g => g.expr power) Expr.relabeled where
  parallel _ h := h.expr power
  settles _ hfinish := ParserState.exists_settles_expr hfinish power

theorem alone_stmt : Alone (fun g => g.stmt) Stmt.relabeled where
  parallel _ h := h.stmt
  settles _ hfinish := ParserState.exists_settles_stmt hfinish

namespace Alone

variable {α : Type} {rule : Rules → Parser α} {relabeled : Relabeling → α → α}

/-- What is read without errors is text. -/
theorem areText (h : Alone rule relabeled) {source : List Char} {a : α}
    (hread : reading rule relabeled source = some a) :
    Lexeme.AreText (tokenize source).lexemes := by
  obtain ⟨b, hb, -⟩ := reading_eq_some.mp hread
  obtain ⟨t, hrun, -, herrors⟩ := Parser.runAll_eq_ok.mp hb
  obtain ⟨r, hr⟩ := h.settles (ParserState.ofSource source 0) (areText_tokenize source).finish
  have hleads := hr.onward
  rw [← hr.deep _ le_rfl, hrun] at hleads
  exact ParserState.areText_of_errors (List.prefix_nil.mp (herrors ▸ hleads.onward.errors))

/-- From states before the same words the same is read. -/
theorem of_same (h : Alone rule relabeled) {s s' u : ParserState} {ls : List Lexeme}
    (hs : s.Shows ls) (hs' : s'.Shows ls) {m : Nat} {b : α}
    (hrun : rule (grammar m) s = .ok b u) (hu : u.Shows []) :
    ∃ b' u', rule (grammar m) s' = .ok b' u' ∧ u'.Shows [] ∧
      relabeled .erased b' = relabeled .erased b := by
  rcases h.parallel _ (respects_grammar (n := m) (.inl rfl)) s s' (hs.same hs') with
    ⟨-, t, hexhausted⟩ | hsame
  · rw [hrun] at hexhausted
    cases hexhausted
  rw [hrun] at hsame
  cases hrun' : rule (grammar m) s' with
  | ok b' u' =>
    rw [hrun'] at hsame
    exact ⟨b', u', rfl, hu.of_same hsame.2, hsame.1.symm⟩
  | error e u' =>
    rw [hrun'] at hsame
    exact hsame.elim

/-- **A text is read as its words are read**, wherever they stand before the end of a source. -/
theorem reading_iff (h : Alone rule relabeled) {source : List Char} {s : ParserState}
    (htext : Lexeme.AreText (tokenize source).lexemes) (hs : s.Shows (tokenize source).lexemes)
    {m : Nat} (hm : s.depth ≤ m) {a : α} :
    reading rule relabeled source = some a ↔
      ∃ b u, rule (grammar m) s = .ok b u ∧ u.Shows [] ∧ relabeled .erased b = a := by
  have hstart := ParserState.shows_ofSource htext
  obtain ⟨r, hr⟩ := h.settles _ hstart.finish
  have hdeep : rule (grammar m) (.ofSource source 0) = r := by
    refine hr.deep m ?_
    rw [(hstart.same hs).depth]
    exact hm
  rw [reading_eq_some]
  constructor
  · rintro ⟨b, hread, rfl⟩
    obtain ⟨t, hrun, hend, herrors⟩ := Parser.runAll_eq_ok.mp hread
    obtain rfl : r = .ok b t := (hr.deep _ le_rfl).symm.trans hrun
    have hleads : (ParserState.ofSource source 0).Leads t := hr.onward
    have hfinish := hleads.onward.finish
    have ht : t.Shows [] :=
      ⟨by rw [hstart.leads_nil htext hleads hend]; rfl, hfinish ▸ hstart.finish,
        hfinish ▸ hstart.text, herrors⟩
    obtain ⟨b', u, hrun', hu, hsame⟩ := h.of_same hstart hs hdeep ht
    exact ⟨b', u, hrun', hu, hsame⟩
  · rintro ⟨b, u, hrun, hu, rfl⟩
    obtain ⟨b', t, hrun', ht, hsame⟩ := h.of_same hs hstart hrun hu
    obtain rfl := hdeep.symm.trans hrun'
    have hread := Parser.runAll_eq_ok.mpr ⟨t, hr.deep _ le_rfl, ht.kind_end, ht.errors⟩
    exact ⟨b', hread, hsame⟩

end Alone

/-! ### Words among others -/

/-- Words before which an expression or a statement ends. -/
def Lexeme.AreEnd (ls : List Lexeme) : Prop := ∀ l ∈ ls.head?, l.1.isEnd

namespace ParserState

variable {s u : ParserState} {m : Nat} {l : Lexeme} {ls rest : List Lexeme} {x y : List Token}

theorem three_le_depth (s : ParserState) : 3 ≤ s.depth := by
  rw [depth]
  omega

/-- **A place within a source** with the words ahead of it, for which a grammar is deep enough. -/
structure Along (s : ParserState) (m : Nat) (ls : List Lexeme) : Prop where
  shows : s.Shows ls
  consumed : s.consumed ≠ []
  depth : s.depth ≤ m

theorem Along.kind (h : s.Along m (l :: ls)) : s.next.kind = l.1 :=
  congrArg Prod.fst h.shows.next

theorem Along.sign {sign : Sign} (h : s.Along m (sign.lexeme :: ls)) : s.next.kind = sign := h.kind

theorem Along.word {word : Keyword} (h : s.Along m (word.lexeme :: ls)) :
    s.next.kind = .keyword word := h.kind

/-- Behind a word is a place within the source. -/
theorem Shows.along (h : s.Shows (l :: ls)) (hdepth : s.depth ≤ m) : s.advance.Along m ls := by
  obtain ⟨t, ts, hahead, -, hts⟩ := List.map_eq_cons_iff.mp h.ahead
  have hremaining := s.remaining_advance (by rw [hahead]; exact List.cons_ne_nil _ _)
  refine ⟨h.advance, ?_, ?_⟩
  · rw [ParserState.advance]
    simp only [hahead]
    exact List.cons_ne_nil _ _
  · rw [ParserState.depth] at hdepth ⊢
    omega

theorem Along.advance (h : s.Along m (l :: ls)) : s.advance.Along m ls := h.shows.along h.depth


/-- **The tokens of words and of others behind them.** -/
structure Among (s : ParserState) (ls rest : List Lexeme) (x y : List Token) : Prop where
  ahead : s.ahead = x ++ y
  alone : (s.having x).Shows ls
  behind : y.map Token.lexeme = rest

theorem Among.firstKind (h : s.Among ls (l :: rest) x y) : Token.firstKind y = l.1 := by
  obtain ⟨t, ts, rfl, rfl, -⟩ := List.map_eq_cons_iff.mp h.behind
  rfl

theorem Among.isEnd (h : s.Among ls rest x y) (hrest : Lexeme.AreEnd rest) :
    (Token.firstKind y).isEnd := by
  cases y with
  | nil => rfl
  | cons t ts => exact hrest t.lexeme (by rw [← h.behind]; rfl)

namespace Along

/-- Words behind others can be set apart. -/
theorem among (h : s.Along m (ls ++ rest)) :
    ∃ x y, s.Among ls rest x y ∧ (s.having x).depth ≤ m := by
  obtain ⟨x, y, hahead, hx, hy⟩ := List.map_eq_append_iff.mp h.shows.ahead
  refine ⟨x, y, ⟨hahead, ⟨hx, h.shows.finish, h.shows.text, h.shows.errors⟩, hy⟩, ?_⟩
  have hdepth := h.depth
  simp only [ParserState.depth, remaining, ahead_having, hahead, Token.totalWeight_append]
    at hdepth ⊢
  omega

/-- **What is read of words alone is read of them among others.** -/
theorem reads {α : Type} {p : Parser α} {a : α} {room take : Nat} (h : s.Along m (ls ++ rest))
    (hamong : s.Among ls rest x y) (hrest : Lexeme.AreEnd rest)
    (hcarries : (Exchange.ofEnd y (hamong.isEnd hrest)).Carries room 0 take p)
    (hrun : p (s.having x) = .ok a u) (herrors : u.errors = [])
    (hroom : (Exchange.ofEnd y (hamong.isEnd hrest)).Room room u.ahead) :
    p s = .ok a (u.having (u.ahead ++ y)) ∧
      (u.having (u.ahead ++ y)).Along m (u.ahead.map Token.lexeme ++ rest) := by
  have hfinish := h.shows.finish
  obtain ⟨hleads, hrecasts⟩ := hcarries (s.having x) a u trivial hfinish h.consumed hrun
  obtain ⟨x', hx, hrun'⟩ := hrecasts (herrors.trans h.shows.errors.symm) u.ahead
    (List.append_nil _).symm hroom
  obtain rfl : x = x' := hx.before.trans (List.append_nil x')
  -- the words alone, with the others put behind them, are what is there
  have hs : (s.having x).having (x ++ y) = s := by
    rw [← hamong.ahead]
    rfl
  have hrun' : p ((s.having x).having (x ++ y)) = .ok a (u.having (u.ahead ++ y)) := hrun'
  rw [hs] at hrun'
  have honward := hleads.onward
  refine ⟨hrun', ⟨?_, honward.finish ▸ hfinish, honward.finish ▸ h.shows.text, herrors⟩,
    (hleads.goesOn hfinish h.consumed).2, ?_⟩
  · rw [ahead_having, List.map_append, hamong.behind]
  · have hdepth := h.depth
    have hremaining := honward.remaining
    simp only [ParserState.depth, remaining, ahead_having, hamong.ahead, Token.totalWeight_append]
      at hdepth hremaining ⊢
    omega

/-- **A statement is read of its words**, where others follow before which a statement ends. -/
theorem stmt {source : List Char} {a : Stmt} (h : s.Along m ((tokenize source).lexemes ++ rest))
    (hrest : Lexeme.AreEnd rest)
    (hread : reading (fun g => g.stmt) Stmt.relabeled source = some a) :
    ∃ b t, (grammar m).stmt s = .ok b t ∧ t.Along m rest ∧ b.relabeled .erased = a := by
  obtain ⟨x, y, hamong, hdepth⟩ := h.among
  obtain ⟨b, u, hrun, hu, hb⟩ :=
    (alone_stmt.reading_iff (alone_stmt.areText hread) hamong.alone hdepth).mp hread
  obtain ⟨hrun', hgoes⟩ := h.reads hamong hrest (carry_grammar _ m).stmt hrun hu.errors (.ofEnd _)
  rw [hu.ahead] at hgoes
  exact ⟨b, _, hrun', hgoes, hb⟩

end Along

end ParserState

end JavaGraft
