import JavaGraft.Proofs.Grammar.Declarations
import JavaGraft.Proofs.Recovery.Declarations

/-!
# Declarations one after another

The types of a source file are read in a loop, each with recovery of its own. From within a part of
the source in which all that is opened is closed, this loop gets to the end of the part and not
beyond it, as long as all errors are harmless (`JavaGraft.Grammar.typesFrom_reaches`): outside of
all types, what recovery can take wrongly is one closing brace, and behind that the part either
ends or has more braces to close.
-/

namespace JavaGraft

/-! ### The end of the part -/

namespace Enclosure

variable {c : Enclosure} {s : ParserState}

/-- Behind any token of the part, more braces are closed in it than are opened. -/
structure IsPart (c : Enclosure) : Prop where
  closers : ∀ us, us ≠ [] → us ++ c.outside <:+ c.tokens → 1 ≤ Token.closers us
  kinds : ∀ t ∈ c.tokens, t.kind ≠ .endOfSource

/-- The part ends here, or it is not left yet. -/
def Around (c : Enclosure) (s : ParserState) : Prop := s.ahead = c.outside ∨ c.Within 1 s.ahead

theorem Within.next_ne_end (hc : c.IsPart) (hs : c.Within 1 s.ahead) :
    s.next.kind ≠ .endOfSource := by
  obtain ⟨t, us, hahead, -⟩ := hs.cons (Int.le_refl 1)
  rw [ParserState.next_of_ahead hahead]
  rcases hs.whole with h | ⟨t', ht', h⟩
  · rw [hahead] at h
    exact hc.kinds t (h.subset List.mem_cons_self)
  · rw [hahead, List.head?_cons, Option.mem_some_iff] at ht'
    rcases h with h | h <;> rw [ht', h] <;> exact nofun

theorem IsPart.advance (hc : c.IsPart) (hs : c.Within 1 s.ahead) : c.Around s.advance := by
  obtain ⟨t, us, hahead, -⟩ := hs.cons (Int.le_refl 1)
  have hrest : us ++ c.outside <:+ c.tokens := by
    have h := hs.rest
    rwa [hahead] at h
  rw [Around, ParserState.ahead_advance hahead]
  by_cases hus : us = []
  · exact .inl (by rw [hus, List.nil_append])
  · exact .inr ⟨⟨us, rfl, hc.closers us hus hrest⟩, (List.drop_suffix 1 _).trans hrest, .inl hrest⟩

theorem IsPart.recovered (hc : c.IsPart) (hs : c.Within 1 s.ahead) (e : ParseError) :
    c.Around (s.recovered e) := by
  by_cases hnext : s.next.kind = Sign.rbrace
  · obtain ⟨t, us, hahead, -⟩ := hs.cons (Int.le_refl 1)
    have ht : t.kind = Sign.rbrace := ParserState.next_of_ahead hahead ▸ hnext
    have htake : (s.recovered e).ahead = s.advance.ahead := by
      simp only [ParserState.recovered, ParserState.advance, hahead, Parser.synchronize.skip, ht,
        if_true]
    rw [Around, htake]
    exact hc.advance hs
  · exact .inr (RunsFrom.recovered_within e hnext (Int.le_refl 1) hs)

end Enclosure

/-! ### A class -/

namespace Grammar

/-- The declaration of a class from the first one of its members on. -/
def classRest (g : Rules) (modifiers : Modifiers) (name : Ident) (start : Span) :
    Parser TypeDecl := do
  let ms ← members g name.name
  discard (Parser.expect Sign.rbrace)
  return ⟨modifiers, .classType, name, [], none, [], [], ms, ← Parser.spanFrom start⟩

variable {s : ParserState}

theorem modifiers_class (h : s.next.kind = Keyword.kwClass) {g : Rules} (hg : 0 < g.rounds) :
    ∃ m, modifiers g s = .ok m s := by
  have hannot : annot? g s = .ok none s := by
    unfold annot?
    rw [Parser.bind_ok (Parser.get_eq s), Parser.bind_ok (Parser.get_eq s), if_neg (by simp [h])]
    rfl
  have hflag (following : Token) : modifierFlag? s.next following = none := by
    unfold modifierFlag?
    rw [h]
    rfl
  have hstep : modifierStep g (.none, []) s = .ok (.inr (.none, [])) s := by
    unfold modifierStep
    dsimp only
    rw [Parser.bind_ok hannot]
    dsimp only
    rw [Parser.bind_ok (Parser.peek_eq s), Parser.bind_ok (Parser.get_eq s), hflag]
    rfl
  have hloop : Parser.iterate (modifierStep g) g.rounds (.none, []) s = .ok (.none, []) s := by
    obtain ⟨n, hn⟩ := Nat.exists_eq_add_of_lt hg
    rw [hn, Parser.iterate_inr hstep]
  unfold modifiers
  rw [Parser.bind_ok (Parser.peek_eq s), Parser.bind_ok hloop]
  exact ⟨_, rfl⟩

theorem typeDecl_class (hclass : s.next.kind = Keyword.kwClass)
    (hname : s.advance.next.kind = .identifier)
    (hopen : s.advance.advance.next.kind = Sign.lbrace) (n : Nat) (m : Modifiers) :
    ∃ start, typeDecl (grammar (n + 1)) m s
      = classRest (grammar n) m ⟨s.advance.next.text, s.advance.next.span⟩ start
        s.advance.advance.advance := by
  have hkind : typeKind s = .ok .classType s.advance := by
    unfold typeKind
    rw [Parser.bind_ok (Parser.get_eq s), hclass]
    rfl
  -- nothing stands between the name and the brace
  have hparams : typeParams (grammar (n + 1)) s.advance.advance = .ok [] s.advance.advance := by
    unfold typeParams
    rw [Parser.bind_ok (Parser.eat_no (by rw [hopen]; exact nofun))]
    rfl
  have hbehind (word : Keyword) :
      typesBehind (grammar (n + 1)) word s.advance.advance = .ok [] s.advance.advance := by
    unfold typesBehind
    rw [Parser.bind_ok (Parser.eat_no (by rw [hopen]; exact nofun))]
    rfl
  have hsupers : supertypes (grammar (n + 1)) .classType s.advance.advance
      = .ok (none, []) s.advance.advance := by
    unfold supertypes
    dsimp only
    rw [Parser.bind_ok (Parser.eat_no (by rw [hopen]; exact nofun)), if_neg nofun, pure_bind,
      Parser.bind_ok (hbehind _)]
    rfl
  refine ⟨if m.span.isEmpty then s.next.span else m.span, ?_⟩
  unfold typeDecl
  rw [Parser.bind_ok (Parser.peek_eq s), Parser.bind_ok hkind,
    Parser.bind_ok (Parser.identifier_ok hname), Parser.bind_ok hparams, Parser.bind_ok hsupers]
  dsimp only
  rw [if_neg nofun]
  have hbody : (grammar (n + 1)).classBody = classBody (grammar n) := rfl
  rw [hbody, classBody]
  simp only [bind_assoc, pure_bind]
  rw [Parser.bind_ok (Parser.discard_ok (Parser.expect_ok hopen))]
  rfl

/-- Behind the opening brace of a class come its members, and then a closing brace or an error. -/
theorem topLevel_class {c : Enclosure} {n r : Nat} (hr : 8 * r ≤ n + 4)
    (hclass : s.next.kind = Keyword.kwClass) (hname : s.advance.next.kind = .identifier)
    (hopen : s.advance.advance.next.kind = Sign.lbrace) (hfinish : s.finish.kind = .endOfSource)
    (hremaining : s.advance.advance.advance.remaining < r) :
    ∃ s', c.Later 0 s.advance.advance.advance s' ∧
      ((∃ e, topLevel (grammar (n + 2)) s = .error (.rejected e) s') ∨
        ∃ d, topLevel (grammar (n + 2)) s = .ok (some d) s'.advance) := by
  have hrounds : 0 < (grammar (n + 2)).rounds := Nat.succ_pos n
  obtain ⟨m, hm⟩ := modifiers_class hclass hrounds
  obtain ⟨start, hstart⟩ := typeDecl_class hclass hname hopen n m
  have hsemi : s.next.kind ≠ Sign.semicolon := by rw [hclass]; exact nofun
  have hdecl : (grammar (n + 2)).typeDecl m s = _ := hstart
  have hmembers := runs_members (keep_grammar c n) s.advance.next.text hr
    s.advance.advance.advance trivial (by simpa using hfinish) hremaining
  unfold topLevel
  rw [Parser.bind_ok (Parser.eat_no hsemi), if_neg nofun, Parser.bind_ok hm]
  -- if the members end without a closing brace, the declaration is rejected there
  revert hmembers
  rcases hrun : members (grammar n) s.advance.next.text s.advance.advance.advance with
    ⟨ms, s'⟩ | ⟨e | _, s'⟩
  · rintro ⟨-, hlater⟩
    refine ⟨s', hlater, ?_⟩
    by_cases hclose : s'.next.kind = Sign.rbrace
    · right
      rw [classRest, Parser.bind_ok hrun,
        Parser.bind_ok (Parser.discard_ok (Parser.expect_ok hclose))] at hdecl
      exact ⟨_, Parser.bind_ok hdecl⟩
    · left
      obtain ⟨e, he⟩ := Parser.expect_no hclose
      rw [classRest, Parser.bind_ok hrun, Parser.bind_error (Parser.discard_error he)] at hdecl
      exact ⟨e, Parser.bind_error hdecl⟩
  · rintro ⟨-, hlater, -⟩
    rw [classRest, Parser.bind_error hrun] at hdecl
    exact ⟨s', hlater, .inl ⟨e, Parser.bind_error hdecl⟩⟩
  · exact False.elim

/-- A class whose members are within the part is read up to the end of the part at most. -/
theorem class_around {c : Enclosure} {n r : Nat} (hr : 8 * r ≤ n + 4) (hc : c.IsPart)
    (hclass : s.next.kind = Keyword.kwClass) (hname : s.advance.next.kind = .identifier)
    (hopen : s.advance.advance.next.kind = Sign.lbrace) (hfinish : s.finish.kind = .endOfSource)
    (hremaining : s.advance.advance.advance.remaining < r)
    (hs : c.Within 1 s.advance.advance.advance.ahead) {d : Option TypeDecl} {s' : ParserState}
    (hitem : Parser.recovering (topLevel (grammar (n + 2))) s = .ok d s') (hs' : c.Unharmed s') :
    c.Around s' := by
  obtain ⟨t, hlater, ⟨e, hrun⟩ | ⟨d, hrun⟩⟩ :=
    topLevel_class (c := c) hr hclass hname hopen hfinish hremaining
  · rw [Parser.recovering_rejected hrun] at hitem
    cases hitem
    refine hc.recovered (hlater.place (hs'.of_prefix ?_) 1 (Int.le_refl 1) hs) e
    rw [t.errors_recovered e]
    exact List.prefix_append _ _
  · rw [Parser.recovering_ok hrun] at hitem
    cases hitem
    refine hc.advance (hlater.place (hs'.of_prefix ?_) 1 (Int.le_refl 1) hs)
    rw [t.errors_advance]

/-! ### A declaration -/

variable {c : Enclosure} {g : Rules} {n r : Nat}

/-- A declaration that does not start as one is rejected at once. -/
theorem typeDecl_missing (h : ¬startsTypeDecl s.next.kind) (m : Modifiers) :
    typeDecl g m s = .error (.rejected ⟨.expectedDeclaration s.next.kind, s.next.span⟩) s := by
  have hkind : typeKind s
      = .error (.rejected ⟨.expectedDeclaration s.next.kind, s.next.span⟩) s := by
    unfold typeKind
    rw [Parser.bind_ok (Parser.get_eq s)]
    generalize hkind : s.next.kind = kind at h ⊢
    split
    · exact absurd rfl h
    · exact absurd rfl h
    · exact absurd rfl h
    · exact absurd rfl h
    · rw [← hkind]
      rfl
  unfold typeDecl
  rw [Parser.bind_ok (Parser.peek_eq s), Parser.bind_error hkind]

/-- How a declaration outside of all types ends: like all rules, or it is rejected wherever its
modifiers end. -/
theorem topLevel_ends (h : g.Keep c n) (hg : ∃ g', g.typeDecl = typeDecl g') (hr : 8 * r ≤ n + 5)
    (hfinish : s.finish.kind = .endOfSource) (hremaining : s.remaining < r) :
    c.EndsWell 0 (fun _ => 1) s (topLevel g s) ∨ ∃ e s', topLevel g s = .error (.rejected e) s' ∧
      s'.remaining ≤ s.remaining ∧ c.Later 0 s s' := by
  by_cases hsemi : s.next.kind = Sign.semicolon
  · left
    have hinner : s.next.kind.isInner := by rw [hsemi]; rfl
    unfold topLevel
    rw [Parser.bind_ok (Parser.eat_ok hsemi), if_pos rfl]
    exact .advanced hinner hfinish ⟨le_rfl, .refl _⟩
  · have hmodifiers := runs_modifiers h hr s trivial hfinish hremaining
    unfold topLevel
    rw [Parser.bind_ok (Parser.eat_no hsemi), if_neg nofun]
    revert hmodifiers
    rcases hrun : modifiers g s with ⟨m, s'⟩ | ⟨e | _, s'⟩
    · rintro ⟨htake, hlater⟩
      dsimp only at htake
      rw [Parser.bind_ok hrun]
      -- behind its modifiers a type comes, or the declaration is rejected there
      by_cases hstart : startsTypeDecl s'.next.kind
      · left
        have hdecl : c.RunsFrom (fun s => (∃ e, c.harmless e) → startsTypeDecl s.next.kind) r 0
            (fun _ => 1) (do return some (← g.typeDecl m)) :=
          (h.typeDecl m (by omega)).bind fun _ => .pure rfl
        refine .after htake hlater.finish hlater.errors (fun hs' depth hdepth hwithin => ?_)
          (hdecl s' (fun _ => hstart) (hlater.finish ▸ hfinish) (by omega))
        exact hlater.place hs' _ (by omega) (by simpa using hwithin)
      · right
        obtain ⟨g', hg'⟩ := hg
        rw [hg', Parser.bind_error (typeDecl_missing hstart m)]
        exact ⟨_, _, rfl, htake, hlater⟩
    · rintro ⟨htake, hlater, -⟩
      rw [Parser.bind_error hrun]
      exact .inr ⟨_, _, rfl, htake, hlater⟩
    · exact False.elim

/-- A declaration outside of all types takes something, and is left out if it is rejected. -/
theorem topLevel_step (h : g.Keep c n) (hg : ∃ g', g.typeDecl = typeDecl g') (hr : 8 * r ≤ n + 5)
    (hfinish : s.finish.kind = .endOfSource) (hremaining : s.remaining < r)
    (hnext : s.next.kind ≠ .endOfSource) :
    ∃ d s', Parser.recovering (topLevel g) s = .ok d s' ∧ s'.remaining + 1 ≤ s.remaining ∧
      s'.finish = s.finish ∧ s.errors <+: s'.errors ∧
      (c.IsPart → c.Unharmed s' → c.Within 1 s.ahead → c.Around s') := by
  have hrejected {e : ParseError} {s' : ParserState} (hrun : topLevel g s = .error (.rejected e) s')
      (htake : s'.remaining ≤ s.remaining) (hlater : c.Later 0 s s') :
      ∃ d s', Parser.recovering (topLevel g) s = .ok d s' ∧ s'.remaining + 1 ≤ s.remaining ∧
        s'.finish = s.finish ∧ s.errors <+: s'.errors ∧
        (c.IsPart → c.Unharmed s' → c.Within 1 s.ahead → c.Around s') := by
    have herrors := s'.errors_recovered e
    refine ⟨none, _, Parser.recovering_rejected hrun, ParserState.remaining_recovered e htake
      (ParserState.ahead_of_next hnext hfinish), (s'.finish_recovered e).trans hlater.finish, ?_,
      fun hc hs' hs => ?_⟩
    · rw [herrors]
      exact hlater.errors.trans (List.prefix_append _ _)
    · refine hc.recovered (hlater.place (hs'.of_prefix ?_) 1 (Int.le_refl 1) hs) e
      rw [herrors]
      exact List.prefix_append _ _
  rcases topLevel_ends h hg hr hfinish hremaining with hends | ⟨e, s', hrun, htake, hlater⟩
  · revert hends
    rcases hrun : topLevel g s with ⟨d, s'⟩ | ⟨e | _, s'⟩
    · rintro ⟨htake, hlater⟩
      exact ⟨d, s', Parser.recovering_ok hrun, htake, hlater.finish, hlater.errors,
        fun _ hs' hs => .inr (hlater.place hs' 1 (Int.le_refl 1) hs)⟩
    · rintro ⟨htake, hlater, -⟩
      exact hrejected hrun htake hlater
    · exact False.elim
  · exact hrejected hrun htake hlater

/-! ### The loop -/

/-- The types of a source file, some being found already. -/
def typesFrom (g : Rules) (rounds : Nat) (found : List TypeDecl) : Parser (List TypeDecl) :=
  Parser.collectFrom (return !(← Parser.atEnd)) (Parser.recovering (topLevel g)) rounds found

theorem typesFrom_end (h : s.next.kind = .endOfSource) (g : Rules) (rounds : Nat)
    (found : List TypeDecl) : typesFrom g (rounds + 1) found s = .ok found.reverse s := by
  unfold typesFrom Parser.collectFrom
  refine Parser.iterate_inr ?_
  have hmore : (do return !(← Parser.atEnd) : Parser Bool) s = .ok false s := by
    rw [Parser.atEnd, Parser.bind_ok (Parser.check_eq _ s), decide_eq_true h]
    rfl
  rw [Parser.bind_ok hmore]
  rfl

theorem typesFrom_step (h : s.next.kind ≠ .endOfSource) {d : Option TypeDecl} {s' : ParserState}
    (hitem : Parser.recovering (topLevel g) s = .ok d s') (rounds : Nat) (found : List TypeDecl) :
    typesFrom g (rounds + 1) found s = typesFrom g rounds (d.toList ++ found) s' := by
  unfold typesFrom Parser.collectFrom
  refine Parser.iterate_inl ?_
  have hmore : (do return !(← Parser.atEnd) : Parser Bool) s = .ok true s := by
    rw [Parser.atEnd, Parser.bind_ok (Parser.check_eq _ s), decide_eq_false h]
    rfl
  rw [Parser.bind_ok hmore, if_pos rfl, Parser.bind_ok hitem]
  cases d <;> rfl

/-- The loop succeeds whatever errors there are, and adds to them. -/
theorem typesFrom_ok (h : g.Keep c n) (hg : ∃ g', g.typeDecl = typeDecl g') (hr : 8 * r ≤ n + 5)
    (hfinish : s.finish.kind = .endOfSource) (hremaining : s.remaining < r) {rounds : Nat}
    (hrounds : s.remaining < rounds) (found : List TypeDecl) :
    ∃ ds s', typesFrom g rounds found s = .ok ds s' ∧ s.errors <+: s'.errors := by
  induction rounds generalizing s found with
  | zero => exact absurd hrounds (Nat.not_lt_zero _)
  | succ rounds ih =>
    by_cases hnext : s.next.kind = .endOfSource
    · exact ⟨_, _, typesFrom_end hnext g rounds found, List.prefix_rfl⟩
    · obtain ⟨d, s', hitem, htake, hfinish', herrors, -⟩ :=
        topLevel_step h hg hr hfinish hremaining hnext
      obtain ⟨ds, s'', hrun, herrors'⟩ := ih (s := s') (hfinish' ▸ hfinish) (by omega) (by omega)
        (d.toList ++ found)
      rw [typesFrom_step hnext hitem]
      exact ⟨ds, s'', hrun, herrors.trans herrors'⟩

/-- **The loop gets to the end of the part** from within it, and rounds are left for what is
behind it. -/
theorem typesFrom_reaches (h : g.Keep c n) (hg : ∃ g', g.typeDecl = typeDecl g')
    (hr : 8 * r ≤ n + 5) (hc : c.IsPart) (hfinish : s.finish.kind = .endOfSource)
    (hremaining : s.remaining < r) {rounds : Nat} (hrounds : s.remaining < rounds)
    (found : List TypeDecl) (hs : c.Around s)
    (hend : ∀ ds s', typesFrom g rounds found s = .ok ds s' → c.Unharmed s') :
    ∃ s' rounds' found', typesFrom g rounds found s = typesFrom g rounds' found' s' ∧
      s'.ahead = c.outside ∧ s'.finish = s.finish ∧
      rounds + s'.remaining ≤ rounds' + s.remaining := by
  induction rounds generalizing s found with
  | zero => exact absurd hrounds (Nat.not_lt_zero _)
  | succ rounds ih =>
    rcases hs with hs | hs
    · exact ⟨s, rounds + 1, found, rfl, hs, rfl, le_rfl⟩
    · have hnext := hs.next_ne_end hc
      obtain ⟨d, s', hitem, htake, hfinish', -, hplace⟩ :=
        topLevel_step h hg hr hfinish hremaining hnext
      have hstep := typesFrom_step hnext hitem rounds found
      obtain ⟨ds, s'', hrun, herrors⟩ := typesFrom_ok (s := s') h hg hr (hfinish' ▸ hfinish)
        (by omega) (show s'.remaining < rounds by omega) (d.toList ++ found)
      have hunharmed : c.Unharmed s' :=
        Enclosure.Unharmed.of_prefix (hend ds s'' (hstep.trans hrun)) herrors
      obtain ⟨t, rounds', found', heq, ht, hfinish'', hleft⟩ := ih (s := s')
        (hfinish' ▸ hfinish) (by omega) (by omega) (d.toList ++ found) (hplace hc hunharmed hs)
        fun ds s'' hrun => hend ds s'' (hstep.trans hrun)
      exact ⟨t, rounds', found', hstep.trans heq, ht, hfinish''.trans hfinish', by omega⟩

/-- A source file without a package and imports. -/
theorem sourceUnit_eq (hpackage : s.next.kind ≠ Keyword.kwPackage)
    (himport : s.next.kind ≠ Keyword.kwImport) (hrounds : 0 < g.rounds) :
    sourceUnit g s = (typesFrom g g.rounds [] >>= fun types => do
      return ⟨none, [], types, ← Parser.spanFrom s.next.span⟩ : Parser SourceUnit) s := by
  have himports : Parser.collectWhile g.rounds (Parser.check Keyword.kwImport)
      (Parser.recovering (some <$> importDecl g)) s = .ok [] s := by
    obtain ⟨n, hn⟩ := Nat.exists_eq_add_of_lt hrounds
    rw [hn, Parser.collectWhile]
    refine Parser.iterate_inr ?_
    rw [Parser.bind_ok (Parser.check_eq _ s), decide_eq_false himport]
    rfl
  unfold sourceUnit
  rw [Parser.bind_ok (Parser.peek_eq s), Parser.bind_ok (Parser.check_eq _ s),
    decide_eq_false hpackage, if_neg nofun, pure_bind]
  dsimp only
  rw [Parser.bind_ok himports]
  rfl

/-- The loop over declarations has corresponding runs whatever the second one has found before. -/
theorem parallel_typesFrom {c : Correspondence} {g g' : Rules} (hg : c.Respects g g')
    {rounds rounds' : Nat} (hrounds : c.SameRounds rounds rounds') {found found' : List TypeDecl}
    {base : List TypeDecl} (hfound : found'.map (TypeDecl.relabeled c.right)
      = found.map (TypeDecl.relabeled c.left) ++ base) :
    c.Parallel (fun ds ds' => ds'.map (TypeDecl.relabeled c.right)
        = base.reverse ++ ds.map (TypeDecl.relabeled c.left))
      (typesFrom g rounds found) (typesFrom g' rounds' found') := by
  refine Correspondence.Parallel.iterate (B := fun found found' =>
    found'.map (TypeDecl.relabeled c.right) = found.map (TypeDecl.relabeled c.left) ++ base)
    (fun as as' has => ?_) hrounds hfound
  refine .whether ?_ ((Correspondence.Parallel.recovering (parallel_topLevel hg)).bind
    fun a a' ha => ?_) (.pure (.inr ?_))
  · exact Correspondence.Parallel.atEnd.bind fun b b' hb => .pure (by rw [hb])
  · cases a <;> cases a' <;> simp only [Correspondence.SameOption, Option.map_some,
      Option.map_none, reduceCtorEq, Option.some.injEq] at ha
    · exact .pure (.inl has)
    · exact .pure (.inl (by rw [List.map_cons, List.map_cons, has, ha, List.cons_append]))
  · rw [List.map_reverse, List.map_reverse, has, List.reverse_append]

end Grammar

end JavaGraft
