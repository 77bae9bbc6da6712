import JavaGraft.Proofs.Grammar.Layout
import JavaGraft.Proofs.Recovery.TopLevel

/-!
# Errors in a method do not reach the declarations behind its class

The declarations behind a class are read from a source with errors as they are read on their own, if
the body of the class closes the braces that it opens, and if no error loses one of them
(`JavaGraft.parseUnit_contains`). An error loses a brace if recovery from it starts at a closing
brace, since recovery always takes a token. That is not what the rules need: a block would end at
this very brace. So in `class A { void m() { x } } class B { }`, where the semicolon is found
missing at the brace behind `x`, the method goes on behind it, `B` becomes a member of `A`, and `A`
has no end (`JavaGraft.parseUnit_swallows`).
-/

namespace JavaGraft

open Grammar

/-! ### Braces -/

namespace Lexeme

/-- Whether the words close the braces that are open at first, and all that they open, and none
before it is open. -/
def balanced (depth : Int) : List Lexeme → Bool
  | [] => depth = 0
  | l :: ls => l.1.closes ≤ depth && balanced (depth - l.1.closes) ls

theorem balanced_append {depth depth' : Int} {ls ls' : List Lexeme} (h : balanced depth ls)
    (h' : balanced depth' ls') (hdepth : 0 ≤ depth') : balanced (depth + depth') (ls ++ ls') := by
  induction ls generalizing depth with
  | nil =>
    rw [of_decide_eq_true h, Int.zero_add]
    exact h'
  | cons l ls ih =>
    rw [balanced, Bool.and_eq_true, decide_eq_true_eq] at h
    rw [List.cons_append, balanced, Bool.and_eq_true, decide_eq_true_eq]
    have hrest := ih h.2
    rw [show depth - l.1.closes + depth' = depth + depth' - l.1.closes by omega] at hrest
    exact ⟨by omega, hrest⟩

/-- The words of a class with a body. -/
def ofClass (name : String) (body : List Lexeme) : List Lexeme :=
  (.keyword .kwClass, "class") :: (.identifier, name) :: Sign.lbrace.lexeme ::
    (body ++ [Sign.rbrace.lexeme])

/-- The words of a method without parameters and result. -/
def ofMethod (name : String) (body : List Lexeme) : List Lexeme :=
  (.keyword .kwVoid, "void") :: (.identifier, name) :: Sign.lparen.lexeme :: Sign.rparen.lexeme ::
    Sign.lbrace.lexeme :: (body ++ [Sign.rbrace.lexeme])

theorem balanced_ofMethod {body : List Lexeme} (h : balanced 0 body) (name : String) :
    balanced 0 (ofMethod name body) := by
  have hclose : balanced (0 + 1) (body ++ [Sign.rbrace.lexeme]) :=
    balanced_append h rfl (by decide)
  exact hclose

end Lexeme

namespace Token

/-- Balanced words close as many braces as are open at first. -/
theorem closers_of_balanced {depth : Int} {ts : List Token}
    (h : Lexeme.balanced depth (ts.map lexeme)) : closers ts = depth := by
  induction ts generalizing depth with
  | nil => exact (of_decide_eq_true h).symm
  | cons t ts ih =>
    rw [List.map_cons, Lexeme.balanced, Bool.and_eq_true] at h
    rw [closers_cons, ih h.2]
    exact Int.add_comm _ _ ▸ Int.sub_add_cancel _ _

/-- Behind some of balanced words, no more braces are opened than closed. -/
theorem closers_nonneg {depth : Int} {ts us : List Token}
    (h : Lexeme.balanced depth (ts.map lexeme)) (hdepth : 0 ≤ depth) (hus : us <:+ ts) :
    0 ≤ closers us := by
  obtain ⟨vs, rfl⟩ := hus
  induction vs generalizing depth with
  | nil => exact (closers_of_balanced h).symm ▸ hdepth
  | cons v vs ih =>
    rw [List.cons_append, List.map_cons, Lexeme.balanced, Bool.and_eq_true,
      decide_eq_true_eq] at h
    obtain ⟨hv, hrest⟩ := h
    exact ih (by omega) hrest

theorem totalWeight_append (ts us : List Token) :
    totalWeight (ts ++ us) = totalWeight ts + totalWeight us := by
  induction ts with
  | nil => rw [List.nil_append, totalWeight, Nat.zero_add]
  | cons t ts ih => rw [List.cons_append, totalWeight, totalWeight, ih, Nat.add_assoc]

end Token

/-! ### Errors that lose a brace -/

/-- Whether recovery from an error starts at a closing brace that ends something: the error was
noticed there, or behind a faulty literal or a `.class` with the brace coming next. -/
def ParseError.losesBrace (tokens : List Token) (e : ParseError) : Bool :=
  match e.fault with
  | .expectedDeclaration _ => false
  | .notATypeName | .badLiteral .. => Token.closesBehind e.span tokens
  | fault => fault.found? = some (.sign .rbrace)

/-- A part of the tokens of a source, and the errors in it that lose no brace. -/
def Enclosure.ofTokens (all part outside : List Token) (h : part ++ outside <:+ all) :
    Enclosure where
  tokens := part ++ outside
  outside := outside
  harmless e := e.losesBrace all = false
  harmless_found := by
    rintro ⟨fault, span⟩ he hfound
    cases fault <;> simp_all [ParseError.losesBrace, ParseFault.found?]
  harmless_behind := by
    rintro ⟨fault, span⟩ he hfault
    have hspan : Token.closesBehind span all = false := by
      rcases hfault with rfl | ⟨_, _, rfl⟩ <;> exact he
    rw [Bool.eq_false_iff]
    intro hpart
    rw [Token.closesBehind_of_suffix h hpart] at hspan
    cases hspan

/-! ### Whole sources -/

namespace Grammar

theorem rounds_grammar (n : Nat) : (grammar n).rounds = n - 1 := by cases n <;> rfl

theorem typeDecl_grammar (n : Nat) : ∃ g, (grammar (n + 1)).typeDecl = typeDecl g :=
  ⟨grammar n, rfl⟩

end Grammar

/-- The state before words. -/
theorem ParserState.ofSource_words {source : List Char} {ls : List Lexeme}
    (h : (tokenize source).AreWords ls) (n : Nat) :
    ofSource source n = ⟨[], (tokenize source).tokens, (tokenize source).finish, [], n⟩ := by
  have hvalid : (tokenize source).tokens.filter (·.kind ≠ .invalid) = (tokenize source).tokens :=
    List.filter_eq_self.mpr fun t ht => by
      simpa using (areText_tokenize source).valid h.errors t ht
  rw [ofSource, hvalid, h.errors]
  rfl

theorem ParserState.next_ofSource {source : List Char} {ls : List Lexeme}
    (h : (tokenize source).AreWords ls) (n : Nat) :
    (ofSource source n).next.kind = (ls.head?.map Prod.fst).getD .endOfSource := by
  rw [ofSource_words h, ← h.tokens, next, nth]
  cases (tokenize source).tokens with
  | nil => exact h.finish
  | cons t ts => rfl

/-- A source without a package and imports is read by the loop over its types. -/
theorem parseUnit_typesFrom {source : List Char} {s : ParserState} {n : Nat}
    (hs : s = .ofSource source n) (hpackage : s.next.kind ≠ Keyword.kwPackage)
    (himport : s.next.kind ≠ Keyword.kwImport) :
    ∃ ds s', typesFrom (grammar s.depth) (s.depth - 1) [] s = .ok ds s' ∧
      (parseUnit source n).unit.types = ds ∧ (parseUnit source n).errors = s'.errors := by
  have hdepth : s.depth = 8 * (s.remaining + 2) := rfl
  have hrounds : (grammar s.depth).rounds = s.depth - 1 := rounds_grammar _
  have hfinish : s.finish.kind = .endOfSource := hs ▸ (areText_tokenize source).finish
  obtain ⟨m, hm⟩ : ∃ m, s.depth = m + 1 := ⟨s.depth - 1, by omega⟩
  obtain ⟨ds, s', hrun, -⟩ := typesFrom_ok (keep_grammar .none s.depth)
    (hm ▸ typeDecl_grammar m) (show 8 * (s.remaining + 1) ≤ s.depth + 5 by omega) hfinish
    (Nat.lt_succ_self _) (show s.remaining < s.depth - 1 by omega) []
  refine ⟨ds, s', hrun, ?_⟩
  have hunit := sourceUnit_eq (g := grammar s.depth) hpackage himport (by omega)
  rw [hrounds, Parser.bind_ok hrun] at hunit
  rw [parseUnit, Parser.run, ← hs, hunit]
  exact ⟨rfl, rfl⟩

/-! ### Declarations behind a class -/

/-- The tokens of a class with a balanced body: behind its opening brace, all of them that are left
close more braces than they open. -/
theorem Token.part_of_class {ts : List Token} {name : String} {body ls : List Lexeme}
    (hts : ts.map lexeme = Lexeme.ofClass name body ++ ls) (hbody : Lexeme.balanced 0 body) :
    ∃ t u v part outside, ts = t :: u :: v :: (part ++ outside) ∧ t.kind = Keyword.kwClass ∧
      u.kind = .identifier ∧ v.kind = Sign.lbrace ∧ outside.map lexeme = ls ∧ part ≠ [] ∧
      ∀ us, us ≠ [] → us <:+ part → 1 ≤ closers us := by
  rw [Lexeme.ofClass] at hts
  obtain ⟨t, ts, rfl, ht, hts⟩ := List.map_eq_cons_iff.mp hts
  obtain ⟨u, ts, rfl, hu, hts⟩ := List.map_eq_cons_iff.mp hts
  obtain ⟨v, ts, rfl, hv, hts⟩ := List.map_eq_cons_iff.mp hts
  obtain ⟨part, outside, rfl, hpart, houtside⟩ := List.map_eq_append_iff.mp hts
  obtain ⟨inner, last, rfl, hinner, hlast⟩ := List.map_eq_append_iff.mp hpart
  obtain ⟨w, last, rfl, hw, hlast⟩ := List.map_eq_cons_iff.mp hlast
  obtain rfl := List.map_eq_nil_iff.mp hlast
  refine ⟨t, u, v, inner ++ [w], outside, rfl, congrArg Prod.fst ht, congrArg Prod.fst hu,
    congrArg Prod.fst hv, houtside, by simp, fun us hus hsuffix => ?_⟩
  have hclose : w.kind.closes = 1 := by
    rw [show w.kind = Sign.rbrace from congrArg Prod.fst hw]
    rfl
  rcases List.suffix_concat_iff.mp hsuffix with rfl | ⟨vs, rfl, hvs⟩
  · exact absurd rfl hus
  · have hnonneg := closers_nonneg (hinner.symm ▸ hbody) (Int.le_refl 0) hvs
    simp only [closers_append, closers_cons, closers_nil, hclose]
    omega

/-- Such a class encloses what is left behind its opening brace. -/
theorem Enclosure.exists_of_class {ts : List Token} {name : String} {body ls : List Lexeme}
    (hts : ts.map Token.lexeme = Lexeme.ofClass name body ++ ls) (hbody : Lexeme.balanced 0 body)
    (hkinds : ∀ t ∈ ts, t.kind ≠ .endOfSource) :
    ∃ (c : Enclosure) (t u v : Token) (rest : List Token), ts = t :: u :: v :: rest ∧
      t.kind = Keyword.kwClass ∧ u.kind = .identifier ∧ v.kind = Sign.lbrace ∧ c.IsPart ∧
      c.Within 1 rest ∧ c.outside.map Token.lexeme = ls ∧ c.outside <:+ rest ∧
      ∀ e, e.losesBrace ts = false → c.harmless e := by
  obtain ⟨t, u, v, part, outside, rfl, ht, hu, hv, houtside, hne, hclosers⟩ :=
    Token.part_of_class hts hbody
  have hsuffix : part ++ outside <:+ t :: u :: v :: (part ++ outside) := ⟨[t, u, v], rfl⟩
  have hpart : (ofTokens _ part outside hsuffix).IsPart :=
    ⟨fun us hus h => hclosers us hus ((List.suffix_append_inj_of_length_eq rfl).mp h).1,
      fun w hw => hkinds w (hsuffix.subset hw)⟩
  have hwithin : (ofTokens _ part outside hsuffix).Within 1 (part ++ outside) :=
    ⟨⟨part, rfl, hclosers part hne (List.suffix_refl _)⟩, List.drop_suffix 1 _,
      .inl (List.suffix_refl _)⟩
  exact ⟨ofTokens _ part outside hsuffix, t, u, v, part ++ outside, rfl, ht, hu, hv, hpart,
    hwithin, houtside, ⟨part, rfl⟩, fun _ => id⟩

/-- The loop over the types of a source that starts with a class of balanced body gets to what is
behind the class, unless an error loses a brace. -/
theorem typesFrom_behind {source : List Char} {name : String} {body ls : List Lexeme}
    (hsource : (tokenize source).AreWords (Lexeme.ofClass name body ++ ls))
    (hbody : Lexeme.balanced 0 body) {n : Nat} {s sF : ParserState} {ds : List TypeDecl}
    (hs : s = .ofSource source n)
    (hrun : typesFrom (grammar s.depth) (s.depth - 1) [] s = .ok ds sF)
    (hlost : ∀ e ∈ sF.errors, e.losesBrace (tokenize source).tokens = false) :
    ∃ s' rounds found, typesFrom (grammar s.depth) rounds found s' = .ok ds sF ∧
      s'.ahead.map Token.lexeme = ls ∧ s'.finish = s.finish ∧ s'.depth ≤ s.depth ∧
      s'.depth ≤ rounds + 1 := by
  obtain ⟨c, t, u, v, rest, htokens, ht, hu, hv, hc, hwithin, houtside, hsuffix, hharmless⟩ :=
    Enclosure.exists_of_class hsource.tokens hbody (areText_tokenize source).kinds
  have hstate : s = ⟨[], t :: u :: v :: rest, (tokenize source).finish, [], n⟩ := by
    rw [hs, ParserState.ofSource_words hsource, htokens]
  have hfinish : s.finish.kind = .endOfSource := hs ▸ (areText_tokenize source).finish
  have hclass : s.next.kind = Keyword.kwClass := by rw [hstate]; exact ht
  have hname : s.advance.next.kind = .identifier := by rw [hstate]; exact hu
  have hopen : s.advance.advance.next.kind = Sign.lbrace := by rw [hstate]; exact hv
  have hinside : c.Within 1 s.advance.advance.advance.ahead := by rw [hstate]; exact hwithin
  have hthree : s.advance.advance.advance.remaining < s.remaining := by
    rw [hstate]
    have hweight := t.one_le_weight
    show Token.totalWeight rest < Token.totalWeight (t :: u :: v :: rest)
    simp only [Token.totalWeight]
    omega
  -- The first round reads the class.
  have hdepth : s.depth = 8 * (s.remaining + 2) := rfl
  obtain ⟨k, hk⟩ : ∃ k, s.depth = k + 2 := ⟨s.depth - 2, by omega⟩
  have hkeep := keep_grammar c s.depth
  have htypeDecl : ∃ g, (grammar s.depth).typeDecl = typeDecl g := hk ▸ typeDecl_grammar (k + 1)
  have hbound : 8 * (s.remaining + 1) ≤ s.depth + 5 := by omega
  obtain ⟨d, s₁, hitem, htake, hfinish₁, -, -⟩ := topLevel_step hkeep htypeDecl hbound hfinish
    (Nat.lt_succ_self _) (by rw [hclass]; decide)
  have hfirst := typesFrom_step (by rw [hclass]; decide) hitem k []
  have hrun₁ : typesFrom (grammar s.depth) k (d.toList ++ []) s₁ = .ok ds sF := by
    rw [← hfirst, ← hrun, hk]
    rfl
  have hunharmed : c.Unharmed sF := fun e he => hharmless e (hlost e he)
  obtain ⟨ds', sF', hrun', herrors⟩ := typesFrom_ok hkeep htypeDecl hbound (hfinish₁ ▸ hfinish)
    (show s₁.remaining < s.remaining + 1 by omega) (show s₁.remaining < k by omega) (d.toList ++ [])
  have hlast : sF' = sF := (EStateM.Result.ok.inj (hrun'.symm.trans hrun₁)).2
  have haround : c.Around s₁ := by
    refine class_around (n := k) (r := s.remaining) (by omega) hc hclass hname hopen hfinish
      hthree hinside (hk ▸ hitem) (hunharmed.of_prefix (hlast ▸ herrors))
  -- The other rounds get to the end of the class.
  obtain ⟨s₂, rounds, found, heq, hahead, hfinish₂, hrounds⟩ := typesFrom_reaches hkeep htypeDecl
    hbound hc (hfinish₁ ▸ hfinish) (show s₁.remaining < s.remaining + 1 by omega)
    (show s₁.remaining < k by omega) (d.toList ++ []) haround fun ds' sF' hrun' =>
      (EStateM.Result.ok.inj (hrun'.symm.trans hrun₁)).2 ▸ hunharmed
  have hremaining : s₂.remaining ≤ s.remaining := by
    obtain ⟨vs, hvs⟩ := hsuffix
    rw [hstate, ParserState.remaining, ParserState.remaining, hahead, ← hvs]
    simp only [Token.totalWeight, Token.totalWeight_append]
    omega
  have hdepth₂ : s₂.depth = 8 * (s₂.remaining + 2) := rfl
  exact ⟨s₂, rounds, found, heq ▸ hrun₁, hahead ▸ houtside, hfinish₂.trans hfinish₁, by omega,
    by omega⟩

/-- Where labels do not matter at all, the second run has recorded errors before, and its bounds may
be wider. -/
def Correspondence.unlabeled (earlier : List ParseError) : Correspondence :=
  ⟨.erased, .erased, .inr fun _ _ => rfl, earlier.map (ParseError.relabeled .erased), True⟩

/-- States before the same words, when the first run begins. -/
theorem Correspondence.sameState_unlabeled {s s' : ParserState}
    (hahead : s.ahead.map Token.lexeme = s'.ahead.map Token.lexeme)
    (hfinish : s.finish.lexeme = s'.finish.lexeme) (hs : s.errors = []) :
    (unlabeled s'.errors).SameState s s' where
  consumed := .inl fun _ _ => rfl
  ahead := sameTokens_of_lexemes (fun _ _ => rfl) hahead
  finish := ⟨congrArg Prod.fst hfinish, congrArg Prod.snd hfinish, rfl⟩
  errors := by rw [hs, List.map_nil, List.append_nil]; rfl
  calls _ := rfl

/-- The loop over types reads what it reads of the same words elsewhere, behind the types found
before. -/
theorem typesFrom_unlabeled {s s' t t' : ParserState} {n n' rounds rounds' : Nat}
    {found ds ds' : List TypeDecl} (hs : (Correspondence.unlabeled s'.errors).SameState s s')
    (hn : n ≤ n') (hrounds : rounds ≤ rounds')
    (hrun : typesFrom (grammar n) rounds [] s = .ok ds t)
    (hrun' : typesFrom (grammar n') rounds' found s' = .ok ds' t') :
    ∃ ts us, ds' = ts ++ us ∧
      us.map (TypeDecl.relabeled .erased) = ds.map (TypeDecl.relabeled .erased) := by
  have hg : (Correspondence.unlabeled s'.errors).Respects (grammar n) (grammar n') :=
    Correspondence.respects_grammar (.inr ⟨trivial, hn⟩)
  have hfound : found.map (TypeDecl.relabeled (Correspondence.unlabeled s'.errors).right)
      = [].map (TypeDecl.relabeled (Correspondence.unlabeled s'.errors).left)
        ++ found.map (TypeDecl.relabeled .erased) := rfl
  rcases parallel_typesFrom hg (.inr ⟨trivial, hrounds⟩) hfound s s' hs with
    ⟨-, t, hexhausted⟩ | hresult
  · rw [hrun] at hexhausted
    cases hexhausted
  · rw [hrun, hrun'] at hresult
    obtain ⟨ts, us, hds', -, hus⟩ := List.map_eq_append_iff.mp hresult.1
    exact ⟨ts, us, hds', hus⟩

/-- **Errors in a class do not reach the declarations behind it**: these are read like on their own,
unless there is an error that loses a brace. -/
theorem types_behind_class {source declarations : List Char} {name : String}
    {body ls : List Lexeme} (hsource : (tokenize source).AreWords (Lexeme.ofClass name body ++ ls))
    (hbody : Lexeme.balanced 0 body) (hdeclarations : (tokenize declarations).AreWords ls)
    (hstart : ∀ l ∈ ls.head?, l.1 ≠ Keyword.kwPackage ∧ l.1 ≠ Keyword.kwImport) (n m : Nat)
    (hlost : ∀ e ∈ (parseUnit source n).errors, e.losesBrace (tokenize source).tokens = false) :
    ∃ ts ds, (parseUnit source n).unit.types = ts ++ ds ∧
      ds.map (TypeDecl.relabeled .erased)
        = (parseUnit declarations m).unit.types.map (TypeDecl.relabeled .erased) := by
  -- Both sources are read by the loop over their types.
  have hclass := ParserState.next_ofSource hsource n
  have hfirst : (ParserState.ofSource declarations m).next.kind ≠ Keyword.kwPackage ∧
      (ParserState.ofSource declarations m).next.kind ≠ Keyword.kwImport := by
    rw [ParserState.next_ofSource hdeclarations m]
    cases hhead : ls.head? with
    | none => exact ⟨nofun, nofun⟩
    | some l => exact hstart l hhead
  have hstate : ParserState.ofSource source n = .ofSource source n := rfl
  obtain ⟨ds, sF, hrun, htypes, herrors⟩ := parseUnit_typesFrom hstate
    (by rw [hclass]; exact nofun) (by rw [hclass]; exact nofun)
  obtain ⟨ds', sF', hrun', htypes', -⟩ := parseUnit_typesFrom rfl hfirst.1 hfirst.2
  -- In the first one the loop gets behind the class, and goes on there like in the second one.
  obtain ⟨s, rounds, found, hrest, hahead, hfinish, hdepth, hrounds⟩ :=
    typesFrom_behind hsource hbody rfl hrun (herrors ▸ hlost)
  have hwords := ParserState.ofSource_words hdeclarations m
  have hlast : (tokenize declarations).finish.lexeme = (tokenize source).finish.lexeme :=
    Prod.ext ((areText_tokenize _).finish.trans (areText_tokenize _).finish.symm)
      ((areText_tokenize _).text.trans (areText_tokenize _).text.symm)
  have hsame : (Correspondence.unlabeled s.errors).SameState (.ofSource declarations m) s :=
    Correspondence.sameState_unlabeled (by rw [hwords, hahead, ← hdeclarations.tokens])
      (by rw [hwords, hfinish]; exact hlast) (by rw [hwords])
  rw [htypes, htypes']
  exact typesFrom_unlabeled hsame (hsame.depth ▸ hdepth) (by rw [hsame.depth]; omega) hrun' hrest

/-- **Errors in a method do not reach the declarations behind its class**: these are read like on
their own, unless there is an error that loses a brace. -/
theorem parseUnit_contains {source declarations : List Char} {body ls : List Lexeme}
    (hsource : (tokenize source).AreWords (Lexeme.ofClass "A" (Lexeme.ofMethod "m" body) ++ ls))
    (hbody : Lexeme.balanced 0 body) (hdeclarations : (tokenize declarations).AreWords ls)
    (hstart : ∀ l ∈ ls.head?, l.1 ≠ Keyword.kwPackage ∧ l.1 ≠ Keyword.kwImport) (n m : Nat) :
    (∃ ts ds, (parseUnit source n).unit.types = ts ++ ds ∧
      ds.map (TypeDecl.relabeled .erased)
        = (parseUnit declarations m).unit.types.map (TypeDecl.relabeled .erased)) ∨
    ∃ e ∈ (parseUnit source n).errors, e.losesBrace (tokenize source).tokens := by
  refine or_iff_not_imp_right.mpr fun hlost => ?_
  refine types_behind_class hsource (Lexeme.balanced_ofMethod hbody "m") hdeclarations hstart n m
    fun e he => ?_
  rw [Bool.eq_false_iff]
  exact fun h => hlost ⟨e, he, h⟩

/-- The body of a method in which an expression is missing. -/
def faultyBody : List Lexeme :=
  [(.keyword .kwInt, "int"), (.identifier, "x"), Sign.assign.lexeme, Sign.semicolon.lexeme,
    (.keyword .kwInt, "int"), (.identifier, "y"), Sign.assign.lexeme, (.literal .int, "42"),
    Sign.semicolon.lexeme]

theorem parseUnit_contains_sample :
    (parseUnit "class A { void m() { int x = ; int y = 42; } } class B { }".toList 0).errors ≠ [] ∧
    ∃ ts ds, (parseUnit "class A { void m() { int x = ; int y = 42; } } class B { }".toList
        0).unit.types = ts ++ ds ∧
      ds.map (TypeDecl.relabeled .erased)
        = (parseUnit "class B { }".toList 0).unit.types.map (TypeDecl.relabeled .erased) := by
  have hsource :
      (tokenize "class A { void m() { int x = ; int y = 42; } } class B { }".toList).AreWords
        (Lexeme.ofClass "A" (Lexeme.ofMethod "m" faultyBody) ++ Lexeme.ofClass "B" []) :=
    ⟨by decide +kernel, by decide +kernel, by decide +kernel⟩
  have hdeclarations : (tokenize "class B { }".toList).AreWords (Lexeme.ofClass "B" []) :=
    ⟨by decide +kernel, by decide +kernel, by decide +kernel⟩
  have h := parseUnit_contains hsource (by decide) hdeclarations (by decide) 0 0
  exact ⟨by decide +kernel, h.resolve_right (by decide +kernel)⟩

/-- **An error can swallow the declarations behind its class.** The semicolon behind `x` is found
missing at the brace that closes the method, and recovery takes this brace. -/
theorem parseUnit_swallows :
    (tokenize "class A { void m() { x } } class B { }".toList).AreWords
      (Lexeme.ofClass "A" (Lexeme.ofMethod "m" [(.identifier, "x")])
        ++ Lexeme.ofClass "B" []) ∧
    Lexeme.balanced 0 [(.identifier, "x")] ∧
    (tokenize "class B { }".toList).AreWords (Lexeme.ofClass "B" []) ∧
    (parseUnit "class B { }".toList 0).errors = [] ∧
    ¬∃ ts ds, (parseUnit "class A { void m() { x } } class B { }".toList 0).unit.types
        = ts ++ ds ∧
      ds.map (TypeDecl.relabeled .erased)
        = (parseUnit "class B { }".toList 0).unit.types.map (TypeDecl.relabeled .erased) := by
  refine ⟨⟨by decide +kernel, by decide +kernel, by decide +kernel⟩, by decide,
    ⟨by decide +kernel, by decide +kernel, by decide +kernel⟩, by decide +kernel, ?_⟩
  rintro ⟨ts, ds, htypes, hds⟩
  have hnone : (parseUnit "class A { void m() { x } } class B { }".toList 0).unit.types.length
      = 0 := by decide +kernel
  have hone : (parseUnit "class B { }".toList 0).unit.types.length = 1 := by decide +kernel
  have hlength := congrArg List.length hds
  rw [List.length_map, List.length_map, hone] at hlength
  rw [htypes, List.length_append] at hnone
  omega

end JavaGraft
