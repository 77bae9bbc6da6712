import JavaGraft.Proofs.Recovery.Containment
import JavaGraft.Proofs.Spelling.Reading

/-!
# What spells a type is read as that type

The other way round, pieces that spell a type are read as this type, up to spans, wherever something
follows them that can stand behind a type: a comma, a closing angle or the end
(`JavaGraft.Spells.comes`). So the grammar over pieces is exactly what the parser does.

How deep the grammar must be for it, and how many rounds its loops need, is left open: a rule *comes
to* a result if it does so at every depth and in any number of rounds from some bound on
(`JavaGraft.ComesTo`).
-/

namespace JavaGraft

open Grammar TypePiece

variable {α β γ : Type} {s s' s₁ : ParserState} {us vs : List Token}

/-! ### Coming to a result -/

/-- Another place of a run which has met no error in between. -/
structure ParserState.Leaves (s s' : ParserState) (us : List Token) : Prop where
  ahead : s'.ahead = us
  finish : s'.finish = s.finish
  errors : s'.errors = s.errors

namespace ParserState.Leaves

theorem refl (s : ParserState) : s.Leaves s s.ahead := ⟨rfl, rfl, rfl⟩

theorem trans (h : s.Leaves s₁ us) (h' : s₁.Leaves s' vs) : s.Leaves s' vs :=
  ⟨h'.ahead, h'.finish.trans h.finish, h'.errors.trans h.errors⟩

end ParserState.Leaves

/-- **A rule comes to a result** of a certain form and leaves certain tokens, if its depth and the
rounds of its loops are large enough. -/
def ComesTo (rule : Rules → Nat → Parser α) (s : ParserState) (us : List Token) (good : α → Prop) :
    Prop :=
  ∃ n a s', (∀ m k, n ≤ m → n ≤ k → rule (grammar m) k s = .ok a s') ∧ s.Leaves s' us ∧ good a

namespace ComesTo

variable {rule : Rules → Nat → Parser α} {f : Rules → Nat → α → Parser β} {good : α → Prop}
  {good' : β → Prop}

theorem pure {a : α} (hahead : s.ahead = us) (h : good a) :
    ComesTo (fun _ _ => Pure.pure a) s us good :=
  ⟨0, a, s, fun _ _ _ _ => rfl, ⟨hahead, rfl, rfl⟩, h⟩

theorem bind (h : ComesTo rule s us good)
    (hf : ∀ a s', s.Leaves s' us → good a → ComesTo (fun g k => f g k a) s' vs good') :
    ComesTo (fun g k => rule g k >>= f g k) s vs good' := by
  obtain ⟨n, a, s₁, hrun, hleaves, ha⟩ := h
  obtain ⟨n', b, s', hrun', hleaves', hb⟩ := hf a s₁ hleaves ha
  refine ⟨max n n', b, s', fun m k hm hk => ?_, hleaves.trans hleaves', hb⟩
  exact (Parser.bind_ok (hrun m k (by omega) (by omega))).trans
    (hrun' m k (by omega) (by omega))

theorem mono {good' : α → Prop} (h : ComesTo rule s us good) (hgood : ∀ a, good a → good' a) :
    ComesTo rule s us good' := by
  obtain ⟨n, a, s', hrun, hleaves, ha⟩ := h
  exact ⟨n, a, s', hrun, hleaves, hgood a ha⟩

/-- What does not depend on the grammar is done first. -/
theorem after {p : Parser α} {a : α} (hrun : p s = .ok a s₁) (hleaves : s.Leaves s₁ us)
    (h : ComesTo (fun g k => f g k a) s₁ vs good') :
    ComesTo (fun g k => p >>= f g k) s vs good' := by
  obtain ⟨n, b, s', hrun', hleaves', hb⟩ := h
  refine ⟨n, b, s', fun m k hm hk => ?_, hleaves.trans hleaves', hb⟩
  exact (Parser.bind_ok hrun).trans (hrun' m k hm hk)

theorem looking {p : Parser α} {a : α} (hrun : p s = .ok a s)
    (h : ComesTo (fun g k => f g k a) s vs good') : ComesTo (fun g k => p >>= f g k) s vs good' :=
  after hrun (.refl s) h

/-- A choice that is made by what comes first. -/
theorem ifTrue {look : Parser Bool} {p q : Rules → Nat → Parser β} (hlook : look s = .ok true s₁)
    (hleaves : s.Leaves s₁ us) (h : ComesTo p s₁ vs good') :
    ComesTo (fun g k => do if ← look then p g k else q g k) s vs good' :=
  after hlook hleaves (by simpa only [if_true] using h)

theorem ifFalse {look : Parser Bool} {p q : Rules → Nat → Parser β} (hlook : look s = .ok false s)
    (h : ComesTo q s vs good') :
    ComesTo (fun g k => do if ← look then p g k else q g k) s vs good' :=
  looking hlook (by simpa only [Bool.false_eq_true, if_false] using h)

/-- A loop starts with its first round. -/
theorem iterate {step : Rules → β → Parser (β ⊕ α)} {b : β} {middle : β ⊕ α → Prop}
    (h : ComesTo (fun g _ => step g b) s us middle)
    (hf : ∀ r s', s.Leaves s' us → middle r →
      ComesTo (fun g k => r.elim (Parser.iterate (step g) k) Pure.pure) s' vs good) :
    ComesTo (fun g k => Parser.iterate (step g) k b) s vs good := by
  obtain ⟨n, r, s₁, hstep, hleaves, hr⟩ := h
  obtain ⟨n', a, s', hrun, hleaves', ha⟩ := hf r s₁ hleaves hr
  refine ⟨max n n' + 1, a, s', fun m k hm hk => ?_, hleaves.trans hleaves', ha⟩
  obtain ⟨k, rfl⟩ : ∃ j, k = j + 1 := ⟨k - 1, by omega⟩
  have hstep := hstep m k (by omega) (by omega)
  have hrun := hrun m k (by omega) (by omega)
  cases r with
  | inl b' => exact (Parser.iterate_inl hstep).trans hrun
  | inr c => exact (Parser.iterate_inr hstep).trans hrun

/-- The same for a loop whose result is of no interest. -/
theorem again {step : Rules → γ → Parser (γ ⊕ α)} {b : γ} {middle : γ ⊕ α → Prop}
    {f : Rules → Parser β} (h : ComesTo (fun g _ => step g b) s us middle)
    (hf : ∀ r s', s.Leaves s' us → middle r → ComesTo (fun g k => do
      Functor.discard (r.elim (Parser.iterate (step g) k) Pure.pure)
      f g) s' vs good') :
    ComesTo (fun g k => do
      Functor.discard (Parser.iterate (step g) k b)
      f g) s vs good' := by
  obtain ⟨n, r, s₁, hstep, hleaves, hr⟩ := h
  obtain ⟨n', a, s', hrun, hleaves', ha⟩ := hf r s₁ hleaves hr
  refine ⟨max n n' + 1, a, s', fun m k hm hk => ?_, hleaves.trans hleaves', ha⟩
  obtain ⟨k, rfl⟩ : ∃ j, k = j + 1 := ⟨k - 1, by omega⟩
  have hstep := hstep m k (by omega) (by omega)
  have hloop : Parser.iterate (step (grammar m)) (k + 1) b s
      = r.elim (Parser.iterate (step (grammar m)) k) Pure.pure s₁ := by
    cases r with
    | inl b' => exact Parser.iterate_inl hstep
    | inr c => exact Parser.iterate_inr hstep
  refine Eq.trans ?_ (hrun m k (by omega) (by omega))
  simp only [Bind.bind, EStateM.bind, Functor.discard, Functor.mapConst, EStateM.map,
    Function.comp_apply, hloop]

/-- As many rounds as the grammar allows are enough. -/
theorem rounds {rule : Rules → Nat → Parser α} (h : ComesTo rule s us good) :
    ComesTo (fun g _ => rule g g.rounds) s us good := by
  obtain ⟨n, a, s', hrun, hleaves, ha⟩ := h
  refine ⟨n + 1, a, s', fun m _ hm _ => ?_, hleaves, ha⟩
  exact hrun m _ (by omega) (by rw [rounds_grammar]; omega)

/-- A rule of the grammar is what it is at the depth below. -/
theorem deeper {rule rule' : Rules → Parser α} (hrule : ∀ m, rule' (grammar (m + 1)) = rule
    (grammar m)) (h : ComesTo (fun g _ => rule g) s us good) :
    ComesTo (fun g _ => rule' g) s us good := by
  obtain ⟨n, a, s', hrun, hleaves, ha⟩ := h
  refine ⟨n + 1, a, s', fun m _ hm _ => ?_, hleaves, ha⟩
  obtain ⟨m, rfl⟩ : ∃ j, m = j + 1 := ⟨m - 1, by omega⟩
  exact (congrFun (hrule m) s).trans (hrun m m (by omega) (by omega))

end ComesTo

/-! ### What follows -/

/-- What a type can start with. -/
def TokenKind.startsType (kind : TokenKind) : Bool :=
  kind = .sign .atSign || kind = .identifier || (primitiveOf? kind).isSome

/-- What can stand behind a name in a type: brackets as well. -/
def TokenKind.endsName (kind : TokenKind) : Bool := kind = .sign .lbracket || kind.endsType

theorem TokenKind.endsName_of_endsType {kind : TokenKind} (h : kind.endsType) : kind.endsName := by
  rw [endsName, h, Bool.or_true]

/-- The tokens before brackets start with one or with what is behind them. -/
theorem TypePiece.endsName_of_brackets {A : List Token → List Token → Prop} {n : Nat}
    {ts : List Token} (h : Take A (brackets n) ts us) (hus : (Token.firstKind us).endsType) :
    (Token.firstKind ts).endsName := by
  cases n with
  | zero =>
    obtain rfl : ts = us := h
    exact TokenKind.endsName_of_endsType hus
  | succ n =>
    obtain ⟨_, ⟨t, rfl, ht⟩, -⟩ := h
    rw [TokenKind.endsName, Token.firstKind, List.head?_cons, Option.map_some, Option.getD_some, ht]
    rfl

namespace ParserState

/-- Taking a token, by what stands between two lists of tokens. -/
theorem advance_of_token {A : List Token → List Token → Prop} {kind : TokenKind}
    (h : (TypePiece.token kind).Takes A s.ahead us) :
    s.next.kind = kind ∧ s.Leaves s.advance us := by
  obtain ⟨t, hahead, hkind⟩ := h
  exact ⟨next_of_ahead hahead ▸ hkind, ahead_advance hahead, s.finish_advance, s.errors_advance⟩

theorem advance_of_name {A : List Token → List Token → Prop} {x : String}
    (h : (TypePiece.name x).Takes A s.ahead us) :
    s.next.kind = .identifier ∧ s.next.text = x ∧ s.Leaves s.advance us := by
  obtain ⟨t, hahead, hkind, htext⟩ := h
  rw [next_of_ahead hahead]
  exact ⟨hkind, htext, ahead_advance hahead, s.finish_advance, s.errors_advance⟩

/-- Taking a closing angle. -/
theorem closeAngle_of_close {A : List Token → List Token → Prop}
    (hfinish : s.finish.kind = .endOfSource) (h : TypePiece.close.Takes A s.ahead us) :
    ∃ s', Parser.closeAngle s = .ok () s' ∧ s.Leaves s' us := by
  rcases closeAngle_closed? hfinish with ⟨hnone, -⟩ | ⟨s', hrun, hclosed, hfinish', herrors⟩
  · rw [TypePiece.Takes, hnone] at h
    cases h
  · exact ⟨s', hrun, Option.some.inj (hclosed.symm.trans h), hfinish', herrors⟩

/-- Taking brackets. -/
theorem count_of_brackets {A : List Token → List Token → Prop} {m : Nat} {ts : List Token}
    (h : Take A (brackets m) ts us) (hus : Token.firstKind us ≠ Sign.lbracket) (s : ParserState)
    (n : Nat) (consumed : List Token) :
    (Parser.dims.count s n consumed ts).1 = min (n + m) DataType.maxDims ∧
      s.Leaves (Parser.dims.count s n consumed ts).2 us := by
  induction m generalizing n consumed ts with
  | zero =>
    obtain rfl : ts = us := h
    rcases ts with _ | ⟨t, _ | ⟨u, us⟩⟩
    · exact ⟨rfl, rfl, rfl, rfl⟩
    · exact ⟨rfl, rfl, rfl, rfl⟩
    · rw [Parser.dims.count, if_neg fun hopen => hus hopen.1]
      exact ⟨rfl, rfl, rfl, rfl⟩
  | succ m ih =>
    obtain ⟨_, ⟨t, rfl, ht⟩, _, ⟨u, rfl, hu⟩, h⟩ := h
    rw [Parser.dims.count, if_pos ⟨ht, hu⟩]
    obtain ⟨hcount, hleaves⟩ := ih h (n + 1) (u :: t :: consumed)
    exact ⟨by rw [hcount, Nat.add_assoc, Nat.add_comm 1], hleaves⟩

end ParserState

/-! ### Phrases -/

variable {A : List Token → List Token → Prop}

/-- The end of a source, which has no text. -/
structure Token.IsFinish (t : Token) : Prop where
  kind : t.kind = .endOfSource
  text : t.text = ""

/-- Wherever an annotation stands, it is read. -/
def AnnotsComeTo (A : List Token → List Token → Prop) : Prop :=
  ∀ (s : ParserState) us, s.finish.IsFinish → A s.ahead us →
    (s.next.kind = Sign.atSign ∧ (s.nth 1).kind ≠ Keyword.kwInterface) ∧
      ComesTo (fun g _ => g.annot) s us fun _ => True

/-- A type that is the same up to spans. -/
def TypeExpr.Alike (t t' : TypeExpr) : Prop := t'.relabeled .erased = t.relabeled .erased

/-- Type arguments that are the same up to spans. -/
def TypeArg.Alike (as as' : List TypeArg) : Prop :=
  TypeArg.allRelabeled .erased as' = TypeArg.allRelabeled .erased as

/-- What it means that pieces are read as a phrase, wherever something follows that can. -/
def TypePhrase.Comes (A : List Token → List Token → Prop) (ph : TypePhrase) (ps : List TypePiece) :
    Prop :=
  ∀ (s : ParserState) us, s.finish.IsFinish → Take A ps s.ahead us →
    match ph with
    | type t => (Token.firstKind us).endsType → s.next.kind.startsType ∧
      ∀ found, ComesTo (fun g k => do
        discard (Parser.iterate (Parser.oneCollected (annot? g)) k found)
        bracketed g) s us t.Alike
    | plain t => (Token.firstKind us).endsType → s.next.kind.startsType ∧
      s.next.kind ≠ Sign.atSign ∧ ComesTo (fun g _ => bracketed g) s us t.Alike
    | segments xs args => (Token.firstKind us).endsName → s.next.kind = .identifier ∧
      (s.nth 1).kind ≠ .identifier ∧ ∀ found, ComesTo
        (fun g k => Parser.iterate (typeSegment g) k found) s us fun x =>
          ∃ ids, x.1 = found.reverse ++ ids ∧ ids.map Ident.name = xs ∧ TypeArg.Alike args x.2
    | angles args => Token.firstKind us ≠ Sign.less →
      ComesTo (fun g _ => typeArgs? g) s us (TypeArg.Alike args)
    | list args => (Parser.dropAngle? (Token.firstKind us)).isSome → s.next.kind ≠ Sign.greater ∧
      ∀ found, ComesTo (fun g k =>
        Parser.iterate (Parser.oneSeparated Sign.comma (typeArg g)) k found) s us fun as =>
          ∃ bs, as = found.reverse ++ bs ∧ TypeArg.Alike args bs
    | arg a => (Token.firstKind us).endsType → s.next.kind ≠ Sign.greater ∧
      ComesTo (fun g _ => typeArg g) s us fun a' => TypeArg.Alike [a] [a']

/-- A type is read behind its annotations. -/
theorem comes_type {t : TypeExpr} {ps : List TypePiece} (h : (TypePhrase.type t).Comes A ps)
    (hfinish : s.finish.IsFinish) (htake : Take A ps s.ahead us)
    (hus : (Token.firstKind us).endsType) : ComesTo (fun g _ => g.type) s us t.Alike := by
  have hcomes : ComesTo (fun g _ => Grammar.type g) s us t.Alike := by
    simp only [type_eq]
    exact ((h s us hfinish htake hus).2 []).rounds
  exact hcomes.deeper fun m => rfl

theorem comes_annotated (hA : AnnotsComeTo A) {t : TypeExpr} {ps : List TypePiece}
    (h : (TypePhrase.type t).Comes A ps) : (TypePhrase.type t).Comes A (.annot :: ps) := by
  rintro s us hfinish ⟨ws, hannot, htake⟩ hus
  obtain ⟨hnext, hcomes⟩ := hA s ws hfinish hannot
  refine ⟨by rw [hnext.1]; rfl, fun found => ?_⟩
  have hround : ComesTo (fun g _ => Parser.oneCollected (annot? g) found) s ws
      fun r => ∃ a, r = .inl (a :: found) := by
    simp only [Parser.oneCollected, annot?, bind_assoc]
    refine .looking (Parser.get_eq s) (.looking (Parser.get_eq s) ?_)
    simp only [if_pos hnext, bind_assoc, pure_bind]
    exact hcomes.bind fun a s' hleaves _ => .pure hleaves.ahead ⟨a, rfl⟩
  refine hround.again ?_
  rintro _ s' hleaves ⟨a, rfl⟩
  exact (h s' us (hleaves.finish ▸ hfinish) (hleaves.ahead ▸ htake) hus).2 (a :: found)

theorem comes_bare {t : TypeExpr} {ps : List TypePiece}
    (h : (TypePhrase.plain t).Comes A ps) : (TypePhrase.type t).Comes A ps := by
  intro s us hfinish htake hus
  obtain ⟨hstart, hnext, -⟩ := h s us hfinish htake hus
  refine ⟨hstart, fun found => ?_⟩
  have hround : ComesTo (fun g _ => Parser.oneCollected (annot? g) found) s s.ahead
      fun r => r = .inr found.reverse := by
    simp only [Parser.oneCollected, annot?, bind_assoc]
    refine .looking (Parser.get_eq s) (.looking (Parser.get_eq s) ?_)
    simp only [if_neg fun hannot : _ ∧ _ => hnext hannot.1, pure_bind]
    exact .pure rfl rfl
  refine hround.again ?_
  rintro _ s' hleaves rfl
  refine .looking (Parser.discard_ok rfl) ?_
  exact (h s' us (hleaves.finish ▸ hfinish) (hleaves.ahead ▸ htake) hus).2.2

/-- Brackets behind a type without any. -/
theorem comes_brackets {base : TypeBase} {args : List TypeArg} {plain : TypeExpr} {n : Nat}
    (hplain : TypeExpr.Alike ⟨base, args, 0, .absent⟩ plain)
    (htake : Take A (brackets n) s.ahead us) (hus : (Token.firstKind us).endsType) (span : Span) :
    ComesTo (fun _ _ => do
      let n ← Parser.dims
      if n = 0 then return plain
      else return { plain with dims := n, span := ← Parser.spanFrom plain.span }) s us
      (TypeExpr.Alike ⟨base, args, min n DataType.maxDims, span⟩) := by
  have hne : Token.firstKind us ≠ Sign.lbracket := fun h => by rw [h] at hus; cases hus
  obtain ⟨hcount, hleaves⟩ := ParserState.count_of_brackets htake hne s 0 s.consumed
  rw [Nat.zero_add] at hcount
  refine .after (Parser.dims_eq s) hleaves ?_
  rw [hcount]
  obtain ⟨base', args', dims, span'⟩ := plain
  simp only [TypeExpr.Alike, TypeExpr.relabeled, TypeExpr.mk.injEq] at hplain
  obtain ⟨hbase, hargs, rfl, -⟩ := hplain
  split
  · next h =>
    refine .pure hleaves.ahead ?_
    rw [h, TypeExpr.Alike, TypeExpr.relabeled, TypeExpr.relabeled, hbase, hargs]
    rfl
  · refine .looking (Parser.spanFrom_eq _ _) (.pure hleaves.ahead ?_)
    rw [TypeExpr.Alike, TypeExpr.relabeled, TypeExpr.relabeled, hbase, hargs]
    rfl

/-- A type is read without its brackets, and then these. -/
theorem comes_bracketed {base : TypeBase} {args : List TypeArg} {ts : List Token} {n : Nat}
    (h : ComesTo (fun g _ => plainType g) s ts (TypeExpr.Alike ⟨base, args, 0, .absent⟩))
    (htake : Take A (brackets n) ts us) (hus : (Token.firstKind us).endsType) (span : Span) :
    ComesTo (fun g _ => bracketed g) s us
      (TypeExpr.Alike ⟨base, args, min n DataType.maxDims, span⟩) :=
  h.bind fun _ _ hleaves hplain => comes_brackets hplain (hleaves.ahead ▸ htake) hus span

theorem comes_primitive {kind : TokenKind} {p : Primitive} (hp : primitiveOf? kind = some p)
    (n : Nat) (span : Span) :
    (TypePhrase.plain ⟨.primitive p, [], min n DataType.maxDims, span⟩).Comes A
      (.token kind :: brackets n) := by
  rintro s us hfinish ⟨ts, htoken, htake⟩ hus
  obtain ⟨hnext, hleaves⟩ := ParserState.advance_of_token htoken
  have hstart : kind.startsType := by rw [TokenKind.startsType, hp]; simp
  refine ⟨hnext ▸ hstart, fun h => ?_, comes_bracketed ?_ htake hus span⟩
  · rw [← hnext, h] at hp
    cases hp
  unfold plainType
  refine .looking (Parser.peek_eq s) ?_
  rw [hnext, hp]
  exact .after (Parser.discard_ok (Parser.advance_eq s)) hleaves (.pure hleaves.ahead rfl)

/-- Names that are the same are the same up to spans. -/
theorem map_erased_of_names {ids ids' : List Ident}
    (h : ids.map Ident.name = ids'.map Ident.name) :
    ids.map (Ident.relabeled .erased) = ids'.map (Ident.relabeled .erased) := by
  have hname : Ident.relabeled .erased = (fun x => ⟨x, .absent⟩) ∘ Ident.name := rfl
  rw [hname, ← List.map_map, h, List.map_map]

theorem comes_named {path : Path} {args : List TypeArg} {ps : List TypePiece}
    (h : (TypePhrase.segments path.names args).Comes A ps) (n : Nat) (span : Span) :
    (TypePhrase.plain ⟨.named path, args, min n DataType.maxDims, span⟩).Comes A
      (ps ++ brackets n) := by
  intro s us hfinish htake hus
  obtain ⟨ts, hsegments, hbrackets⟩ := take_append_iff.mp htake
  obtain ⟨hnext, hsecond, hcomes⟩ := h s ts hfinish hsegments (endsName_of_brackets hbrackets hus)
  refine ⟨by rw [hnext]; rfl, by rw [hnext]; exact nofun, comes_bracketed ?_ hbrackets hus span⟩
  unfold plainType
  refine .looking (Parser.peek_eq s) ?_
  rw [hnext]
  refine .looking (Parser.get_eq s) ?_
  simp only [hsecond, and_false, if_false, namedType_eq]
  refine (hcomes []).rounds.bind fun x s' hleaves hx => ?_
  obtain ⟨ids, hids, hnames, hargs⟩ := hx
  refine .looking (Parser.spanFrom_eq _ _) (.pure hleaves.ahead ?_)
  rw [TypeExpr.Alike, TypeExpr.relabeled, TypeExpr.relabeled, hargs, TypeBase.relabeled,
    TypeBase.relabeled, Path.relabeled, Path.relabeled, hids, List.reverse_nil, List.nil_append,
    map_erased_of_names hnames]
  rfl

/-- Behind a name, angles follow or what is behind it. -/
theorem firstKind_of_angles {args : List TypeArg} {ps : List TypePiece} {ts : List Token}
    (h : Spells (.angles args) ps) (htake : Take A ps ts us) :
    Token.firstKind ts = Sign.less ∨ ts = us := by
  cases h with
  | none => exact .inr htake
  | diamond | angles =>
    obtain ⟨_, ⟨t, rfl, ht⟩, -⟩ := htake
    exact .inl ht

theorem comes_last {x : String} {args : List TypeArg} {ps : List TypePiece}
    (hspells : Spells (.angles args) ps) (h : (TypePhrase.angles args).Comes A ps) :
    (TypePhrase.segments [x] args).Comes A (.name x :: ps) := by
  rintro s us hfinish ⟨ts, hname, htake⟩ hus
  obtain ⟨hnext, htext, hleaves⟩ := ParserState.advance_of_name hname
  have hfinish₁ : s.advance.finish.IsFinish := hleaves.finish ▸ hfinish
  have hne {kind : TokenKind} (hkind : kind.endsName = false) : Token.firstKind us ≠ kind :=
    fun h => by rw [h, hkind] at hus; cases hus
  refine ⟨hnext, ?_, fun found => ?_⟩
  · rw [← ParserState.next_advance, ParserState.kind_next hfinish₁.kind, hleaves.ahead]
    rcases firstKind_of_angles hspells htake with hless | rfl
    · rw [hless]
      exact nofun
    · exact hne rfl
  have hround : ComesTo (fun g _ => typeSegment g found) s us fun r =>
      ∃ args', r = .inr ((⟨x, s.next.span⟩ :: found).reverse, args') ∧
        TypeArg.Alike args args' := by
    unfold typeSegment
    refine .after (Parser.identifier_ok hnext) hleaves ?_
    refine (h s.advance us hfinish₁ (hleaves.ahead ▸ htake) (hne rfl)).bind
      fun args' s' hleaves' hargs => ?_
    refine .looking (Parser.get_eq s') (.looking (Parser.get_eq s') ?_)
    rw [htext, if_neg]
    · exact .pure hleaves'.ahead ⟨args', rfl, hargs⟩
    · rw [ParserState.kind_next (hleaves'.finish ▸ hfinish₁.kind), hleaves'.ahead]
      exact fun hdot => hne rfl hdot.1
  -- no dot follows, so this round is the last one
  refine hround.iterate ?_
  rintro _ s' hleaves' ⟨args', rfl, hargs⟩
  exact .pure hleaves'.ahead ⟨[⟨x, s.next.span⟩], by simp, rfl, hargs⟩

theorem comes_segment {x : String} {xs : List String} {as args : List TypeArg}
    {ps qs : List TypePiece} (hspells : Spells (.angles as) ps)
    (h : (TypePhrase.angles as).Comes A ps) (h' : (TypePhrase.segments xs args).Comes A qs) :
    (TypePhrase.segments (x :: xs) args).Comes A
      (.name x :: (ps ++ .token Sign.dot :: qs)) := by
  rintro s us hfinish ⟨ts, hname, htake⟩ hus
  obtain ⟨vs, hps, ws, hdot, hqs⟩ := take_append_iff.mp htake
  obtain ⟨hnext, htext, hleaves⟩ := ParserState.advance_of_name hname
  have hfinish₁ : s.advance.finish.IsFinish := hleaves.finish ▸ hfinish
  have hvs : Token.firstKind vs = Sign.dot := by
    obtain ⟨t, rfl, ht⟩ := hdot
    exact ht
  refine ⟨hnext, ?_, fun found => ?_⟩
  · rw [← ParserState.next_advance, ParserState.kind_next hfinish₁.kind, hleaves.ahead]
    rcases firstKind_of_angles hspells hps with hless | rfl
    · rw [hless]
      exact nofun
    · rw [hvs]
      exact nofun
  have hround : ComesTo (fun g _ => typeSegment g found) s ws fun r =>
      r = .inl (⟨x, s.next.span⟩ :: found) := by
    unfold typeSegment
    refine .after (Parser.identifier_ok hnext) hleaves ?_
    refine (h s.advance vs hfinish₁ (hleaves.ahead ▸ hps) (by rw [hvs]; exact nofun)).bind
      fun args' s' hleaves' _ => ?_
    have hfinish' : s'.finish.IsFinish := hleaves'.finish ▸ hfinish₁
    rw [← hleaves'.ahead] at hdot
    obtain ⟨hnext', hleaves''⟩ := ParserState.advance_of_token hdot
    have hsecond := (h' s'.advance us (hleaves''.finish ▸ hfinish') (hleaves''.ahead ▸ hqs) hus).1
    rw [ParserState.next_advance] at hsecond
    refine .looking (Parser.get_eq s') (.looking (Parser.get_eq s') ?_)
    rw [htext, if_pos ⟨hnext', hsecond⟩]
    exact .after (Parser.discard_ok (Parser.advance_eq s')) hleaves'' (.pure hleaves''.ahead rfl)
  -- a dot and a name follow, so there is another round
  refine hround.iterate ?_
  rintro _ s' hleaves' rfl
  obtain ⟨-, -, hcomes⟩ := h' s' us (hleaves'.finish ▸ hfinish) (hleaves'.ahead ▸ hqs) hus
  refine (hcomes (⟨x, s.next.span⟩ :: found)).mono ?_
  rintro y ⟨ids, hids, hnames, hargs⟩
  exact ⟨⟨x, s.next.span⟩ :: ids, by rw [hids]; simp, by rw [List.map_cons, hnames], hargs⟩

theorem comes_noAngles : (TypePhrase.angles []).Comes A [] := by
  rintro s us hfinish rfl hus
  unfold typeArgs?
  have hnext : s.next.kind ≠ Sign.less := by rwa [ParserState.kind_next hfinish.kind]
  exact .ifFalse (by rw [Parser.check_eq, decide_eq_false hnext]) (.pure rfl rfl)

theorem comes_diamond :
    (TypePhrase.angles []).Comes A [.token Sign.less, .token Sign.greater] := by
  rintro s us hfinish ⟨ts, hless, _, hgreater, rfl⟩ _
  obtain ⟨hnext, hleaves⟩ := ParserState.advance_of_token hless
  rw [← hleaves.ahead] at hgreater
  obtain ⟨hnext', hleaves'⟩ := ParserState.advance_of_token hgreater
  have hclose : Parser.closeAngle s.advance = .ok () s.advance.advance := by
    rw [Course.closeAngle_eq, hnext']
    rfl
  unfold typeArgs?
  refine .ifTrue (by rw [Parser.check_eq, decide_eq_true hnext]) (.refl s) ?_
  unfold typeArgs
  refine .after (Parser.discard_ok (Parser.expect_ok hnext)) hleaves ?_
  refine .ifTrue (by rw [Parser.check_eq, decide_eq_true hnext']) (.refl _) ?_
  exact .looking rfl (.after hclose hleaves' (.pure hleaves'.ahead rfl))

theorem comes_angles {args : List TypeArg} {ps : List TypePiece}
    (h : (TypePhrase.list args).Comes A ps) :
    (TypePhrase.angles args).Comes A (.token Sign.less :: (ps ++ [.close])) := by
  rintro s us hfinish ⟨ts, hless, htake⟩ _
  obtain ⟨vs, hps, _, hclose, rfl⟩ := take_append_iff.mp htake
  obtain ⟨hnext, hleaves⟩ := ParserState.advance_of_token hless
  have hfinish₁ : s.advance.finish.IsFinish := hleaves.finish ▸ hfinish
  have hangle : (Parser.dropAngle? (Token.firstKind vs)).isSome := by
    cases vs with
    | nil => cases hclose
    | cons t vs =>
      rw [Token.firstKind, List.head?_cons, Option.map_some, Option.getD_some,
        Option.isSome_iff_ne_none]
      intro hnone
      simp only [TypePiece.Takes, Token.closed?, hnone, reduceCtorEq] at hclose
  -- the angle that closes the list ends the last argument
  obtain ⟨hfirst, hcomes⟩ := h s.advance vs hfinish₁ (hleaves.ahead ▸ hps) hangle
  unfold typeArgs?
  refine .ifTrue (by rw [Parser.check_eq, decide_eq_true hnext]) (.refl s) ?_
  unfold typeArgs
  refine .after (Parser.discard_ok (Parser.expect_ok hnext)) hleaves ?_
  refine .ifFalse (by rw [Parser.check_eq, decide_eq_false hfirst]) ?_
  simp only [Parser.sepBy_eq]
  refine (hcomes []).rounds.bind fun as s' hleaves' has => ?_
  obtain ⟨bs, rfl, hbs⟩ := has
  rw [← hleaves'.ahead] at hclose
  obtain ⟨s'', hrun, hleaves''⟩ :=
    ParserState.closeAngle_of_close (hleaves'.finish ▸ hfinish₁.kind) hclose
  exact .after hrun hleaves'' (.pure hleaves''.ahead hbs)

theorem comes_single {a : TypeArg} {ps : List TypePiece} (h : (TypePhrase.arg a).Comes A ps) :
    (TypePhrase.list [a]).Comes A ps := by
  intro s us hfinish htake hus
  have hends : (Token.firstKind us).endsType := by rw [TokenKind.endsType, hus, Bool.or_true]
  obtain ⟨hfirst, hcomes⟩ := h s us hfinish htake hends
  refine ⟨hfirst, fun found => ?_⟩
  have hround : ComesTo (fun g _ => Parser.oneSeparated Sign.comma (typeArg g) found) s us fun r =>
      ∃ a', r = .inr (a' :: found).reverse ∧ TypeArg.Alike [a] [a'] := by
    unfold Parser.oneSeparated
    refine hcomes.bind fun a' s' hleaves ha => ?_
    have hcomma : s'.next.kind ≠ Sign.comma := by
      rw [ParserState.kind_next (hleaves.finish ▸ hfinish.kind), hleaves.ahead]
      intro hcomma
      rw [hcomma] at hus
      cases hus
    refine .ifFalse (Parser.eat_no hcomma) ?_
    exact .pure hleaves.ahead ⟨a', rfl, ha⟩
  refine hround.iterate ?_
  rintro _ s' hleaves ⟨a', rfl, ha⟩
  exact .pure hleaves.ahead ⟨[a'], by simp, ha⟩

theorem comes_more {a : TypeArg} {as : List TypeArg} {ps qs : List TypePiece}
    (h : (TypePhrase.arg a).Comes A ps) (h' : (TypePhrase.list as).Comes A qs) :
    (TypePhrase.list (a :: as)).Comes A (ps ++ .token Sign.comma :: qs) := by
  intro s us hfinish htake hus
  obtain ⟨vs, hps, ws, hcomma, hqs⟩ := take_append_iff.mp htake
  have hvs : (Token.firstKind vs).endsType := by
    obtain ⟨t, rfl, ht⟩ := hcomma
    rw [Token.firstKind, List.head?_cons, Option.map_some, Option.getD_some, ht]
    rfl
  obtain ⟨hfirst, hcomes⟩ := h s vs hfinish hps hvs
  refine ⟨hfirst, fun found => ?_⟩
  -- behind the comma there is another round
  have hround : ComesTo (fun g _ => Parser.oneSeparated Sign.comma (typeArg g) found) s ws fun r =>
      ∃ a', r = .inl (a' :: found) ∧ TypeArg.Alike [a] [a'] := by
    unfold Parser.oneSeparated
    refine hcomes.bind fun a' s' hleaves ha => ?_
    rw [← hleaves.ahead] at hcomma
    obtain ⟨hnext, hleaves'⟩ := ParserState.advance_of_token hcomma
    refine .ifTrue (Parser.eat_ok hnext) hleaves' ?_
    exact .pure hleaves'.ahead ⟨a', rfl, ha⟩
  refine hround.iterate ?_
  rintro _ s' hleaves ⟨a', rfl, ha⟩
  obtain ⟨-, hcomes'⟩ := h' s' us (hleaves.finish ▸ hfinish) (hleaves.ahead ▸ hqs) hus
  refine (hcomes' (a' :: found)).mono ?_
  rintro _ ⟨bs, rfl, hbs⟩
  refine ⟨a' :: bs, by simp, ?_⟩
  simp only [TypeArg.Alike, TypeArg.allRelabeled, List.cons.injEq, and_true] at ha hbs ⊢
  exact ⟨ha, hbs⟩

theorem comes_typeOfArg {t : TypeExpr} {ps : List TypePiece} (h : (TypePhrase.type t).Comes A ps) :
    (TypePhrase.arg (.type t)).Comes A ps := by
  intro s us hfinish htake hus
  have hstart := (h s us hfinish htake hus).1
  have hne {kind : TokenKind} (hkind : kind.startsType = false) : s.next.kind ≠ kind :=
    fun h => by rw [h, hkind] at hstart; cases hstart
  refine ⟨hne rfl, ?_⟩
  unfold typeArg
  refine .looking (Parser.eat?_no (hne rfl)) ?_
  refine (comes_type h hfinish htake hus).bind fun t' s' hleaves ht => ?_
  exact .pure hleaves.ahead (by
    simp only [TypeArg.Alike, TypeArg.allRelabeled, TypeArg.relabeled, show _ = _ from ht])

theorem comes_wildcard (span : Span) :
    (TypePhrase.arg (.wildcard span)).Comes A [.token Sign.question] := by
  rintro s us hfinish ⟨_, hmark, rfl⟩ hus
  obtain ⟨hnext, hleaves⟩ := ParserState.advance_of_token hmark
  have hne {kind : TokenKind} (hkind : kind.endsType = false) : s.advance.next.kind ≠ kind :=
    fun h => by
      rw [ParserState.kind_next (hleaves.finish ▸ hfinish.kind), hleaves.ahead] at h
      rw [h, hkind] at hus
      cases hus
  refine ⟨by rw [hnext]; exact nofun, ?_⟩
  unfold typeArg
  refine .after (Parser.eat?_ok hnext) hleaves ?_
  refine .ifFalse (Parser.eat_no (hne rfl)) (.ifFalse (Parser.eat_no (hne rfl)) ?_)
  exact .looking (Parser.spanFrom_eq _ _) (.pure hleaves.ahead rfl)

/-- A wildcard with a bound. -/
theorem comes_bound {word : Keyword} {t : TypeExpr} {ps : List TypePiece}
    {arg : TypeExpr → Span → TypeArg} (h : (TypePhrase.type t).Comes A ps)
    (hword : word = .kwExtends ∧ arg = .upper ∨ word = .kwSuper ∧ arg = .lower) (span : Span) :
    (TypePhrase.arg (arg t span)).Comes A
      (.token Sign.question :: .token word :: ps) := by
  rintro s us hfinish ⟨ts, hmark, vs, hbound, htake⟩ hus
  obtain ⟨hnext, hleaves⟩ := ParserState.advance_of_token hmark
  rw [← hleaves.ahead] at hbound
  obtain ⟨hnext', hleaves'⟩ := ParserState.advance_of_token hbound
  rw [← hleaves'.ahead] at htake
  have htype := comes_type h (s := s.advance.advance)
    (by rwa [ParserState.finish_advance, ParserState.finish_advance]) htake hus
  refine ⟨by rw [hnext]; exact nofun, ?_⟩
  unfold typeArg
  refine .after (Parser.eat?_ok hnext) hleaves ?_
  rcases hword with ⟨rfl, rfl⟩ | ⟨rfl, rfl⟩
  · refine .ifTrue (Parser.eat_ok hnext') hleaves' ?_
    refine htype.bind fun t' s' hleaves'' ht => ?_
    refine .looking (Parser.spanFrom_eq _ _) (.pure hleaves''.ahead ?_)
    simp only [TypeArg.Alike, TypeArg.allRelabeled, TypeArg.relabeled, show _ = _ from ht]
    rfl
  · refine .ifFalse (Parser.eat_no (by rw [hnext']; exact nofun)) ?_
    refine .ifTrue (Parser.eat_ok hnext') hleaves' ?_
    refine htype.bind fun t' s' hleaves'' ht => ?_
    refine .looking (Parser.spanFrom_eq _ _) (.pure hleaves''.ahead ?_)
    simp only [TypeArg.Alike, TypeArg.allRelabeled, TypeArg.relabeled, show _ = _ from ht]
    rfl

/-- **What is spelled is read**: pieces that spell a phrase are read as this phrase. -/
theorem Spells.comes (hA : AnnotsComeTo A) {ph : TypePhrase} {ps : List TypePiece}
    (h : Spells ph ps) : ph.Comes A ps := by
  induction h with
  | annotated _ ih => exact comes_annotated hA ih
  | bare _ ih => exact comes_bare ih
  | primitive hp n span => exact comes_primitive hp n span
  | named _ n span ih => exact comes_named ih n span
  | last h ih => exact comes_last h ih
  | segment h _ ih ih' => exact comes_segment h ih ih'
  | none => exact comes_noAngles
  | diamond => exact comes_diamond
  | angles _ ih => exact comes_angles ih
  | single _ ih => exact comes_single ih
  | more _ _ ih ih' => exact comes_more ih ih'
  | type _ ih => exact comes_typeOfArg ih
  | wildcard span => exact comes_wildcard span
  | upper _ span ih => exact comes_bound ih (.inl ⟨rfl, rfl⟩) span
  | lower _ span ih => exact comes_bound ih (.inr ⟨rfl, rfl⟩) span

end JavaGraft
