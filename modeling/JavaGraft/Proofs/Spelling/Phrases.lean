import JavaGraft.Proofs.Course.Names

/-!
# How types are spelled

What the parser of types reads is described in *pieces*: a name, a token of some kind, one closing
angle, or an annotation. Pieces are not tokens, since a token of several angles is closed one angle
at a time; which tokens are left behind pieces is told by `JavaGraft.TypePiece.Take`.

`JavaGraft.Spells` is the grammar of types over pieces: it tells which pieces spell a type, or a
part of one. A type does not determine them. Annotations leave no trace in it, nor do the type
arguments of any segment of its name but the last one, nor brackets beyond the greatest number of
dimensions, and a list of type arguments may be missing or empty. The pieces that spell it in the
usual way are `JavaGraft.TypePhrase.pieces`, and whatever is spelled at all is spelled by them
(`JavaGraft.Spells.usual`).
-/

namespace JavaGraft

open Grammar

/-! ### Pieces -/

/-- The tokens that are left behind one closing angle, if they start with one. -/
def Token.closed? : List Token → Option (List Token)
  | [] => none
  | t :: ts =>
    match Parser.dropAngle? t.kind with
    | none => none
    | some none => some ts
    | some (some rest) => some (t.behindAngle rest :: ts)

/-- What is left behind a closing angle has no identifiers that were not there. -/
theorem Token.worded_closed? {ts us : List Token} (h : closed? ts = some us)
    (hts : ∀ t ∈ ts, t.Worded) : ∀ t ∈ us, t.Worded := by
  cases ts with
  | nil => cases h
  | cons t ts =>
    have hlater := (List.forall_mem_cons.mp hts).2
    rw [closed?] at h
    split at h
    · cases h
    · cases h
      exact hlater
    · next rest hrest =>
      cases h
      refine List.forall_mem_cons.mpr ⟨Token.worded_of_ne ?_, hlater⟩
      rcases angles_of_dropAngle? hrest with ⟨-, rfl⟩ | ⟨-, rfl⟩ <;> exact TokenKind.noConfusion

/-- A piece of a type. -/
inductive TypePiece where
  | name (text : String)
  | token (kind : TokenKind)
  | close
  | annot

namespace TypePiece

/-- A piece is what stands between two lists of tokens, of which the second one is left of the first
one. Where an annotation stands is told by `A`. -/
def Takes (A : List Token → List Token → Prop) (p : TypePiece) (ts us : List Token) : Prop :=
  match p with
  | name text => ∃ t, ts = t :: us ∧ t.kind = .identifier ∧ t.text = text
  | token kind => ∃ t, ts = t :: us ∧ t.kind = kind
  | close => Token.closed? ts = some us
  | annot => A ts us

/-- Pieces one behind the other stand between two lists of tokens. -/
def Take (A : List Token → List Token → Prop) : List TypePiece → List Token → List Token → Prop
  | [], ts, us => ts = us
  | p :: ps, ts, us => ∃ vs, p.Takes A ts vs ∧ Take A ps vs us

variable {A : List Token → List Token → Prop} {p : TypePiece} {ps qs : List TypePiece}
  {ts us vs : List Token}

theorem take_nil : Take A [] ts ts := rfl

theorem take_cons (h : p.Takes A ts us) (h' : Take A ps us vs) : Take A (p :: ps) ts vs :=
  ⟨us, h, h'⟩

theorem take_append_iff : Take A (ps ++ qs) ts vs ↔ ∃ us, Take A ps ts us ∧ Take A qs us vs := by
  induction ps generalizing ts with
  | nil => exact ⟨fun h => ⟨ts, rfl, h⟩, fun ⟨_, h, h'⟩ => h ▸ h'⟩
  | cons p ps ih =>
    constructor
    · rintro ⟨ws, hp, h⟩
      obtain ⟨us, hps, hqs⟩ := ih.mp h
      exact ⟨us, ⟨ws, hp, hps⟩, hqs⟩
    · rintro ⟨us, ⟨ws, hp, hps⟩, hqs⟩
      exact ⟨ws, hp, ih.mpr ⟨us, hps, hqs⟩⟩

theorem take_append (h : Take A ps ts us) (h' : Take A qs us vs) : Take A (ps ++ qs) ts vs :=
  take_append_iff.mpr ⟨us, h, h'⟩

/-- All angles of a token can be taken off it. -/
theorem take_angles {t : Token} (h : (Parser.dropAngle? t.kind).isSome) (us : List Token) :
    Take A (.replicate t.weight close) (t :: us) us := by
  have htwo {u : Token} (hu : u.kind = Sign.shr) : Take A [close, close] (u :: us) us := by
    have hclose : Token.closed? (u :: us) = some (u.behindAngle Sign.greater :: us) := by
      rw [Token.closed?, hu]
      rfl
    exact take_cons hclose (take_cons rfl rfl)
  obtain ⟨left, hleft⟩ := Option.isSome_iff_exists.mp h
  rcases Parser.kind_of_dropAngle? hleft with ⟨hkind, -⟩ | ⟨hkind, -⟩ | ⟨hkind, -⟩
  · have hclose : Token.closed? (t :: us) = some us := by rw [Token.closed?, hkind]; rfl
    rw [Token.weight, hkind]
    exact take_cons hclose rfl
  · rw [Token.weight, hkind]
    exact htwo hkind
  · have hclose : Token.closed? (t :: us) = some (t.behindAngle Sign.shr :: us) := by
      rw [Token.closed?, hkind]
      rfl
    rw [Token.weight, hkind]
    exact take_cons hclose (htwo rfl)

/-- **The names that are taken are identifiers** if those among the tokens are. -/
theorem isIdentifier_of_take (hA : ∀ ts us, A ts us → (∀ t ∈ ts, t.Worded) → ∀ t ∈ us, t.Worded)
    (h : Take A ps ts us) (hts : ∀ t ∈ ts, t.Worded) : ∀ x, name x ∈ ps → isIdentifier x := by
  induction ps generalizing ts with
  | nil => exact fun x hx => absurd hx List.not_mem_nil
  | cons p ps ih =>
    obtain ⟨vs, hp, hps⟩ := h
    have hvs : ∀ t ∈ vs, t.Worded := by
      cases p with
      | name =>
        obtain ⟨t, rfl, -⟩ := hp
        exact (List.forall_mem_cons.mp hts).2
      | token =>
        obtain ⟨t, rfl, -⟩ := hp
        exact (List.forall_mem_cons.mp hts).2
      | close => exact Token.worded_closed? hp hts
      | annot => exact hA _ _ hp hts
    intro x hx
    rcases List.mem_cons.mp hx with rfl | hx
    · obtain ⟨t, rfl, hkind, rfl⟩ := hp
      exact hts t List.mem_cons_self hkind
    · exact ih hps hvs x hx

/-- Pairs of brackets. -/
def brackets : Nat → List TypePiece
  | 0 => []
  | n + 1 => token Sign.lbracket :: token Sign.rbracket :: brackets n

end TypePiece

/-! ### Spellings -/

/-- A type, or a part of one: without the annotations before it, the segments of a name with the
type arguments of the last one, type arguments with their angles or none, type arguments with commas
between them, or a single one. -/
inductive TypePhrase where
  | type (t : TypeExpr)
  | plain (t : TypeExpr)
  | segments (names : List String) (args : List TypeArg)
  | angles (args : List TypeArg)
  | list (args : List TypeArg)
  | arg (a : TypeArg)

open TypePiece (brackets)

/-- **The grammar of types.** -/
inductive Spells : TypePhrase → List TypePiece → Prop
  | annotated {t : TypeExpr} {ps : List TypePiece} (h : Spells (.type t) ps) :
    Spells (.type t) (.annot :: ps)
  | bare {t : TypeExpr} {ps : List TypePiece} (h : Spells (.plain t) ps) : Spells (.type t) ps
  | primitive {kind : TokenKind} {p : Primitive} (hp : primitiveOf? kind = some p) (n : Nat)
    (span : Span) : Spells (.plain ⟨.primitive p, [], min n DataType.maxDims, span⟩)
      (.token kind :: brackets n)
  | named {path : Path} {args : List TypeArg} {ps : List TypePiece}
    (h : Spells (.segments path.names args) ps) (n : Nat) (span : Span) :
    Spells (.plain ⟨.named path, args, min n DataType.maxDims, span⟩) (ps ++ brackets n)
  | last {x : String} {args : List TypeArg} {ps : List TypePiece} (h : Spells (.angles args) ps) :
    Spells (.segments [x] args) (.name x :: ps)
  | segment {x : String} {xs : List String} {as args : List TypeArg} {ps qs : List TypePiece}
    (h : Spells (.angles as) ps) (h' : Spells (.segments xs args) qs) :
    Spells (.segments (x :: xs) args) (.name x :: (ps ++ .token Sign.dot :: qs))
  | none : Spells (.angles []) []
  | diamond : Spells (.angles []) [.token Sign.less, .token Sign.greater]
  | angles {args : List TypeArg} {ps : List TypePiece} (h : Spells (.list args) ps) :
    Spells (.angles args) (.token Sign.less :: (ps ++ [.close]))
  | single {a : TypeArg} {ps : List TypePiece} (h : Spells (.arg a) ps) : Spells (.list [a]) ps
  | more {a : TypeArg} {as : List TypeArg} {ps qs : List TypePiece} (h : Spells (.arg a) ps)
    (h' : Spells (.list as) qs) : Spells (.list (a :: as)) (ps ++ .token Sign.comma :: qs)
  | type {t : TypeExpr} {ps : List TypePiece} (h : Spells (.type t) ps) : Spells (.arg (.type t)) ps
  | wildcard (span : Span) : Spells (.arg (.wildcard span)) [.token Sign.question]
  | upper {t : TypeExpr} {ps : List TypePiece} (h : Spells (.type t) ps) (span : Span) :
    Spells (.arg (.upper t span)) (.token Sign.question :: .token Keyword.kwExtends :: ps)
  | lower {t : TypeExpr} {ps : List TypePiece} (h : Spells (.type t) ps) (span : Span) :
    Spells (.arg (.lower t span)) (.token Sign.question :: .token Keyword.kwSuper :: ps)

/-! ### The usual spelling -/

/-- The keyword of a primitive type. -/
def Primitive.word : Primitive → Keyword
  | void => .kwVoid
  | boolean => .kwBoolean
  | byte => .kwByte
  | short => .kwShort
  | char => .kwChar
  | int => .kwInt
  | long => .kwLong
  | float => .kwFloat
  | double => .kwDouble

theorem Primitive.primitiveOf?_word (p : Primitive) : primitiveOf? p.word = some p := by
  cases p <;> rfl

theorem Primitive.spelling_word (p : Primitive) : p.word.spelling = p.keyword := by
  cases p <;> rfl

/-- Names with dots between them. -/
def TypePiece.dotted : List String → List TypePiece
  | [] => []
  | [x] => [name x]
  | x :: xs => name x :: token Sign.dot :: dotted xs

/-- The pieces of a base. -/
def TypeBase.pieces : TypeBase → List TypePiece
  | primitive p => [.token p.word]
  | named path => TypePiece.dotted path.names
  | inferred => [.name "var"]

mutual

/-- The pieces that spell a type in the usual way. -/
def TypeExpr.pieces : TypeExpr → List TypePiece
  | ⟨base, args, dims, _⟩ =>
    base.pieces ++ ((if args.isEmpty then [] else
      .token Sign.less :: (TypeArg.listPieces args ++ [.close])) ++ brackets dims)

/-- The pieces that spell a type argument. -/
def TypeArg.pieces : TypeArg → List TypePiece
  | .type t => t.pieces
  | .wildcard _ => [.token Sign.question]
  | .upper t _ => .token Sign.question :: .token Keyword.kwExtends :: t.pieces
  | .lower t _ => .token Sign.question :: .token Keyword.kwSuper :: t.pieces

/-- The pieces that spell type arguments, with commas between them. -/
def TypeArg.listPieces : List TypeArg → List TypePiece
  | [] => []
  | [a] => a.pieces
  | a :: as => a.pieces ++ .token Sign.comma :: TypeArg.listPieces as

end

/-- The pieces that spell type arguments with their angles. -/
def TypeArg.anglePieces (args : List TypeArg) : List TypePiece :=
  if args.isEmpty then [] else .token Sign.less :: (TypeArg.listPieces args ++ [.close])

/-- The pieces that spell a phrase in the usual way. -/
def TypePhrase.pieces : TypePhrase → List TypePiece
  | type t | plain t => t.pieces
  | segments names args => TypePiece.dotted names ++ TypeArg.anglePieces args
  | angles args => TypeArg.anglePieces args
  | list args => TypeArg.listPieces args
  | arg a => a.pieces

theorem TypeExpr.pieces_mk (base : TypeBase) (args : List TypeArg) (dims : Nat) (span : Span) :
    (TypeExpr.mk base args dims span).pieces
      = base.pieces ++ (TypeArg.anglePieces args ++ brackets dims) := by
  rw [TypeExpr.pieces]
  rfl

/-- There are no names in brackets. -/
theorem TypePiece.name_not_mem_brackets (x : String) (n : Nat) : name x ∉ brackets n := by
  induction n with
  | zero => exact List.not_mem_nil
  | succ n ih => simpa [brackets] using ih

namespace TypePhrase

variable {args : List TypeArg}

theorem pieces_primitive (p : Primitive) (n : Nat) (span : Span) :
    (plain ⟨.primitive p, [], n, span⟩).pieces = .token p.word :: brackets n :=
  TypeExpr.pieces_mk (.primitive p) [] n span

theorem pieces_named (path : Path) (n : Nat) (span : Span) :
    (plain ⟨.named path, args, n, span⟩).pieces
      = (segments path.names args).pieces ++ brackets n := by
  rw [pieces, TypeExpr.pieces_mk, ← List.append_assoc]
  rfl

theorem pieces_segment (x : String) {xs : List String} (h : xs ≠ []) :
    (segments (x :: xs) args).pieces
      = .name x :: ([] ++ .token Sign.dot :: (segments xs args).pieces) := by
  obtain ⟨y, ys, rfl⟩ := List.exists_cons_of_ne_nil h
  rfl

theorem pieces_angles (h : args ≠ []) :
    (angles args).pieces = .token Sign.less :: ((list args).pieces ++ [.close]) := by
  obtain ⟨b, bs, rfl⟩ := List.exists_cons_of_ne_nil h
  rfl

theorem pieces_more (a : TypeArg) {as : List TypeArg} (h : as ≠ []) :
    (list (a :: as)).pieces = (arg a).pieces ++ .token Sign.comma :: (list as).pieces := by
  obtain ⟨b, bs, rfl⟩ := List.exists_cons_of_ne_nil h
  simp only [pieces, TypeArg.listPieces]

end TypePhrase

namespace Spells

open TypePhrase

variable {ph : TypePhrase} {ps : List TypePiece} {args : List TypeArg}

/-- Type arguments that are listed are there. -/
theorem list_ne_nil (h : Spells (.list args) ps) : args ≠ [] := by
  cases h <;> exact List.cons_ne_nil _ _

theorem segments_ne_nil {xs : List String} (h : Spells (.segments xs args) ps) : xs ≠ [] := by
  cases h <;> exact List.cons_ne_nil _ _

/-- **What is spelled at all is spelled in the usual way.** -/
theorem usual (h : Spells ph ps) : Spells ph ph.pieces := by
  have hmin (n : Nat) : min (min n DataType.maxDims) DataType.maxDims = min n DataType.maxDims := by
    omega
  induction h with
  | annotated _ ih => exact ih
  | bare _ ih => exact .bare ih
  | @primitive kind p hp n span =>
    have husual := primitive p.primitiveOf?_word (min n DataType.maxDims) span
    rwa [hmin, ← pieces_primitive] at husual
  | @named path args ps _ n span ih =>
    have husual := named ih (min n DataType.maxDims) span
    rwa [hmin, ← pieces_named] at husual
  | last _ ih => exact .last ih
  | segment _ h' _ ih' =>
    rw [pieces_segment _ h'.segments_ne_nil]
    exact .segment .none ih'
  | none => exact .none
  | diamond => exact .none
  | angles h ih =>
    rw [pieces_angles h.list_ne_nil]
    exact .angles ih
  | single _ ih => exact .single ih
  | more _ h' ih ih' =>
    rw [pieces_more _ h'.list_ne_nil]
    exact .more ih ih'
  | type _ ih => exact .type ih
  | wildcard span => exact .wildcard span
  | upper _ span ih => exact .upper ih span
  | lower _ span ih => exact .lower ih span

/-- The usual spelling uses no other names. -/
theorem name_mem_of_usual (h : Spells ph ps) {x : String} (hx : .name x ∈ ph.pieces) :
    .name x ∈ ps := by
  induction h with
  | annotated _ ih => exact List.mem_cons_of_mem _ (ih hx)
  | bare _ ih => exact ih hx
  | primitive => simp [pieces_primitive, TypePiece.name_not_mem_brackets] at hx
  | named _ n span ih =>
    simp only [pieces_named, List.mem_append, TypePiece.name_not_mem_brackets, or_false] at hx ⊢
    exact ih hx
  | last _ ih =>
    simp only [pieces, TypePiece.dotted, List.singleton_append, List.mem_cons] at hx ⊢
    exact hx.imp_right ih
  | segment _ h' _ ih' =>
    simp only [pieces_segment _ h'.segments_ne_nil, List.nil_append, List.mem_cons, reduceCtorEq,
      false_or, List.mem_append] at hx ⊢
    exact hx.imp_right fun hx => .inr (ih' hx)
  | none => exact hx
  | diamond => exact absurd hx List.not_mem_nil
  | angles h ih =>
    simp only [pieces_angles h.list_ne_nil, List.mem_cons, reduceCtorEq, false_or,
      List.mem_append, List.not_mem_nil, or_false] at hx ⊢
    exact ih hx
  | single _ ih => exact ih hx
  | more _ h' ih ih' =>
    simp only [pieces_more _ h'.list_ne_nil, List.mem_cons, reduceCtorEq, false_or,
      List.mem_append] at hx ⊢
    exact hx.imp ih ih'
  | type _ ih => exact ih hx
  | wildcard span => exact hx
  | upper _ span ih | lower _ span ih =>
    simp only [pieces, TypeArg.pieces, List.mem_cons, reduceCtorEq, false_or] at hx ⊢
    exact ih hx

end Spells

end JavaGraft
