import JavaGraft.Proofs.Grammar.Lookahead
import JavaGraft.Proofs.Token.Words
import Mathlib.Data.List.Chain

/-!
# Reading plain words

What a parser does on a given source is followed word by word: `ParserState.Reads` tells which words
are left, and each parser below takes its own from their front.

The words are *plain* (`Lexeme.ArePlain`): identifiers and signs among which nothing looks like an
annotation, a lambda or a cast. To look ahead from a parenthesis then always finds an expression in
parentheses (`Lookahead.isLambda_plain`, `Lookahead.isCast_plain`), since whatever skips tokens ends
at a place further on among the same words.
-/

namespace JavaGraft

/-! ### Plain words -/

/-- A sign as a word. -/
def Sign.lexeme (s : Sign) : Lexeme := (.sign s, s.spelling)

/-- A name as a word. -/
def Ident.lexeme (i : Ident) : Lexeme := (.identifier, i.name)

/-- Identifiers, and the signs that start neither the body of a lambda nor an annotation. -/
def TokenKind.isPlain : TokenKind → Bool
  | .identifier => true
  | .sign s => s ≠ .arrow && s ≠ .atSign
  | _ => false

/-- Words of plain kinds, of which none behind a closing parenthesis starts an operand. -/
structure Lexeme.ArePlain (ls : List Lexeme) : Prop where
  words : ∀ l ∈ ls, IsWord l
  kinds : ∀ l ∈ ls, l.1.isPlain
  closing : ls.IsChain fun a b => a.1 = .sign .rparen → Lookahead.startsCastOperand b.1 = false

namespace Lexeme.ArePlain

variable {l : Lexeme} {ls ls' : List Lexeme}

theorem nil : ArePlain [] :=
  ⟨fun _ h => absurd h List.not_mem_nil, fun _ h => absurd h List.not_mem_nil, .nil⟩

theorem suffix (h : ArePlain ls) (hls : ls' <:+ ls) : ArePlain ls' :=
  ⟨fun _ hl => h.words _ (hls.mem hl), fun _ hl => h.kinds _ (hls.mem hl), h.closing.suffix hls⟩

theorem tail (h : ArePlain (l :: ls)) : ArePlain ls := h.suffix (List.suffix_cons l ls)

/-- Before any plain words there can be a word other than a closing parenthesis. -/
theorem cons (hl : IsWord l) (hkind : l.1.isPlain) (hclose : l.1 ≠ .sign .rparen)
    (h : ArePlain ls) : ArePlain (l :: ls) :=
  ⟨List.forall_mem_cons.mpr ⟨hl, h.words⟩, List.forall_mem_cons.mpr ⟨hkind, h.kinds⟩,
    List.isChain_cons.mpr ⟨fun _ _ hl' => absurd hl' hclose, h.closing⟩⟩

/-- Behind any plain words there can be others that do not start with an operand. -/
theorem append (h : ArePlain ls) (h' : ArePlain ls')
    (hhead : ∀ l ∈ ls'.head?, Lookahead.startsCastOperand l.1 = false) : ArePlain (ls ++ ls') :=
  ⟨fun _ hl => (List.mem_append.mp hl).elim (h.words _) (h'.words _),
    fun _ hl => (List.mem_append.mp hl).elim (h.kinds _) (h'.kinds _),
    List.isChain_append.mpr ⟨h.closing, h'.closing, fun _ _ l hl _ => hhead l hl⟩⟩

end Lexeme.ArePlain

/-! ### Looking ahead -/

namespace Lookahead

variable {ts rest : List Token}

/-- The tokens behind parentheses are the last ones. -/
theorem suffix_of_afterParens {depth : Nat} (h : afterParens depth ts = some rest) :
    rest <:+ ts := by
  induction ts generalizing depth with
  | nil => cases h
  | cons t ts ih =>
    have hcons : ts <:+ t :: ts := List.suffix_cons t ts
    rw [afterParens] at h
    split_ifs at h with _ _ hdepth
    · exact (ih h).trans hcons
    · exact Option.some.inj h ▸ hcons
    · exact (ih h).trans hcons
    · exact (ih h).trans hcons

theorem suffix_of_skipTypeArgs {depth : Int} (h : skipTypeArgs depth ts = some rest) :
    rest <:+ ts := by
  induction ts generalizing depth with
  | nil => cases h
  | cons t ts ih =>
    have hcons : ts <:+ t :: ts := List.suffix_cons t ts
    rw [skipTypeArgs] at h
    split at h
    · cases h
    · split_ifs at h
      · exact (ih h).trans hcons
      · exact Option.some.inj h ▸ hcons

theorem suffix_of_skipSegments {n : Nat} (h : skipSegments n ts = some rest) : rest <:+ ts := by
  induction n generalizing ts with
  | zero => cases h
  | succ n ih =>
    rw [skipSegments_succ] at h
    obtain ⟨ts', hargs, h⟩ := Option.bind_eq_some_iff.mp h
    have hsuffix : ts' <:+ ts := by
      split at hargs
      · exact suffix_of_skipTypeArgs hargs
      · exact Option.some.inj hargs ▸ List.suffix_rfl
    split at h
    · next dot name ts' =>
      split at h
      · exact (ih h).trans (((List.suffix_cons name ts').trans (List.suffix_cons dot _)).trans
          hsuffix)
      · exact Option.some.inj h ▸ hsuffix
    · exact Option.some.inj h ▸ hsuffix

theorem skipDims_suffix (ts : List Token) : skipDims ts <:+ ts := by
  fun_induction skipDims ts with
  | case1 first second rest _ ih =>
    exact ih.trans ((List.suffix_cons second rest).trans (List.suffix_cons first _))
  | case2 => exact List.suffix_rfl
  | case3 => exact List.suffix_rfl

/-- Where no annotation starts, the tokens behind a type are the last ones. -/
theorem suffix_of_skipType (hannot : startsWith Sign.atSign ts = false)
    (h : skipType ts = some rest) : rest <:+ ts := by
  have hannots : skipAnnots (ts.length + 1) ts = some ts := by
    rw [skipAnnots, if_neg (by rw [hannot]; exact Bool.false_ne_true)]
  rw [skipType, hannots, Option.bind_eq_bind, Option.bind_some] at h
  cases ts with
  | nil => cases h
  | cons t ts =>
    have hcons : ts <:+ t :: ts := List.suffix_cons t ts
    dsimp only at h
    split_ifs at h
    · exact Option.some.inj h ▸ (skipDims_suffix ts).trans hcons
    · obtain ⟨rest', hrest', rfl⟩ := Option.map_eq_some_iff.mp h
      exact ((skipDims_suffix rest').trans (suffix_of_skipSegments hrest')).trans hcons

variable (hplain : Lexeme.ArePlain (ts.map Token.lexeme))

include hplain

/-- Plain words do not start with anything that is not plain. -/
theorem startsWith_plain {kind : TokenKind} (hkind : kind.isPlain = false) :
    startsWith kind ts = false := by
  cases ts with
  | nil => rfl
  | cons t ts =>
    have ht : t.kind.isPlain := hplain.kinds _ (List.mem_cons_self ..)
    rw [startsWith, List.head?_cons, Option.any_some, decide_eq_false_iff_not]
    rintro rfl
    exact absurd ht (by rw [hkind]; exact Bool.false_ne_true)

/-- **Plain words are no parameters of a lambda.** -/
theorem isLambda_plain : isLambda ts = false := by
  rw [isLambda]
  cases h : afterParens 0 ts with
  | none => rfl
  | some rest => exact startsWith_plain (hplain.suffix ((suffix_of_afterParens h).map _)) rfl

/-- **Plain words are no cast.** -/
theorem isCast_plain : isCast ts = false := by
  have hinner : Lexeme.ArePlain ((ts.drop 1).map Token.lexeme) :=
    hplain.suffix ((List.drop_suffix 1 ts).map _)
  rw [isCast]
  split
  · next close rest h =>
    have hrest : Lexeme.ArePlain ((close :: rest).map Token.lexeme) :=
      hinner.suffix ((suffix_of_skipType (startsWith_plain hinner rfl) h).map _)
    have hprimitive : ((ts.drop 1).head?.any fun t => t.kind.isPrimitive) = false := by
      cases hts : ts.drop 1 with
      | nil => rfl
      | cons t ts' =>
        have ht : t.kind.isPlain :=
          hinner.kinds _ (by rw [hts]; exact List.mem_cons_self ..)
        rw [List.head?_cons, Option.any_some]
        cases hk : t.kind <;> rw [hk] at ht <;> first | rfl | cases ht
    rw [hprimitive, Bool.false_or, Bool.and_eq_false_imp]
    intro hclose
    cases rest with
    | nil => rfl
    | cons t ts' =>
      exact (List.isChain_cons.mp hrest.closing).1 _ rfl (of_decide_eq_true hclose)
  · rfl

end Lookahead

/-! ### States -/

namespace Token

theorem one_le_weight (t : Token) : 1 ≤ t.weight := by
  rw [weight]
  split <;> decide

end Token

/-- The words that are left, and no errors so far. -/
structure ParserState.Reads (s : ParserState) (ls : List Lexeme) : Prop where
  ahead : s.ahead.map Token.lexeme = ls
  plain : Lexeme.ArePlain ls
  finish : s.finish.kind = .endOfSource
  errors : s.errors = []

namespace ParserState.Reads

variable {s : ParserState} {l l' : Lexeme} {ls : List Lexeme}

theorem next (h : s.Reads (l :: ls)) : s.next.lexeme = l := by
  obtain ⟨t, ts, hahead, ht, -⟩ := List.map_eq_cons_iff.mp h.ahead
  rw [ParserState.next, nth, hahead]
  exact ht

theorem kind (h : s.Reads (l :: ls)) : s.next.kind = l.1 := congrArg Prod.fst h.next

theorem text (h : s.Reads (l :: ls)) : s.next.text = l.2 := congrArg Prod.snd h.next

theorem sign {sign : Sign} (h : s.Reads (sign.lexeme :: ls)) : s.next.kind = .sign sign := h.kind

theorem name {i : Ident} (h : s.Reads (i.lexeme :: ls)) : s.next.kind = .identifier := h.kind

theorem kind_end (h : s.Reads []) : s.next.kind = .endOfSource := by
  rw [ParserState.next, nth, List.map_eq_nil_iff.mp h.ahead]
  exact h.finish

/-- The second of two words. -/
theorem nth_one (h : s.Reads (l :: l' :: ls)) : (s.nth 1).kind = l'.1 := by
  obtain ⟨t, ts, hahead, -, hts⟩ := List.map_eq_cons_iff.mp h.ahead
  obtain ⟨t', ts', rfl, ht', -⟩ := List.map_eq_cons_iff.mp hts
  rw [nth, hahead]
  exact congrArg Prod.fst ht'

/-- No word is of a kind that is not plain, nor is the end of the source. -/
theorem nth_kind_ne (h : s.Reads ls) (n : Nat) {kind : TokenKind} (hkind : kind.isPlain = false)
    (hend : kind ≠ .endOfSource) : (s.nth n).kind ≠ kind := by
  rintro rfl
  rw [nth, List.getD_eq_getElem?_getD] at hkind hend
  cases ht : s.ahead[n]? with
  | none => exact hend (by rw [ht]; exact h.finish)
  | some t =>
    have hmem : t.lexeme ∈ ls := h.ahead ▸ List.mem_map_of_mem (List.mem_of_getElem? ht)
    rw [ht] at hkind
    exact absurd (h.plain.kinds _ hmem) (by rw [show t.lexeme.1.isPlain = false from hkind]; decide)

theorem advance (h : s.Reads (l :: ls)) : s.advance.Reads ls := by
  obtain ⟨t, ts, hahead, -, hts⟩ := List.map_eq_cons_iff.mp h.ahead
  rw [ParserState.advance]
  simp only [hahead]
  exact ⟨hts, h.plain.tail, h.finish, h.errors⟩

/-- The number of the next call makes no difference. -/
theorem withCall (h : s.Reads ls) (n : Nat) : ParserState.Reads { s with nextCall := n } ls :=
  ⟨h.ahead, h.plain, h.finish, h.errors⟩

end ParserState.Reads

/-! ### Parsers of single words -/

namespace Parser

variable {α β : Type} {s s' : ParserState} {kind : TokenKind}

theorem bind_ok {p : Parser α} {f : α → Parser β} {a : α} (h : p s = .ok a s') :
    (p >>= f) s = f a s' := by
  simp only [bind, EStateM.bind, h]

theorem bind_error {p : Parser α} {f : α → Parser β} {e : Failure} (h : p s = .error e s') :
    (p >>= f) s = .error e s' := by
  simp only [bind, EStateM.bind, h]

theorem exists_of_bind_ok {p : Parser α} {f : α → Parser β} {b : β}
    (h : (p >>= f) s = .ok b s') : ∃ a s₁, p s = .ok a s₁ ∧ f a s₁ = .ok b s' := by
  rcases hrun : p s with ⟨a, s₁⟩ | ⟨e, s₁⟩
  · rw [bind_ok hrun] at h
    exact ⟨a, s₁, rfl, h⟩
  · rw [bind_error hrun] at h
    cases h

theorem discard_ok {p : Parser α} {a : α} (h : p s = .ok a s') : discard p s = .ok () s' := by
  simp only [discard, Functor.discard, Functor.mapConst, EStateM.map, h, Function.const,
    Function.comp_apply]

theorem discard_error {p : Parser α} {e : Failure} (h : p s = .error e s') :
    discard p s = .error e s' := by
  simp only [discard, Functor.discard, Functor.mapConst, EStateM.map, h, Function.comp_apply]

theorem exists_of_discard_ok {p : Parser α} {u : Unit} (h : discard p s = .ok u s') :
    ∃ a, p s = .ok a s' := by
  rcases hrun : p s with ⟨a, s₁⟩ | ⟨e, s₁⟩
  · rw [discard_ok hrun] at h
    cases h
    exact ⟨a, rfl⟩
  · rw [discard_error hrun] at h
    cases h

/-- A choice the other way round. -/
theorem unless_eq (p q : α) : (fun b : Bool => if !b then p else q) = fun b => if b then q else p :=
  funext fun b => by cases b <;> rfl

theorem pure_eq (a : α) (s : ParserState) : (pure a : Parser α) s = .ok a s := rfl

theorem get_eq (s : ParserState) : (get : Parser ParserState) s = .ok s s := rfl

theorem peek_eq (s : ParserState) : peek s = .ok s.next s := rfl

theorem advance_eq (s : ParserState) : advance s = .ok s.next s.advance := rfl

theorem freshCall_eq (s : ParserState) :
    freshCall s = .ok s.nextCall { s with nextCall := s.nextCall + 1 } := rfl

theorem spanFrom_eq (start : Span) (s : ParserState) :
    spanFrom start s = .ok (start.merge s.previous.span) s := rfl

theorem check_eq (kind : TokenKind) (s : ParserState) :
    check kind s = .ok (decide (s.next.kind = kind)) s := rfl

theorem checkNth_eq (n : Nat) (kind : TokenKind) (s : ParserState) :
    checkNth n kind s = .ok (decide ((s.nth n).kind = kind)) s := rfl

theorem eat?_ok (h : s.next.kind = kind) : eat? kind s = .ok (some s.next) s.advance := by
  rw [eat?, bind_ok (check_eq kind s), decide_eq_true h]
  rfl

theorem eat?_no (h : s.next.kind ≠ kind) : eat? kind s = .ok none s := by
  rw [eat?, bind_ok (check_eq kind s), decide_eq_false h]
  rfl

theorem eat_ok (h : s.next.kind = kind) : eat kind s = .ok true s.advance := by
  rw [eat, bind_ok (eat?_ok h)]
  rfl

theorem eat_no (h : s.next.kind ≠ kind) : eat kind s = .ok false s := by
  rw [eat, bind_ok (eat?_no h)]
  rfl

theorem expect_ok (h : s.next.kind = kind) : expect kind s = .ok s.next s.advance := by
  rw [expect, bind_ok (check_eq kind s), decide_eq_true h]
  rfl

theorem expect_no (h : s.next.kind ≠ kind) : ∃ e, expect kind s = .error (.rejected e) s := by
  rw [expect, bind_ok (check_eq kind s), decide_eq_false h, if_neg nofun, atEnd,
    bind_ok (check_eq _ s)]
  split <;> exact ⟨_, rfl⟩

theorem of_expect_ok {t : Token} (h : expect kind s = .ok t s') :
    s.next.kind = kind ∧ s' = s.advance := by
  by_cases hnext : s.next.kind = kind
  · rw [expect_ok hnext] at h
    cases h
    exact ⟨hnext, rfl⟩
  · obtain ⟨e, he⟩ := expect_no hnext
    rw [he] at h
    cases h

theorem identifier_ok (h : s.next.kind = .identifier) :
    identifier s = .ok ⟨s.next.text, s.next.span⟩ s.advance := by
  rw [identifier, bind_ok (expect_ok h)]
  rfl

theorem of_identifier_ok {name : Ident} (h : identifier s = .ok name s') :
    s.next.kind = .identifier ∧ s' = s.advance := by
  obtain ⟨t, s₁, hexpect, h⟩ := exists_of_bind_ok h
  cases h
  exact of_expect_ok hexpect

/-- The tokens that an angle can be taken off. -/
theorem kind_of_dropAngle? {rest : Option TokenKind} (h : dropAngle? kind = some rest) :
    kind = Sign.greater ∧ rest = none ∨ kind = Sign.shr ∧ rest = some Sign.greater ∨
      kind = Sign.ushr ∧ rest = some Sign.shr := by
  unfold Parser.dropAngle? at h
  split at h
  · exact .inl ⟨rfl, (Option.some.inj h).symm⟩
  · exact .inr (.inl ⟨rfl, (Option.some.inj h).symm⟩)
  · exact .inr (.inr ⟨rfl, (Option.some.inj h).symm⟩)
  · cases h

/-- One more item, and whether a separator follows. -/
def oneSeparated (separator : TokenKind) (item : Parser α) (found : List α) :
    Parser (List α ⊕ List α) := do
  let a ← item
  if ← eat separator then return .inl (a :: found)
  else return .inr (a :: found).reverse

theorem sepBy_eq (rounds : Nat) (separator : TokenKind) (item : Parser α) :
    sepBy rounds separator item = iterate (oneSeparated separator item) rounds [] := rfl

/-- Behind an item and a separator it goes on. -/
theorem oneSeparated_more {item : Parser α} (found : List α) {a : α} (h : item s = .ok a s')
    (hnext : s'.next.kind = kind) :
    oneSeparated kind item found s = .ok (.inl (a :: found)) s'.advance := by
  rw [oneSeparated, bind_ok h, bind_ok (eat_ok hnext)]
  rfl

/-- Behind an item without a separator it ends. -/
theorem oneSeparated_last {item : Parser α} (found : List α) {a : α} (h : item s = .ok a s')
    (hnext : s'.next.kind ≠ kind) :
    oneSeparated kind item found s = .ok (.inr (a :: found).reverse) s' := by
  rw [oneSeparated, bind_ok h, bind_ok (eat_no hnext)]
  rfl

theorem iterate_inl {γ : Type} {step : β → Parser (β ⊕ γ)} {rounds : Nat} {b b' : β}
    (h : step b s = .ok (.inl b') s') :
    iterate step (rounds + 1) b s = iterate step rounds b' s' := by
  rw [iterate, bind_ok h]

theorem iterate_inr {γ : Type} {step : β → Parser (β ⊕ γ)} {rounds : Nat} {b : β} {c : γ}
    (h : step b s = .ok (.inr c) s') : iterate step (rounds + 1) b s = .ok c s' := by
  rw [iterate, bind_ok h]
  rfl

end Parser

end JavaGraft
