import JavaGraft.Proofs.Course.Termination
import JavaGraft.Proofs.Spelling.Respelling

/-!
# The text of a type is read as that type

A type that was read from any source has a text, and this text is read again as the same type
(`JavaGraft.TypeExpr.parseType_text`). It need not be the text that was read: it has no annotations,
no comments, and blanks only where the usual text has them.

A text *prints* pieces if its tokens are these pieces (`JavaGraft.Prints`). Every other piece is a
token of its own, but closing angles are not, since up to three of them in a row are one token. The
text of a type prints the pieces of its usual spelling.
-/

namespace JavaGraft

open Grammar CharClass TypePiece

/-! ### Texts that print pieces -/

/-- A text that prints pieces: it consists of closing angles and of other tokens, each of them
with a blank behind it or none. -/
inductive Prints : List Char → List TypePiece → Prop
  | nothing : Prints [] []
  | lexeme {c : Char} {text tail cs : List Char} {kind : TokenKind} {p : TypePiece}
    {ps : List TypePiece} (hc : isBlank c = false ∧ c ≠ Scan.byteOrderMark)
    (hangle : c ∉ Sign.greater.followers)
    (hfront : Scan.front (c :: (text ++ tail)) = .piece ⟨c :: text, tail, .ok kind⟩)
    (hp : p = .token kind ∨ kind = .identifier ∧ p = .name (String.ofList (c :: text)))
    (htail : tail = cs ∨ tail = ' ' :: cs) (h : Prints cs ps) :
    Prints (c :: (text ++ tail)) (p :: ps)
  | close {cs : List Char} {ps : List TypePiece} (h : Prints cs ps) :
    Prints ('>' :: cs) (.close :: ps)

namespace Prints

variable {A : List Token → List Token → Prop} {cs tail : List Char} {ps : List TypePiece}

/-- There is no margin before what is printed. -/
theorem head (h : Prints cs ps) : ∀ c ∈ cs.head?, isBlank c = false ∧ c ≠ Scan.byteOrderMark := by
  cases h with
  | nothing => exact nofun
  | lexeme hc =>
    rintro _ ⟨⟩
    exact hc
  | close =>
    rintro _ ⟨⟩
    decide

/-- A closing angle comes next, or nothing that a closing angle could be part of. -/
theorem angle_cases (h : Prints cs ps) : (∀ c ∈ cs.head?, c ∉ Sign.greater.followers) ∨
    ∃ cs' ps', cs = '>' :: cs' ∧ ps = .close :: ps' ∧ Prints cs' ps' := by
  cases h with
  | nothing => exact .inl nofun
  | lexeme _ hangle =>
    left
    rintro _ ⟨⟩
    exact hangle
  | close h => exact .inr ⟨_, _, rfl, rfl, h⟩

variable (A cs ps) in
/-- A text starts with one token, and what is behind it prints the pieces that are left when this
token is taken. -/
def Opens : Prop := ∃ text tail kind cs' ps',
  Scan.front cs = .piece ⟨text, tail, .ok kind⟩ ∧ (tail = cs' ∨ tail = ' ' :: cs') ∧
    cs'.length < cs.length ∧ Prints cs' ps' ∧
    ∀ (t : Token) us vs, t.kind = kind → t.text = String.ofList text →
      Take A ps' us vs → Take A ps (t :: us) vs

theorem opens_angles {s : Sign} (hs : (Parser.dropAngle? s).isSome) (h : Prints cs ps)
    (hfollow : ∀ d ∈ cs.head?, d ∉ s.followers) :
    Opens A (s.spelling.toList ++ cs) (.replicate s.spelling.length .close ++ ps) := by
  have hsign : s = .greater ∨ s = .shr ∨ s = .ushr := by
    obtain ⟨left, hleft⟩ := Option.isSome_iff_exists.mp hs
    rcases Parser.kind_of_dropAngle? hleft with ⟨hkind, -⟩ | ⟨hkind, -⟩ | ⟨hkind, -⟩
    · exact .inl (TokenKind.sign.inj hkind)
    · exact .inr (.inl (TokenKind.sign.inj hkind))
    · exact .inr (.inr (TokenKind.sign.inj hkind))
  refine ⟨s.spelling.toList, cs, .sign s, cs, ps, Scan.front_sign ?_ ?_ hfollow, .inl rfl, ?_, h,
    fun t us vs hkind _ htake => ?_⟩
  · rcases hsign with rfl | rfl | rfl <;> decide
  · rcases hsign with rfl | rfl | rfl <;> exact nofun
  · rw [List.length_append]
    refine Nat.lt_add_of_pos_left ?_
    rcases hsign with rfl | rfl | rfl <;> decide
  · have hweight : t.weight = s.spelling.length := by
      rw [Token.weight, hkind]
      rcases hsign with rfl | rfl | rfl <;> rfl
    rw [← hweight]
    exact take_append (take_angles (hkind ▸ hs) us) htake

/-- **The first token** of what is printed. -/
theorem opens (h : Prints cs ps) (hne : cs ≠ []) : Opens A cs ps := by
  cases h with
  | nothing => exact absurd rfl hne
  | @lexeme c text tail cs kind p ps _ _ hfront hp htail h =>
    refine ⟨c :: text, tail, kind, cs, ps, hfront, htail, ?_, h,
      fun t us vs hkind htext htake => ?_⟩
    · rcases htail with rfl | rfl <;>
        simp only [List.length_cons, List.length_append] <;> omega
    · rcases hp with rfl | ⟨rfl, rfl⟩
      · exact ⟨us, ⟨t, rfl, hkind⟩, htake⟩
      · exact ⟨us, ⟨t, rfl, hkind, htext⟩, htake⟩
  | @close cs₁ ps₁ h₁ =>
    -- as many angles are one token as stand in a row, up to three
    have hshr : Sign.shr.followers ⊆ Sign.greater.followers := by decide
    have hushr : Sign.ushr.followers ⊆ Sign.greater.followers := by decide
    rcases h₁.angle_cases with hone | ⟨cs₂, ps₂, rfl, rfl, h₂⟩
    · exact opens_angles (s := .greater) rfl h₁ hone
    rcases h₂.angle_cases with htwo | ⟨cs₃, ps₃, rfl, rfl, h₃⟩
    · exact opens_angles (s := .shr) rfl h₂ fun d hd hmem => htwo d hd (hshr hmem)
    refine opens_angles (s := .ushr) rfl h₃ ?_
    rcases h₃.angle_cases with hthree | ⟨cs₄, ps₄, rfl, -, -⟩
    · exact fun d hd hmem => hthree d hd (hushr hmem)
    · rintro _ ⟨⟩
      decide

/-- **What is printed is read**: the tokens are the pieces, and there are no errors. -/
theorem readAll (h : Prints cs ps) {n : Nat} {c : Cursor} (hc : c.rest = cs ∨ c.rest = ' ' :: cs)
    (hn : cs.length < n) : (Tokens.readAll n c).errors = [] ∧
      Take A ps (Tokens.readAll n c).tokens [] := by
  induction n generalizing cs ps c with
  | zero => exact absurd hn (Nat.not_lt_zero _)
  | succ n ih =>
    have hmargin : (Scan.margin c.rest).2 = cs := by
      obtain ⟨hnone, hblank⟩ := Scan.margin_of_head h.head
      rcases hc with hc | hc
      · rw [hc, hnone]
      · rw [hc, hblank]
    rw [Tokens.readAll]
    rcases eq_or_ne cs [] with rfl | hne
    · obtain rfl : ps = [] := by cases h; rfl
      have hend : (Lexer.read c).token.kind = .endOfSource := by
        rw [Lexer.read, Lexer.readWithin]
        simp only [Cursor.past, hmargin, Scan.front]
        rfl
      rw [if_pos hend]
      exact ⟨rfl, rfl⟩
    · obtain ⟨text, tail, kind, cs', ps', hfront, htail, hlength, h', htake⟩ :=
        h.opens (A := A) hne
      obtain ⟨hlexeme, herror, hnext⟩ := Lexer.read_front hmargin hfront
      obtain ⟨hkind, htext⟩ := Prod.mk.inj hlexeme
      have hne : (Lexer.read c).token.kind ≠ .endOfSource := by
        have htext := Scan.isText_front hfront rfl
        rw [hkind]
        rintro rfl
        cases htext
      obtain ⟨herrors, htake'⟩ := ih h' (by rwa [hnext]) (by omega)
      simp only [if_neg hne, herror]
      exact ⟨herrors, htake _ _ _ hkind htext htake'⟩

end Prints

/-! ### The text of a phrase -/

/-- The text of a type argument. -/
def TypeArg.text : TypeArg → String
  | type t => t.text
  | wildcard _ => "?"
  | upper t _ => "? extends " ++ t.text
  | lower t _ => "? super " ++ t.text

theorem TypeExpr.argTexts_eq (args : List TypeArg) : argTexts args = args.map TypeArg.text := by
  induction args with
  | nil => rfl
  | cons a as ih => cases a <;> simp [argTexts, ih, TypeArg.text]

/-- The text of type arguments with their angles. -/
def TypeArg.angleText (args : List TypeArg) : List Char :=
  if args.isEmpty then [] else '<' :: ((", ".intercalate (args.map text)).toList ++ ['>'])

/-- Pairs of brackets. -/
def bracketText (n : Nat) : List Char := (DataType.brackets n).toList

theorem bracketText_succ (n : Nat) : bracketText (n + 1) = '[' :: ']' :: bracketText n := by
  simp [bracketText, DataType.brackets, List.replicate_succ]

/-- The text of a phrase. -/
def TypePhrase.text : TypePhrase → List Char
  | type t | plain t => t.text.toList
  | segments names args => (joinDots names).toList ++ TypeArg.angleText args
  | angles args => TypeArg.angleText args
  | list args => (", ".intercalate (args.map TypeArg.text)).toList
  | arg a => a.text.toList

theorem TypeExpr.text_mk (base : TypeBase) (args : List TypeArg) (dims : Nat) (span : Span) :
    (TypeExpr.mk base args dims span).text.toList
      = base.text.toList ++ (TypeArg.angleText args ++ bracketText dims) := by
  rw [TypeExpr.text, argTexts_eq, TypeArg.angleText]
  rcases args with _ | ⟨a, as⟩
  · simp [bracketText]
  · simp [bracketText]

namespace TypePhrase

variable {args : List TypeArg}

theorem text_primitive (p : Primitive) (n : Nat) (span : Span) :
    (plain ⟨.primitive p, [], n, span⟩).text = p.word.spelling.toList ++ bracketText n := by
  rw [text, TypeExpr.text_mk, p.spelling_word]
  rfl

theorem text_named (path : Path) (n : Nat) (span : Span) :
    (plain ⟨.named path, args, n, span⟩).text
      = (segments path.names args).text ++ bracketText n := by
  rw [text, TypeExpr.text_mk, text, List.append_assoc]
  rfl

theorem text_last (x : String) : (segments [x] args).text = x.toList ++ (angles args).text := by
  simp [text, joinDots]

theorem text_segment (x : String) {xs : List String} (h : xs ≠ []) :
    (segments (x :: xs) args).text = x.toList ++ '.' :: (segments xs args).text := by
  rw [text, text, joinDots, String.intercalate_cons_of_ne_nil h]
  simp [joinDots]

theorem text_angles (h : args ≠ []) :
    (angles args).text = '<' :: ((list args).text ++ ['>']) := by
  obtain ⟨b, bs, rfl⟩ := List.exists_cons_of_ne_nil h
  rfl

theorem text_single (a : TypeArg) : (list [a]).text = (arg a).text := by
  simp [text]

theorem text_more (a : TypeArg) {as : List TypeArg} (h : as ≠ []) :
    (list (a :: as)).text = (arg a).text ++ ',' :: ' ' :: (list as).text := by
  obtain ⟨b, bs, rfl⟩ := List.exists_cons_of_ne_nil h
  simp [text]

theorem text_wildcard (span : Span) : (arg (.wildcard span)).text = ['?'] := by
  simp [text, TypeArg.text]

theorem text_upper (t : TypeExpr) (span : Span) : (arg (.upper t span)).text
    = '?' :: ' ' :: (Keyword.kwExtends.spelling.toList ++ ' ' :: (type t).text) := by
  change ("? extends " ++ t.text).toList = _
  rw [String.toList_append]
  rfl

theorem text_lower (t : TypeExpr) (span : Span) : (arg (.lower t span)).text
    = '?' :: ' ' :: (Keyword.kwSuper.spelling.toList ++ ' ' :: (type t).text) := by
  change ("? super " ++ t.text).toList = _
  rw [String.toList_append]
  rfl

end TypePhrase

/-! ### What it prints -/

/-- A keyword is spelled as a word, and known by its spelling. -/
theorem Keyword.spelling_cases (k : Keyword) : ∃ c text, k.spelling.toList = c :: text ∧
    isWordStart c ∧ (∀ d ∈ k.spelling.toList, isWordPart d) ∧
      Keyword.ofSpelling? k.spelling = some k := by
  have hwords : ∀ k ∈ Keyword.all, k.spelling.toList.head?.any isWordStart ∧
      k.spelling.toList.all isWordPart := by decide
  have hknown : ∀ k ∈ Keyword.all, Keyword.ofSpelling? k.spelling = some k := by decide +kernel
  have hmem : k ∈ Keyword.all := by cases k <;> decide
  obtain ⟨hstart, hparts⟩ := hwords k hmem
  obtain ⟨c, hc, hstart⟩ := Option.any_eq_true _ _ |>.mp hstart
  obtain ⟨text, htext⟩ := List.head?_eq_some_iff.mp hc
  exact ⟨c, text, htext, hstart, List.all_eq_true.mp hparts, hknown k hmem⟩

namespace Prints

variable {cs tail : List Char} {ps : List TypePiece}

/-- A text behind which no word goes on. -/
def NoWord (cs : List Char) : Prop := ∀ d ∈ cs.head?, isWordPart d = false

/-- No word goes on with a blank or with a sign of a type. -/
theorem noWord_cons {c : Char} (hc : c ∈ [' ', '.', ',', '<', '>', '[']) : NoWord (c :: cs) := by
  have hnone : [' ', '.', ',', '<', '>', '['].all (fun d => !isWordPart d) := by decide
  rintro _ ⟨⟩
  simpa using List.all_eq_true.mp hnone c hc

/-- What starts a word makes no longer sign of one of a type. -/
theorem not_mem_followers {c : Char} (h : isWordStart c) :
    ∀ s ∈ [Sign.greater, .dot, .less], c ∉ s.followers := by
  have hnone : ∀ s ∈ [Sign.greater, .dot, .less], s.followers.all fun d => !isWordStart d := by
    decide
  intro s hs hc
  have hc := List.all_eq_true.mp (hnone s hs) c hc
  rw [h] at hc
  cases hc

/-- What starts a word is not skipped and is no part of an angle. -/
theorem front_of_isWordStart {c : Char} (h : isWordStart c) :
    (isBlank c = false ∧ c ≠ Scan.byteOrderMark) ∧ c ∉ Sign.greater.followers :=
  ⟨⟨isBlank_of_isWordStart h, ne_byteOrderMark_of_isWordStart h⟩,
    not_mem_followers h _ (by decide)⟩

theorem name {x : String} (hx : isIdentifier x) (hword : NoWord tail)
    (htail : tail = cs ∨ tail = ' ' :: cs) (h : Prints cs ps) :
    Prints (x.toList ++ tail) (.name x :: ps) := by
  obtain ⟨c, text, hlist, hstart, hparts, hkeyword⟩ := isIdentifier_cases hx
  have hfront := Scan.front_word hlist hstart hparts hword
  rw [hkeyword] at hfront
  have hname : x = String.ofList (c :: text) := by rw [← hlist, String.ofList_toList]
  rw [hlist] at hfront ⊢
  obtain ⟨hc, hangle⟩ := front_of_isWordStart hstart
  exact .lexeme hc hangle hfront (.inr ⟨rfl, by rw [hname]⟩) htail h

theorem keyword (k : Keyword) (hword : NoWord tail) (htail : tail = cs ∨ tail = ' ' :: cs)
    (h : Prints cs ps) : Prints (k.spelling.toList ++ tail) (.token k :: ps) := by
  obtain ⟨c, text, hlist, hstart, hparts, hkeyword⟩ := k.spelling_cases
  have hfront := Scan.front_word hlist hstart hparts hword
  rw [hkeyword] at hfront
  rw [hlist] at hfront ⊢
  obtain ⟨hc, hangle⟩ := front_of_isWordStart hstart
  exact .lexeme hc hangle hfront (.inl rfl) htail h

/-- The signs of types other than closing angles. -/
theorem sign {s : Sign} {c : Char}
    (hs : s ∈ [Sign.less, .dot, .question, .comma, .lbracket, .rbracket])
    (hc : s.spelling.toList = [c]) (hdot : s = .dot → Scan.startsWith isDigit tail = false)
    (hfollow : ∀ d ∈ tail.head?, d ∉ s.followers) (htail : tail = cs ∨ tail = ' ' :: cs)
    (h : Prints cs ps) : Prints (c :: tail) (.token s :: ps) := by
  have hfront : Scan.front (s.spelling.toList ++ tail) = .piece _ :=
    Scan.front_sign (by rintro rfl; simp at hs) hdot hfollow
  rw [hc] at hfront
  have hhead : (isBlank c = false ∧ c ≠ Scan.byteOrderMark) ∧ c ∉ Sign.greater.followers := by
    simp only [List.mem_cons, List.not_mem_nil, or_false] at hs
    rcases hs with rfl | rfl | rfl | rfl | rfl | rfl <;> cases hc <;> decide
  change Prints (c :: ([] ++ tail)) _
  exact .lexeme hhead.1 hhead.2 hfront (.inl rfl) htail h

/-- Those that no longer sign starts with. -/
theorem alone {s : Sign} {c : Char} (hs : s ∈ [Sign.question, .comma, .lbracket, .rbracket])
    (hc : s.spelling.toList = [c]) (htail : tail = cs ∨ tail = ' ' :: cs) (h : Prints cs ps) :
    Prints (c :: tail) (.token s :: ps) := by
  have hnone : ∀ s ∈ [Sign.question, .comma, .lbracket, .rbracket],
      s ∈ [Sign.less, .dot, .question, .comma, .lbracket, .rbracket] ∧ s.followers = [] ∧
        s ≠ .dot := by decide
  obtain ⟨hsign, hfollowers, hdot⟩ := hnone s hs
  exact sign hsign hc (fun h => absurd h hdot) (fun d _ => hfollowers ▸ List.not_mem_nil) htail h

/-- Brackets. -/
theorem brackets (h : Prints cs ps) (n : Nat) :
    Prints (bracketText n ++ cs) (TypePiece.brackets n ++ ps) := by
  induction n with
  | zero => exact h
  | succ n ih =>
    rw [bracketText_succ]
    exact alone (by decide) rfl (.inl rfl) (alone (by decide) rfl (.inl rfl) ih)

end Prints

theorem noWord_brackets {cs : List Char} (h : Prints.NoWord cs) (n : Nat) :
    Prints.NoWord (bracketText n ++ cs) := by
  cases n with
  | zero => exact h
  | succ n =>
    rw [bracketText_succ]
    exact Prints.noWord_cons (by decide)

namespace Spells

open TypePhrase

variable {ph : TypePhrase} {ps : List TypePiece}

/-- The text of a phrase other than type arguments with their angles starts with a word or a
question mark. -/
theorem text_cons (h : Spells ph ps) (hnames : ∀ x, .name x ∈ ph.pieces → isIdentifier x)
    (hph : ∀ args, ph ≠ .angles args) : ∃ c cs, ph.text = c :: cs ∧ (isWordStart c ∨ c = '?') := by
  have hname {x : String} (hx : isIdentifier x) (cs : List Char) :
      ∃ c r, x.toList ++ cs = c :: r ∧ (isWordStart c ∨ c = '?') := by
    obtain ⟨c, r, hlist, hstart, -⟩ := isIdentifier_cases hx
    exact ⟨c, r ++ cs, by rw [hlist, List.cons_append], .inl hstart⟩
  induction h with
  | annotated _ ih => exact ih hnames nofun
  | bare _ ih => exact ih hnames nofun
  | @primitive _ p _ n span =>
    rw [text_primitive]
    obtain ⟨c, text, hlist, hstart, -⟩ := p.word.spelling_cases
    exact ⟨c, text ++ _, by rw [hlist, List.cons_append], .inl hstart⟩
  | named _ n span ih =>
    rw [pieces_named] at hnames
    obtain ⟨c, cs, htext, hc⟩ := ih (fun x hx => hnames x (List.mem_append_left _ hx)) nofun
    rw [text_named, htext]
    exact ⟨c, _, rfl, hc⟩
  | @last x args =>
    rw [text_last]
    exact hname (hnames x List.mem_cons_self) _
  | @segment x xs as args ps qs _ h' _ _ =>
    rw [text_segment x h'.segments_ne_nil]
    rw [pieces_segment x h'.segments_ne_nil] at hnames
    exact hname (hnames x List.mem_cons_self) _
  | none => exact absurd rfl (hph _)
  | diamond => exact absurd rfl (hph _)
  | angles => exact absurd rfl (hph _)
  | single _ ih =>
    rw [text_single]
    exact ih hnames nofun
  | @more a as ps qs _ h' ih _ =>
    rw [pieces_more _ h'.list_ne_nil] at hnames
    obtain ⟨c, cs, htext, hc⟩ := ih (fun x hx => hnames x (List.mem_append_left _ hx)) nofun
    rw [text_more _ h'.list_ne_nil, htext]
    exact ⟨c, _, rfl, hc⟩
  | type _ ih => exact ih hnames nofun
  | wildcard span => exact ⟨'?', [], text_wildcard span, .inr rfl⟩
  | upper _ span ih =>
    rw [text_upper]
    exact ⟨_, _, rfl, .inr rfl⟩
  | lower _ span ih =>
    rw [text_lower]
    exact ⟨_, _, rfl, .inr rfl⟩

/-- Behind the sign of a segment or of type arguments, nothing makes a longer sign of it. -/
theorem head_text {c : Char} (h : isWordStart c ∨ c = '?') :
    isDigit c = false ∧ c ∉ Sign.dot.followers ∧ c ∉ Sign.less.followers := by
  rcases h with h | rfl
  · exact ⟨isDigit_of_isWordStart h, Prints.not_mem_followers h _ (by decide),
      Prints.not_mem_followers h _ (by decide)⟩
  · decide

/-- **The text of a phrase prints its pieces** in the usual spelling. -/
theorem prints (h : Spells ph ps) (hnames : ∀ x, .name x ∈ ph.pieces → isIdentifier x)
    {cs : List Char} {qs : List TypePiece} (hword : Prints.NoWord cs) (hcs : Prints cs qs) :
    Prints (ph.text ++ cs) (ph.pieces ++ qs) := by
  induction h generalizing cs qs with
  | annotated _ ih => exact ih hnames hword hcs
  | bare _ ih => exact ih hnames hword hcs
  | @primitive _ p _ n span =>
    rw [text_primitive, pieces_primitive, List.append_assoc]
    exact .keyword p.word (noWord_brackets hword _) (.inl rfl) (hcs.brackets _)
  | named _ n span ih =>
    rw [pieces_named] at hnames ⊢
    rw [text_named, List.append_assoc, List.append_assoc]
    exact ih (fun x hx => hnames x (List.mem_append_left _ hx)) (noWord_brackets hword _)
      (hcs.brackets _)
  | @last x args ps h ih =>
    have hpieces : (segments [x] args).pieces = .name x :: (TypePhrase.angles args).pieces := rfl
    rw [hpieces] at hnames ⊢
    rw [text_last, List.append_assoc]
    refine .name (hnames x List.mem_cons_self) ?_ (.inl rfl)
      (ih (fun y hy => hnames y (List.mem_cons_of_mem _ hy)) hword hcs)
    rcases args with _ | ⟨a, as⟩
    · exact hword
    · exact Prints.noWord_cons (by decide)
  | @segment x xs as args ps qs _ h' _ ih =>
    rw [pieces_segment x h'.segments_ne_nil] at hnames ⊢
    rw [text_segment x h'.segments_ne_nil, List.append_assoc, List.cons_append]
    have hlater (y : String) (hy : .name y ∈ (segments xs args).pieces) : isIdentifier y :=
      hnames y (List.mem_cons_of_mem _ (List.mem_cons_of_mem _ hy))
    obtain ⟨c, r, htext, hc⟩ := h'.text_cons hlater nofun
    obtain ⟨hdigit, hdot, -⟩ := head_text hc
    have hprints := ih hlater hword hcs
    rw [htext] at hprints ⊢
    refine .name (hnames x List.mem_cons_self) (Prints.noWord_cons (by decide)) (.inl rfl)
      (.sign (by decide) rfl (fun _ => hdigit) ?_ (.inl rfl) hprints)
    rintro _ ⟨⟩
    exact hdot
  | none => exact hcs
  | diamond => exact hcs
  | @angles args ps h ih =>
    rw [pieces_angles h.list_ne_nil] at hnames ⊢
    rw [text_angles h.list_ne_nil, List.cons_append, List.append_assoc]
    have hinner (y : String) (hy : .name y ∈ (list args).pieces) : isIdentifier y :=
      hnames y (List.mem_cons_of_mem _ (List.mem_append_left _ hy))
    obtain ⟨c, r, htext, hc⟩ := h.text_cons hinner nofun
    obtain ⟨-, -, hless⟩ := head_text hc
    have hangle : Prints.NoWord ('>' :: cs) := Prints.noWord_cons (by decide)
    have hprints := ih hinner hangle (.close hcs)
    rw [htext] at hprints
    rw [htext, List.cons_append, List.cons_append, List.nil_append, List.cons_append,
      List.append_assoc]
    refine .sign (by decide) rfl nofun ?_ (.inl rfl) hprints
    rintro _ ⟨⟩
    exact hless
  | single _ ih =>
    rw [text_single]
    exact ih hnames hword hcs
  | @more a as ps qs _ h' ih ih' =>
    rw [pieces_more _ h'.list_ne_nil] at hnames ⊢
    rw [text_more _ h'.list_ne_nil, List.append_assoc, List.append_assoc]
    refine ih (fun x hx => hnames x (List.mem_append_left _ hx)) (Prints.noWord_cons (by decide))
      (.alone (by decide) rfl (.inr rfl) (ih' (fun x hx => ?_) hword hcs))
    exact hnames x (List.mem_append_right _ (List.mem_cons_of_mem _ hx))
  | type _ ih => exact ih hnames hword hcs
  | wildcard span =>
    rw [text_wildcard]
    exact .alone (s := .question) (by decide) rfl (.inl rfl) hcs
  | upper _ span ih =>
    rw [text_upper, List.cons_append, List.cons_append, List.append_assoc]
    exact .alone (by decide) rfl (.inr rfl) (.keyword .kwExtends (Prints.noWord_cons (by decide))
      (.inr rfl) (ih (fun x hx => hnames x (List.mem_cons_of_mem _ (List.mem_cons_of_mem _ hx)))
        hword hcs))
  | lower _ span ih =>
    rw [text_lower, List.cons_append, List.cons_append, List.append_assoc]
    exact .alone (by decide) rfl (.inr rfl) (.keyword .kwSuper (Prints.noWord_cons (by decide))
      (.inr rfl) (ih (fun x hx => hnames x (List.mem_cons_of_mem _ (List.mem_cons_of_mem _ hx)))
        hword hcs))

end Spells

/-! ### Whole texts -/

/-- Where the annotations stand in a source, as far as the names behind them are concerned. -/
def KeepsWords (ts us : List Token) : Prop := (∀ t ∈ ts, t.Worded) → ∀ t ∈ us, t.Worded

namespace ParserState

variable {source : List Char} {s s' : ParserState}

theorem keepsWords_of_leads (hs : (ofSource source 0).Leads s) (h : s.Leads s') :
    KeepsWords s.ahead s'.ahead := by
  have hworded := (worded_ofSource source 0).leads (hs.trans h)
  exact fun _ t ht => hworded t (List.mem_append_right _ ht)

/-- Reading a type comes to an end. -/
theorem settles_type (hfinish : s.finish.kind = .endOfSource) :
    ∃ r, Settles (fun g => g.type) (fun _ => 1) s r :=
  exists_settles (fun _ => True) hfinish trivial
    (eq_or_exhausted (Correspondence.eq_of_same TypeExpr.relabeled_same) fun _ _ h => h.type)
    (fun _ _ hr h => h.type (by omega))
    fun n => ((gathers_grammar [] n).type .absent .loose s hfinish).1

end ParserState

/-- **What is accepted is spelled**, and its names are identifiers. -/
theorem spells_of_parseType {source : List Char} {t : TypeExpr} (h : parseType source = .ok t) :
    ∃ ps, Spells (.type t) ps ∧ ∀ x, .name x ∈ ps → isIdentifier x := by
  obtain ⟨s', hrun, hend, herrors⟩ := Parser.runAll_eq_ok.mp h
  have hread : (grammar (ParserState.ofSource source 0).depth).ReadTypes KeepsWords source :=
    readTypes_grammar (fun n s a s' hs hannot _ => ParserState.keepsWords_of_leads hs
      (leads_of_moves (gathers_grammar source n).annot.stays hs hannot)) _
  rcases hread.type _ _ _ (.refl _) hrun herrors with hname | ⟨⟨ps, hps, htake⟩, -⟩
  · rw [hend] at hname
    cases hname
  · refine ⟨ps, hps, isIdentifier_of_take (fun _ _ => id) htake fun t ht => ?_⟩
    exact worded_tokenize source t (List.mem_of_mem_filter ht)

theorem annotsComeTo_none : AnnotsComeTo fun _ _ => False := nofun

/-- The tokens of a text without errors are ahead at its beginning. -/
theorem ParserState.ahead_ofSource {source : List Char} (h : (tokenize source).errors = []) :
    (ofSource source 0).ahead = (tokenize source).tokens := by
  have hwords : (tokenize source).AreWords (tokenize source).lexemes :=
    ⟨rfl, h, (areText_tokenize source).finish⟩
  rw [ofSource_words hwords]

theorem isFinish_ofSource (source : List Char) :
    (ParserState.ofSource source 0).finish.IsFinish :=
  ⟨(areText_tokenize source).finish, (areText_tokenize source).text⟩

/-- **A text of which the pieces of a type can be taken is accepted** as this type. -/
theorem parseType_of_take {A : List Token → List Token → Prop} (hA : AnnotsComeTo A)
    {cs : List Char} {t : TypeExpr} {ps : List TypePiece} (h : Spells (.type t) ps)
    (herrors : (tokenize cs).errors = []) (htake : Take A ps (tokenize cs).tokens []) :
    ∃ t', parseType cs = .ok t' ∧ t.Alike t' := by
  have hfinish := isFinish_ofSource cs
  obtain ⟨n, t', s', hrun, hleaves, hlike⟩ := comes_type (h.comes hA) hfinish
    (ParserState.ahead_ofSource herrors ▸ htake) rfl
  refine ⟨t', Parser.runAll_of_run (ParserState.settles_type hfinish.kind)
    (hrun n n le_rfl le_rfl) ?_ ?_, hlike⟩
  · rw [ParserState.kind_next (hleaves.finish ▸ hfinish.kind), hleaves.ahead]
    rfl
  · rw [hleaves.errors, ParserState.ofSource, herrors]
    rfl

/-- **What prints the pieces of a type is accepted** as this type. -/
theorem parseType_of_prints {cs : List Char} {t : TypeExpr} {ps : List TypePiece}
    (h : Spells (.type t) ps) (hcs : Prints cs ps) :
    ∃ t', parseType cs = .ok t' ∧ t.Alike t' := by
  obtain ⟨herrors, htake⟩ := hcs.readAll (A := fun _ _ => False) (n := cs.length + 1)
    (c := .ofText cs) (.inl rfl) (Nat.lt_succ_self _)
  exact parseType_of_take annotsComeTo_none h herrors htake

/-- **The text of a type is read as that type**: whatever source a type was read from, its text is
accepted, and the type that is read from it is the same up to spans. -/
theorem TypeExpr.parseType_text {source : List Char} {t : TypeExpr}
    (h : parseType source = .ok t) :
    ∃ t', parseType t.text.toList = .ok t' ∧ t'.relabeled .erased = t.relabeled .erased := by
  obtain ⟨ps, hps, hnames⟩ := spells_of_parseType h
  have hnone : Prints.NoWord [] := nofun
  have hprints := hps.prints (fun x hx => hnames x (hps.name_mem_of_usual hx)) hnone .nothing
  rw [List.append_nil, List.append_nil] at hprints
  exact parseType_of_prints hps.usual hprints

/-- A type with annotations, blanks, a comment and superfluous type arguments. -/
def TypeExpr.decorated : String :=
  "@A java . util /* of */ . Map<? extends @B(c) M<X>.L<int [ ], ? super N < var . P < ? > > >, "
    ++ "L < > > [ ] [ ]"

/-- The theorem applied to this type. -/
theorem TypeExpr.parseType_text_decorated :
    ∃ t, parseType decorated.toList = .ok t ∧
      t.text = "java.util.Map<? extends M.L<int[], ? super N<var.P<?>>>, L>[][]" ∧
      ∃ t', parseType t.text.toList = .ok t' ∧ t'.relabeled .erased = t.relabeled .erased := by
  have hread : (parseType decorated.toList).toOption.map TypeExpr.text
      = some "java.util.Map<? extends M.L<int[], ? super N<var.P<?>>>, L>[][]" := by
    decide +kernel
  cases hparse : parseType decorated.toList with
  | error e =>
    rw [hparse] at hread
    cases hread
  | ok t =>
    rw [hparse] at hread
    exact ⟨t, rfl, Option.some.inj hread, parseType_text hparse⟩

end JavaGraft
