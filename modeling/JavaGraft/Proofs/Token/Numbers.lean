import JavaGraft.Proofs.Token.Numerals
import JavaGraft.Proofs.Token.Places

/-!
# Numbers

What is read where a number starts is a number, or a fault (`JavaGraft.Scan.IsNumberPiece`), and
tokens of the other kinds are read by scanners of their own (`JavaGraft.Scan.reads_front`).

From this it is seen what may stand behind a number (`JavaGraft.tokenize_numbers`): no character of
a word stands behind a decimal one, but behind one that announces its radix any can that is none of
its digits. And it is seen which floating literals are one token (`JavaGraft.tokenize_floating`).
-/

namespace JavaGraft

open CharClass

/-! ### Kinds of numbers -/

/-- The kinds of literals that are numbers. -/
def LiteralKind.isNumber : LiteralKind → Bool
  | .int | .long | .float | .double => true
  | .char | .string => false

/-- A token that is the literal of a number. -/
def Token.isNumber (t : Token) : Bool :=
  match t.kind with
  | .literal kind => kind.isNumber
  | _ => false

namespace Scan

theorem IsDecimal.isNumber {kind : LiteralKind} {text : List Char}
    (h : IsDecimal kind text) : kind.isNumber := by
  cases h with
  | @mk point scaled _ _ _ _ _ _ hmark =>
    cases hmark with
    | absent => cases point <;> cases scaled <;> rfl
    | float | double | long => rfl

theorem IsAnnounced.isNumber {base : Nat} {kind : LiteralKind} {text : List Char}
    (h : IsAnnounced base kind text) : kind.isNumber := by
  cases h with
  | mk _ _ _ _ hkind => rcases hkind with rfl | rfl <;> rfl

theorem IsNumeral.isNumber {kind : LiteralKind} {text : List Char} (h : IsNumeral kind text) :
    kind.isNumber := by
  rcases h with h | ⟨base, h⟩
  · exact h.isNumber
  · exact h.isNumber

/-! ### What is read where a number starts -/

/-- **What is read where a number starts**, by the radix that it announces: a number, behind which
nothing continues it, or a fault. -/
inductive IsNumberPiece : Option Nat → Piece → Prop
  | decimal {kind : LiteralKind} {text rest : List Char} (h : IsDecimal kind text)
    (hrest : ∀ c ∈ rest.head?, isWordPart c = false) :
    IsNumberPiece none ⟨text, rest, .ok (.literal kind)⟩
  | announced {base : Nat} {kind : LiteralKind} {text rest : List Char}
    (h : IsAnnounced base kind text)
    (hrest : kind = .int → ∀ c ∈ rest.head?, isDigitPart base c = false) :
    IsNumberPiece (some base) ⟨text, rest, .ok (.literal kind)⟩
  | badSuffix {text rest : List Char} (hrest : ∀ c ∈ rest.head?, isWordPart c = false) :
    IsNumberPiece none ⟨text, rest, .error (.badNumber .badSuffix)⟩
  | missingExponent (text rest : List Char) :
    IsNumberPiece none ⟨text, rest, .error (.badNumber .missingExponent)⟩
  | missingDigits (base : Nat) (text rest : List Char) :
    IsNumberPiece (some base) ⟨text, rest, .error (.badNumber .missingDigits)⟩

section Pieces

variable {base : Nat} {floating : Bool} {kind : LiteralKind} {cs : List Char}

/-- What is read behind the digits: a point with digits, a point before no word, or nothing. -/
theorem fraction_cases (cs : List Char) :
    (∃ ds, IsDigits ds ∧ (fraction cs).1 = '.' :: ds) ∨
      ((fraction cs).1 = ['.'] ∧ startsWith (fun c => isWordStart c || c = '.') (fraction cs).2
        = false) ∨ (fraction cs).1 = [] := by
  unfold fraction
  split
  · next r =>
    split_ifs with hdigit hword
    · exact .inl ⟨_, isDigits_digits hdigit, rfl⟩
    · exact .inr (.inr rfl)
    · exact .inr (.inl ⟨rfl, Bool.eq_false_iff.mpr hword⟩)
  · exact .inr (.inr rfl)

theorem isPower_exponent {scaled : Bool} (h : (exponent cs).1 = some scaled) :
    IsPower scaled (exponent cs).2.1 := by
  -- a letter without digits behind it is a fault, but the letter may also be missing
  unfold exponent at h ⊢
  split at h
  · next e r =>
    split_ifs at h ⊢ with he
    · have he : e = 'e' ∨ e = 'E' := by simpa using he
      cases r with
      | nil =>
        dsimp only at h ⊢
        split_ifs at h ⊢ with hdigit
        cases h
        exact @IsPower.present _ [] _ he (.inl rfl) (isDigits_digits hdigit)
      | cons s r =>
        dsimp only at h ⊢
        split_ifs at h ⊢ with hsign hdigit hdigit
        · have hsign : s = '+' ∨ s = '-' := by simpa using hsign
          cases h
          refine @IsPower.present _ [s] _ he (.inr ?_) (isDigits_digits hdigit)
          simpa using hsign
        · cases h
          exact @IsPower.present _ [] _ he (.inl rfl) (isDigits_digits hdigit)
    · cases h
      exact .absent
  · cases h
    exact .absent

theorem isMark_suffix (floating : Bool) (cs : List Char) :
    IsMark floating (suffix floating cs).1 (suffix floating cs).2.1 := by
  have habsent := @IsMark.absent floating
  unfold suffix
  dsimp only
  generalize (if floating then LiteralKind.double else LiteralKind.int) = plain at habsent ⊢
  split
  · next s r =>
    split_ifs with hf hd hl
    · exact .float (by simpa using hf)
    · exact .double (by simpa using hd)
    · simp only [Bool.and_eq_true, Bool.or_eq_true, decide_eq_true_eq, Bool.not_eq_true'] at hl
      exact .long hl.1 hl.2
    · exact habsent
  · exact habsent

/-- Before what starts no word there is neither an exponent nor a suffix. -/
theorem exponent_suffix_none (h : startsWith isWordStart cs = false) (floating : Bool) :
    exponent cs = (some false, [], cs) ∧
      suffix floating cs = (if floating then .double else .int, [], cs) := by
  cases cs with
  | nil => exact ⟨rfl, rfl⟩
  | cons c cs =>
    have hne {d : Char} : isWordStart d = true → c ≠ d := ne_of_class h
    simp [exponent, suffix, hne (d := 'e') rfl, hne (d := 'E') rfl, hne (d := 'f') rfl,
      hne (d := 'F') rfl, hne (d := 'd') rfl, hne (d := 'D') rfl, hne (d := 'l') rfl,
      hne (d := 'L') rfl]

theorem IsMantissa.trailing_of_getLast? {point : Bool} {mantissa : List Char}
    (h : IsMantissa point mantissa) (hlast : mantissa.getLast? = some '.') :
    ∃ ds, mantissa = ds ++ ['.'] ∧ IsDigits ds := by
  cases h with
  | whole h => exact absurd hlast (h.getLast?_ne [])
  | inside h he =>
    rw [List.append_cons] at hlast
    exact absurd hlast (he.getLast?_ne _)
  | trailing h => exact ⟨_, rfl, h⟩
  | leading h => exact absurd hlast (h.getLast?_ne ['.'])

/-- The mantissa that is read where a number starts. A point at its end is directly before no
word. -/
theorem isMantissa_read (h : startsNumber cs) :
    IsMantissa (!(fraction (digits 10 cs).2).1.isEmpty)
        ((digits 10 cs).1 ++ (fraction (digits 10 cs).2).1) ∧
      (((digits 10 cs).1 ++ (fraction (digits 10 cs).2).1).getLast? = some '.' →
        startsWith isWordStart (fraction (digits 10 cs).2).2 = false) := by
  obtain ⟨c, cs, rfl⟩ : ∃ c ds, cs = c :: ds := by
    cases cs with
    | nil => cases h
    | cons c ds => exact ⟨c, ds, rfl⟩
  -- Digits may be missing in front of the point only if there are some behind it.
  rcases Bool.or_eq_true_iff.mp h with hdigit | hpoint
  · have hwhole : IsDigits (digits 10 (c :: cs)).1 := isDigits_digits hdigit
    rcases fraction_cases (digits 10 (c :: cs)).2 with ⟨es, hes, heq⟩ | ⟨heq, hstop⟩ | heq
    · rw [heq]
      refine ⟨.inside hwhole hes, fun hend => ?_⟩
      rw [List.append_cons] at hend
      exact absurd hend (hes.getLast?_ne _)
    · rw [heq]
      refine ⟨.trailing hwhole, fun _ => ?_⟩
      cases hrest : (fraction (digits 10 (c :: cs)).2).2 with
      | nil => rfl
      | cons d ds =>
        rw [hrest] at hstop
        exact (Bool.or_eq_false_iff.mp hstop).1
    · rw [heq, List.append_nil]
      exact ⟨.whole hwhole, fun hend => absurd hend (hwhole.getLast?_ne [])⟩
  · obtain ⟨rfl, hnext⟩ : c = '.' ∧ startsWith isDigit cs := by simpa using hpoint
    have hdigits : digits 10 ('.' :: cs) = ([], '.' :: cs) :=
      @digits_append 10 [] _ (List.forall_mem_nil _) (by rintro _ ⟨⟩; rfl)
    have hds := isDigits_digits hnext
    rw [hdigits, fraction, if_pos hnext]
    exact ⟨.leading hds, fun hend => absurd hend (hds.getLast?_ne ['.'])⟩

/-- **What is read where a decimal number starts.** -/
theorem isNumberPiece_decimal (h : startsNumber cs) : IsNumberPiece none (decimal cs) := by
  obtain ⟨hmantissa, hbare⟩ := isMantissa_read h
  -- The parts are read one after the other, and each is replaced by what it is like.
  rw [decimal]
  generalize digits 10 cs = parts at hmantissa hbare ⊢
  obtain ⟨whole, r⟩ := parts
  dsimp only at hmantissa hbare ⊢
  generalize fraction r = parts at hmantissa hbare ⊢
  obtain ⟨point, r'⟩ := parts
  dsimp only at hmantissa hbare ⊢
  have hpower {scaled : Bool} (h : (exponent r').1 = some scaled) := isPower_exponent h
  have hnone (h : startsWith isWordStart r' = false) := exponent_suffix_none h
  generalize exponent r' = parts at hpower hnone ⊢
  obtain ⟨_ | scaled, power, r''⟩ := parts
  · exact .missingExponent _ _
  · have hpower := hpower rfl
    dsimp only at hpower ⊢
    have hmark := isMark_suffix (!point.isEmpty || scaled) r''
    have hnothing : (whole ++ point).getLast? = some '.' →
        power ++ (suffix (!point.isEmpty || scaled) r'').2.1 = [] := by
      intro hlast
      obtain ⟨hexponent, hsuffix⟩ := hnone (hbare hlast) (!point.isEmpty || scaled)
      obtain ⟨-, rfl, rfl⟩ : scaled = false ∧ power = [] ∧ r'' = r' := by simpa using hexponent
      rw [hsuffix]
      rfl
    generalize suffix (!point.isEmpty || scaled) r'' = parts at hmark hnothing ⊢
    obtain ⟨kind, mark, r₀⟩ := parts
    dsimp only at hmark hnothing ⊢
    have hstop := span_stop (f := isWordPart) r₀
    split
    · rw [List.append_assoc (whole ++ point)]
      exact .decimal (.mk hmantissa hpower hmark hnothing) hstop
    · exact .badSuffix hstop

/-- **What is read where a radix is announced.** -/
theorem isNumberPiece_radix {x : Char} (hx : radixes.lookup x = some base) (cs : List Char) :
    IsNumberPiece (some base) (radix base ['0', x] cs) := by
  have hall := span_all (f := isDigitPart base) cs
  have hstop := span_stop (f := isDigitPart base) cs
  rw [radix]
  change ∀ c ∈ (digits base cs).1, _ at hall
  change ∀ c ∈ (digits base cs).2.head?, _ at hstop
  generalize digits base cs = parts at hall hstop ⊢
  obtain ⟨ds, r⟩ := parts
  dsimp only at hall hstop ⊢
  split
  · exact .missingDigits _ _ _
  · next hsome =>
    have hsome := Bool.eq_false_iff.mpr hsome
    have hint := IsAnnounced.mk hx hall hsome (@IsMark.absent false) (.inl rfl)
    rw [List.append_nil] at hint
    split
    · next s rest =>
      split
      · next hs =>
        refine .announced (.mk hx hall hsome (.long ?_ rfl) (.inr rfl)) fun hkind => ?_
        · simpa using hs
        · cases hkind
      · exact .announced hint fun _ => hstop
    · exact .announced hint fun _ => hstop

/-- **What is read where a number starts.** -/
theorem isNumberPiece_number (h : startsNumber cs) :
    IsNumberPiece (announced? cs) (number cs) := by
  rw [number_eq]
  cases hbase : announced? cs with
  | none => exact isNumberPiece_decimal h
  | some base =>
    obtain ⟨x, r, rfl, hx⟩ := of_announced? hbase
    exact isNumberPiece_radix hx r

end Pieces

/-! ### What tokens are read by -/

section Readers

variable {kind : LiteralKind} {cs : List Char}

/-- What is read where a number starts is a number if it is a token. -/
theorem IsNumberPiece.isNumeral {base? : Option Nat} {p : Piece} {kind : TokenKind}
    (h : IsNumberPiece base? p) (hverdict : p.verdict = .ok kind) :
    ∃ number : LiteralKind, kind = .literal number ∧ IsNumeral number p.text := by
  cases h with
  | decimal h =>
    cases hverdict
    exact ⟨_, rfl, .inl h⟩
  | announced h =>
    cases hverdict
    exact ⟨_, rfl, .inr ⟨_, h⟩⟩
  | badSuffix | missingExponent | missingDigits => cases hverdict

/-- **How a token of a kind is read** from the text that it is in front of. -/
inductive Reads : TokenKind → List Char → Piece → Prop
  | string (r : List Char) : Reads (.literal .string) ('"' :: r) (string ('"' :: r))
  | char (r : List Char) : Reads (.literal .char) ('\'' :: r) (character ('\'' :: r))
  | number {kind : LiteralKind} {cs : List Char} (h : startsNumber cs)
    (hnumeral : IsNumeral kind (number cs).text) : Reads (.literal kind) cs (number cs)
  | word {kind : TokenKind} {c : Char} {r : List Char} (hstart : isWordStart c)
    (hkind : (Keyword.ofSpelling? (String.ofList (word (c :: r)).text)).elim
      .identifier .keyword = kind) : Reads kind (c :: r) (word (c :: r))
  | sign {s : Sign} {cs : List Char} (h : (sign cs).verdict = .ok (.sign s)) :
    Reads (.sign s) cs (sign cs)

/-- **Every token is read by the scanner of its kind.** -/
theorem reads_front {kind : TokenKind} {p : Piece} (hp : front cs = .piece p)
    (h : p.verdict = .ok kind) : Reads kind cs p := by
  obtain rfl := eq_token_of_front hp h
  have hsign (cs : List Char) (h : (Scan.sign cs).verdict = .ok kind) :
      Reads kind cs (Scan.sign cs) := by
    obtain ⟨s, rfl⟩ : ∃ s, kind = .sign s := by
      unfold Scan.sign at h
      split at h <;> cases h
      exact ⟨_, rfl⟩
    exact .sign h
  revert h
  unfold token
  split
  · exact hsign []
  · next c r =>
    -- the first character tells the scanner
    split_ifs with hquote hchar hnumber hword
    · subst hquote
      intro h
      obtain rfl : kind = .literal .string := by
        simp only [Scan.string] at h
        repeat' split at h
        all_goals cases h <;> rfl
      exact .string r
    · subst hchar
      intro h
      obtain rfl : kind = .literal .char := by
        simp only [character] at h
        split at h <;> cases h
        rfl
      exact .char r
    · intro h
      have hpiece : IsNumberPiece _ (Scan.number (c :: r)) := isNumberPiece_number hnumber
      obtain ⟨number, rfl, hnumeral⟩ := hpiece.isNumeral h
      exact .number hnumber hnumeral
    · exact fun h => .word hword (Except.ok.inj h)
    · exact hsign (c :: r)

/-- No word is a literal. -/
theorem word_ne_literal (keyword? : Option Keyword) (kind : LiteralKind) :
    keyword?.elim TokenKind.identifier .keyword ≠ .literal kind := by
  cases keyword? <;> nofun

/-- Numbers are read where a number starts. -/
theorem Reads.startsNumber {p : Piece} (h : Reads (.literal kind) cs p) (hkind : kind.isNumber) :
    Scan.startsNumber cs := by
  cases h with
  | string | char => cases hkind
  | number h => exact h
  | word _ hword => exact absurd hword (word_ne_literal _ _)

end Readers

end Scan

/-! ### Floating literals -/

open Scan

/-- A number by itself is one token. -/
theorem Scan.IsNumeral.isToken {kind : LiteralKind} {text : List Char} (h : IsNumeral kind text) :
    IsToken text (.literal kind) := by
  have hend : EndsNumber [] := fun c hc => absurd hc (Option.not_mem_none c)
  have hfront := front_number h hend
  have hstart := h.startsNumber []
  rw [List.append_nil] at hfront hstart
  exact ⟨margin_of_startsNumber hstart, hfront⟩

/-- The first two tokens of a text without margins before them. -/
theorem prefix_tokenize {cs rest rest' text text' : List Char} {kind kind' : TokenKind}
    (hmargin : (margin cs).2 = cs) (hfront : front cs = .piece ⟨text, rest, .ok kind⟩)
    (hmargin' : (margin rest).2 = rest)
    (hfront' : front rest = .piece ⟨text', rest', .ok kind'⟩) :
    [(kind, String.ofList text), (kind', String.ofList text')] <+:
      (tokenize cs).tokens.map Token.lexeme := by
  obtain ⟨n, hn⟩ : ∃ n, cs.length = n + 1 := by
    refine Nat.exists_eq_succ_of_ne_zero fun hnil => ?_
    rw [List.length_eq_zero_iff.mp hnil] at hfront
    cases hfront
  obtain ⟨c, hrest, htokens, -⟩ := Tokens.readAll_front (n := n + 1) (c := .ofText cs)
    hmargin hfront
  obtain ⟨c', -, htokens', -⟩ := Tokens.readAll_front (n := n) (by rwa [hrest]) hfront'
  rw [tokenize, hn, htokens, htokens']
  exact List.prefix_append [_, _] _

/-- Before a word, a point at the end of the digits is no part of the number. -/
theorem Scan.front_bare {ds rest : List Char} (h : IsDigits ds)
    (hrest : ∃ c ∈ rest.head?, c ∈ ['e', 'E', 'f', 'F', 'd', 'D', 'l', 'L']) :
    front (ds ++ '.' :: rest) = .piece ⟨ds, '.' :: rest, .ok (.literal .int)⟩ ∧
      front ('.' :: rest) = .piece ⟨['.'], rest, .ok (.sign .dot)⟩ := by
  obtain ⟨c, hhead, hc⟩ := hrest
  obtain ⟨r, rfl⟩ : ∃ r, rest = c :: r := ⟨rest.tail, List.eq_cons_of_mem_head? hhead⟩
  have hc : isWordStart c ∧ isDigit c = false ∧ c ∉ Sign.dot.followers := by
    simp only [List.mem_cons, List.not_mem_nil, or_false] at hc
    rcases hc with rfl | rfl | rfl | rfl | rfl | rfl | rfl | rfl <;> decide
  obtain ⟨hstart, hdigit, hfollow⟩ := hc
  refine ⟨?_, front_sign (s := .dot) (by decide) (fun _ => hdigit) ?_⟩
  · have hint : IsDecimal .int ds := by
      have hint := IsDecimal.mk (.whole h) .absent (@IsMark.absent false) fun _ => rfl
      simpa using hint
    have hdigits : digits 10 (ds ++ '.' :: c :: r) = (ds, '.' :: c :: r) :=
      digits_append h.chars (by rintro _ ⟨⟩; rfl)
    -- The point is left since a word starts behind it, and nothing else starts with a point.
    have hfraction : fraction ('.' :: c :: r) = ([], '.' :: c :: r) := by
      have hdigit : startsWith isDigit (c :: r) = false := hdigit
      have hword : startsWith (fun c => isWordStart c || c = '.') (c :: r) = true := by
        change (isWordStart c || decide (c = '.')) = true
        rw [hstart, Bool.true_or]
      rw [fraction, hdigit, hword]
      rfl
    have hstop : startsWith isWordStart ('.' :: c :: r) = false := rfl
    obtain ⟨hexponent, hsuffix⟩ := exponent_suffix_none hstop (!([] : List Char).isEmpty || false)
    rw [front_of_startsNumber (hint.startsNumber _), number_eq,
      hint.announced? (by rintro _ ⟨⟩; rfl)]
    dsimp only
    rw [decimal_of_parts hdigits hfraction hexponent hsuffix (by rintro _ ⟨⟩; decide)]
    simp
  · rintro _ ⟨⟩
    exact hfollow

/-- **Floating literals are one token.** A text of digits with a point or without one, an exponent
or none and a suffix or none, at least one of them there, is one token, unless the point is at the
end of the digits and directly before the exponent or the suffix. There the digits are a whole
number, and the point is a token of its own. -/
theorem tokenize_floating {point scaled : Bool} {mantissa power suffix : List Char}
    (hmantissa : IsMantissa point mantissa) (hpower : IsPower scaled power)
    (hsuffix : suffix ∈ [[], ['f'], ['F'], ['d'], ['D']])
    (h : point ∨ scaled ∨ suffix ≠ []) :
    let text := mantissa ++ (power ++ suffix)
    ((mantissa.getLast? = some '.' → power ++ suffix = []) →
      (tokenize text).tokens = [⟨.literal (if suffix = ['f'] ∨ suffix = ['F'] then .float
        else .double), String.ofList text, .whole text⟩] ∧
      (tokenize text).errors = [] ∧ (tokenize text).finish.kind = .endOfSource) ∧
    (mantissa.getLast? = some '.' → power ++ suffix ≠ [] →
      [(.literal .int, String.ofList mantissa.dropLast), (.sign .dot, ".")] <+:
        (tokenize text).tokens.map Token.lexeme) := by
  intro text
  have hmark : IsMark (point || scaled)
      (if suffix = ['f'] ∨ suffix = ['F'] then .float else .double) suffix := by
    simp only [List.mem_cons, List.not_mem_nil, or_false] at hsuffix
    rcases hsuffix with rfl | rfl | rfl | rfl | rfl
    · have hfloating : (point || scaled) = true := by simpa using h
      rw [hfloating]
      exact .absent
    · exact .float (.inl rfl)
    · exact .float (.inr rfl)
    · exact .double (.inl rfl)
    · exact .double (.inr rfl)
  constructor
  · intro hbare
    have hdecimal : IsDecimal _ text := .mk hmantissa hpower hmark hbare
    exact tokenize_token (IsNumeral.isToken (.inl hdecimal)) nofun
  · intro hlast hrest
    -- the digits are a number without the point, since a word starts behind it
    obtain ⟨ds, rfl, hds⟩ := hmantissa.trailing_of_getLast? hlast
    obtain ⟨c, hc⟩ : ∃ c, c ∈ (power ++ suffix).head? :=
      Option.ne_none_iff_exists'.mp (mt List.head?_eq_none_iff.mp hrest)
    obtain ⟨hfront, hfront'⟩ := front_bare hds ⟨c, hc, head_power_mark hpower hmark c hc⟩
    have htext : text = ds ++ '.' :: (power ++ suffix) := List.append_assoc ..
    have hmargin : (margin ('.' :: (power ++ suffix))).2 = '.' :: (power ++ suffix) := by
      rw [(margin_of_head _).1]
      rintro _ ⟨⟩
      decide
    have hmargin' : (margin (ds ++ '.' :: (power ++ suffix))).2 = _ :=
      congrArg Prod.snd (margin_of_startsNumber (hds.startsNumber _))
    rw [htext, List.dropLast_concat]
    exact prefix_tokenize hmargin' hfront hmargin hfront'

/-- A number with all its parts. -/
theorem tokenize_floating_separated :
    IsMantissa true "1_0.5".toList ∧ IsPower true "e-3".toList ∧
      (tokenize "1_0.5e-3f".toList).tokens =
        [⟨.literal .float, "1_0.5e-3f", .whole "1_0.5e-3f".toList⟩] := by
  have hmantissa : IsMantissa true "1_0.5".toList :=
    @IsMantissa.inside ['1', '_', '0'] ['5']
      (.mk rfl (List.forall_mem_cons.mpr ⟨rfl, List.forall_mem_singleton.mpr rfl⟩))
      (.mk rfl (List.forall_mem_nil _))
  have hpower : IsPower true "e-3".toList :=
    @IsPower.present _ ['-'] ['3'] (.inl rfl) (.inr (.inr rfl))
      (.mk rfl (List.forall_mem_nil _))
  have hsuffix : ['f'] ∈ [[], ['f'], ['F'], ['d'], ['D']] := by decide
  have hbare : "1_0.5".toList.getLast? ≠ some '.' := by decide
  exact ⟨hmantissa, hpower, ((tokenize_floating hmantissa hpower hsuffix (.inl rfl)).1
    fun hlast => absurd hlast hbare).1⟩

/-- A point between the digits and the suffix is read as if the suffix were a member. -/
theorem tokenize_bare_split :
    (tokenize "1.f".toList).tokens.map Token.lexeme =
        [(.literal .int, "1"), (.sign .dot, "."), (.identifier, "f")] ∧
      (tokenize "1.f".toList).errors = [] := by
  decide +kernel

/-! ### What is behind a number -/

/-- Tokens that are numbers are read from pieces that are. -/
theorem Token.Tells.isNumber {t : Token} {errors : List LexError} {text : List Char}
    {verdict : Except LexFault TokenKind} (h : t.Tells errors text verdict) :
    t.isNumber ↔ ∃ kind, verdict = .ok (.literal kind) ∧ kind.isNumber := by
  rw [Token.isNumber]
  cases h with
  | kind hkind => rw [hkind]; split <;> simp_all
  | fault hkind => rw [hkind]; simp

/-- **What stands behind a number**: no word goes on behind a decimal one, and no digits of its
radix behind one that announces it and has no suffix. Where a number starts and none is read, the
token is invalid, and an error says what is wrong with the number. With a suffix that is none, the
token covers the whole of it. -/
structure Token.IsDelimited (t : Token) (errors : List LexError) (text after : List Char) :
    Prop where
  word : t.isNumber → announced? (text ++ after) = none → ∀ c ∈ after.head?, isWordPart c = false
  digit : ∀ base, t.kind = .literal .int → announced? (text ++ after) = some base →
    ∀ c ∈ after.head?, isDigitPart base c = false
  fault : startsNumber (text ++ after) → ¬ t.isNumber → t.kind = .invalid ∧
    ∃ fault, ⟨.badNumber fault, t.span⟩ ∈ errors ∧
      (fault = .badSuffix → ∀ c ∈ after.head?, isWordPart c = false)

/-- Numbers are delimited by what is read as one. -/
theorem Scan.IsNumberPiece.isDelimited {p : Piece} {t : Token} {errors : List LexError}
    (h : IsNumberPiece (announced? (p.text ++ p.rest)) p)
    (ht : t.Tells errors p.text p.verdict) : t.IsDelimited errors p.text p.rest := by
  generalize hbase : announced? (p.text ++ p.rest) = base? at h
  have hnumber := ht.isNumber
  cases h with
  | decimal h hrest =>
    refine ⟨fun _ _ => hrest, fun base _ hsome => ?_, fun _ hnot => ?_⟩
    · rw [hbase] at hsome
      cases hsome
    · exact absurd (hnumber.mpr ⟨_, rfl, h.isNumber⟩) hnot
  | announced h hrest =>
    refine ⟨fun _ hnone => ?_, fun base hint hsome => ?_, fun _ hnot => ?_⟩
    · rw [hbase] at hnone
      cases hnone
    · rw [hbase] at hsome
      cases hsome
      cases ht with
      | kind hkind =>
        rw [hkind] at hint
        cases hint
        exact hrest rfl
    · exact absurd (hnumber.mpr ⟨_, rfl, h.isNumber⟩) hnot
  | badSuffix hrest =>
    cases ht with
    | fault hkind _ herror =>
      exact ⟨fun _ _ => hrest, fun base hint => by simp [hkind] at hint,
        fun _ _ => ⟨hkind, _, herror, fun _ => hrest⟩⟩
  | missingExponent | missingDigits =>
    cases ht with
    | fault hkind _ herror =>
      exact ⟨fun hnot => by simp [Token.isNumber, hkind] at hnot,
        fun base hint => by simp [hkind] at hint, fun _ _ => ⟨hkind, _, herror, nofun⟩⟩

/-- **What stands behind the numbers of a text.** -/
theorem tokenize_numbers (source : List Char) {t : Token} (ht : t ∈ (tokenize source).tokens) :
    ∃ before text after, t.Covers source before text after ∧
      t.IsDelimited (tokenize source).errors text after := by
  obtain ⟨before, p, h⟩ := readFrom_tokenize source t ht
  refine ⟨before, p.text, p.rest, h.covers, ?_⟩
  by_cases hstart : startsNumber (p.text ++ p.rest)
  · have hpiece := isNumberPiece_number hstart
    have hfront := h.front
    rw [front_of_startsNumber hstart] at hfront
    rw [Front.piece.inj hfront] at hpiece
    exact hpiece.isDelimited h.tells
  · -- Where none starts, no number is read.
    have hnone : ¬ t.isNumber := fun hkind =>
      have ⟨_, hverdict, hkind⟩ := h.tells.isNumber.mp hkind
      hstart ((reads_front h.front hverdict).startsNumber hkind)
    refine ⟨fun hkind => absurd hkind hnone, fun base hkind => absurd ?_ hnone,
      fun hnumber => absurd hnumber hstart⟩
    rw [Token.isNumber, hkind]
    rfl

/-- A letter behind a number is an error, which covers both. -/
theorem tokenize_numbers_suffix :
    let t : Token := ⟨.invalid, "", ⟨0, 2, 1, 1⟩⟩
    t ∈ (tokenize "1x".toList).tokens ∧
      ∃ before text after, t.Covers "1x".toList before text after ∧
        t.IsDelimited (tokenize "1x".toList).errors text after := by
  intro t
  have hmem : t ∈ (tokenize "1x".toList).tokens := by decide +kernel
  exact ⟨hmem, tokenize_numbers _ hmem⟩

/-- A letter behind a hexadecimal number is a word of its own. -/
theorem tokenize_announced_split :
    (tokenize "0xFFg".toList).tokens.map Token.lexeme =
        [(.literal .int, "0xFF"), (.identifier, "g")] ∧
      (tokenize "0xFFg".toList).errors = [] := by
  decide +kernel

end JavaGraft
