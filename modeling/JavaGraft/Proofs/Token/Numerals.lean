import JavaGraft.Proofs.Token.Pieces
import Mathlib.Data.List.Basic

/-!
# Numerals

A decimal number is a mantissa, an exponent and a suffix, the last two of which may be missing
(`JavaGraft.Scan.IsDecimal`). A mantissa that ends with its point is followed by neither: a point
directly before a word is taken for the access to a member. A binary or hexadecimal number announces
its radix with its first two characters (`JavaGraft.Scan.IsAnnounced`).

Numbers of both forms are read as they are where nothing follows that could continue them
(`JavaGraft.Scan.front_number`): each part is read up to the next one, whatever the parts are.
-/

namespace JavaGraft

open CharClass

namespace Scan

/-! ### The parts of a number -/

/-- A digit of a radix, or an underscore between digits. -/
def isDigitPart (base : Nat) (c : Char) : Bool := (digitValue? base c).isSome || c = '_'

/-- A digit, then digits and underscores. -/
inductive IsDigits : List Char → Prop
  | mk {c : Char} {cs : List Char} (hc : isDigit c) (hcs : ∀ d ∈ cs, isDigitPart 10 d) :
    IsDigits (c :: cs)

/-- **The digits of a decimal number**, with a point or without one. -/
inductive IsMantissa : Bool → List Char → Prop
  | whole {ds : List Char} (h : IsDigits ds) : IsMantissa false ds
  | inside {ds es : List Char} (h : IsDigits ds) (he : IsDigits es) :
    IsMantissa true (ds ++ '.' :: es)
  | trailing {ds : List Char} (h : IsDigits ds) : IsMantissa true (ds ++ ['.'])
  | leading {ds : List Char} (h : IsDigits ds) : IsMantissa true ('.' :: ds)

/-- **The exponent of a decimal number**, if there is one. -/
inductive IsPower : Bool → List Char → Prop
  | absent : IsPower false []
  | present {e : Char} {sign ds : List Char} (he : e = 'e' ∨ e = 'E')
    (hsign : sign = [] ∨ sign = ['+'] ∨ sign = ['-']) (h : IsDigits ds) :
    IsPower true (e :: (sign ++ ds))

/-- **The suffix of a decimal number**, if there is one, and the kind of literal that it makes of
a number, floating already or not. -/
inductive IsMark (floating : Bool) : LiteralKind → List Char → Prop
  | absent : IsMark floating (if floating then .double else .int) []
  | float {c : Char} (hc : c = 'f' ∨ c = 'F') : IsMark floating .float [c]
  | double {c : Char} (hc : c = 'd' ∨ c = 'D') : IsMark floating .double [c]
  | long {c : Char} (hc : c = 'l' ∨ c = 'L') (hwhole : floating = false) :
    IsMark floating .long [c]

/-- **A decimal number**. Nothing is behind a point at the end of the mantissa. -/
inductive IsDecimal : LiteralKind → List Char → Prop
  | mk {point scaled : Bool} {kind : LiteralKind} {mantissa power mark : List Char}
    (hmantissa : IsMantissa point mantissa) (hpower : IsPower scaled power)
    (hmark : IsMark (point || scaled) kind mark)
    (hbare : mantissa.getLast? = some '.' → power ++ mark = []) :
    IsDecimal kind (mantissa ++ (power ++ mark))

/-- The characters that announce a radix behind a zero. -/
def radixes : List (Char × Nat) := [('x', 16), ('X', 16), ('b', 2), ('B', 2)]

/-- The radix that a number announces. -/
def announced? : List Char → Option Nat
  | '0' :: x :: _ => radixes.lookup x
  | _ => none

/-- **A number that announces its radix**, with its digits and its suffix. -/
inductive IsAnnounced (base : Nat) : LiteralKind → List Char → Prop
  | mk {x : Char} {kind : LiteralKind} {ds mark : List Char} (hx : radixes.lookup x = some base)
    (hds : ∀ c ∈ ds, isDigitPart base c) (hsome : ds.all (· = '_') = false)
    (hmark : IsMark false kind mark) (hkind : kind = .int ∨ kind = .long) :
    IsAnnounced base kind ('0' :: x :: (ds ++ mark))

/-- **A number**, a decimal one or one that announces its radix. -/
def IsNumeral (kind : LiteralKind) (text : List Char) : Prop :=
  IsDecimal kind text ∨ ∃ base, IsAnnounced base kind text

/-- A number starts with a digit, or with a point and a digit. -/
def startsNumber : List Char → Bool
  | [] => false
  | c :: cs => isDigit c || c = '.' && startsWith isDigit cs

/-- Nothing follows that could continue a number. -/
def EndsNumber (tail : List Char) : Prop := ∀ c ∈ tail.head?, isWordPart c = false ∧ c ≠ '.'

/-! ### Characters of numbers -/

section Characters

variable {base : Nat} {c : Char} {cs ds tail : List Char}

theorem isDigitPart_of_isDigit (h : isDigit c) : isDigitPart 10 c := by
  rw [isDigitPart, isSome_digitValue? h, Bool.true_or]

/-- Digits and underscores are characters of words. -/
theorem isWordPart_of_isDigitPart (h : isDigitPart base c) : isWordPart c := by
  rcases Bool.or_eq_true_iff.mp h with hvalue | hunderscore
  · obtain ⟨d, hd⟩ := Option.isSome_iff_exists.mp hvalue
    rw [digitValue?] at hd
    have hd := (Option.filter_eq_some_iff.mp hd).1
    have hascii : c.toNat < 128 ∧ (isDigit c ∨ isAsciiLetter c) := by
      split_ifs at hd with hdigit hlower hupper
      · refine ⟨?_, .inl hdigit⟩
        simp only [isDigit, Bool.and_eq_true, decide_eq_true_eq, le_iff_toNat] at hdigit
        exact Nat.lt_of_le_of_lt hdigit.2 (by decide)
      · simp only [Bool.and_eq_true, decide_eq_true_eq, le_iff_toNat] at hlower
        refine ⟨Nat.lt_of_le_of_lt hlower.2 (by decide), .inr ?_⟩
        simp only [isAsciiLetter, Bool.or_eq_true, Bool.and_eq_true, decide_eq_true_eq,
          le_iff_toNat]
        exact .inl ⟨hlower.1, Nat.le_trans hlower.2 (by decide)⟩
      · simp only [Bool.and_eq_true, decide_eq_true_eq, le_iff_toNat] at hupper
        refine ⟨Nat.lt_of_le_of_lt hupper.2 (by decide), .inr ?_⟩
        simp only [isAsciiLetter, Bool.or_eq_true, Bool.and_eq_true, decide_eq_true_eq,
          le_iff_toNat]
        exact .inr ⟨hupper.1, Nat.le_trans hupper.2 (by decide)⟩
    obtain ⟨hsmall, hdigit | hletter⟩ := hascii
    · simp [isWordPart, isNumeral, hsmall, hdigit]
    · simp [isWordPart, isLetter, hsmall, hletter]
  · simp [isWordPart, of_decide_eq_true hunderscore]

theorem isDigitPart_of_isWordPart (h : isWordPart c = false) : isDigitPart base c = false :=
  Bool.eq_false_iff.mpr fun hdigit =>
    Bool.false_ne_true (h.symm.trans (isWordPart_of_isDigitPart hdigit))

/-- A run of characters of a class has only these. -/
theorem span_all {f : Char → Bool} (cs : List Char) : ∀ c ∈ (cs.span f).1, f c := by
  rw [List.span_eq_takeWhile_dropWhile]
  exact fun c hc => List.mem_takeWhile_imp hc

/-- Behind a run of characters of a class comes none of them. -/
theorem span_stop {f : Char → Bool} (cs : List Char) :
    ∀ c ∈ (cs.span f).2.head?, f c = false := by
  rw [List.span_eq_takeWhile_dropWhile]
  intro c hc
  have hstop := List.head?_dropWhile_not f cs
  rw [Option.mem_def.mp hc] at hstop
  simpa using hstop

/-- What comes first in a text with a rest behind it. -/
theorem forall_head?_append {P : Char → Prop} (h : ∀ c ∈ cs.head?, P c)
    (htail : ∀ c ∈ tail.head?, P c) : ∀ c ∈ (cs ++ tail).head?, P c := by
  cases cs with
  | nil => exact htail
  | cons => exact h

theorem startsWith_eq_false {f : Char → Bool} (h : ∀ c ∈ cs.head?, f c = false) :
    startsWith f cs = false := by
  cases cs with
  | nil => rfl
  | cons c cs => exact h c rfl

theorem digits_append (h : ∀ c ∈ ds, isDigitPart base c)
    (htail : ∀ c ∈ tail.head?, isDigitPart base c = false) :
    digits base (ds ++ tail) = (ds, tail) := span_append h htail

theorem IsDigits.chars (h : IsDigits ds) : ∀ c ∈ ds, isDigitPart 10 c := by
  cases h with
  | mk hc hcs => exact List.forall_mem_cons.mpr ⟨isDigitPart_of_isDigit hc, hcs⟩

theorem IsDigits.starts (h : IsDigits ds) (tail : List Char) :
    startsWith isDigit (ds ++ tail) := by
  cases h with
  | mk hc => exact hc

/-- Digits do not end with a point. -/
theorem IsDigits.getLast?_ne (h : IsDigits ds) (before : List Char) :
    (before ++ ds).getLast? ≠ some '.' := by
  have hchars := h.chars
  cases h with
  | mk =>
    rw [List.getLast?_append_of_ne_nil _ (List.cons_ne_nil _ _)]
    exact fun hlast => absurd (hchars '.' (List.mem_of_getLast? hlast)) (by decide)

/-- What is read where a digit comes first. -/
theorem isDigits_digits (h : startsWith isDigit cs) : IsDigits (digits 10 cs).1 := by
  cases cs with
  | nil => cases h
  | cons c cs =>
    have hc : isDigit c := h
    have hall := span_all (f := isDigitPart 10) (c :: cs)
    change IsDigits ((c :: cs).span (isDigitPart 10)).1
    rw [List.span_eq_takeWhile_dropWhile,
      List.takeWhile_cons_of_pos (isDigitPart_of_isDigit hc)] at hall ⊢
    exact .mk hc (List.forall_mem_cons.mp hall).2

end Characters

/-! ### Decimal numbers are read -/

section Reading

variable {point scaled floating : Bool} {kind : LiteralKind}
  {mantissa power mark text tail : List Char}

theorem IsMark.head (h : IsMark floating kind mark) :
    ∀ c ∈ mark.head?, c ∈ ['f', 'F', 'd', 'D', 'l', 'L'] := by
  cases h with
  | absent => exact fun c hc => absurd hc (Option.not_mem_none c)
  | float hc | double hc | long hc =>
    rintro _ ⟨⟩
    rcases hc with rfl | rfl <;> decide

theorem IsPower.head (h : IsPower scaled power) : ∀ c ∈ power.head?, c = 'e' ∨ c = 'E' := by
  cases h with
  | absent => exact fun c hc => absurd hc (Option.not_mem_none c)
  | present he =>
    rintro _ ⟨⟩
    exact he

/-- What comes first behind the mantissa starts a word, if it is not behind the number. -/
theorem head_power_mark (hpower : IsPower scaled power) (hmark : IsMark floating kind mark) :
    ∀ c ∈ (power ++ mark).head?, c ∈ ['e', 'E', 'f', 'F', 'd', 'D', 'l', 'L'] := by
  refine forall_head?_append (fun c hc => ?_) (fun c hc => ?_)
  · rcases hpower.head c hc with rfl | rfl <;> decide
  · have hmem := hmark.head c hc
    simp only [List.mem_cons, List.not_mem_nil, or_false] at hmem ⊢
    tauto

/-- The mantissa is read up to what is neither one of its characters nor the point. -/
theorem mantissa_append (h : IsMantissa point mantissa)
    (htail : ∀ c ∈ tail.head?, isDigitPart 10 c = false ∧ c ≠ '.')
    (hbare : mantissa.getLast? = some '.' → ∀ c ∈ tail.head?, isWordStart c = false) :
    ∃ whole frac, mantissa = whole ++ frac ∧ digits 10 (mantissa ++ tail) = (whole, frac ++ tail) ∧
      fraction (frac ++ tail) = (frac, tail) ∧ (!frac.isEmpty) = point := by
  have hpart : ∀ c ∈ tail.head?, isDigitPart 10 c = false := fun c hc => (htail c hc).1
  have hpoint : isDigitPart 10 '.' = false := rfl
  cases h with
  | whole h =>
    refine ⟨mantissa, [], (List.append_nil _).symm, digits_append h.chars hpart, ?_, rfl⟩
    cases tail with
    | nil => rfl
    | cons c tail =>
      rw [List.nil_append, fraction.eq_def]
      split
      · next heq => exact absurd (List.cons_eq_cons.mp heq).1 (htail c rfl).2
      · rfl
  | @inside ds es h he =>
    refine ⟨ds, '.' :: es, rfl, ?_, ?_, rfl⟩
    · rw [List.append_assoc]
      exact digits_append h.chars (by rintro _ ⟨⟩; exact hpoint)
    · rw [List.cons_append, fraction, if_pos (he.starts tail), digits_append he.chars hpart]
  | @trailing ds h =>
    refine ⟨ds, ['.'], rfl, ?_, ?_, rfl⟩
    · rw [List.append_assoc]
      exact digits_append h.chars (by rintro _ ⟨⟩; exact hpoint)
    · -- The point is read since neither a digit nor a word comes behind it.
      have hdigit : startsWith isDigit tail = false :=
        startsWith_eq_false fun c hc => Bool.eq_false_iff.mpr fun hdigit =>
          Bool.false_ne_true ((hpart c hc).symm.trans (isDigitPart_of_isDigit hdigit))
      have hword : startsWith (fun c => isWordStart c || c = '.') tail = false := by
        refine startsWith_eq_false fun c hc => ?_
        rw [hbare (by rw [List.getLast?_concat]) c hc, decide_eq_false (htail c hc).2]
        rfl
      rw [List.singleton_append, fraction, hdigit, hword]
      rfl
  | @leading ds h =>
    refine ⟨[], '.' :: ds, rfl, ?_, ?_, rfl⟩
    · exact @digits_append 10 [] _ (List.forall_mem_nil _) (by rintro _ ⟨⟩; exact hpoint)
    · rw [List.cons_append, fraction, if_pos (h.starts tail), digits_append h.chars hpart]

/-- The exponent is read up to what is no digit; where there is none, none follows. -/
theorem power_append (h : IsPower scaled power)
    (htail : ∀ c ∈ tail.head?, (scaled = true → isDigitPart 10 c = false) ∧
      (scaled = false → c ≠ 'e' ∧ c ≠ 'E')) :
    exponent (power ++ tail) = (some scaled, power, tail) := by
  cases h with
  | absent =>
    cases tail with
    | nil => rfl
    | cons c tail =>
      obtain ⟨hlower, hupper⟩ := (htail c rfl).2 rfl
      simp [exponent, hlower, hupper]
  | @present e sign ds he hsign h =>
    have hdigits : digits 10 (ds ++ tail) = (ds, tail) :=
      digits_append h.chars fun c hc => (htail c hc).1 rfl
    have hstarts := h.starts tail
    have he : (decide (e = 'e') || decide (e = 'E')) = true := by simpa using he
    -- A digit is no sign, so a missing sign is seen as missing.
    cases h with
    | @mk c cs hc =>
      have hplus : c ≠ '+' := by rintro rfl; cases hc
      have hminus : c ≠ '-' := by rintro rfl; cases hc
      rcases hsign with rfl | rfl | rfl <;>
        simp_all [exponent]

/-- The suffix is read if no word goes on behind it. -/
theorem mark_append (h : IsMark floating kind mark)
    (htail : ∀ c ∈ tail.head?, isWordPart c = false) :
    suffix floating (mark ++ tail) = (kind, mark, tail) := by
  cases h with
  | absent =>
    cases tail with
    | nil => rfl
    | cons c tail =>
      have hne {d : Char} : isWordPart d = true → c ≠ d := ne_of_class (htail c rfl)
      simp [suffix, hne (d := 'f') rfl, hne (d := 'F') rfl, hne (d := 'd') rfl,
        hne (d := 'D') rfl, hne (d := 'l') rfl, hne (d := 'L') rfl]
  | float hc => rcases hc with rfl | rfl <;> rfl
  | double hc => rcases hc with rfl | rfl <;> rfl
  | long hc hwhole => rcases hc with rfl | rfl <;> simp [suffix, hwhole]

/-- The exponent is read before a suffix behind which no word goes on. -/
theorem power_append_mark (hpower : IsPower scaled power) (hmark : IsMark floating kind mark)
    (htail : ∀ c ∈ tail.head?, isWordPart c = false) :
    exponent (power ++ (mark ++ tail)) = (some scaled, power, mark ++ tail) := by
  have hstop : ∀ c ∈ (mark ++ tail).head?,
      isDigitPart 10 c = false ∧ c ≠ 'e' ∧ c ≠ 'E' := by
    refine forall_head?_append (fun c hc => ?_) (fun c hc => ?_)
    · have hmem := hmark.head c hc
      simp only [List.mem_cons, List.not_mem_nil, or_false] at hmem
      rcases hmem with rfl | rfl | rfl | rfl | rfl | rfl <;> decide
    · exact ⟨isDigitPart_of_isWordPart (htail c hc), ne_of_class (htail c hc) rfl,
        ne_of_class (htail c hc) rfl⟩
  exact power_append hpower fun c hc => (hstop c hc).imp (fun h _ => h) fun h _ => h

/-- A decimal number is read part by part. -/
theorem decimal_of_parts {cs whole frac r r' r'' : List Char} (hwhole : digits 10 cs = (whole, r))
    (hfrac : fraction r = (frac, r')) (hpower : exponent r' = (some scaled, power, r''))
    (hmark : suffix (!frac.isEmpty || scaled) r'' = (kind, mark, tail))
    (htail : ∀ c ∈ tail.head?, isWordPart c = false) :
    decimal cs = ⟨whole ++ frac ++ power ++ mark, tail, .ok (.literal kind)⟩ := by
  have hspan : tail.span isWordPart = ([], tail) :=
    @span_append isWordPart [] _ (List.forall_mem_nil _) htail
  simp only [decimal, hwhole, hfrac, hpower, hmark, hspan, List.isEmpty_nil, if_true]

/-- **A decimal number is read as it is** where nothing follows that could continue it. -/
theorem decimal_append (h : IsDecimal kind text) (htail : EndsNumber tail) :
    decimal (text ++ tail) = ⟨text, tail, .ok (.literal kind)⟩ := by
  cases h with
  | @mk point scaled _ mantissa power mark hmantissa hpower hmark hbare =>
    have hword : ∀ c ∈ tail.head?, isWordPart c = false := fun c hc => (htail c hc).1
    -- What is behind the mantissa, and what is behind the exponent, ends them.
    have hfirst : ∀ c ∈ (power ++ (mark ++ tail)).head?, isDigitPart 10 c = false ∧ c ≠ '.' := by
      rw [← List.append_assoc]
      refine forall_head?_append (fun c hc => ?_) (fun c hc => ?_)
      · have hmem := head_power_mark hpower hmark c hc
        simp only [List.mem_cons, List.not_mem_nil, or_false] at hmem
        rcases hmem with rfl | rfl | rfl | rfl | rfl | rfl | rfl | rfl <;> decide
      · exact ⟨isDigitPart_of_isWordPart (hword c hc), (htail c hc).2⟩
    have hstart : mantissa.getLast? = some '.' →
        ∀ c ∈ (power ++ (mark ++ tail)).head?, isWordStart c = false := by
      intro hlast c hc
      rw [← List.append_assoc, hbare hlast, List.nil_append] at hc
      exact Bool.eq_false_iff.mpr fun hstart =>
        Bool.false_ne_true ((hword c hc).symm.trans (isWordPart_of_isWordStart hstart))
    obtain ⟨whole, frac, rfl, hwhole, hfrac, hpoint⟩ := mantissa_append hmantissa hfirst hstart
    rw [List.append_assoc (whole ++ frac), List.append_assoc power,
      decimal_of_parts hwhole hfrac (power_append_mark hpower hmark hword)
        (by rw [hpoint]; exact mark_append hmark hword) hword]
    simp only [List.append_assoc]

end Reading

/-! ### Numbers are read -/

section Numbers

variable {base : Nat} {kind : LiteralKind} {cs text tail : List Char}

theorem lookup_radixes {c : Char} (hx : c ≠ 'x') (hx' : c ≠ 'X') (hb : c ≠ 'b') (hb' : c ≠ 'B') :
    radixes.lookup c = none := by
  simp [radixes, List.lookup_cons, beq_eq_false_iff_ne.mpr hx, beq_eq_false_iff_ne.mpr hx',
    beq_eq_false_iff_ne.mpr hb, beq_eq_false_iff_ne.mpr hb']

/-- Behind a zero, a character announces a radix. -/
theorem of_announced? (h : announced? cs = some base) :
    ∃ x r, cs = '0' :: x :: r ∧ radixes.lookup x = some base := by
  unfold announced? at h
  split at h
  · exact ⟨_, _, rfl, h⟩
  · cases h

/-- A number is read by the radix that it announces. -/
theorem number_eq (cs : List Char) : number cs = match announced? cs with
    | some base => radix base (cs.take 2) (cs.drop 2)
    | none => decimal cs := by
  unfold number
  split
  · next x r =>
    rw [announced?]
    split_ifs with hx hb
    · rcases (by simpa using hx : x = 'x' ∨ x = 'X') with rfl | rfl <;> rfl
    · rcases (by simpa using hb : x = 'b' ∨ x = 'B') with rfl | rfl <;> rfl
    · simp only [Bool.or_eq_true, decide_eq_true_eq, not_or] at hx hb
      rw [lookup_radixes hx.1 hx.2 hb.1 hb.2]
  · next hne =>
    have hnone : announced? cs = none := by
      rw [announced?.eq_def]
      split
      · next x r => exact absurd rfl (hne x r)
      · rfl
    rw [hnone]

/-- Where a number starts, it is read. -/
theorem front_of_startsNumber (h : startsNumber cs) : front cs = .piece (number cs) := by
  cases cs with
  | nil => cases h
  | cons c cs =>
    have hne {d : Char} (hd : startsNumber (d :: cs) = false) : c ≠ d :=
      (ne_of_class (f := fun d => startsNumber (d :: cs)) hd h).symm
    rw [front_token (hne rfl), token, if_neg (hne rfl), if_neg (hne rfl)]
    exact congrArg _ (if_pos h)

/-- A number does not start with a blank. -/
theorem head_of_startsNumber (h : startsNumber cs) :
    ∃ c r, cs = c :: r ∧ isBlank c = false ∧ c ≠ byteOrderMark := by
  cases cs with
  | nil => cases h
  | cons c r =>
    refine ⟨c, r, rfl, ?_⟩
    rcases Bool.or_eq_true_iff.mp h with hdigit | hpoint
    · refine ⟨isBlank_of_isDigit hdigit, ?_⟩
      rintro rfl
      cases hdigit
    · obtain ⟨rfl, -⟩ : c = '.' ∧ startsWith isDigit r := by simpa using hpoint
      decide

/-- Before a number there is no margin. -/
theorem margin_of_startsNumber (h : startsNumber cs) : margin cs = ([], cs) := by
  obtain ⟨c, r, rfl, hhead⟩ := head_of_startsNumber h
  refine (margin_of_head ?_).1
  rintro _ ⟨⟩
  exact hhead

theorem IsDigits.startsNumber {ds : List Char} (h : IsDigits ds) (tail : List Char) :
    Scan.startsNumber (ds ++ tail) := by
  cases h with
  | mk hc => exact Bool.or_eq_true_iff.mpr (.inl hc)

theorem IsDecimal.startsNumber (h : IsDecimal kind text) (tail : List Char) :
    Scan.startsNumber (text ++ tail) := by
  cases h with
  | mk hmantissa =>
    cases hmantissa with
    | whole h => simpa only [List.append_assoc] using h.startsNumber _
    | inside h => simpa only [List.append_assoc] using h.startsNumber _
    | trailing h => simpa only [List.append_assoc] using h.startsNumber _
    | leading h =>
      simp only [List.cons_append, List.append_assoc]
      rw [Scan.startsNumber, h.starts]
      rfl

theorem IsAnnounced.startsNumber (h : IsAnnounced base kind text) (tail : List Char) :
    Scan.startsNumber (text ++ tail) := by
  cases h
  rfl

theorem IsNumeral.startsNumber (h : IsNumeral kind text) (tail : List Char) :
    Scan.startsNumber (text ++ tail) := by
  rcases h with h | ⟨base, h⟩
  · exact h.startsNumber tail
  · exact h.startsNumber tail

/-- The characters of a decimal number announce no radix. -/
theorem IsDecimal.lookup_chars (h : IsDecimal kind text) : ∀ c ∈ text, radixes.lookup c = none := by
  have hpart {ds : List Char} (h : IsDigits ds) : ∀ c ∈ ds, radixes.lookup c = none := by
    intro c hc
    have hdigit := h.chars c hc
    have hne {d : Char} (hd : isDigitPart 10 d = false) : c ≠ d := (ne_of_class hd hdigit).symm
    exact lookup_radixes (hne rfl) (hne rfl) (hne rfl) (hne rfl)
  have hpoint : radixes.lookup '.' = none := rfl
  cases h with
  | mk hmantissa hpower hmark =>
    refine List.forall_mem_append.mpr ⟨?_, List.forall_mem_append.mpr ⟨?_, ?_⟩⟩
    · cases hmantissa with
      | whole h => exact hpart h
      | inside h he =>
        exact List.forall_mem_append.mpr ⟨hpart h, List.forall_mem_cons.mpr ⟨hpoint, hpart he⟩⟩
      | trailing h =>
        exact List.forall_mem_append.mpr ⟨hpart h, List.forall_mem_singleton.mpr hpoint⟩
      | leading h => exact List.forall_mem_cons.mpr ⟨hpoint, hpart h⟩
    · cases hpower with
      | absent => exact List.forall_mem_nil _
      | present he hsign h =>
        refine List.forall_mem_cons.mpr ⟨?_, List.forall_mem_append.mpr ⟨?_, hpart h⟩⟩
        · rcases he with rfl | rfl <;> rfl
        · rcases hsign with rfl | rfl | rfl
          · exact List.forall_mem_nil _
          · exact List.forall_mem_singleton.mpr rfl
          · exact List.forall_mem_singleton.mpr rfl
    · cases hmark with
      | absent => exact List.forall_mem_nil _
      | float hc | double hc | long hc =>
        rcases hc with rfl | rfl <;> exact List.forall_mem_singleton.mpr rfl

/-- A decimal number announces no radix, nor does it with what follows it. -/
theorem IsDecimal.announced? (h : IsDecimal kind text)
    (htail : ∀ c ∈ tail.head?, radixes.lookup c = none) :
    Scan.announced? (text ++ tail) = none := by
  have hsecond {c : Char} {r : List Char} (hr : ∀ d ∈ r.head?, radixes.lookup d = none) :
      Scan.announced? (c :: r) = none := by
    rw [Scan.announced?.eq_def]
    split
    · next heq =>
      obtain ⟨-, rfl⟩ := List.cons_eq_cons.mp heq
      exact hr _ rfl
    · rfl
  have hstart := h.startsNumber []
  have hchars := h.lookup_chars
  match text, hstart, hchars with
  | [c], _, _ => exact hsecond htail
  | c :: d :: r, _, hchars =>
    refine hsecond ?_
    rintro _ ⟨⟩
    exact hchars d (List.mem_cons_of_mem _ List.mem_cons_self)

/-- **A number that announces its radix is read as it is** where nothing follows that could
continue it. -/
theorem IsAnnounced.number_append (h : IsAnnounced base kind text) (htail : EndsNumber tail) :
    number (text ++ tail) = ⟨text, tail, .ok (.literal kind)⟩ := by
  cases h with
  | @mk x _ ds mark hx hds hsome hmark hkind =>
    have hword : ∀ c ∈ tail.head?, isWordPart c = false := fun c hc => (htail c hc).1
    have hnumber : number ('0' :: x :: (ds ++ mark) ++ tail)
        = radix base ['0', x] (ds ++ (mark ++ tail)) := by
      rw [← List.append_assoc, number_eq]
      change (match radixes.lookup x with | some base => _ | none => _) = _
      rw [hx]
      rfl
    -- The suffix is no digit of either radix, so the digits end in front of it.
    have hstop : ∀ c ∈ (mark ++ tail).head?, isDigitPart base c = false := by
      intro c hc
      cases hmark with
      | absent => exact isDigitPart_of_isWordPart (hword c hc)
      | float | double => rcases hkind with hkind | hkind <;> cases hkind
      | long hmark =>
        cases hc
        have hbase : base = 16 ∨ base = 2 := by
          obtain ⟨before, after, hmem, -⟩ := List.lookup_eq_some_iff.mp hx
          have hbase : (x, base) ∈ radixes := hmem ▸ List.mem_append_right _ List.mem_cons_self
          simp only [radixes, List.mem_cons, Prod.mk.injEq, List.not_mem_nil, or_false] at hbase
          tauto
        rcases hbase with rfl | rfl <;> rcases hmark with rfl | rfl <;> decide
    rw [hnumber, radix, digits_append hds hstop]
    dsimp only
    rw [if_neg (by rw [hsome]; decide)]
    cases hmark with
    | absent =>
      cases tail with
      | nil => simp
      | cons c tail =>
        have hne {d : Char} : isWordPart d = true → c ≠ d := ne_of_class (hword c rfl)
        simp [hne (d := 'l') rfl, hne (d := 'L') rfl]
    | float | double => rcases hkind with hkind | hkind <;> cases hkind
    | long hc => rcases hc with rfl | rfl <;> simp

/-- **A number is read as it is** where nothing follows that could continue it. -/
theorem front_number (h : IsNumeral kind text) (htail : EndsNumber tail) :
    front (text ++ tail) = .piece ⟨text, tail, .ok (.literal kind)⟩ := by
  rcases h with h | ⟨base, h⟩
  · have hradix : ∀ c ∈ tail.head?, radixes.lookup c = none := by
      intro c hc
      have hne {d : Char} : isWordPart d = true → c ≠ d := ne_of_class (htail c hc).1
      exact lookup_radixes (hne rfl) (hne rfl) (hne rfl) (hne rfl)
    rw [front_of_startsNumber (h.startsNumber tail), number_eq, h.announced? hradix]
    exact congrArg _ (decimal_append h htail)
  · rw [front_of_startsNumber (h.startsNumber tail), h.number_append htail]

end Numbers

end Scan

end JavaGraft
