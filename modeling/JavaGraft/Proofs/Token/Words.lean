import JavaGraft.Proofs.Token.Kinds
import Mathlib.Data.List.TakeDrop

/-!
# Words with blanks between them

A lexeme is stable if it is read as it is where nothing or a blank follows. A text of stable lexemes
with single blanks between them is read as just these, without any error
(`JavaGraft.tokenize_stable`), whichever of them stand next to each other.

Identifiers and signs are stable (`JavaGraft.tokenize_words`). The reasons are that no blank is part
of an identifier or a sign, and that an identifier or a sign that is followed by a blank or by
nothing is not the beginning of anything longer.
-/

namespace JavaGraft

open CharClass

/-! ### Classes of characters -/

namespace CharClass

/-- Nothing lies in two tables whose ranges do not meet. -/
theorem within_disjoint {ranges ranges' : List (Nat × Nat)}
    (h : ∀ r ∈ ranges, ∀ r' ∈ ranges', r.2 < r'.1 ∨ r'.2 < r.1) {n : Nat} (hn : within ranges n) :
    within ranges' n = false := by
  refine Bool.eq_false_iff.mpr fun hn' => ?_
  obtain ⟨r, hr, hin⟩ := List.any_eq_true.mp hn
  obtain ⟨r', hr', hin'⟩ := List.any_eq_true.mp hn'
  simp only [Bool.and_eq_true, decide_eq_true_eq] at hin hin'
  have hapart := h r hr r' hr'
  omega

/-- An ASCII character is compared by its code point. -/
theorem le_iff_toNat (c d : Char) : c ≤ d ↔ c.toNat ≤ d.toNat := Iff.rfl

/-- A character that is in a class is none that is not. -/
theorem ne_of_class {f : Char → Bool} {c d : Char} (hc : f c = false) (hd : f d = true) : c ≠ d :=
  ne_of_apply_ne f fun h => Bool.false_ne_true (hc.symm.trans (h.trans hd))

theorem ne_byteOrderMark_of_isWordStart {c : Char} (h : isWordStart c) :
    c ≠ Scan.byteOrderMark := by
  rintro rfl
  exact absurd h (by decide +kernel)

/-- What starts an identifier is no blank. -/
theorem isBlank_of_isWordStart {c : Char} (h : isWordStart c) : isBlank c = false := by
  simp only [isWordStart, Bool.or_eq_true, decide_eq_true_eq, or_assoc] at h
  rcases h with h | rfl | rfl
  · rw [isLetter] at h
    rw [isBlank]
    split at h
    · next hascii =>
      rw [if_pos hascii, Bool.eq_false_iff]
      simp only [isAsciiLetter, Bool.or_eq_true, Bool.and_eq_true, decide_eq_true_eq,
        le_iff_toNat] at h
      intro hblank
      simp only [Bool.or_eq_true, Bool.and_eq_true, decide_eq_true_eq, le_iff_toNat] at hblank
      rcases hblank with rfl | hblank
      · revert h; decide
      · simp at h hblank; omega
    · next hascii =>
      rw [if_neg hascii]
      have hapart : ∀ r ∈ letterRanges, ∀ r' ∈ blankRanges, r.2 < r'.1 ∨ r'.2 < r.1 := by
        decide +kernel
      exact within_disjoint hapart h
  · decide
  · decide

/-- What starts an identifier is no digit. -/
theorem isDigit_of_isWordStart {c : Char} (h : isWordStart c) : isDigit c = false := by
  simp only [isWordStart, Bool.or_eq_true, decide_eq_true_eq, or_assoc] at h
  rcases h with h | rfl | rfl
  · rw [Bool.eq_false_iff]
    intro hdigit
    simp only [isDigit, Bool.and_eq_true, decide_eq_true_eq, le_iff_toNat] at hdigit
    simp at hdigit
    rw [isLetter, if_pos (by omega)] at h
    simp only [isAsciiLetter, Bool.or_eq_true, Bool.and_eq_true, decide_eq_true_eq,
      le_iff_toNat] at h
    simp at h
    omega
  · decide
  · decide

/-- What starts an identifier can continue one. -/
theorem isWordPart_of_isWordStart {c : Char} (h : isWordStart c) : isWordPart c := by
  simp only [isWordStart, Bool.or_eq_true] at h
  rcases h with (h | h) | h <;> simp [isWordPart, h]

/-! ### Digits -/

section Digits

variable {base base' d : Nat} {c : Char}

theorem digitValue?_lt (h : digitValue? base c = some d) : d < base :=
  of_decide_eq_true (Option.filter_eq_some_iff.mp h).2

/-- What is a digit in one radix is a digit in every greater one. -/
theorem isSome_digitValue?_of_le (h : digitValue? base c = some d) (hle : base ≤ base') :
    (digitValue? base' c).isSome := by
  have hlt := digitValue?_lt h
  rw [digitValue?] at h ⊢
  rw [(Option.filter_eq_some_iff.mp h).1, Option.filter_some,
    if_pos (decide_eq_true (Nat.lt_of_lt_of_le hlt hle))]
  rfl

/-- Up to radix ten, no letters are digits. -/
theorem isDigit_of_digitValue? (h : digitValue? base c = some d) (hbase : base ≤ 10) :
    isDigit c := by
  have hlt := digitValue?_lt h
  rw [digitValue?] at h
  have hvalue := (Option.filter_eq_some_iff.mp h).1
  split_ifs at hvalue with hdigit
  · exact hdigit
  all_goals
    obtain rfl := Option.some.inj hvalue
    omega

theorem ne_underscore (h : digitValue? base c = some d) : c ≠ '_' := by
  rintro rfl
  cases h

theorem isBlank_of_isDigit (h : isDigit c) : isBlank c = false := by
  simp only [isDigit, Bool.and_eq_true, decide_eq_true_eq, le_iff_toNat] at h
  obtain ⟨hfirst, hlast⟩ : 48 ≤ c.toNat ∧ c.toNat ≤ 57 := h
  rw [isBlank, if_pos (by omega), Bool.eq_false_iff]
  simp only [ne_eq, Bool.or_eq_true, Bool.and_eq_true, decide_eq_true_eq, le_iff_toNat]
  rintro (rfl | ⟨-, hreturn⟩)
  · exact absurd hfirst (by decide)
  · exact absurd (Nat.le_trans hfirst hreturn) (by decide)

end Digits

end CharClass

/-! ### Runs and fronts -/

/-- A run of characters of a class ends where a character of another class follows. -/
theorem Scan.span_append {f : Char → Bool} {cs tail : List Char} (h : ∀ c ∈ cs, f c)
    (htail : ∀ c ∈ tail.head?, f c = false) : (cs ++ tail).span f = (cs, tail) := by
  rw [List.span_eq_takeWhile_dropWhile, List.takeWhile_append_of_pos h,
    List.dropWhile_append_of_pos h]
  cases tail with
  | nil => simp
  | cons c tail => simp [htail c rfl]

/-- Only a slash can start a comment. -/
theorem Scan.front_token {c : Char} (h : c ≠ '/') (cs : List Char) :
    front (c :: cs) = .piece (token (c :: cs)) := by
  rw [front]
  · exact List.cons_ne_nil _ _
  · exact fun r hr => absurd (List.cons_eq_cons.mp hr).1 h
  · exact fun r hr => absurd (List.cons_eq_cons.mp hr).1 h

/-! ### Margins -/

/-- Where no blank comes first there is no margin, and behind a blank there is no more than this
blank. -/
theorem Scan.margin_of_head {cs : List Char}
    (h : ∀ c ∈ cs.head?, isBlank c = false ∧ c ≠ byteOrderMark) :
    margin cs = ([], cs) ∧ margin (' ' :: cs) = ([' '], cs) := by
  have hspace : isBlank ' ' = true := by decide
  rcases cs with _ | ⟨c, cs⟩
  · exact ⟨rfl, by decide⟩
  · obtain ⟨hblank, hmark⟩ := h c rfl
    rw [margin, margin, if_neg hmark, if_neg (by decide)]
    simp [List.span_eq_takeWhile_dropWhile, hblank, hspace]

/-! ### The longest sign -/

namespace Sign

/-- The characters that make a longer sign of a sign, or the beginning of one. -/
def followers (s : Sign) : List Char :=
  all.filterMap fun s' =>
    if s.spelling.toList.isPrefixOf s'.spelling.toList then s'.spelling.toList[s.spelling.length]?
    else none

theorem mem_all (s : Sign) : s ∈ all := by cases s <;> decide

theorem eq_of_spelling {s s' : Sign} (h : s.spelling = s'.spelling) : s = s' := by
  have hall : ∀ s ∈ all, ∀ s' ∈ all, s.spelling = s'.spelling → s = s' := by decide +kernel
  exact hall s s.mem_all s' s'.mem_all h

theorem prefix_of_longest? {s : Sign} {cs : List Char} (h : longest? cs = some s) :
    s.spelling.toList <+: cs :=
  List.isPrefixOf_iff_prefix.mp
    (List.find?_some (p := fun s : Sign => s.spelling.toList.isPrefixOf cs) h)

/-- The longest sign is as long as any that a text starts with. -/
theorem length_le_of_longest? {s s' : Sign} {cs : List Char} (h : longest? cs = some s)
    (h' : s'.spelling.toList <+: cs) : s'.spelling.length ≤ s.spelling.length := by
  have hsorted : all.Pairwise fun s s' => s'.spelling.length ≤ s.spelling.length := by
    decide +kernel
  obtain ⟨-, before, behind, hall, hbefore⟩ := List.find?_eq_some_iff_append.mp h
  -- longer ones are tried first
  have hs' := s'.mem_all
  rw [hall, List.mem_append, List.mem_cons] at hs'
  rw [hall, List.pairwise_append, List.pairwise_cons] at hsorted
  rcases hs' with hs' | rfl | hs'
  · have hno := hbefore s' hs'
    rw [List.isPrefixOf_iff_prefix.mpr h'] at hno
    cases hno
  · exact Nat.le_refl _
  · exact hsorted.2.1.1 s' hs'

/-- Where a text starts with a sign, the longest sign goes on from it. -/
theorem longest?_append_cases (s : Sign) (cs : List Char) :
    ∃ s' more, longest? (s.spelling.toList ++ cs) = some s' ∧
      s'.spelling.toList = s.spelling.toList ++ more ∧ more <+: cs := by
  have hfits : s.spelling.toList <+: s.spelling.toList ++ cs := List.prefix_append _ _
  obtain ⟨s', hs'⟩ : ∃ s', longest? (s.spelling.toList ++ cs) = some s' :=
    Option.isSome_iff_exists.mp (List.find?_isSome.mpr
      ⟨s, s.mem_all, List.isPrefixOf_iff_prefix.mpr hfits⟩)
  have hbegin := prefix_of_longest? hs'
  have hlength := length_le_of_longest? hs' hfits
  rw [← String.length_toList, ← String.length_toList] at hlength
  obtain ⟨more, hmore⟩ := List.prefix_of_prefix_length_le hfits hbegin hlength
  rw [← hmore, List.prefix_append_right_inj] at hbegin
  exact ⟨s', more, hs', hmore.symm, hbegin⟩

/-- **A sign is the longest one** where nothing follows that makes a longer one of it. -/
theorem longest?_append {s : Sign} {cs : List Char} (h : ∀ d ∈ cs.head?, d ∉ s.followers) :
    longest? (s.spelling.toList ++ cs) = some s := by
  obtain ⟨s', more, hs', hmore, hbegin⟩ := longest?_append_cases s cs
  cases more with
  | nil =>
    rw [List.append_nil] at hmore
    rw [hs', eq_of_spelling (String.toList_inj.mp hmore)]
  | cons d ds =>
    obtain ⟨r, rfl⟩ := hbegin
    refine absurd (List.mem_filterMap.mpr ⟨s', s'.mem_all, ?_⟩) (h d rfl)
    rw [if_pos (List.isPrefixOf_iff_prefix.mpr ⟨_, hmore.symm⟩), hmore, ← String.length_toList,
      List.getElem?_append_right (Nat.le_refl _), Nat.sub_self]
    rfl

end Sign

/-- Where a text starts with a sign, a sign is read, unless it starts a comment or a number. -/
theorem Scan.front_eq_sign {s : Sign} {cs : List Char}
    (hslash : s = .slash → ∀ c ∈ cs.head?, c ≠ '/' ∧ c ≠ '*')
    (hdot : s = .dot → startsWith isDigit cs = false) :
    front (s.spelling.toList ++ cs) = .piece (sign (s.spelling.toList ++ cs)) := by
  cases s
  case slash =>
    rcases cs with _ | ⟨c, cs⟩
    · rfl
    · obtain ⟨hline, hbracketed⟩ := hslash rfl c rfl
      change front ('/' :: c :: cs) = .piece (token ('/' :: c :: cs))
      rw [front]
      · exact List.cons_ne_nil _ _
      · rintro r ⟨⟩
        exact hline rfl
      · rintro r ⟨⟩
        exact hbracketed rfl
  case dot =>
    have hdigit := hdot rfl
    change Front.piece (if isDigit '.' || decide ('.' = '.') && startsWith isDigit cs then _
      else _) = _
    simp only [hdigit]
    rfl
  all_goals rfl

/-- **A sign is read as it is** where nothing follows that makes something else of it. -/
theorem Scan.front_sign {s : Sign} {cs : List Char} (hslash : s ≠ .slash)
    (hdot : s = .dot → startsWith isDigit cs = false) (h : ∀ d ∈ cs.head?, d ∉ s.followers) :
    front (s.spelling.toList ++ cs) = .piece ⟨s.spelling.toList, cs, .ok (.sign s)⟩ := by
  rw [front_eq_sign (fun hs => absurd hs hslash) hdot, sign, Sign.longest?_append h]
  dsimp only
  rw [← String.length_toList, List.drop_left]

/-! ### One word -/

/-- The kind of a token and its text. -/
abbrev Lexeme := TokenKind × String

/-- The kind and text of a token. -/
def Token.lexeme (t : Token) : Lexeme := (t.kind, t.text)

/-- Whether a text is an identifier. -/
def isIdentifier (x : String) : Bool :=
  match x.toList with
  | [] => false
  | c :: cs => isWordStart c && cs.all isWordPart && (Keyword.ofSpelling? x).isNone

/-- An identifier starts and goes on like one, and is no keyword. -/
theorem isIdentifier_cases {x : String} (h : isIdentifier x) :
    ∃ c cs, x.toList = c :: cs ∧ isWordStart c ∧ (∀ d ∈ x.toList, isWordPart d) ∧
      Keyword.ofSpelling? x = none := by
  rw [isIdentifier] at h
  split at h
  · cases h
  · next c cs hx =>
    simp only [Bool.and_eq_true, Option.isNone_iff_eq_none] at h
    obtain ⟨⟨hstart, hparts⟩, hkeyword⟩ := h
    refine ⟨c, cs, hx, hstart, ?_, hkeyword⟩
    rw [hx]
    exact List.forall_mem_cons.mpr
      ⟨isWordPart_of_isWordStart hstart, List.all_eq_true.mp hparts⟩

/-- An identifier or a sign. -/
inductive IsWord : Lexeme → Prop
  | sign (s : Sign) : IsWord (.sign s, s.spelling)
  | identifier {x : String} (h : isIdentifier x) : IsWord (.identifier, x)

/-- What can stand behind a word: nothing, or a blank before something. -/
inductive IsTail : List Char → Prop
  | nothing : IsTail []
  | blank (cs : List Char) : IsTail (' ' :: cs)

/-- **A word is read as it is** where nothing follows that could continue it. -/
theorem Scan.front_word {x : String} {c : Char} {cs tail : List Char} (hx : x.toList = c :: cs)
    (hstart : isWordStart c) (hparts : ∀ d ∈ x.toList, isWordPart d)
    (htail : ∀ d ∈ tail.head?, isWordPart d = false) :
    front (x.toList ++ tail) = .piece
      ⟨x.toList, tail, .ok ((Keyword.ofSpelling? x).elim .identifier .keyword)⟩ := by
  -- Nothing else starts like a word.
  have hne : ∀ d, isWordStart d = false → c ≠ d := fun d hd => (ne_of_class hd hstart).symm
  have hfront : front (x.toList ++ tail) = .piece (token (x.toList ++ tail)) := by
    rw [hx]
    exact front_token (hne '/' (by decide)) _
  have htoken : token (x.toList ++ tail) = word (x.toList ++ tail) := by
    rw [hx, List.cons_append, token, if_neg (hne '"' (by decide)), if_neg (hne '\'' (by decide)),
      isDigit_of_isWordStart hstart, if_neg, if_pos hstart]
    simp [hne '.' (by decide)]
  rw [hfront, htoken, word, span_append hparts htail]
  simp only [String.ofList_toList]

/-! ### Stable lexemes -/

/-- A lexeme is **stable** if it is read as it is, whatever the blank behind it is followed by. -/
structure Lexeme.IsStable (l : Lexeme) : Prop where
  head : ∃ c cs, l.2.toList = c :: cs ∧ isBlank c = false ∧ c ≠ Scan.byteOrderMark
  front {tail : List Char} (htail : IsTail tail) :
    Scan.front (l.2.toList ++ tail) = .piece ⟨l.2.toList, tail, .ok l.1⟩

/-- Before a stable lexeme there is no margin, and behind a blank there is no more than this
blank. -/
theorem Lexeme.IsStable.margin {l : Lexeme} (h : l.IsStable) (tail : List Char) :
    Scan.margin (l.2.toList ++ tail) = ([], l.2.toList ++ tail) ∧
      Scan.margin (' ' :: (l.2.toList ++ tail)) = ([' '], l.2.toList ++ tail) := by
  obtain ⟨c, cs, hx, hblank, hmark⟩ := h.head
  refine Scan.margin_of_head fun d hd => ?_
  rw [hx] at hd
  cases hd
  exact ⟨hblank, hmark⟩

theorem IsTail.head {tail : List Char} (h : IsTail tail) : ∀ c ∈ tail.head?, c = ' ' := by
  cases h with
  | nothing => exact fun c hc => absurd hc (Option.not_mem_none c)
  | blank cs =>
    rintro _ ⟨⟩
    rfl

theorem IsTail.isWordPart_head {tail : List Char} (h : IsTail tail) :
    ∀ c ∈ tail.head?, isWordPart c = false := by
  intro c hc
  rw [h.head c hc]
  decide +kernel

namespace IsWord

variable {l : Lexeme}

/-- A word does not start with a blank. -/
theorem head (h : IsWord l) :
    ∃ c cs, l.2.toList = c :: cs ∧ isBlank c = false ∧ c ≠ Scan.byteOrderMark := by
  cases h with
  | sign s => cases s <;> exact ⟨_, _, rfl, by decide, by decide⟩
  | @identifier x h =>
    obtain ⟨c, cs, hx, hstart, -, -⟩ := isIdentifier_cases h
    exact ⟨c, cs, hx, isBlank_of_isWordStart hstart, ne_byteOrderMark_of_isWordStart hstart⟩

/-- **A word is read as it is**, whatever the blank behind it is followed by. -/
theorem front (h : IsWord l) {tail : List Char} (ht : IsTail tail) :
    Scan.front (l.2.toList ++ tail) = .piece ⟨l.2.toList, tail, .ok l.1⟩ := by
  cases h with
  | sign s => cases ht <;> cases s <;> rfl
  | @identifier x h =>
    obtain ⟨c, cs, hx, hstart, hparts, hkeyword⟩ := isIdentifier_cases h
    rw [Scan.front_word hx hstart hparts ht.isWordPart_head, hkeyword]
    rfl

/-- **Words are stable.** -/
theorem isStable (h : IsWord l) : l.IsStable := ⟨h.head, h.front⟩

end IsWord

/-! ### A text of lexemes -/

/-- The texts of lexemes, a blank before each. -/
def Lexeme.blanked : List Lexeme → List Char
  | [] => []
  | l :: ls => ' ' :: (l.2.toList ++ blanked ls)

namespace Lexeme

theorem isTail_blanked (ls : List Lexeme) : IsTail (blanked ls) := by
  cases ls with
  | nil => exact .nothing
  | cons l ls => exact .blank _

theorem length_le_blanked (ls : List Lexeme) : ls.length ≤ (blanked ls).length := by
  induction ls with
  | nil => exact Nat.zero_le _
  | cons l ls ih =>
    rw [blanked, List.length_cons, List.length_cons, List.length_append]
    omega

/-- Lexemes with a blank between each and the next. -/
theorem toList_intercalate (l : Lexeme) (ls : List Lexeme) :
    (" ".intercalate ((l :: ls).map Prod.snd)).toList = l.2.toList ++ blanked ls := by
  induction ls generalizing l with
  | nil => simp [blanked]
  | cons m ms ih =>
    rw [List.map_cons, String.intercalate_cons_of_ne_nil (by simp), String.toList_append,
      String.toList_append, ih, blanked, List.append_assoc]
    rfl

end Lexeme

namespace Lexer

/-- What stands behind the margin is read. -/
theorem read_front {c : Cursor} {cs text tail : List Char} {kind : TokenKind}
    (hmargin : (Scan.margin c.rest).2 = cs)
    (hfront : Scan.front cs = .piece ⟨text, tail, .ok kind⟩) :
    (read c).token.lexeme = (kind, String.ofList text) ∧ (read c).error = none ∧
      (read c).next.rest = tail := by
  have hread : read c = readPiece (c.past (Scan.margin c.rest).1 (Scan.margin c.rest).2)
      ⟨text, tail, .ok kind⟩ := by
    rw [read, readWithin]
    simp only [Cursor.past, hmargin, hfront]
  rw [hread, readPiece]
  exact ⟨rfl, rfl, rfl⟩

/-- At the end of a text nothing is read. -/
theorem kind_read_end {c : Cursor} (hc : c.rest = []) : (read c).token.kind = .endOfSource := by
  rw [read, readWithin, hc]
  rfl

end Lexer

namespace Tokens

/-- What is read of lexemes: these lexemes, no errors, and the end. -/
structure AreWords (r : Tokens) (ls : List Lexeme) : Prop where
  tokens : r.tokens.map Token.lexeme = ls
  errors : r.errors = []
  finish : r.finish.kind = .endOfSource

/-- What stands behind the margin is read first, then what is behind it. -/
theorem readAll_front {n : Nat} {c : Cursor} {cs text tail : List Char} {kind : TokenKind}
    (hmargin : (Scan.margin c.rest).2 = cs)
    (hfront : Scan.front cs = .piece ⟨text, tail, .ok kind⟩) :
    ∃ c', c'.rest = tail ∧ (readAll (n + 1) c).tokens.map Token.lexeme =
        (kind, String.ofList text) :: (readAll n c').tokens.map Token.lexeme ∧
      (readAll (n + 1) c).errors = (readAll n c').errors ∧
      (readAll (n + 1) c).finish = (readAll n c').finish := by
  obtain ⟨hlexeme, herror, hnext⟩ := Lexer.read_front hmargin hfront
  have hkind : (Lexer.read c).token.kind ≠ .endOfSource := by
    have hproper := Scan.isText_front hfront rfl
    rw [TokenKind.isText, Bool.and_eq_true, decide_eq_true_eq] at hproper
    rw [show (Lexer.read c).token.kind = kind from congrArg Prod.fst hlexeme]
    exact hproper.1
  refine ⟨(Lexer.read c).next, hnext, ?_⟩
  rw [readAll]
  simp only [if_neg hkind, herror, List.map_cons, hlexeme]
  exact ⟨trivial, rfl, trivial⟩

/-- First a lexeme is read, behind a blank or none, then what is behind it. -/
theorem readAll_cons {l : Lexeme} {ls : List Lexeme} (hl : l.IsStable) {n : Nat} {c : Cursor}
    (hc : c.rest = l.2.toList ++ Lexeme.blanked ls
      ∨ c.rest = ' ' :: (l.2.toList ++ Lexeme.blanked ls))
    (h : ∀ c : Cursor, c.rest = Lexeme.blanked ls → (readAll n c).AreWords ls) :
    (readAll (n + 1) c).AreWords (l :: ls) := by
  have hmargin : (Scan.margin c.rest).2 = l.2.toList ++ Lexeme.blanked ls := by
    rcases hc with hc | hc
    · rw [hc, (hl.margin _).1]
    · rw [hc, (hl.margin _).2]
  obtain ⟨c', hrest, htokens, herrors, hfinish⟩ :=
    readAll_front (n := n) hmargin (hl.front (Lexeme.isTail_blanked ls))
  have hlater := h c' hrest
  rw [String.ofList_toList, hlater.tokens] at htokens
  exact ⟨htokens, herrors.trans hlater.errors, hfinish ▸ hlater.finish⟩

theorem readAll_blanked {ls : List Lexeme} (hls : ∀ l ∈ ls, l.IsStable) {n : Nat}
    (hn : ls.length < n) {c : Cursor} (hc : c.rest = Lexeme.blanked ls) :
    (readAll n c).AreWords ls := by
  induction ls generalizing n c with
  | nil =>
    obtain ⟨n, rfl⟩ := Nat.exists_eq_add_of_lt hn
    rw [Nat.add_assoc, List.length_nil, Nat.zero_add, readAll,
      if_pos (Lexer.kind_read_end hc)]
    exact ⟨rfl, rfl, Lexer.kind_read_end hc⟩
  | cons l ls ih =>
    obtain ⟨hl, hls⟩ := List.forall_mem_cons.mp hls
    obtain ⟨n, rfl⟩ := Nat.exists_eq_succ_of_ne_zero (Nat.ne_zero_of_lt hn)
    exact readAll_cons hl (.inr hc) fun c => ih hls (Nat.lt_of_succ_lt_succ hn)

end Tokens

/-- **Stable lexemes with blanks between them are read as these lexemes**, without errors. -/
theorem tokenize_stable {ls : List Lexeme} (hls : ∀ l ∈ ls, l.IsStable) :
    (tokenize (" ".intercalate (ls.map Prod.snd)).toList).AreWords ls := by
  rw [tokenize]
  cases ls with
  | nil => exact Tokens.readAll_blanked hls (by simp) rfl
  | cons l ls =>
    obtain ⟨hl, hls⟩ := List.forall_mem_cons.mp hls
    rw [Lexeme.toList_intercalate]
    refine Tokens.readAll_cons hl (.inl rfl) fun c => Tokens.readAll_blanked hls ?_
    obtain ⟨d, ds, hd, -⟩ := hl.head
    have hlength := Lexeme.length_le_blanked ls
    rw [hd, List.length_append, List.length_cons]
    omega

end JavaGraft
