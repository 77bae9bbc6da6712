import JavaGraft.Proofs.Token.Words
import Mathlib.Data.List.TakeWhile

/-!
# What a scanner reads and what it leaves

A scanner splits its text: what it reads and what it leaves make up the whole text again, whether
the piece is a token or a fault and wherever the fault was noticed. A piece has at least one
character as well (`JavaGraft.Scan.splits_token`), so reading goes on. Blanks and comments are
split off in the same way (`JavaGraft.Scan.front_cases`), and what is skipped as a comment is one:
it starts as a comment, and its end is the first that the text offers.
-/

namespace JavaGraft.Scan

open CharClass

/-- The piece and its rest make up a text, and the piece is not empty. -/
structure Piece.Splits (p : Piece) (cs : List Char) : Prop where
  whole : p.text ++ p.rest = cs
  nonempty : p.text ≠ []

theorem span_whole (f : Char → Bool) (cs : List Char) : (cs.span f).1 ++ (cs.span f).2 = cs := by
  rw [List.span_eq_takeWhile_dropWhile]
  exact List.takeWhile_append_dropWhile

/-- The first character of a class is part of the run of that class. -/
theorem span_nonempty {f : Char → Bool} {c : Char} (h : f c) (cs : List Char) :
    ((c :: cs).span f).1 ≠ [] := by
  rw [List.span_eq_takeWhile_dropWhile, List.takeWhile_cons_of_pos h]
  exact List.cons_ne_nil _ _

/-! ### Quoted literals -/

theorem quoted_whole (quote : Char) (cs : List Char) :
    (quoted quote cs).2.1 ++ (quoted quote cs).2.2 = cs := by
  fun_induction quoted quote cs <;> simp_all

theorem blockBody_whole (cs : List Char) : (blockBody cs).2.1 ++ (blockBody cs).2.2 = cs := by
  fun_induction blockBody cs <;> simp_all

theorem splits_string (c : Char) (cs : List Char) : (string (c :: cs)).Splits (c :: cs) := by
  simp only [string]
  split
  · next r heq =>
    rw [heq]
    exact ⟨by simp [blockBody_whole], by simp⟩
  · next q r _ heq =>
    rw [heq]
    exact ⟨by simp [quoted_whole], by simp⟩
  · next heq => cases heq

theorem splits_character (c : Char) (cs : List Char) :
    (character (c :: cs)).Splits (c :: cs) :=
  ⟨by simp [character, quoted_whole], by simp [character]⟩

/-! ### Numbers -/

/-- A digit has a value in radix ten. -/
theorem isSome_digitValue? {c : Char} (h : isDigit c) : (digitValue? 10 c).isSome := by
  have hlast : c.toNat ≤ '9'.toNat := by
    simp only [isDigit, Bool.and_eq_true, decide_eq_true_eq, le_iff_toNat] at h
    exact h.2
  have hvalue : c.toNat - '0'.toNat < 10 := Nat.lt_succ_of_le (Nat.sub_le_sub_right hlast _)
  rw [digitValue?, if_pos h, Option.filter_some, if_pos (decide_eq_true hvalue)]
  rfl

theorem digits_whole (base : Nat) (cs : List Char) :
    (digits base cs).1 ++ (digits base cs).2 = cs := span_whole _ cs

theorem fraction_whole (cs : List Char) : (fraction cs).1 ++ (fraction cs).2 = cs := by
  simp only [fraction]
  repeat' split
  · simp [digits_whole]
  all_goals rfl

theorem exponent_whole (cs : List Char) : (exponent cs).2.1 ++ (exponent cs).2.2 = cs := by
  simp only [exponent]
  repeat' split
  all_goals simp [digits_whole]

theorem suffix_whole (floating : Bool) (cs : List Char) :
    (suffix floating cs).2.1 ++ (suffix floating cs).2.2 = cs := by
  unfold suffix
  repeat' split
  all_goals rfl

/-- What a decimal number consists of, whatever its verdict: the whole digits, then the fraction,
then at least the exponent. -/
theorem decimal_text (cs : List Char) :
    ∃ tail, (decimal cs).text = (digits 10 cs).1 ++ (fraction (digits 10 cs).2).1 ++ tail ∧
      tail ++ (decimal cs).rest = (fraction (digits 10 cs).2).2 := by
  have hpower := exponent_whole (fraction (digits 10 cs).2).2
  simp only [decimal]
  split
  · next power r heq =>
    rw [heq] at hpower
    exact ⟨power, rfl, hpower⟩
  · next scaled power r heq =>
    rw [heq] at hpower
    have hmark := suffix_whole (!(fraction (digits 10 cs).2).1.isEmpty || scaled) r
    generalize suffix (!(fraction (digits 10 cs).2).1.isEmpty || scaled) r = marked at hmark ⊢
    have hword := span_whole isWordPart marked.2.2
    split
    · next hempty =>
      rw [List.isEmpty_iff.mp hempty, List.nil_append] at hword
      exact ⟨power ++ marked.2.1, by simp, by rw [hword, List.append_assoc, hmark, hpower]⟩
    · refine ⟨power ++ marked.2.1 ++ (marked.2.2.span isWordPart).1, by simp, ?_⟩
      rw [List.append_assoc, hword, List.append_assoc, hmark, hpower]

theorem decimal_whole (cs : List Char) : (decimal cs).text ++ (decimal cs).rest = cs := by
  obtain ⟨tail, htext, hrest⟩ := decimal_text cs
  rw [htext, List.append_assoc, hrest, List.append_assoc, fraction_whole, digits_whole]

/-- A number starts with a digit, or with a point that a digit follows. -/
theorem splits_decimal {c : Char} {cs : List Char}
    (h : isDigit c || c = '.' && startsWith isDigit cs) :
    (decimal (c :: cs)).Splits (c :: cs) := by
  refine ⟨decimal_whole _, fun hempty => ?_⟩
  obtain ⟨tail, htext, -⟩ := decimal_text (c :: cs)
  rw [htext, List.append_eq_nil_iff, List.append_eq_nil_iff] at hempty
  obtain ⟨⟨hwhole, hpoint⟩, -⟩ := hempty
  have hdigits : digits 10 (c :: cs) = ([], c :: cs) := by
    have := digits_whole 10 (c :: cs)
    rw [hwhole, List.nil_append] at this
    exact Prod.ext hwhole this
  rcases Bool.or_eq_true_iff.mp h with hdigit | hdot
  · refine span_nonempty ?_ cs hwhole
    simp [isSome_digitValue? hdigit]
  · obtain ⟨rfl, hnext⟩ : c = '.' ∧ startsWith isDigit cs := by simpa using hdot
    rw [hdigits] at hpoint
    simp [fraction, hnext] at hpoint

theorem splits_radix {base : Nat} {opening cs : List Char} (h : opening ≠ []) :
    (radix base opening cs).Splits (opening ++ cs) := by
  have hdigits := digits_whole base cs
  unfold radix
  simp only []
  split
  · exact ⟨by simp [hdigits], by simp [h]⟩
  · split
    · next s rest heq =>
      rw [heq] at hdigits
      split
      · exact ⟨by simp [hdigits], by simp [h]⟩
      · exact ⟨by simp [heq, hdigits], by simp [h]⟩
    · next heq =>
      exact ⟨by simp [hdigits], by simp [h]⟩

theorem splits_number {c : Char} {cs : List Char}
    (h : isDigit c || c = '.' && startsWith isDigit cs) :
    (number (c :: cs)).Splits (c :: cs) := by
  unfold number
  split
  · next x r heq =>
    cases heq
    split
    · exact splits_radix (List.cons_ne_nil _ _)
    · split
      · exact splits_radix (List.cons_ne_nil _ _)
      · exact splits_decimal h
  · exact splits_decimal h

/-! ### Words and signs -/

theorem splits_word {c : Char} (h : isWordStart c) (cs : List Char) :
    (word (c :: cs)).Splits (c :: cs) :=
  ⟨span_whole isWordPart (c :: cs), span_nonempty (isWordPart_of_isWordStart h) cs⟩

theorem splits_sign (c : Char) (cs : List Char) : (sign (c :: cs)).Splits (c :: cs) := by
  unfold sign
  split
  · next s heq =>
    have hprefix : s.spelling.toList.isPrefixOf (c :: cs) :=
      List.find?_some (p := fun s : Sign => s.spelling.toList.isPrefixOf (c :: cs)) heq
    obtain ⟨rest, hrest⟩ := List.isPrefixOf_iff_prefix.mp hprefix
    have hspelling : s.spelling.toList ≠ [] := by cases s <;> decide
    refine ⟨?_, hspelling⟩
    rw [← hrest, ← String.length_toList, List.drop_left]
  · exact ⟨rfl, List.cons_ne_nil _ _⟩

/-- **A token loses nothing**, and takes something. -/
theorem splits_token (c : Char) (cs : List Char) : (token (c :: cs)).Splits (c :: cs) := by
  simp only [token]
  split_ifs with hquote hchar hnumber hword
  · exact splits_string c cs
  · exact splits_character c cs
  · exact splits_number hnumber
  · exact splits_word hword cs
  · exact splits_sign c cs

/-! ### Blanks and comments -/

theorem margin_whole (cs : List Char) : (margin cs).1 ++ (margin cs).2 = cs := by
  simp only [margin]
  repeat' split
  · simp [List.span_eq_takeWhile_dropWhile]
  · exact span_whole _ _
  · rfl

/-- What may stand between tokens apart from comments. -/
def isMargin (c : Char) : Bool := isBlank c || c = byteOrderMark

theorem isMargin_of_mem_margin {cs : List Char} {c : Char} (h : c ∈ (margin cs).1) :
    isMargin c := by
  have hblank {cs : List Char} (h : c ∈ (cs.span isBlank).1) : isMargin c := by
    rw [List.span_eq_takeWhile_dropWhile] at h
    simp [isMargin, List.mem_takeWhile_imp h]
  revert h
  simp only [margin]
  repeat' split
  · next hmark =>
    rw [List.mem_cons]
    rintro (rfl | h)
    · simp [isMargin, hmark]
    · exact hblank h
  · exact hblank
  · exact fun h => absurd h List.not_mem_nil

/-- A complete comment, and what follows it: one to the end of the line, whose line ends there, or
a bracketed one, which holds no closing bracket before its own. -/
inductive IsComment (after : List Char) : List Char → Prop
  | line (body : List Char) (h : '\n' ∉ body) (hafter : ∀ c ∈ after.head?, c = '\n') :
      IsComment after ('/' :: '/' :: body)
  | bracketed (body : List Char) (h : ¬ ['*', '/'] <:+: body) :
      IsComment after ('/' :: '*' :: body ++ ['*', '/'])

theorem IsComment.nonempty {after text : List Char} (h : IsComment after text) : text ≠ [] := by
  cases h <;> exact List.cons_ne_nil _ _

theorem commentBody_whole (cs : List Char) :
    (commentBody cs).2.1 ++ (commentBody cs).2.2 = cs := by
  fun_induction commentBody cs <;> simp_all

/-- A bracketed comment ends with the first closing bracket. -/
theorem commentBody_closed {cs : List Char} (h : (commentBody cs).1) :
    ∃ body, (commentBody cs).2.1 = body ++ ['*', '/'] ∧ ¬ ['*', '/'] <:+: body := by
  fun_induction commentBody cs with
  | case1 => cases h
  | case2 rest => exact ⟨[], rfl, by simp⟩
  | case3 c cs hopen closed text rest heq ih =>
    rw [heq] at ih
    obtain ⟨body, rfl, hbody⟩ := ih h
    refine ⟨c :: body, rfl, fun hinfix => ?_⟩
    rcases List.infix_cons_iff.mp hinfix with hprefix | hinfix
    · have hcs := commentBody_whole cs
      rw [heq] at hcs
      obtain ⟨rfl, hbody⟩ := List.cons_prefix_cons.mp hprefix
      obtain ⟨tail, rfl⟩ := hbody
      exact hopen _ rfl hcs.symm
    · exact hbody hinfix

theorem isComment_line (cs : List Char) :
    IsComment (cs.span (· ≠ '\n')).2 ('/' :: '/' :: (cs.span (· ≠ '\n')).1) := by
  rw [List.span_eq_takeWhile_dropWhile]
  refine .line _ (fun hmem => ?_) (fun c hc => ?_)
  · simpa using List.mem_takeWhile_imp hmem
  · have hstop := List.head?_dropWhile_not (· ≠ '\n') cs
    rw [Option.mem_def.mp hc] at hstop
    simpa using hstop

/-- What stands behind the margin, in all cases: the end, a complete comment, or a piece. -/
theorem front_cases (cs : List Char) :
    (front cs = .finished ∧ cs = []) ∨
      (∃ text rest, front cs = .comment text rest ∧ text ++ rest = cs ∧ IsComment rest text) ∨
      ∃ p, front cs = .piece p ∧ p.Splits cs := by
  unfold front
  split
  · exact .inl ⟨rfl, rfl⟩
  · next r =>
    have hwhole := congrArg (fun text => '/' :: '/' :: text) (span_whole (· ≠ '\n') r)
    exact .inr (.inl ⟨_, _, rfl, hwhole, isComment_line r⟩)
  · next r =>
    have hwhole := commentBody_whole r
    simp only []
    split
    · next hclosed =>
      obtain ⟨body, htext, hbody⟩ := commentBody_closed hclosed
      refine .inr (.inl ⟨_, _, rfl, by simp [hwhole], ?_⟩)
      rw [htext]
      exact .bracketed body hbody
    · exact .inr (.inr ⟨_, rfl, by simp [hwhole], List.cons_ne_nil _ _⟩)
  · next hne _ _ =>
    obtain ⟨c, r, rfl⟩ := List.exists_cons_of_ne_nil hne
    exact .inr (.inr ⟨_, rfl, splits_token c r⟩)

/-- **What is skipped** in front of a token: a margin, and comments with margins before them. -/
inductive Skips (behind : List Char) : List Char → Prop
  | margin {blank : List Char} (h : margin (blank ++ behind) = (blank, behind)) :
    Skips behind blank
  | comment {blank text skipped : List Char}
    (hmargin : Scan.margin (blank ++ (text ++ (skipped ++ behind))) =
      (blank, text ++ (skipped ++ behind)))
    (hcomment : front (text ++ (skipped ++ behind)) = .comment text (skipped ++ behind))
    (h : Skips behind skipped) : Skips behind (blank ++ (text ++ skipped))

end JavaGraft.Scan
