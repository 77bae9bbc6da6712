import JavaGraft.Proofs.Literal.Alone
import JavaGraft.Proofs.Literal.Digits

/-!
# Whole numbers

A whole number can be written in one of four radices, with underscores between the digits and with
letters of either case (`JavaGraft.Literal.Radix.Writes`). Such a text is one token, and as an
expression it is the number, brought into the width of its type, or it is rejected because the
number does not fit (`JavaGraft.Literal.Radix.parseExpr_writes`).

An `int` must fit its width, where the least negative number may be written without its sign. Of a
`long` no more is asked than that it has at most 64 bits, so a decimal one may be as large as a
hexadecimal one, and it then denotes a negative number.
-/

namespace JavaGraft.Literal

open CharClass Escape

/-! ### Digits -/

/-- **Digits that spell a number** in a radix, with any number of underscores between them. -/
inductive Spells (base : Nat) : Nat → List Char → Prop
  | digit {d : Nat} {c : Char} (hc : digitValue? base c = some d) : Spells base d [c]
  | more {n d : Nat} {c : Char} {cs : List Char} (h : Spells base n cs) (underscores : Nat)
    (hc : digitValue? base c = some d) :
    Spells base (base * n + d) (cs ++ (List.replicate underscores '_' ++ [c]))

namespace Spells

variable {base base' n d : Nat} {c : Char} {cs : List Char}

/-- A digit comes first. -/
theorem head (h : Spells base n cs) : ∃ c d ds, cs = c :: ds ∧ digitValue? base c = some d := by
  induction h with
  | digit hc => exact ⟨_, _, [], rfl, hc⟩
  | more _ underscores _ ih =>
    obtain ⟨c, d, ds, rfl, hc⟩ := ih
    exact ⟨c, d, _, rfl, hc⟩

/-- Nothing but digits and underscores. -/
theorem chars (h : Spells base n cs) (hle : base ≤ base') :
    ∀ c ∈ cs, ((digitValue? base' c).isSome || decide (c = '_')) = true := by
  induction h with
  | digit hc => simp [isSome_digitValue?_of_le hc hle]
  | more _ underscores hc ih =>
    intro c hmem
    simp only [List.mem_append, List.mem_replicate, List.mem_singleton] at hmem
    rcases hmem with hmem | ⟨-, rfl⟩ | rfl
    · exact ih c hmem
    · rfl
    · rw [isSome_digitValue?_of_le hc hle, Bool.true_or]

theorem dropSeparators_digit (hc : digitValue? base c = some d) : dropSeparators [c] = [c] := by
  rw [dropSeparators]
  exact List.filter_cons_of_pos (by simpa using ne_underscore hc)

theorem dropSeparators_more (underscores : Nat) (hc : digitValue? base c = some d) :
    dropSeparators (cs ++ (List.replicate underscores '_' ++ [c])) = dropSeparators cs ++ [c] := by
  rw [← dropSeparators_digit hc]
  simp only [dropSeparators, List.filter_append, List.filter_replicate, ne_eq, not_true_eq_false,
    decide_false, Bool.false_eq_true, if_false, List.nil_append, List.filter_filter, Bool.and_self]

/-- **Without its underscores the text spells the number.** -/
theorem number?_dropSeparators (h : Spells base n cs) :
    number? base (dropSeparators cs) = some n := by
  induction h with
  | digit hc =>
    rw [dropSeparators_digit hc]
    simp [number?, hc]
  | more _ underscores hc ih =>
    rw [dropSeparators_more underscores hc]
    exact number?_snoc ih hc

/-- Behind the first digit there is another one, unless it is the only character. -/
theorem dropSeparators_tail_ne_nil (h : Spells base n (c :: cs)) (hcs : cs ≠ []) :
    dropSeparators cs ≠ [] := by
  generalize hall : c :: cs = all at h
  cases h with
  | digit => exact absurd (List.cons_eq_cons.mp hall).2 hcs
  | more h underscores hc =>
    obtain ⟨c', d, ds, rfl, -⟩ := h.head
    rw [(List.cons_eq_cons.mp hall).2]
    change dropSeparators (ds ++ _) ≠ []
    rw [dropSeparators_more underscores hc]
    exact List.append_ne_nil_of_right_ne_nil _ (List.cons_ne_nil _ _)

/-- Behind a text that starts with a digit and spells a number there may be underscores. -/
theorem exists_of_number? (h : number? base (dropSeparators cs) = some n)
    (hhead : cs.head? ≠ some '_') :
    ∃ ds underscores, cs = ds ++ List.replicate underscores '_' ∧ Spells base n ds := by
  -- from the end, where an underscore separates nothing
  induction cs using List.reverseRecOn generalizing n with
  | nil => cases h
  | append_singleton ds c ih =>
    have hds (hne : ds ≠ []) : ds.head? ≠ some '_' := by
      obtain ⟨d, ds, rfl⟩ := List.exists_cons_of_ne_nil hne
      exact hhead
    by_cases hc : c = '_'
    · subst hc
      have hdrop : dropSeparators (ds ++ ['_']) = dropSeparators ds := by
        simp [dropSeparators]
      rw [hdrop] at h
      have hne : ds ≠ [] := by
        rintro rfl
        exact hhead rfl
      obtain ⟨es, underscores, rfl, hes⟩ := ih h (hds hne)
      exact ⟨es, underscores + 1, by rw [List.append_assoc, List.replicate_succ'], hes⟩
    · have hdrop : dropSeparators (ds ++ [c]) = dropSeparators ds ++ [c] := by
        simp [dropSeparators, hc]
      rw [hdrop] at h
      rcases number?_concat h with ⟨hnil, hd⟩ | ⟨m, d, hm, hd, rfl⟩
      · have hnil : ds = [] := by
          by_contra hne
          obtain ⟨d, ds, rfl⟩ := List.exists_cons_of_ne_nil hne
          have := List.filter_eq_nil_iff.mp hnil d List.mem_cons_self
          exact hhead (by simpa using this)
        exact ⟨[c], 0, by rw [hnil]; rfl, .digit hd⟩
      · have hne : ds ≠ [] := by
          rintro rfl
          cases hm
        obtain ⟨es, underscores, rfl, hes⟩ := ih hm (hds hne)
        exact ⟨_, 0, by rw [List.append_assoc]; exact (List.append_nil _).symm,
          hes.more underscores hd⟩

/-- **A text spells a number if it does so without its underscores**, and none of these stands at
either end. -/
theorem iff_number? : Spells base n cs ↔
    number? base (dropSeparators cs) = some n ∧ cs.head? ≠ some '_' ∧ cs.getLast? ≠ some '_' := by
  refine ⟨fun h => ⟨h.number?_dropSeparators, ?_, ?_⟩, fun ⟨h, hhead, hlast⟩ => ?_⟩
  · obtain ⟨c, d, ds, rfl, hc⟩ := h.head
    exact fun heq => ne_underscore hc (Option.some.inj heq)
  · cases h with
    | digit hc => exact fun heq => ne_underscore hc (Option.some.inj heq)
    | more _ underscores hc =>
      rw [← List.append_assoc, List.getLast?_concat]
      exact fun heq => ne_underscore hc (Option.some.inj heq)
  · obtain ⟨ds, underscores, rfl, hds⟩ := exists_of_number? h hhead
    cases underscores with
    | zero => rwa [List.replicate_zero, List.append_nil]
    | succ underscores =>
      rw [List.replicate_succ', ← List.append_assoc, List.getLast?_concat] at hlast
      exact absurd rfl hlast

end Spells

/-! ### Radices -/

/-- The radices that whole numbers are written in. -/
inductive Radix where
  | binary | octal | decimal | hexadecimal
deriving DecidableEq, Repr

/-- **The texts of a number without a suffix.** A decimal one starts with a zero only if it is
nothing else; an octal one does, and is longer. -/
inductive Radix.Writes : Radix → Nat → List Char → Prop
  | binary {n : Nat} {b : Char} {cs : List Char} (hb : b = 'b' ∨ b = 'B') (h : Spells 2 n cs) :
    Writes .binary n ('0' :: b :: cs)
  | octal {n : Nat} {cs : List Char} (h : Spells 8 n ('0' :: cs)) (hcs : cs ≠ []) :
    Writes .octal n ('0' :: cs)
  | decimal {n : Nat} {cs : List Char} (h : Spells 10 n cs)
    (hzero : cs.head? = some '0' → cs = ['0']) : Writes .decimal n cs
  | hexadecimal {n : Nat} {x : Char} {cs : List Char} (hx : x = 'x' ∨ x = 'X')
    (h : Spells 16 n cs) : Writes .hexadecimal n ('0' :: x :: cs)

/-- The greatest number that an `int` literal can be written with. -/
def Radix.intLimit : Radix → Nat
  | decimal => Nat.pow 2 31
  | _ => Nat.pow 2 32 - 1

namespace Radix.Writes

variable {r : Radix} {n : Nat} {cs : List Char}

/-- A digit comes first. -/
theorem head (h : r.Writes n cs) : ∃ c ds, cs = c :: ds ∧ isDigit c := by
  cases h with
  | binary => exact ⟨_, _, rfl, rfl⟩
  | octal => exact ⟨_, _, rfl, rfl⟩
  | decimal h =>
    obtain ⟨c, d, ds, rfl, hc⟩ := h.head
    exact ⟨c, ds, rfl, isDigit_of_digitValue? hc le_rfl⟩
  | hexadecimal => exact ⟨_, _, rfl, rfl⟩

/-! ### The value -/

/-- **The text spells the number in the radix that it names.** -/
theorem wholeNumber? (h : r.Writes n cs) : Literal.wholeNumber? (dropSeparators cs) = some n := by
  cases h with
  | @binary _ b cs hb h =>
    have hdrop : dropSeparators ('0' :: b :: cs) = '0' :: b :: dropSeparators cs := by
      rcases hb with rfl | rfl <;> rfl
    rw [hdrop, ← h.number?_dropSeparators]
    rcases hb with rfl | rfl <;> rfl
  | @octal _ cs h hcs =>
    have hvalue := h.number?_dropSeparators
    have htail := h.dropSeparators_tail_ne_nil hcs
    have hchars : ∀ x ∈ dropSeparators cs, (digitValue? 8 x).isSome := by
      intro x hx
      obtain ⟨hx, hne⟩ := List.mem_filter.mp hx
      simpa [of_decide_eq_true hne] using h.chars le_rfl x (List.mem_cons_of_mem _ hx)
    rw [show dropSeparators ('0' :: cs) = '0' :: dropSeparators cs from rfl] at hvalue ⊢
    obtain ⟨x, rest, hrest⟩ := List.exists_cons_of_ne_nil htail
    have hx := hchars x (by rw [hrest]; exact List.mem_cons_self)
    have hletter {c : Char} (hc : digitValue? 8 c = none) : x ≠ c := by
      rintro rfl
      rw [hc] at hx
      cases hx
    -- no letter that names a radix is an octal digit
    rw [number?_zero_cons (by decide) htail] at hvalue
    rw [← hvalue, hrest, Literal.wholeNumber?]
    simp [hletter (c := 'x') rfl, hletter (c := 'X') rfl, hletter (c := 'b') rfl,
      hletter (c := 'B') rfl]
  | decimal h hzero =>
    rw [← h.number?_dropSeparators]
    unfold Literal.wholeNumber?
    split
    · next x rest hcs =>
      obtain ⟨c, d, ds, rfl, hc⟩ := h.head
      have hc' : dropSeparators (c :: ds) = c :: dropSeparators ds :=
        List.filter_cons_of_pos (by simpa using ne_underscore hc)
      obtain ⟨rfl, -⟩ := List.cons_eq_cons.mp (hc'.symm.trans hcs)
      rw [hzero rfl] at hcs
      cases hcs
    · rfl
  | @hexadecimal _ x cs hx h =>
    have hdrop : dropSeparators ('0' :: x :: cs) = '0' :: x :: dropSeparators cs := by
      rcases hx with rfl | rfl <;> rfl
    rw [hdrop, ← h.number?_dropSeparators]
    rcases hx with rfl | rfl <;> rfl

/-- The radix is told from the text. -/
theorem hasRadix (h : r.Writes n cs) : Literal.hasRadix cs = decide (r ≠ .decimal) := by
  cases h with
  | binary => rfl
  | octal _ hcs =>
    obtain ⟨c, cs, rfl⟩ := List.exists_cons_of_ne_nil hcs
    rfl
  | decimal h hzero =>
    rw [Literal.hasRadix.eq_def]
    split
    · cases hzero rfl
    · rfl
  | hexadecimal => rfl

theorem word? (h : r.Writes n cs) :
    Literal.word? cs = if n < Nat.pow 2 64 then some n else none := by
  rw [Literal.word?, h.wholeNumber?, Option.filter_some]
  simp only [decide_eq_true_eq]

/-- The value of an `int` literal. -/
theorem ofInt (h : r.Writes n cs) :
    Literal.ofInt cs = if n ≤ r.intLimit then .ok (.int (Int32.ofNat n))
      else .error (if n < Nat.pow 2 64 then .outOfRange else .badInt) := by
  have h31 : Nat.pow 2 31 = 2147483648 := rfl
  have h32 : Nat.pow 2 32 = 4294967296 := rfl
  have h64 : Nat.pow 2 64 = 18446744073709551616 := rfl
  rw [Literal.ofInt, h.word?, h.hasRadix]
  by_cases hword : n < Nat.pow 2 64
  · simp only [if_pos hword]
    cases r <;> simp only [Radix.intLimit, ne_eq, reduceCtorEq, not_false_eq_true, decide_true,
      Bool.not_true, Bool.and_false, Bool.false_eq_true, if_false, not_true_eq_false, decide_false,
      Bool.not_false, Bool.and_true, decide_eq_true_eq, h31, h32] <;> split_ifs <;>
      first | rfl | omega
  · have hlimit : ¬n ≤ r.intLimit := by
      cases r <;> simp only [Radix.intLimit, h31, h32] <;> omega
    simp only [if_neg hword, if_neg hlimit]

/-- The value of a `long` literal. -/
theorem ofLong (h : r.Writes n cs) (suffix : Char) :
    Literal.ofLong (cs ++ [suffix]) = if n < Nat.pow 2 64 then .ok (.long (Int64.ofNat n))
      else .error .badLong := by
  rw [Literal.ofLong, List.dropLast_concat, h.word?]
  split_ifs <;> rfl

/-! ### The token -/

/-- The suffixes of whole numbers, and the kind of literal that they make. -/
inductive IsSuffix : List Char → LiteralKind → Prop
  | none : IsSuffix [] .int
  | lower : IsSuffix ['l'] .long
  | upper : IsSuffix ['L'] .long

/-- Digits end where the suffix starts. -/
theorem digits_append {base base' : Nat} {cs suffix : List Char} {kind : LiteralKind}
    (h : Spells base n cs) (hle : base ≤ base') (hsuffix : IsSuffix suffix kind) :
    Scan.digits base' (cs ++ suffix) = (cs, suffix) := by
  have hletter {c : Char} (hc : c = 'l' ∨ c = 'L') : digitValue? base' c = none := by
    rcases hc with rfl | rfl <;> rfl
  rw [Scan.digits, List.span_eq_takeWhile_dropWhile, List.takeWhile_append_of_pos (h.chars hle),
    List.dropWhile_append_of_pos (h.chars hle)]
  cases hsuffix <;> simp [hletter]

theorem decimal_append {base : Nat} {cs suffix : List Char} {kind : LiteralKind}
    (h : Spells base n cs) (hle : base ≤ 10) (hsuffix : IsSuffix suffix kind) :
    Scan.decimal (cs ++ suffix) = ⟨cs ++ suffix, [], .ok (.literal kind)⟩ := by
  rw [Scan.decimal, digits_append h hle hsuffix]
  cases hsuffix <;> simp [Scan.fraction, Scan.exponent, Scan.suffix]

theorem radix_append {base : Nat} {opening cs suffix : List Char} {kind : LiteralKind}
    (h : Spells base n cs) (hsuffix : IsSuffix suffix kind) :
    Scan.radix base opening (cs ++ suffix)
      = ⟨opening ++ cs ++ suffix, [], .ok (.literal kind)⟩ := by
  have hdigit : cs.all (· = '_') = false := by
    obtain ⟨c, d, ds, rfl, hc⟩ := h.head
    simp [ne_underscore hc]
  rw [Scan.radix, digits_append h le_rfl hsuffix]
  cases hsuffix <;> simp [hdigit]

theorem number_append (h : r.Writes n cs) {suffix : List Char} {kind : LiteralKind}
    (hsuffix : IsSuffix suffix kind) :
    Scan.number (cs ++ suffix) = ⟨cs ++ suffix, [], .ok (.literal kind)⟩ := by
  cases h with
  | @binary _ b cs hb h =>
    have hnumber : Scan.number ('0' :: b :: (cs ++ suffix))
        = Scan.radix 2 ['0', b] (cs ++ suffix) := by rcases hb with rfl | rfl <;> rfl
    exact hnumber.trans (radix_append h hsuffix)
  | @octal _ cs h hcs =>
    obtain ⟨x, cs, rfl⟩ := List.exists_cons_of_ne_nil hcs
    have hx := h.chars le_rfl x (by simp)
    -- no letter that names a radix is an octal digit
    have hletter {c : Char} (hc : ((digitValue? 8 c).isSome || decide (c = '_')) = false) :
        x ≠ c := by
      rintro rfl
      rw [hc] at hx
      cases hx
    have hnumber : Scan.number ('0' :: x :: (cs ++ suffix))
        = Scan.decimal ('0' :: x :: cs ++ suffix) := by
      simp [Scan.number, hletter (c := 'x') rfl, hletter (c := 'X') rfl, hletter (c := 'b') rfl,
        hletter (c := 'B') rfl]
    exact hnumber.trans (decimal_append h (by decide) hsuffix)
  | decimal h hzero =>
    have hnumber : Scan.number (cs ++ suffix) = Scan.decimal (cs ++ suffix) := by
      obtain ⟨c, d, ds, rfl, -⟩ := h.head
      unfold Scan.number
      split
      · next x rest heq =>
        obtain ⟨rfl, hrest⟩ := List.cons_eq_cons.mp heq
        obtain ⟨-, rfl⟩ := List.cons_eq_cons.mp (hzero rfl)
        cases hsuffix <;> cases hrest <;> rfl
      · rfl
    exact hnumber.trans (decimal_append h le_rfl hsuffix)
  | @hexadecimal _ x cs hx h =>
    have hnumber : Scan.number ('0' :: x :: (cs ++ suffix))
        = Scan.radix 16 ['0', x] (cs ++ suffix) := by rcases hx with rfl | rfl <;> rfl
    exact hnumber.trans (radix_append h hsuffix)

/-- **The text of a number is one token**, with a suffix or without. -/
theorem isToken (h : r.Writes n cs) {suffix : List Char} {kind : LiteralKind}
    (hsuffix : IsSuffix suffix kind) : Scan.IsToken (cs ++ suffix) (.literal kind) := by
  have hnumber := h.number_append hsuffix
  obtain ⟨c, ds, rfl, hc⟩ := h.head
  have hne {d : Char} (hd : isDigit d = false) : c ≠ d := by
    rintro rfl
    exact Bool.false_ne_true (hd.symm.trans hc)
  refine ⟨(Scan.margin_of_head ?_).1, ?_⟩
  · rintro _ ⟨⟩
    exact ⟨isBlank_of_isDigit hc, hne rfl⟩
  · rw [List.cons_append] at hnumber ⊢
    rw [Scan.front_token (hne rfl), Scan.token, if_neg (hne rfl), if_neg (hne rfl),
      if_pos (by rw [hc, Bool.true_or]), hnumber]

end Radix.Writes

/-! ### Expressions -/

namespace Radix

/-- **What a whole number denotes**, as a text of its own. Without a suffix it is an `int` up to
the limit of its radix, with a suffix it is a `long` up to 64 bits, and in either case the value is
the number brought into the width of its type; every other number is rejected as a literal. -/
theorem parseExpr_writes {r : Radix} {n : Nat} {cs : List Char} (h : r.Writes n cs) :
    parseExpr cs = (if n ≤ r.intLimit then .ok (.literal (.int (Int32.ofNat n)) (.whole cs))
      else .error [⟨.badLiteral (if n < Nat.pow 2 64 then .outOfRange else .badInt)
        (String.ofList cs), .whole cs⟩]) ∧
    ∀ suffix, suffix = 'l' ∨ suffix = 'L' → parseExpr (cs ++ [suffix]) =
      (if n < Nat.pow 2 64 then
        .ok (.literal (.long (Int64.ofNat n)) (.whole (cs ++ [suffix])))
      else .error [⟨.badLiteral .badLong (String.ofList (cs ++ [suffix])),
        .whole (cs ++ [suffix])⟩]) := by
  refine ⟨?_, fun suffix hsuffix => ?_⟩
  · have htoken := h.isToken .none
    rw [List.append_nil] at htoken
    rw [parseExpr_literal htoken, alone, ofText, h.ofInt]
    split_ifs <;> rfl
  · have htoken : Scan.IsToken (cs ++ [suffix]) (.literal .long) := by
      rcases hsuffix with rfl | rfl
      · exact h.isToken .lower
      · exact h.isToken .upper
    rw [parseExpr_literal htoken, alone, ofText, h.ofLong]
    split_ifs <;> rfl

theorem parseExpr_writes_separated :
    Writes .hexadecimal 4293844428 "0XfF_eE_dd__cC".toList ∧
      (parseExpr "0XfF_eE_dd__cC".toList =
        (if 4293844428 ≤ intLimit .hexadecimal then
          .ok (.literal (.int (Int32.ofNat 4293844428)) (.whole "0XfF_eE_dd__cC".toList))
        else .error [⟨.badLiteral (if 4293844428 < Nat.pow 2 64 then .outOfRange else .badInt)
          (String.ofList "0XfF_eE_dd__cC".toList), .whole "0XfF_eE_dd__cC".toList⟩]) ∧
      ∀ suffix, suffix = 'l' ∨ suffix = 'L' → parseExpr ("0XfF_eE_dd__cC".toList ++ [suffix]) =
        (if 4293844428 < Nat.pow 2 64 then
          .ok (.literal (.long (Int64.ofNat 4293844428))
            (.whole ("0XfF_eE_dd__cC".toList ++ [suffix])))
        else .error [⟨.badLiteral .badLong (String.ofList ("0XfF_eE_dd__cC".toList ++ [suffix])),
          .whole ("0XfF_eE_dd__cC".toList ++ [suffix])⟩])) := by
  have hdigits : Spells 16 4293844428 "fF_eE_dd__cC".toList := Spells.iff_number?.mpr (by decide)
  have h : Writes .hexadecimal 4293844428 "0XfF_eE_dd__cC".toList := .hexadecimal (.inr rfl) hdigits
  exact ⟨h, parseExpr_writes h⟩

/-- **A decimal `long` may be too large for its type**, and then it is negative. -/
theorem parseExpr_long_wraps :
    Writes .decimal (Nat.pow 2 63 + 1) "9223372036854775809".toList ∧
      parseExpr "9223372036854775809L".toList
        = .ok (.literal (.long (-9223372036854775807)) ⟨0, 20, 1, 1⟩) :=
  ⟨.decimal (Spells.iff_number?.mpr (by decide)) (by decide), by decide +kernel⟩

end Radix

end JavaGraft.Literal
