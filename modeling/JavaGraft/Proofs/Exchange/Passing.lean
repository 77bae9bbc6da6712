import JavaGraft.Proofs.Grammar.Lookahead
import JavaGraft.Proofs.Grammar.Running
import Mathlib.Data.List.Infix

/-!
# Passing tokens

What a parser passes, from one place of the source to another, is balanced in its parentheses, but
for those that were opened before (`JavaGraft.Passes`). So whoever looks for the closing parenthesis
of an open one finds it among the tokens that are passed until it is closed, whatever comes behind
them.

That is why what a parser sees ahead is decided by the tokens that it passes: skipping a type from a
place where a parenthesis is open or where an expression ends later on never gets beyond that end
(`JavaGraft.Lookahead.skipType_of_closes`, `JavaGraft.Lookahead.skipType_of_stop`).
-/

namespace JavaGraft

/-! ### Balanced parentheses -/

/-- Neither an opening parenthesis nor a closing one. -/
def TokenKind.isFlat (kind : TokenKind) : Bool := kind ≠ .sign .lparen && kind ≠ .sign .rparen

/-- **From one place to another one**, so many parentheses are closed that were opened before, and
apart from these, parentheses are balanced. A token of angles may lose some of them. -/
inductive Passes : Nat → List Token → List Token → Prop
  | refl (ts : List Token) : Passes 0 ts ts
  | flat {n : Nat} {t : Token} {ts us : List Token} (ht : t.kind.isFlat) (h : Passes n ts us) :
    Passes n (t :: ts) us
  | opening {n : Nat} {t : Token} {ts us : List Token} (ht : t.kind = Sign.lparen)
    (h : Passes (n + 1) ts us) : Passes n (t :: ts) us
  | closing {n : Nat} {t : Token} {ts us : List Token} (ht : t.kind = Sign.rparen)
    (h : Passes n ts us) : Passes (n + 1) (t :: ts) us
  | angle {n : Nat} {t t' : Token} {ts us : List Token} (ht : t.kind.isFlat) (ht' : t'.kind.isFlat)
    (h : Passes n (t' :: ts) us) : Passes n (t :: ts) us

namespace Lookahead

/-- Of so many parentheses that are open, the outermost one is closed among certain tokens, and
certain ones are left behind it. -/
def ClosesTo (depth : Nat) (ts us : List Token) : Prop :=
  ∀ rest, skipParens depth (ts ++ rest) = some (us ++ rest)

namespace ClosesTo

variable {depth : Nat} {t : Token} {ts us : List Token}

theorem not_nil : ¬ClosesTo depth [] us := fun h => nomatch h []

theorem flat_iff (ht : t.kind.isFlat) : ClosesTo depth (t :: ts) us ↔ ClosesTo depth ts us := by
  simp only [TokenKind.isFlat, Bool.and_eq_true, decide_eq_true_eq] at ht
  simp only [ClosesTo, List.cons_append, skipParens, if_neg ht.1, if_neg ht.2]

theorem opening_iff (ht : t.kind = Sign.lparen) :
    ClosesTo depth (t :: ts) us ↔ ClosesTo (depth + 1) ts us := by
  simp only [ClosesTo, List.cons_append, skipParens, if_pos ht]

theorem closing_iff (ht : t.kind = Sign.rparen) (hdepth : 1 ≤ depth) :
    ClosesTo (depth + 1) (t :: ts) us ↔ ClosesTo depth ts us := by
  have hopen : t.kind ≠ Sign.lparen := by
    rw [ht]
    exact nofun
  simp only [ClosesTo, List.cons_append, skipParens, if_neg hopen, if_pos ht,
    if_neg (show ¬depth + 1 ≤ 1 by omega), Nat.add_sub_cancel]

theorem last (ht : t.kind = Sign.rparen) : ClosesTo 1 (t :: ts) ts := by
  intro rest
  rw [List.cons_append, skipParens, if_neg (by rw [ht]; decide), if_pos ht, if_pos le_rfl]

end ClosesTo

end Lookahead

namespace Passes

open Lookahead

variable {m n : Nat} {ts us vs : List Token}

theorem length_le (h : Passes n ts us) : us.length ≤ ts.length := by
  induction h with
  | refl => exact le_rfl
  | flat _ _ ih => exact Nat.le_succ_of_le ih
  | opening _ _ ih => exact Nat.le_succ_of_le ih
  | closing _ _ ih => exact Nat.le_succ_of_le ih
  | angle _ _ _ ih => exact ih

theorem trans (h : Passes m ts us) (h' : Passes n us vs) : Passes (m + n) ts vs := by
  induction h with
  | refl => rwa [Nat.zero_add]
  | flat ht _ ih => exact .flat ht (ih h')
  | opening ht _ ih =>
    refine .opening ht ?_
    rw [Nat.add_right_comm]
    exact ih h'
  | closing ht _ ih =>
    rw [Nat.add_right_comm]
    exact .closing ht (ih h')
  | angle ht ht' _ ih => exact .angle ht ht' (ih h')

/-- Passing an opening parenthesis opens one. -/
theorem of_opening {t : Token} (h : Passes n (t :: ts) us) (ht : t.kind = Sign.lparen)
    (hne : us ≠ t :: ts) : Passes (n + 1) ts us := by
  have hflat : ¬t.kind.isFlat := by
    rw [ht]
    exact nofun
  cases h with
  | refl => exact absurd rfl hne
  | flat ht' => exact absurd ht' hflat
  | opening _ h => exact h
  | closing ht' => exact absurd (ht.symm.trans ht') nofun
  | angle ht' => exact absurd ht' hflat

/-- What is passed on the way to closing several parentheses closes one after the other. -/
theorem split {k : Nat} (h : Passes k ts us) (hk : k = m + n) :
    ∃ vs, Passes m ts vs ∧ Passes n vs us := by
  induction h generalizing m with
  | refl ts =>
    obtain ⟨rfl, rfl⟩ : m = 0 ∧ n = 0 := by omega
    exact ⟨ts, .refl ts, .refl ts⟩
  | flat ht _ ih =>
    obtain ⟨vs, hm, hn⟩ := ih hk
    exact ⟨vs, .flat ht hm, hn⟩
  | opening ht _ ih =>
    obtain ⟨vs, hm, hn⟩ := ih (hk ▸ Nat.add_right_comm m n 1 : _ = m + 1 + n)
    exact ⟨vs, .opening ht hm, hn⟩
  | @closing k t ts us ht h ih =>
    cases m with
    | zero =>
      obtain rfl : n = k + 1 := by omega
      exact ⟨t :: ts, .refl _, .closing ht h⟩
    | succ m =>
      obtain ⟨vs, hm, hn⟩ := ih (by omega : k = m + n)
      exact ⟨vs, .closing ht hm, hn⟩
  | angle ht ht' _ ih =>
    obtain ⟨vs, hm, hn⟩ := ih hk
    exact ⟨vs, .angle ht ht' hm, hn⟩

/-- **What was opened before is closed among the tokens that are passed.** -/
theorem closes (h : Passes m ts us) {depth : Nat} (hm : m = n + depth) (hdepth : 1 ≤ depth) :
    ∃ vs, Passes n vs us ∧ ClosesTo depth ts vs := by
  induction h generalizing depth with
  | refl => omega
  | flat ht _ ih =>
    obtain ⟨vs, hvs, hcloses⟩ := ih hm hdepth
    exact ⟨vs, hvs, (ClosesTo.flat_iff ht).mpr hcloses⟩
  | opening ht _ ih =>
    obtain ⟨vs, hvs, hcloses⟩ := ih (hm ▸ rfl : _ = n + (depth + 1)) (Nat.le_add_left _ _)
    exact ⟨vs, hvs, (ClosesTo.opening_iff ht).mpr hcloses⟩
  | @closing k t ts us ht h ih =>
    rcases Nat.eq_or_lt_of_le hdepth with rfl | hlt
    · obtain rfl : k = n := by omega
      exact ⟨ts, h, .last ht⟩
    · obtain ⟨d, rfl⟩ : ∃ d, depth = d + 1 := ⟨depth - 1, by omega⟩
      obtain ⟨vs, hvs, hcloses⟩ := ih (by omega : k = n + d) (by omega)
      exact ⟨vs, hvs, (ClosesTo.closing_iff ht (by omega)).mpr hcloses⟩
  | angle ht ht' _ ih =>
    obtain ⟨vs, hvs, hcloses⟩ := ih hm hdepth
    exact ⟨vs, hvs, (ClosesTo.flat_iff ht).mpr ((ClosesTo.flat_iff ht').mp hcloses)⟩

end Passes

namespace Lookahead

variable {depth : Nat} {t : Token} {ts us vs : List Token}

theorem isFlat_or (kind : TokenKind) :
    kind.isFlat ∨ kind = .sign .lparen ∨ kind = .sign .rparen := by
  by_cases hopen : kind = .sign .lparen
  · exact .inr (.inl hopen)
  · by_cases hclose : kind = .sign .rparen
    · exact .inr (.inr hclose)
    · left
      simp only [TokenKind.isFlat, hopen, hclose, ne_eq, not_false_eq_true, decide_true,
        Bool.and_self]

namespace ClosesTo

/-- What is left is behind a closing parenthesis. -/
theorem exists_closing (h : ClosesTo depth ts us) :
    ∃ (before : List Token) (p : Token), ts = before ++ p :: us ∧ p.kind = Sign.rparen := by
  induction ts generalizing depth with
  | nil => exact absurd h not_nil
  | cons t ts ih =>
    have hbehind (h : ∃ before p, ts = before ++ p :: us ∧ p.kind = Sign.rparen) :
        ∃ before p, t :: ts = before ++ p :: us ∧ p.kind = Sign.rparen := by
      obtain ⟨before, p, rfl, hp⟩ := h
      exact ⟨t :: before, p, rfl, hp⟩
    rcases isFlat_or t.kind with ht | ht | ht
    · exact hbehind (ih ((flat_iff ht).mp h))
    · exact hbehind (ih ((opening_iff ht).mp h))
    · rcases Nat.lt_or_ge 1 depth with hdepth | hdepth
      · obtain ⟨d, rfl⟩ : ∃ d, depth = d + 1 := ⟨depth - 1, by omega⟩
        exact hbehind (ih ((closing_iff ht (by omega)).mp h))
      · have hlast := h []
        rw [List.cons_append, skipParens, if_neg (by rw [ht]; decide), if_pos ht,
          if_pos hdepth, List.append_nil, List.append_nil] at hlast
        exact ⟨[], t, by rw [Option.some.inj hlast]; rfl, ht⟩

/-- Before the outermost parenthesis, the ones within it are closed. -/
theorem inner (h : ClosesTo (depth + 1) ts us) (hdepth : 1 ≤ depth) :
    ∃ vs, ClosesTo depth ts vs ∧ ClosesTo 1 vs us := by
  induction ts generalizing depth with
  | nil => exact absurd h not_nil
  | cons t ts ih =>
    rcases isFlat_or t.kind with ht | ht | ht
    · obtain ⟨vs, hvs, hus⟩ := ih ((flat_iff ht).mp h) hdepth
      exact ⟨vs, (flat_iff ht).mpr hvs, hus⟩
    · obtain ⟨vs, hvs, hus⟩ := ih ((opening_iff ht).mp h) (by omega)
      exact ⟨vs, (opening_iff ht).mpr hvs, hus⟩
    · have h := (closing_iff ht hdepth).mp h
      rcases Nat.eq_or_lt_of_le hdepth with rfl | hlt
      · exact ⟨ts, .last ht, h⟩
      · obtain ⟨d, rfl⟩ : ∃ d, depth = d + 1 := ⟨depth - 1, by omega⟩
        obtain ⟨vs, hvs, hus⟩ := ih h (by omega)
        exact ⟨vs, (closing_iff ht (by omega)).mpr hvs, hus⟩

end ClosesTo

/-- Looking for the closing parenthesis of a lambda finds it, unless it gives up before. -/
theorem afterParens_of_closes (h : ClosesTo depth ts us) :
    (∀ rest, afterParens depth (ts ++ rest) = none) ∨
      ∀ rest, afterParens depth (ts ++ rest) = some (us ++ rest) := by
  induction ts generalizing depth with
  | nil => exact absurd h ClosesTo.not_nil
  | cons t ts ih =>
    simp only [List.cons_append, afterParens]
    rcases isFlat_or t.kind with ht | ht | ht
    · have hflat := ht
      simp only [TokenKind.isFlat, Bool.and_eq_true, decide_eq_true_eq] at hflat
      simp only [if_neg hflat.1, if_neg hflat.2]
      split_ifs
      · exact .inl fun _ => rfl
      · exact ih ((ClosesTo.flat_iff ht).mp h)
    · simp only [if_pos ht]
      exact ih ((ClosesTo.opening_iff ht).mp h)
    · simp only [if_neg (show t.kind ≠ Sign.lparen by rw [ht]; decide), if_pos ht]
      have hrest (rest : List Token) := h rest
      simp only [List.cons_append, skipParens, if_pos ht,
        if_neg (show t.kind ≠ Sign.lparen by rw [ht]; decide)] at hrest
      split_ifs at hrest ⊢ with hdepth
      · exact .inr hrest
      · exact ih hrest

/-! ### Skipping types -/

/-- A token that cannot be part of type arguments. -/
def IsStop (p : Token) : Prop := angleChange? p.kind = none

theorem isStop_of_rparen {p : Token} (hp : p.kind = Sign.rparen) : IsStop p := by
  rw [IsStop, hp]
  rfl

variable {p : Token}

theorem startsWith_append {kind : TokenKind} (hts : ts ≠ []) (rest : List Token) :
    startsWith kind (ts ++ rest) = startsWith kind ts := by
  obtain ⟨t, ts, rfl⟩ := List.exists_cons_of_ne_nil hts
  rfl

theorem skipTypeArgs_of_stop (hp : IsStop p) (before : List Token) (depth : Int) :
    (∀ rest, skipTypeArgs depth (before ++ p :: us ++ rest) = none) ∨
      ∃ vs, p :: us <:+ vs ∧
        ∀ rest, skipTypeArgs depth (before ++ p :: us ++ rest) = some (vs ++ rest) := by
  induction before generalizing depth with
  | nil =>
    left
    intro rest
    rw [List.nil_append, List.cons_append, skipTypeArgs, hp]
  | cons t before ih =>
    simp only [List.cons_append, skipTypeArgs]
    cases angleChange? t.kind with
    | none => exact .inl fun _ => rfl
    | some change =>
      simp only
      split_ifs
      · exact ih _
      · exact .inr ⟨_, List.suffix_append _ _, fun _ => rfl⟩
      · exact .inl fun _ => rfl

/-- What a list with a stop at its end starts with. -/
theorem exists_of_suffix (h : p :: us <:+ vs) : vs = p :: us ∨
    ∃ t ws, vs = t :: ws ∧ p :: us <:+ ws := by
  obtain ⟨before, rfl⟩ := h
  cases before with
  | nil => exact .inl rfl
  | cons t before => exact .inr ⟨t, _, rfl, List.suffix_append _ _⟩

theorem skipDims_of_stop (hp : IsStop p) (h : p :: us <:+ ts) :
    ∃ vs, p :: us <:+ vs ∧ ∀ rest, skipDims (ts ++ rest) = vs ++ rest := by
  have hstop (first : Token) (hfirst : first.kind ≠ Sign.lbracket) (ws : List Token) :
      skipDims (first :: ws) = first :: ws := by
    rcases ws with _ | ⟨second, ws⟩
    · rfl
    · rw [skipDims, if_neg fun hopen => hfirst hopen.1]
  have hne {kind : TokenKind} (hkind : angleChange? kind ≠ none) : p.kind ≠ kind := by
    rintro rfl
    exact hkind hp
  fun_induction skipDims ts with
  | case1 first second ws hopen ih =>
    rcases exists_of_suffix h with heq | ⟨t, _, heq, h⟩
    · obtain ⟨rfl, -⟩ := List.cons_eq_cons.mp heq
      exact absurd hopen.1 (hne (by decide))
    · obtain ⟨rfl, rfl⟩ := List.cons_eq_cons.mp heq
      rcases exists_of_suffix h with heq | ⟨t, _, heq, h⟩
      · obtain ⟨rfl, -⟩ := List.cons_eq_cons.mp heq
        exact absurd hopen.2 (hne (by decide))
      · obtain ⟨rfl, rfl⟩ := List.cons_eq_cons.mp heq
        obtain ⟨vs, hvs, hskip⟩ := ih h
        refine ⟨vs, hvs, fun rest => ?_⟩
        rw [List.cons_append, List.cons_append, skipDims, if_pos hopen, hskip]
  | case2 first second ws hopen =>
    refine ⟨_, h, fun rest => ?_⟩
    rw [List.cons_append, List.cons_append, skipDims, if_neg hopen]
  | case3 ts hshort =>
    refine ⟨ts, h, fun rest => ?_⟩
    rcases exists_of_suffix h with rfl | ⟨t, ws, rfl, hws⟩
    · exact hstop p (hne (by decide)) _
    · rcases exists_of_suffix hws with rfl | ⟨u, ws, rfl, -⟩
      · exact (hshort _ _ _ rfl).elim
      · exact (hshort _ _ _ rfl).elim

theorem not_dot_of_stop (hp : IsStop p) : p.kind ≠ Sign.dot := by
  intro hdot
  rw [IsStop, hdot] at hp
  cases hp

theorem not_name_of_stop (hp : IsStop p) : p.kind ≠ .identifier := by
  intro hname
  rw [IsStop, hname] at hp
  cases hp

theorem ne_nil_of_suffix (h : p :: us <:+ ts) : ts ≠ [] := by
  rintro rfl
  exact absurd (List.suffix_nil.mp h) (List.cons_ne_nil _ _)

/-- The type arguments of a segment, if there are any. -/
theorem skipArgs_of_stop (hp : IsStop p) (h : p :: us <:+ ts) :
    (∀ rest, (if startsWith Sign.less (ts ++ rest) then skipTypeArgs 0 (ts ++ rest)
      else some (ts ++ rest)) = none) ∨
    ∃ ws, p :: us <:+ ws ∧ ws.length ≤ ts.length ∧
      ∀ rest, (if startsWith Sign.less (ts ++ rest) then skipTypeArgs 0 (ts ++ rest)
        else some (ts ++ rest)) = some (ws ++ rest) := by
  simp only [startsWith_append (ne_nil_of_suffix h)]
  split
  · obtain ⟨before, rfl⟩ := h
    refine (skipTypeArgs_of_stop hp before 0).imp_right ?_
    rintro ⟨ws, hws, hskip⟩
    have hsuffix := suffix_of_skipTypeArgs (hskip [])
    rw [List.append_nil, List.append_nil] at hsuffix
    exact ⟨ws, hws, hsuffix.length_le, hskip⟩
  · exact .inr ⟨ts, h, le_rfl, fun _ => rfl⟩

/-- A dot and a name, with which a named type goes on, and what is behind them. -/
def IsFurther (ts vs : List Token) : Prop :=
  ∃ dot name, ts = dot :: name :: vs ∧ dot.kind = Sign.dot ∧ name.kind = .identifier

theorem skipSegments_further {n : Nat}
    (hargs : (if startsWith Sign.less ts then skipTypeArgs 0 ts else some ts) = some ws)
    (h : IsFurther ws vs) : skipSegments (n + 1) ts = skipSegments n vs := by
  obtain ⟨dot, name, rfl, hdot⟩ := h
  rw [skipSegments_succ, hargs]
  exact if_pos hdot

theorem skipSegments_last {n : Nat}
    (hargs : (if startsWith Sign.less ts then skipTypeArgs 0 ts else some ts) = some ws)
    (h : ∀ vs, ¬IsFurther ws vs) : skipSegments (n + 1) ts = some ws := by
  rw [skipSegments_succ, hargs, Option.bind_some]
  rcases ws with _ | ⟨dot, _ | ⟨name, vs⟩⟩
  · rfl
  · rfl
  · exact if_neg fun hdot => h vs ⟨dot, name, rfl, hdot⟩

/-- Whether a named type goes on is decided before the stop. -/
theorem isFurther_of_stop (hp : IsStop p) (h : p :: us <:+ ws) :
    (∃ vs, p :: us <:+ vs ∧ vs.length < ws.length ∧ ∀ rest, IsFurther (ws ++ rest) (vs ++ rest)) ∨
      ∀ rest vs, ¬IsFurther (ws ++ rest) vs := by
  rcases exists_of_suffix h with rfl | ⟨dot, ws, rfl, hws⟩
  · right
    rintro rest vs ⟨dot, name, heq, hdot, -⟩
    obtain ⟨rfl, -⟩ := List.cons_eq_cons.mp heq
    exact not_dot_of_stop hp hdot
  · rcases exists_of_suffix hws with rfl | ⟨name, vs, rfl, hvs⟩
    · right
      rintro rest vs ⟨dot, name, heq, -, hname⟩
      obtain ⟨rfl, -⟩ := List.cons_eq_cons.mp (List.cons_eq_cons.mp heq).2
      exact not_name_of_stop hp hname
    · by_cases hdot : dot.kind = Sign.dot ∧ name.kind = .identifier
      · exact .inl ⟨vs, hvs, Nat.lt_succ_of_lt (Nat.lt_succ_self _),
          fun rest => ⟨dot, name, rfl, hdot⟩⟩
      · right
        rintro rest us' ⟨dot', name', heq, hdot'⟩
        obtain ⟨rfl, hname⟩ := List.cons_eq_cons.mp heq
        obtain ⟨rfl, -⟩ := List.cons_eq_cons.mp hname
        exact hdot hdot'

/-- Further segments, if there are enough rounds for all tokens. -/
theorem skipSegments_of_stop (hp : IsStop p) (h : p :: us <:+ ts) :
    (∀ n rest, (ts ++ rest).length < n → skipSegments n (ts ++ rest) = none) ∨
      ∃ vs, p :: us <:+ vs ∧
        ∀ n rest, (ts ++ rest).length < n → skipSegments n (ts ++ rest) = some (vs ++ rest) := by
  induction hlength : ts.length using Nat.strong_induction_on generalizing ts with
  | _ k ih =>
  subst hlength
  have hround {n : Nat} {rest : List Token} (hn : (ts ++ rest).length < n) : ∃ m, n = m + 1 :=
    ⟨n - 1, by omega⟩
  rcases skipArgs_of_stop hp h with hnone | ⟨ws, hws, hle, hargs⟩
  · left
    intro n rest hn
    obtain ⟨n, rfl⟩ := hround hn
    rw [skipSegments_succ, hnone]
    rfl
  rcases isFurther_of_stop hp hws with ⟨ws', hws', hlt, hfurther⟩ | hlast
  · -- a further segment is behind its dot, so that one round is enough for two tokens at least
    have hskip (n : Nat) (rest : List Token) := skipSegments_further (n := n) (hargs rest)
      (hfurther rest)
    have hlater := ih ws'.length (by omega) hws' rfl
    simp only [List.length_append] at hround hlater ⊢
    rcases hlater with hnone | ⟨vs, hvs, hsome⟩
    · left
      intro n rest hn
      obtain ⟨n, rfl⟩ := hround hn
      rw [hskip, hnone _ _ (by omega)]
    · refine .inr ⟨vs, hvs, fun n rest hn => ?_⟩
      obtain ⟨n, rfl⟩ := hround hn
      rw [hskip, hsome _ _ (by omega)]
  · refine .inr ⟨ws, hws, fun n rest hn => ?_⟩
    obtain ⟨n, rfl⟩ := hround hn
    exact skipSegments_last (hargs rest) (hlast rest)

/-- Skips a type without annotations before it. -/
def skipPlain : List Token → Option (List Token)
  | [] => none
  | t :: rest =>
    if t.kind.isPrimitive then some (skipDims rest)
    else if t.kind = .identifier then (skipSegments (rest.length + 1) rest).map skipDims
    else none

theorem skipType_eq (ts : List Token) :
    skipType ts = (skipAnnots (ts.length + 1) ts).bind skipPlain := by
  rw [skipType]
  cases skipAnnots (ts.length + 1) ts with
  | none => rfl
  | some ts => cases ts <;> rfl

theorem skipPlain_of_stop (hp : IsStop p) (h : p :: us <:+ ts) :
    (∀ rest, skipPlain (ts ++ rest) = none) ∨
      ∃ vs, p :: us <:+ vs ∧ ∀ rest, skipPlain (ts ++ rest) = some (vs ++ rest) := by
  rcases exists_of_suffix h with rfl | ⟨t, ws, rfl, hws⟩
  · left
    intro rest
    have hprimitive : p.kind.isPrimitive = false := by
      unfold IsStop angleChange? at hp
      split at hp
      case h_14 => simpa using hp
      all_goals cases hp
    rw [List.cons_append, skipPlain, hprimitive, if_neg Bool.false_ne_true,
      if_neg (not_name_of_stop hp)]
  · simp only [List.cons_append, skipPlain]
    split_ifs
    · obtain ⟨vs, hvs, hskip⟩ := skipDims_of_stop hp hws
      exact .inr ⟨vs, hvs, fun rest => by rw [hskip]⟩
    · rcases skipSegments_of_stop hp hws with hnone | ⟨ws', hws', hsome⟩
      · exact .inl fun rest => by rw [hnone _ _ (Nat.lt_succ_self _)]; rfl
      · obtain ⟨vs, hvs, hskip⟩ := skipDims_of_stop hp hws'
        refine .inr ⟨vs, hvs, fun rest => ?_⟩
        rw [hsome _ _ (Nat.lt_succ_self _), Option.map_some, hskip]
    · exact .inl fun _ => rfl

/-- **Skipping a type stops at a stop**, so what is behind it does not matter. -/
theorem skipType_of_stop (hp : IsStop p) (h : p :: us <:+ ts)
    (hannot : startsWith Sign.atSign ts = false) : (∀ rest, skipType (ts ++ rest) = none) ∨
      ∃ vs, p :: us <:+ vs ∧ ∀ rest, skipType (ts ++ rest) = some (vs ++ rest) := by
  have hannots (rest : List Token) : skipType (ts ++ rest) = skipPlain (ts ++ rest) := by
    rw [skipType_eq, skipAnnots, if_neg (by
      rw [startsWith_append (ne_nil_of_suffix h), hannot]; exact Bool.false_ne_true),
      Option.bind_some]
  simp only [hannots]
  exact skipPlain_of_stop hp h

/-! ### Skipping annotations -/

theorem isFlat_of_kind {kind : TokenKind} (ht : t.kind = kind) (hkind : kind.isFlat) :
    t.kind.isFlat := ht ▸ hkind

theorem skipPathTail_of_closes (h : ClosesTo 1 ts us) :
    ∃ vs, ClosesTo 1 vs us ∧ vs.length ≤ ts.length ∧
      ∀ rest, skipPathTail (ts ++ rest) = vs ++ rest := by
  fun_induction skipPathTail ts with
  | case1 dot name ws hdot ih =>
    rw [ClosesTo.flat_iff (isFlat_of_kind hdot.1 rfl),
      ClosesTo.flat_iff (isFlat_of_kind hdot.2 rfl)] at h
    obtain ⟨vs, hvs, hle, hskip⟩ := ih h
    refine ⟨vs, hvs, Nat.le_succ_of_le (Nat.le_succ_of_le hle), fun rest => ?_⟩
    rw [List.cons_append, List.cons_append, skipPathTail, if_pos hdot, hskip]
  | case2 dot name ws hdot =>
    refine ⟨_, h, le_rfl, fun rest => ?_⟩
    rw [List.cons_append, List.cons_append, skipPathTail, if_neg hdot]
  | case3 ts hshort =>
    refine ⟨ts, h, le_rfl, fun rest => ?_⟩
    rcases ts with _ | ⟨t, _ | ⟨u, ws⟩⟩
    · exact absurd h ClosesTo.not_nil
    · have hnot : t.kind ≠ Sign.dot := by
        intro hdot
        exact ClosesTo.not_nil ((ClosesTo.flat_iff (isFlat_of_kind hdot rfl)).mp h)
      rcases rest with _ | ⟨u, rest⟩
      · rfl
      · exact if_neg fun hdot => hnot hdot.1
    · exact absurd rfl (hshort _ _ _)

theorem skipAnnot_of_closes (h : ClosesTo 1 ts us) :
    (∀ rest, skipAnnot (ts ++ rest) = none) ∨
      ∃ vs, ClosesTo 1 vs us ∧ vs.length < ts.length ∧
        ∀ rest, skipAnnot (ts ++ rest) = some (vs ++ rest) := by
  rcases ts with _ | ⟨mark, _ | ⟨name, ts⟩⟩
  · exact absurd h ClosesTo.not_nil
  · left
    have hnot : mark.kind ≠ Sign.atSign := fun hmark =>
      ClosesTo.not_nil ((ClosesTo.flat_iff (isFlat_of_kind hmark rfl)).mp h)
    rintro (_ | ⟨u, rest⟩)
    · rfl
    · exact if_neg fun hboth => hnot hboth.1
  · simp only [List.cons_append, skipAnnot]
    split_ifs with hmark
    · rw [ClosesTo.flat_iff (isFlat_of_kind hmark.1 rfl),
        ClosesTo.flat_iff (isFlat_of_kind hmark.2 rfl)] at h
      obtain ⟨ws, hws, hle, hskip⟩ := skipPathTail_of_closes h
      have hne : ws ≠ [] := by
        rintro rfl
        exact ClosesTo.not_nil hws
      right
      simp only [hskip, startsWith_append hne]
      by_cases hopen : startsWith Sign.lparen ws
      · obtain ⟨o, ws, rfl⟩ := List.exists_cons_of_ne_nil hne
        have ho : o.kind = Sign.lparen := of_decide_eq_true hopen
        obtain ⟨vs, hvs, hus⟩ := ((ClosesTo.opening_iff ho).mp hws).inner le_rfl
        obtain ⟨before, q, hq, -⟩ := hvs.exists_closing
        refine ⟨vs, hus, ?_, fun rest => ?_⟩
        · rw [hq] at hle
          simp only [List.length_cons, List.length_append] at hle ⊢
          omega
        · rw [if_pos hopen, List.cons_append, skipParens, if_pos ho]
          exact hvs rest
      · refine ⟨ws, hws, ?_, fun rest => by rw [if_neg hopen]⟩
        simp only [List.length_cons]
        omega
    · exact .inl fun _ => rfl

theorem skipAnnots_of_closes (h : ClosesTo 1 ts us) :
    (∀ n rest, (ts ++ rest).length < n → skipAnnots n (ts ++ rest) = none) ∨
      ∃ vs, ClosesTo 1 vs us ∧
        ∀ n rest, (ts ++ rest).length < n → skipAnnots n (ts ++ rest) = some (vs ++ rest) := by
  induction hlength : ts.length using Nat.strong_induction_on generalizing ts with
  | _ k ih =>
  subst hlength
  have hne : ts ≠ [] := by
    rintro rfl
    exact ClosesTo.not_nil h
  by_cases hmark : startsWith Sign.atSign ts
  · have hskip (n : Nat) (rest : List Token) : skipAnnots (n + 1) (ts ++ rest)
        = (skipAnnot (ts ++ rest)).bind (skipAnnots n) := by
      rw [skipAnnots, if_pos (by rwa [startsWith_append hne])]
    rcases skipAnnot_of_closes h with hnone | ⟨ws, hws, hlt, hsome⟩
    · left
      intro n rest hn
      obtain ⟨n, rfl⟩ : ∃ m, n = m + 1 := ⟨n - 1, by omega⟩
      rw [hskip, hnone]
      rfl
    · have hlater := ih ws.length hlt hws rfl
      simp only [List.length_append] at hlater ⊢
      rcases hlater with hnone | ⟨vs, hvs, hlater⟩
      · left
        intro n rest hn
        obtain ⟨n, rfl⟩ : ∃ m, n = m + 1 := ⟨n - 1, by omega⟩
        rw [hskip, hsome, Option.bind_some, hnone _ _ (by omega)]
      · refine .inr ⟨vs, hvs, fun n rest hn => ?_⟩
        obtain ⟨n, rfl⟩ : ∃ m, n = m + 1 := ⟨n - 1, by omega⟩
        rw [hskip, hsome, Option.bind_some, hlater _ _ (by omega)]
  · refine .inr ⟨ts, h, fun n rest hn => ?_⟩
    obtain ⟨n, rfl⟩ : ∃ m, n = m + 1 := ⟨n - 1, by omega⟩
    rw [skipAnnots, if_neg (by rwa [startsWith_append hne])]

/-- **Skipping a type stops where an open parenthesis is closed.** -/
theorem skipType_of_closes (h : ClosesTo 1 ts us) : (∀ rest, skipType (ts ++ rest) = none) ∨
      ∃ (p : Token) (vs : List Token), p.kind = Sign.rparen ∧ p :: us <:+ vs ∧
        ∀ rest, skipType (ts ++ rest) = some (vs ++ rest) := by
  simp only [skipType_eq]
  rcases skipAnnots_of_closes h with hnone | ⟨ws, hws, hsome⟩
  · exact .inl fun rest => by rw [hnone _ _ (Nat.lt_succ_self _)]; rfl
  · obtain ⟨before, p, rfl, hp⟩ := hws.exists_closing
    simp only [hsome _ _ (Nat.lt_succ_self _), Option.bind_some]
    refine (skipPlain_of_stop (isStop_of_rparen hp) (List.suffix_append _ _)).imp_right ?_
    rintro ⟨vs, hvs, hskip⟩
    exact ⟨p, vs, hp, hvs, hskip⟩

end Lookahead

end JavaGraft
