import JavaGraft.Literal.Escape
import JavaGraft.Proofs.Token.Words
import Mathlib.Data.List.Induction

/-!
# The numbers that digits spell

How the number that digits spell grows with each digit behind them
(`JavaGraft.Escape.number?_snoc`, `JavaGraft.Escape.number?_concat`).
-/

namespace JavaGraft

/-! ### Numbers -/

namespace Escape

open CharClass

variable {base n d : Nat} {c : Char} {cs : List Char}

/-- One digit more. -/
theorem number?_snoc (h : number? base cs = some n) (hc : digitValue? base c = some d) :
    number? base (cs ++ [c]) = some (base * n + d) := by
  rw [number?] at h ⊢
  split_ifs at h with hempty
  rw [if_neg (by simp), List.foldlM_append, h]
  simp [hc]

/-- The last digit, and the number that is spelt without it. -/
theorem number?_concat (h : number? base (cs ++ [c]) = some n) :
    cs = [] ∧ digitValue? base c = some n ∨
      ∃ m d, number? base cs = some m ∧ digitValue? base c = some d ∧ n = base * m + d := by
  rw [number?, if_neg (by simp), List.foldlM_append] at h
  obtain ⟨m, hm, hc⟩ := Option.bind_eq_some_iff.mp h
  obtain ⟨d, hd, hn⟩ : ∃ d, digitValue? base c = some d ∧ base * m + d = n := by simpa using hc
  cases cs with
  | nil =>
    obtain rfl : 0 = m := Option.some.inj hm
    rw [Nat.mul_zero, Nat.zero_add] at hn
    exact .inl ⟨rfl, hn ▸ hd⟩
  | cons => exact .inr ⟨m, d, hm, hd, hn.symm⟩

/-- A zero in front changes nothing. -/
theorem number?_zero_cons (hbase : 0 < base) (hcs : cs ≠ []) :
    number? base ('0' :: cs) = number? base cs := by
  have hzero : digitValue? base '0' = some 0 := by
    rw [digitValue?, if_pos (show isDigit '0' = true by decide), Nat.sub_self, Option.filter_some,
      if_pos (decide_eq_true hbase)]
  rw [number?, number?, if_neg (by simp), if_neg (by simpa using hcs), List.foldlM_cons, hzero]
  rfl

theorem number?_singleton (base : Nat) (c : Char) : number? base [c] = digitValue? base c := by
  rw [number?, if_neg (by simp), List.foldlM_cons]
  cases digitValue? base c <;> simp

/-- Nothing but digits spells a number. -/
theorem isSome_of_number? (h : number? base cs = some n) :
    ∀ c ∈ cs, (digitValue? base c).isSome := by
  induction cs using List.reverseRecOn generalizing n with
  | nil => cases h
  | append_singleton ds c ih =>
    rcases number?_concat h with ⟨rfl, hc⟩ | ⟨m, d, hm, hc, -⟩
    · rintro _ (_ | ⟨_, ⟨⟩⟩)
      exact hc ▸ rfl
    · exact List.forall_mem_append.mpr ⟨ih hm, List.forall_mem_singleton.mpr (hc ▸ rfl)⟩

end Escape

end JavaGraft
