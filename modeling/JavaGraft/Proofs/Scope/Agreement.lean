import JavaGraft.Scope.Local
import Mathlib.Data.List.Find
import Mathlib.Data.List.TakeDrop

/-!
# Scopes that agree

Two records of local variables agree (`JavaGraft.LocalScope.Agree`) if as many scopes are open, the
same variable is visible under every name, and the same ones are hidden. The order in which the
visible variables are listed is nothing that can be seen: whatever is opened, closed and declared
from then on, they go on agreeing.

Closing a scope undoes what was done since it was opened: opening leaves everything as it is
(`JavaGraft.LocalScope.leave_enter`), and what is declared in a scope makes no difference once the
scope is closed (`JavaGraft.LocalScope.Agree.leave_declare`). This takes a record that is in order
(`JavaGraft.LocalScope.Orderly`), as every one is that comes from opening, closing and declaring.
-/

namespace JavaGraft

namespace LocalScope

/-- **A record in order**: one visible variable for each name, none of them deeper than the
innermost scope, and the hidden variables sorted by the scopes that hide them, which are inside
their own. -/
structure Orderly (s : LocalScope) : Prop where
  distinct : (s.visible.map LocalVar.name).Nodup
  visible_le : ∀ v ∈ s.visible, v.depth ≤ s.depth
  hidden_le : ∀ h ∈ s.hidden, h.1 ≤ s.depth
  hidden_lt : ∀ h ∈ s.hidden, h.2.depth < h.1
  sorted : s.hidden.Pairwise fun a b => b.1 ≤ a.1

/-- The same scopes are open, and the same variables visible and hidden. -/
structure Agree (s s' : LocalScope) : Prop where
  depth : s.depth = s'.depth
  hidden : s.hidden = s'.hidden
  get? : ∀ name, s.get? name = s'.get? name

variable {s s' : LocalScope} {name : String} {type : Option DataType} {span : Span}

namespace Agree

theorem refl (s : LocalScope) : s.Agree s := ⟨rfl, rfl, fun _ => rfl⟩

theorem trans {s'' : LocalScope} (h : s.Agree s') (h' : s'.Agree s'') : s.Agree s'' :=
  ⟨h.depth.trans h'.depth, h.hidden.trans h'.hidden, fun name => (h.get? name).trans (h'.get? name)⟩

end Agree

/-! ### Visible variables -/

/-- The variable of a name among variables. -/
def named? (vars : List LocalVar) (name : String) : Option LocalVar := vars.find? (·.name == name)

theorem name_of_named? {vars : List LocalVar} {v : LocalVar} (h : named? vars name = some v) :
    v ∈ vars ∧ v.name = name :=
  ⟨List.mem_of_find?_eq_some h, by simpa using List.find?_some h⟩

theorem named?_put (vars : List LocalVar) (v : LocalVar) (name : String) :
    named? (put vars v) name = if v.name = name then some v else named? vars name := by
  rw [named?, put, List.find?_cons]
  by_cases hname : v.name = name
  · rw [if_pos hname, hname, beq_self_eq_true]
  · rw [if_neg hname, beq_false_of_ne hname, List.find?_filter, named?]
    refine List.find?_congr fun w _ => ?_
    by_cases hw : w.name = name
    · simp [hw, Ne.symm hname]
    · simp [hw]

theorem nodup_put {vars : List LocalVar} (h : (vars.map LocalVar.name).Nodup) (v : LocalVar) :
    ((put vars v).map LocalVar.name).Nodup := by
  rw [put, List.map_cons, List.nodup_cons]
  refine ⟨?_, h.sublist (List.filter_sublist.map _)⟩
  simp

/-- Where every name occurs once, taking variables out takes out their names. -/
theorem named?_filter {vars : List LocalVar} (h : (vars.map LocalVar.name).Nodup)
    (p : LocalVar → Bool) (name : String) :
    named? (vars.filter p) name = (named? vars name).filter p := by
  induction vars with
  | nil => rfl
  | cons v vars ih =>
    obtain ⟨hv, hvars⟩ := List.nodup_cons.mp h
    have ih := ih hvars
    simp only [named?] at ih ⊢
    by_cases hname : v.name = name
    · subst hname
      have hnone : vars.find? (·.name == v.name) = none := by
        refine List.find?_eq_none.mpr fun w hw hsame => hv ?_
        rw [← beq_iff_eq.mp hsame]
        exact List.mem_map_of_mem hw
      rw [hnone, Option.filter_none] at ih
      rw [List.filter_cons, List.find?_cons, beq_self_eq_true]
      by_cases hp : p v
      · rw [if_pos hp, List.find?_cons, beq_self_eq_true, Option.filter_some, if_pos hp]
      · rw [if_neg hp, ih, Option.filter_some, if_neg hp]
    · rw [List.filter_cons, List.find?_cons, beq_false_of_ne hname, ← ih]
      by_cases hp : p v
      · rw [if_pos hp, List.find?_cons, beq_false_of_ne hname]
      · rw [if_neg hp]

/-- Variables that come back take the places of those of their names. -/
theorem named?_foldl_put {vars vars' : List LocalVar}
    (h : ∀ name, named? vars name = named? vars' name) (back : List (Nat × LocalVar)) :
    ∀ name, named? (back.foldl (fun vars h => put vars h.2) vars) name
      = named? (back.foldl (fun vars h => put vars h.2) vars') name := by
  induction back generalizing vars vars' with
  | nil => exact h
  | cons b back ih => exact ih fun name => by rw [named?_put, named?_put, h name]

theorem nodup_foldl_put {vars : List LocalVar} (h : (vars.map LocalVar.name).Nodup)
    (back : List (Nat × LocalVar)) :
    ((back.foldl (fun vars h => put vars h.2) vars).map LocalVar.name).Nodup := by
  induction back generalizing vars with
  | nil => exact h
  | cons b back ih => exact ih (nodup_put h b.2)

theorem forall_foldl_put {P : LocalVar → Prop} {vars : List LocalVar} (h : ∀ v ∈ vars, P v)
    {back : List (Nat × LocalVar)} (hback : ∀ b ∈ back, P b.2) :
    ∀ v ∈ back.foldl (fun vars h => put vars h.2) vars, P v := by
  induction back generalizing vars with
  | nil => exact h
  | cons b back ih =>
    refine ih (fun v hv => ?_) fun b' hb' => hback b' (List.mem_cons_of_mem b hb')
    rcases List.mem_cons.mp hv with rfl | hv
    · exact hback b List.mem_cons_self
    · exact h v ((List.mem_filter.mp hv).1)

/-! ### Opening and closing -/

theorem Orderly.empty : LocalScope.empty.Orderly where
  distinct := List.nodup_nil
  visible_le := nofun
  hidden_le := nofun
  hidden_lt := nofun
  sorted := .nil

theorem Orderly.enter (h : s.Orderly) : s.enter.Orderly where
  distinct := h.distinct
  visible_le v hv := Nat.le_succ_of_le (h.visible_le v hv)
  hidden_le x hx := Nat.le_succ_of_le (h.hidden_le x hx)
  hidden_lt := h.hidden_lt
  sorted := h.sorted

theorem leave_of_depth_eq_zero (h : s.depth = 0) : s.leave = s := if_pos h

/-- Closing a scope that is not the outermost one. -/
theorem leave_eq (h : s.depth ≠ 0) :
    s.leave =
      ⟨(s.hidden.takeWhile (·.1 == s.depth)).foldl (fun vars h => put vars h.2)
          (s.visible.filter (·.depth < s.depth)),
        s.depth - 1, s.hidden.dropWhile (·.1 == s.depth)⟩ := by
  rw [leave, if_neg h, List.span_eq_takeWhile_dropWhile]

/-- **Closing a scope right after opening it** leaves everything as it is. -/
theorem leave_enter (h : s.Orderly) : s.enter.leave = s := by
  have hdeeper : ∀ x ∈ s.hidden, ¬(x.1 == s.depth + 1) := fun x hx heq => by
    have := h.hidden_le x hx
    have := beq_iff_eq.mp heq
    omega
  have hback : s.hidden.takeWhile (·.1 == s.depth + 1) = [] := by
    cases hhidden : s.hidden with
    | nil => rfl
    | cons x xs => exact List.takeWhile_cons_of_neg (hdeeper x (hhidden ▸ List.mem_cons_self))
  have hrest : s.hidden.dropWhile (·.1 == s.depth + 1) = s.hidden := by
    cases hhidden : s.hidden with
    | nil => rfl
    | cons x xs => exact List.dropWhile_cons_of_neg (hdeeper x (hhidden ▸ List.mem_cons_self))
  have houter : s.visible.filter (·.depth < s.depth + 1) = s.visible :=
    List.filter_eq_self.mpr fun v hv => decide_eq_true (Nat.lt_succ_of_le (h.visible_le v hv))
  rw [leave_eq (Nat.succ_ne_zero _)]
  simp only [LocalScope.enter, hback, hrest, List.foldl_nil, Nat.add_sub_cancel]
  exact congrArg (fun vars => LocalScope.mk vars s.depth s.hidden) houter

/-- What stays hidden is hidden by a scope that stays open. -/
theorem Orderly.dropWhile_lt (h : s.Orderly) :
    ∀ x ∈ s.hidden.dropWhile (·.1 == s.depth), x.1 < s.depth := by
  have hle := h.hidden_le
  have hsorted := h.sorted
  revert hle hsorted
  induction s.hidden with
  | nil => exact nofun
  | cons x xs ih =>
    intro hle hsorted
    obtain ⟨hx, hxs⟩ := List.pairwise_cons.mp hsorted
    by_cases hdepth : x.1 = s.depth
    · rw [List.dropWhile_cons_of_pos (by simpa using hdepth)]
      exact ih (fun y hy => hle y (List.mem_cons_of_mem x hy)) hxs
    · rw [List.dropWhile_cons_of_neg (by simpa using hdepth)]
      have hlt : x.1 < s.depth := Nat.lt_of_le_of_ne (hle x List.mem_cons_self) hdepth
      intro y hy
      rcases List.mem_cons.mp hy with rfl | hy
      · exact hlt
      · exact Nat.lt_of_le_of_lt (hx y hy) hlt

theorem Orderly.leave (h : s.Orderly) : s.leave.Orderly := by
  by_cases hdepth : s.depth = 0
  · rw [leave_of_depth_eq_zero hdepth]
    exact h
  · have hsublist : (s.hidden.dropWhile (·.1 == s.depth)).Sublist s.hidden :=
      List.dropWhile_sublist _
    have hvisible : ∀ v ∈ s.leave.visible, v.depth < s.depth := by
      rw [leave_eq hdepth]
      refine forall_foldl_put (fun v hv => of_decide_eq_true (List.mem_filter.mp hv).2) ?_
      intro b hb
      exact Nat.lt_of_lt_of_le (h.hidden_lt b ((List.takeWhile_sublist _).subset hb))
        (h.hidden_le b ((List.takeWhile_sublist _).subset hb))
    have hleave := leave_eq hdepth
    refine ⟨?_, fun v hv => ?_, fun x hx => ?_, fun x hx => ?_, ?_⟩
    · rw [hleave]
      exact nodup_foldl_put (h.distinct.sublist (List.filter_sublist.map _)) _
    · have := hvisible v hv
      rw [hleave]
      exact Nat.le_sub_one_of_lt this
    · rw [hleave] at hx ⊢
      exact Nat.le_sub_one_of_lt (h.dropWhile_lt x hx)
    · rw [hleave] at hx
      exact h.hidden_lt x (hsublist.subset hx)
    · rw [hleave]
      exact h.sorted.sublist hsublist

/-- What is visible once a scope is closed depends on what was visible and what was hidden. -/
theorem Agree.leave (h : s.Orderly) (h' : s'.Orderly) (ha : s.Agree s') :
    s.leave.Agree s'.leave := by
  by_cases hdepth : s.depth = 0
  · rw [leave_of_depth_eq_zero hdepth, leave_of_depth_eq_zero (ha.depth ▸ hdepth)]
    exact ha
  · rw [leave_eq hdepth, leave_eq (ha.depth ▸ hdepth), ← ha.depth, ← ha.hidden]
    refine ⟨rfl, rfl, named?_foldl_put (fun name => ?_) _⟩
    rw [named?_filter h.distinct, named?_filter h'.distinct]
    exact congrArg _ (ha.get? name)

/-- Records that agree go on agreeing, however many scopes are closed. -/
theorem Agree.iterate_leave {k : Nat} (hs : s.Orderly) (hs' : s'.Orderly) (h : s.Agree s') :
    (LocalScope.leave^[k] s).Agree (LocalScope.leave^[k] s') := by
  induction k generalizing s s' with
  | zero => exact h
  | succ k ih => exact ih hs.leave hs'.leave (h.leave hs hs')

/-! ### Declaring -/

theorem get?_declare (name' : String) :
    (s.declare name type span).get? name'
      = if name = name' then some ⟨name, type, s.depth, span⟩ else s.get? name' :=
  named?_put _ _ _

/-- A declaration hides the variable of the name if that is one of an outer scope. -/
theorem hidden_declare (s : LocalScope) (name : String) (type : Option DataType) (span : Span) :
    ((s.get? name).filter (·.depth < s.depth) = none
        ∧ (s.declare name type span).hidden = s.hidden)
      ∨ ∃ v, s.get? name = some v ∧ v.depth < s.depth
        ∧ (s.declare name type span).hidden = (s.depth, v) :: s.hidden := by
  rw [declare]
  cases hfilter : (s.get? name).filter (·.depth < s.depth) with
  | none => exact .inl ⟨rfl, rfl⟩
  | some v =>
    obtain ⟨hget, hlt⟩ := Option.filter_eq_some_iff.mp hfilter
    exact .inr ⟨v, hget, of_decide_eq_true hlt, rfl⟩

theorem Orderly.declare (h : s.Orderly) : (s.declare name type span).Orderly := by
  have hvisible : ∀ v ∈ (s.declare name type span).visible, v.depth ≤ s.depth := by
    intro v hv
    rcases List.mem_cons.mp hv with rfl | hv
    · exact Nat.le_refl _
    · exact h.visible_le v (List.mem_filter.mp hv).1
  rcases hidden_declare s name type span with ⟨-, heq⟩ | ⟨v, -, hlt, heq⟩
  · exact ⟨nodup_put h.distinct _, hvisible, heq ▸ h.hidden_le, heq ▸ h.hidden_lt, heq ▸ h.sorted⟩
  · refine ⟨nodup_put h.distinct _, hvisible, ?_, ?_, ?_⟩
    · rw [heq]
      exact List.forall_mem_cons.mpr ⟨Nat.le_refl _, h.hidden_le⟩
    · rw [heq]
      exact List.forall_mem_cons.mpr ⟨hlt, h.hidden_lt⟩
    · rw [heq]
      exact List.pairwise_cons.mpr ⟨h.hidden_le, h.sorted⟩

theorem Agree.declare (h : s.Agree s') :
    (s.declare name type span).Agree (s'.declare name type span) where
  depth := h.depth
  hidden := by simp only [LocalScope.declare, h.get?, h.hidden, h.depth]
  get? name' := by rw [get?_declare, get?_declare, h.get?, h.depth]

/-- **What is declared in a scope** makes no difference once the scope is closed. -/
theorem Agree.leave_declare (h : s.Orderly) (hdepth : s.depth ≠ 0) :
    (s.declare name type span).leave.Agree s.leave := by
  have houter (name' : String) :
      named? ((s.declare name type span).visible.filter (·.depth < s.depth)) name'
        = if name = name' then none else named? (s.visible.filter (·.depth < s.depth)) name' := by
    rw [named?_filter h.declare.distinct, named?_filter h.distinct]
    change ((s.declare name type span).get? name').filter _ = _
    rw [get?_declare]
    split
    · simp
    · rfl
  have hleave : (s.declare name type span).leave = _ := leave_eq hdepth
  rw [hleave, leave_eq hdepth]
  -- what the declaration hides comes back when the scope is closed, if it hides anything
  rcases hidden_declare s name type span with
    ⟨hnone, heq⟩ | ⟨v, hv, hlt, heq⟩
  · rw [heq]
    refine ⟨rfl, rfl, named?_foldl_put (fun name' => ?_) _⟩
    refine (houter name').trans ?_
    split
    · next hname =>
      rw [named?_filter h.distinct, ← hname]
      exact hnone.symm
    · rfl
  · rw [heq]
    have hput : (s.declare name type span).depth = s.depth := rfl
    rw [hput, List.takeWhile_cons_of_pos (by simp), List.dropWhile_cons_of_pos (by simp),
      List.foldl_cons]
    refine ⟨rfl, rfl, named?_foldl_put (fun name' => ?_) _⟩
    have hname : v.name = name := (name_of_named? hv).2
    rw [named?_put, houter, hname]
    split
    · next hsame =>
      rw [named?_filter h.distinct, ← hsame]
      change _ = (s.get? name).filter _
      rw [hv, Option.filter_some, if_pos (decide_eq_true hlt)]
    · rfl

/-! ### What holds of all variables -/

/-- Something that holds of the visible and the hidden variables. -/
structure All (P : LocalVar → Prop) (s : LocalScope) : Prop where
  visible : ∀ v ∈ s.visible, P v
  hidden : ∀ h ∈ s.hidden, P h.2

namespace All

variable {P : LocalVar → Prop}

theorem empty : LocalScope.empty.All P := ⟨nofun, nofun⟩

theorem enter (h : s.All P) : s.enter.All P := ⟨h.visible, h.hidden⟩

theorem leave (h : s.All P) : s.leave.All P := by
  by_cases hdepth : s.depth = 0
  · rw [leave_of_depth_eq_zero hdepth]
    exact h
  · rw [leave_eq hdepth]
    refine ⟨forall_foldl_put (fun v hv => h.visible v (List.mem_filter.mp hv).1) fun b hb => ?_,
      fun x hx => h.hidden x ((List.dropWhile_sublist _).subset hx)⟩
    exact h.hidden b ((List.takeWhile_sublist _).subset hb)

theorem get? (h : s.All P) {v : LocalVar} (hv : s.get? name = some v) : P v :=
  h.visible v (name_of_named? hv).1

theorem declare (h : s.All P) (hP : P ⟨name, type, s.depth, span⟩) :
    (s.declare name type span).All P := by
  refine ⟨fun v hv => ?_, ?_⟩
  · rcases List.mem_cons.mp hv with rfl | hv
    · exact hP
    · exact h.visible v (List.mem_filter.mp hv).1
  · rcases hidden_declare s name type span with ⟨-, heq⟩ | ⟨v, hv, -, heq⟩
    · rw [heq]
      exact h.hidden
    · rw [heq]
      exact List.forall_mem_cons.mpr ⟨h.get? hv, h.hidden⟩

end All

end LocalScope

end JavaGraft
