import JavaGraft.Proofs.Scope.Agreement
import Mathlib.Data.Finmap

/-!
# Scopes as a stack of maps

Nested scopes are a stack of finite maps, one for each open scope (`JavaGraft.ScopeStack`): opening
a scope puts an empty map on top, closing it drops the top map unless it is the only one, a
declaration goes into the top map, and a name means what the innermost map that has it says. A
record of local variables keeps no such stack, only the variables that are visible now and a list of
those to be brought back. It answers as the stack all the same, whatever is opened, closed and
declared (`JavaGraft.LocalScope.run_refines`).

The two are compared not by what they keep but by what they show, now and after any number of
scopes has been closed (`JavaGraft.LocalScope.Mirrors`). Put like this, closing a scope is nothing
to prove; opening one is undone by the first closing (`JavaGraft.LocalScope.leave_enter`), and a
declaration is forgotten by it (`JavaGraft.LocalScope.Agree.leave_declare`).
-/

namespace JavaGraft

/-! ### The stack -/

/-- The variables of one scope: under a name, its type, if that is known, and where it was
declared. -/
abbrev ScopeMap := Finmap fun _ : String => Option DataType × Span

/-- **A stack of maps**: that of the innermost scope, and those of the scopes around it, from the
inside out. -/
structure ScopeStack where
  top : ScopeMap
  outer : List ScopeMap

namespace ScopeStack

/-- The outermost scope, without variables. -/
def empty : ScopeStack := ⟨∅, []⟩

/-- An empty map is put on top. -/
def enter (t : ScopeStack) : ScopeStack := ⟨∅, t.top :: t.outer⟩

/-- The top map is dropped, unless it is the only one. -/
def leave : ScopeStack → ScopeStack
  | ⟨m, []⟩ => ⟨m, []⟩
  | ⟨_, m :: ms⟩ => ⟨m, ms⟩

/-- A variable is entered in the top map, over one of its name. -/
def declare (t : ScopeStack) (name : String) (type : Option DataType) (span : Span) : ScopeStack :=
  ⟨t.top.insert name (type, span), t.outer⟩

/-- All maps, the innermost first. -/
def maps (t : ScopeStack) : List ScopeMap := t.top :: t.outer

/-- The variable of a name in the first map that has one. Its depth is the number of maps below. -/
def innermost? (name : String) : List ScopeMap → Option LocalVar
  | [] => none
  | m :: ms =>
    match m.lookup name with
    | some (type, span) => some ⟨name, type, ms.length, span⟩
    | none => innermost? name ms

/-- The innermost variable of a name. -/
def get? (t : ScopeStack) (name : String) : Option LocalVar := innermost? name t.maps

theorem isSome_innermost?_iff (name : String) (ms : List ScopeMap) :
    (innermost? name ms).isSome ↔ ∃ m ∈ ms, name ∈ m := by
  induction ms with
  | nil => simp [innermost?]
  | cons m ms ih =>
    rw [innermost?, List.exists_mem_cons_iff]
    cases hm : m.lookup name with
    | some b => exact iff_of_true rfl (.inl (Finmap.mem_of_lookup_eq_some hm))
    | none => exact ih.trans (or_iff_right (Finmap.lookup_eq_none.mp hm)).symm

theorem get?_enter (t : ScopeStack) (name : String) : t.enter.get? name = t.get? name := by
  rw [get?, maps, enter, innermost?, Finmap.lookup_empty]
  rfl

theorem get?_declare (t : ScopeStack) (name name' : String) (type : Option DataType) (span : Span) :
    (t.declare name type span).get? name'
      = if name = name' then some ⟨name, type, t.outer.length, span⟩ else t.get? name' := by
  rw [get?, maps, declare, innermost?]
  by_cases hname : name = name'
  · rw [if_pos hname, ← hname, Finmap.lookup_insert]
  · rw [if_neg hname, Finmap.lookup_insert_of_ne _ (Ne.symm hname)]
    rfl

theorem outer_leave (t : ScopeStack) : t.leave.outer = t.outer.tail := by
  obtain ⟨m, ms⟩ := t
  cases ms <;> rfl

/-- What is declared in a scope is gone with it. -/
theorem leave_declare {t : ScopeStack} (h : t.outer ≠ []) (name : String) (type : Option DataType)
    (span : Span) : (t.declare name type span).leave = t.leave := by
  obtain ⟨m, ms⟩ := t
  cases ms with
  | nil => exact absurd rfl h
  | cons m' ms => rfl

end ScopeStack

/-! ### Opening, closing and declaring in any order -/

/-- What may be done to scopes. -/
inductive ScopeStep where
  /-- A scope is opened. -/
  | enter
  /-- The innermost scope is closed. -/
  | leave
  /-- A variable is declared in the innermost scope. -/
  | declare (name : String) (type : Option DataType) (span : Span)
deriving DecidableEq

/-- Whether steps close the scopes that they open, and `n` more that were open before. -/
def ScopeStep.closes : Nat → List ScopeStep → Bool
  | n, [] => n == 0
  | n, .enter :: steps => closes (n + 1) steps
  | 0, .leave :: _ => false
  | n + 1, .leave :: steps => closes n steps
  | n, .declare _ _ _ :: steps => closes n steps

namespace ScopeStack

/-- A stack after one step. -/
def step (t : ScopeStack) : ScopeStep → ScopeStack
  | .enter => t.enter
  | .leave => t.leave
  | .declare name type span => t.declare name type span

/-- A stack after steps, one after the other. -/
def run (t : ScopeStack) (steps : List ScopeStep) : ScopeStack := steps.foldl step t

theorem run_append (t : ScopeStack) (steps steps' : List ScopeStep) :
    t.run (steps ++ steps') = (t.run steps).run steps' := List.foldl_append

/-- Steps that close `n` scopes more than they open leave the maps below them as they are. -/
theorem outer_run {n : Nat} {steps : List ScopeStep} (h : ScopeStep.closes n steps = true)
    (t : ScopeStack) : (t.run steps).outer = t.outer.drop n := by
  induction steps generalizing n t with
  | nil =>
    obtain rfl : n = 0 := beq_iff_eq.mp h
    rfl
  | cons step steps ih =>
    cases step with
    | enter => exact ih (n := n + 1) h t.enter
    | leave =>
      cases n with
      | zero => exact absurd h Bool.false_ne_true
      | succ n => exact (ih (n := n) h t.leave).trans (by rw [outer_leave, List.drop_tail])
    | declare name type span =>
      refine ih (n := n) ?_ (t.declare name type span)
      cases n <;> exact h

/-- **A scope that is opened and closed** leaves the stack as it was, whatever happens in it. -/
theorem run_scope {inner : List ScopeStep} (h : ScopeStep.closes 0 inner = true) (t : ScopeStack) :
    t.run (.enter :: (inner ++ [.leave])) = t := by
  have houter : (t.enter.run inner).outer = t.top :: t.outer := outer_run h t.enter
  have hrun : t.run (.enter :: (inner ++ [.leave])) = (t.enter.run inner).leave :=
    t.enter.run_append inner [.leave]
  rw [hrun]
  generalize t.enter.run inner = t' at houter
  obtain ⟨m, ms⟩ := t'
  subst houter
  rfl

end ScopeStack

namespace LocalScope

/-- A record after one step. -/
def step (s : LocalScope) : ScopeStep → LocalScope
  | .enter => s.enter
  | .leave => s.leave
  | .declare name type span => s.declare name type span

/-- A record after steps, one after the other. -/
def run (s : LocalScope) (steps : List ScopeStep) : LocalScope := steps.foldl step s

/-! ### A record and the stack that it stands for -/

/-- A record shows what a stack shows. -/
structure Answers (s : LocalScope) (t : ScopeStack) : Prop where
  depth : s.depth = t.outer.length
  get? : ∀ name, s.get? name = t.get? name

/-- **A record stands for a stack**: it is in order, and shows what the stack shows, however many
scopes are closed first. -/
structure Mirrors (s : LocalScope) (t : ScopeStack) : Prop where
  orderly : s.Orderly
  answers : ∀ k, (LocalScope.leave^[k] s).Answers (ScopeStack.leave^[k] t)

theorem Agree.answers {s s' : LocalScope} {t : ScopeStack} (h : s.Agree s') (ht : s'.Answers t) :
    s.Answers t :=
  ⟨h.depth.trans ht.depth, fun name => (h.get? name).trans (ht.get? name)⟩

theorem Answers.declare {s : LocalScope} {t : ScopeStack} (h : s.Answers t) (name : String)
    (type : Option DataType) (span : Span) :
    (s.declare name type span).Answers (t.declare name type span) :=
  ⟨h.depth, fun name' => by rw [get?_declare, ScopeStack.get?_declare, h.depth, h.get?]⟩

namespace Mirrors

variable {s : LocalScope} {t : ScopeStack}

theorem empty : LocalScope.empty.Mirrors ScopeStack.empty where
  orderly := .empty
  answers k := by
    rw [Function.iterate_fixed (leave_of_depth_eq_zero rfl) k,
      Function.iterate_fixed (show ScopeStack.empty.leave = ScopeStack.empty from rfl) k]
    exact ⟨rfl, fun name => rfl⟩

theorem enter (h : s.Mirrors t) : s.enter.Mirrors t.enter where
  orderly := h.orderly.enter
  answers k := by
    cases k with
    | zero =>
      refine ⟨congrArg (· + 1) (h.answers 0).depth, fun name => ?_⟩
      exact ((h.answers 0).get? name).trans (t.get?_enter name).symm
    | succ k =>
      rw [Function.iterate_succ_apply, Function.iterate_succ_apply, leave_enter h.orderly]
      exact h.answers k

theorem leave (h : s.Mirrors t) : s.leave.Mirrors t.leave where
  orderly := h.orderly.leave
  answers k := h.answers (k + 1)

theorem declare (h : s.Mirrors t) (name : String) (type : Option DataType) (span : Span) :
    (s.declare name type span).Mirrors (t.declare name type span) where
  orderly := h.orderly.declare
  answers k := by
    have hnow := (h.answers 0).declare name type span
    by_cases houter : t.outer = []
    · -- No scope can be closed, so what is shown now is shown later as well.
      have hdepth : (s.declare name type span).depth = 0 := hnow.depth.trans (by
        simp [ScopeStack.declare, houter])
      have hleave : (t.declare name type span).leave = t.declare name type span := by
        obtain ⟨m, ms⟩ := t
        subst houter
        rfl
      rw [Function.iterate_fixed (leave_of_depth_eq_zero hdepth) k,
        Function.iterate_fixed hleave k]
      exact hnow
    · cases k with
      | zero => exact hnow
      | succ k =>
        have hdepth : s.depth ≠ 0 := fun hzero =>
          houter (List.length_eq_zero_iff.mp ((h.answers 0).depth.symm.trans hzero))
        have hagree : (s.declare name type span).leave.Agree s.leave :=
          .leave_declare h.orderly hdepth
        rw [Function.iterate_succ_apply, Function.iterate_succ_apply,
          ScopeStack.leave_declare houter]
        exact (hagree.iterate_leave h.orderly.declare.leave h.orderly.leave).answers
          (h.answers (k + 1))

/-- **A step** on both sides. -/
theorem step (h : s.Mirrors t) : ∀ r : ScopeStep, (s.step r).Mirrors (t.step r)
  | .enter => h.enter
  | .leave => h.leave
  | .declare name type span => h.declare name type span

/-- **Steps in any order** on both sides. -/
theorem run (h : s.Mirrors t) (steps : List ScopeStep) : (s.run steps).Mirrors (t.run steps) := by
  induction steps generalizing s t with
  | nil => exact h
  | cons r steps ih => exact ih (h.step r)

end Mirrors

/-- **A record of local variables answers as a stack of maps.** After opening, closing and declaring
in any order, there are as many scopes within the outermost one as maps below the top one; a name
stands for its variable in the innermost map that has it, is declared if some map has it, and has
the type of that variable, if it is known. So closing a scope brings back every variable that was
hidden in it: every name means what it meant when the scope was opened, whatever was declared,
opened and closed in between. -/
theorem run_refines (steps : List ScopeStep) :
    (empty.run steps).depth = (ScopeStack.empty.run steps).outer.length ∧
      (∀ name,
        (empty.run steps).get? name = (ScopeStack.empty.run steps).get? name ∧
        ((empty.run steps).isDeclared name = true
          ↔ ∃ m ∈ (ScopeStack.empty.run steps).maps, name ∈ m) ∧
        (empty.run steps).typeOf? name
          = ((ScopeStack.empty.run steps).get? name).bind LocalVar.type) ∧
      ∀ inner, ScopeStep.closes 0 inner = true → ∀ name,
        (empty.run (steps ++ .enter :: (inner ++ [.leave]))).get? name
          = (empty.run steps).get? name := by
  have hanswers (steps : List ScopeStep) :
      (empty.run steps).Answers (ScopeStack.empty.run steps) := (Mirrors.empty.run steps).answers 0
  refine ⟨(hanswers steps).depth, fun name => ?_, fun inner hinner name => ?_⟩
  · have hget := (hanswers steps).get? name
    refine ⟨hget, ?_, ?_⟩
    · rw [isDeclared, hget]
      exact ScopeStack.isSome_innermost?_iff name _
    · rw [typeOf?, hget]
  · rw [(hanswers _).get?, (hanswers _).get?, ScopeStack.run_append,
      ScopeStack.run_scope hinner]

/-- A variable `x` that hides another one of an outer scope. -/
def sampleOuter : List ScopeStep := [
  .declare "x" (some (.simple .int)) ⟨4, 1, 1, 5⟩, .enter,
  .declare "x" (some (.simple .string)) ⟨15, 1, 2, 8⟩]

/-- In a scope of its own `x` is hidden and then declared again, and hidden once more further in,
in a scope that is closed and in one that comes after it. -/
def sampleInner : List ScopeStep := [
  .declare "x" none ⟨25, 1, 3, 7⟩, .declare "x" (some (.simple .long)) ⟨32, 1, 4, 6⟩,
  .enter, .declare "x" none ⟨40, 1, 5, 6⟩, .declare "y" none ⟨43, 1, 5, 9⟩, .leave,
  .enter, .declare "x" (some (.simple .char)) ⟨50, 1, 6, 6⟩, .leave]

/-- Behind the scope, `x` is the text again, which still hides the number. -/
theorem run_refines_hidden_twice :
    ScopeStep.closes 0 sampleInner = true ∧
      (∀ name, (empty.run (sampleOuter ++ .enter :: (sampleInner ++ [.leave]))).get? name
        = (empty.run sampleOuter).get? name) ∧
      (empty.run sampleOuter).get? "x"
        = some ⟨"x", some (.simple .string), 1, ⟨15, 1, 2, 8⟩⟩ := by
  exact ⟨by decide, (run_refines sampleOuter).2.2 sampleInner (by decide), rfl⟩

end LocalScope

end JavaGraft
