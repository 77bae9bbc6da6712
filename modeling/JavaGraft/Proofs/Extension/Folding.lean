import JavaGraft.Proofs.Extension.Meaning

/-!
# Rebuilding only what changes

Putting new callees in copies a type as a whole (`JavaGraft.TypeDecl.applied`). It can be done
without copying what does not change: a counter says how many calls have been replaced so far, and
whatever is rebuilt is dropped in favour of what was there before if the counter has not moved
meanwhile. The arguments of a replaced call are then those that the decision brings, and they are
rebuilt in turn, which goes on as long as decisions are found in the arguments of decisions; so the
depth to which that is done is limited.

If the decisions bring the receivers and arguments of the calls that they are about, both ways agree
as soon as the depth suffices, and the counter says how many new callees were put in
(`JavaGraft.TypeDecl.folded_spec`).
-/

namespace JavaGraft

/-! ### Rebuilding -/

/-- A step of rebuilding a type. It counts the calls that are replaced; nothing comes of it if
decisions are nested too deeply. -/
abbrev Folding := StateT Nat Option

/-- Returns what was there before, unless a call is replaced meanwhile. -/
def Folding.keep {α : Type} (old : α) (fold : Folding α) : Folding α := do
  let before ← get
  let folded ← fold
  return if (← get) = before then old else folded

/-- For the numbers of replaced calls, the new callees and how to rebuild the new arguments. -/
abbrev Swap := Nat → Option (Expr × Folding (List Expr))

open Folding

mutual

/-- Rebuilds an expression. -/
def Expr.folded (swap : Swap) : Expr → Folding Expr
  | .literal v s => return .literal v s
  | .name i => return .name i
  | .this s => return .this s
  | .super s => return .super s
  | .classLit t s => return .classLit t s
  | .call id f as s =>
    match swap id with
    | some (callee, args) => do
      modify (· + 1)
      return .call id callee (← args) s
    | none =>
      keep (.call id f as s)
        ((.call id · · s) <$> f.folded swap <*> keep as (Expr.allFolded swap as))
  | .field e n s => keep (.field e n s) ((.field · n s) <$> e.folded swap)
  | .new t as s => keep (.new t as s) ((.new t · s) <$> keep as (Expr.allFolded swap as))
  | .newAnonymous t as ms s =>
    keep (.newAnonymous t as ms s)
      ((.newAnonymous t · ms s) <$> keep as (Expr.allFolded swap as))
  | .newArray t ds s =>
    keep (.newArray t ds s) ((.newArray t · s) <$> keep ds (Expr.allFolded swap ds))
  | .newArrayOf t ds es b s =>
    keep (.newArrayOf t ds es b s)
      ((.newArrayOf t · · b s) <$> keep ds (Expr.allFolded swap ds)
        <*> keep es (Expr.allFolded swap es))
  | .arrayInit es s =>
    keep (.arrayInit es s) ((.arrayInit · s) <$> keep es (Expr.allFolded swap es))
  | .index a b s => keep (.index a b s) ((.index · · s) <$> a.folded swap <*> b.folded swap)
  | .unary op e s => keep (.unary op e s) ((.unary op · s) <$> e.folded swap)
  | .update e op s => keep (.update e op s) ((.update · op s) <$> e.folded swap)
  | .binary a op b s =>
    keep (.binary a op b s) ((.binary · op · s) <$> a.folded swap <*> b.folded swap)
  | .instanceOf e t n s => keep (.instanceOf e t n s) ((.instanceOf · t n s) <$> e.folded swap)
  | .assign a op b s =>
    keep (.assign a op b s) ((.assign · op · s) <$> a.folded swap <*> b.folded swap)
  | .conditional e a b s =>
    keep (.conditional e a b s)
      ((.conditional · · · s) <$> e.folded swap <*> a.folded swap <*> b.folded swap)
  | .cast t e s => keep (.cast t e s) ((.cast t · s) <$> e.folded swap)
  | .paren e s => keep (.paren e s) ((.paren · s) <$> e.folded swap)
  | .lambda ps e s => keep (.lambda ps e s) ((.lambda ps · s) <$> e.folded swap)
  | .blockLambda ps b s => keep (.blockLambda ps b s) ((.blockLambda ps · s) <$> b.folded swap)
  | .methodRef e n s => keep (.methodRef e n s) ((.methodRef · n s) <$> e.folded swap)

/-- Rebuilds expressions one after the other. -/
def Expr.allFolded (swap : Swap) : List Expr → Folding (List Expr)
  | [] => return []
  | e :: es => (· :: ·) <$> e.folded swap <*> Expr.allFolded swap es

/-- Rebuilds a block. -/
def Block.folded (swap : Swap) : Block → Folding Block
  | ⟨ss, s⟩ => (⟨·, s⟩) <$> keep ss (Stmt.allFolded swap ss)

/-- Rebuilds a statement. -/
def Stmt.folded (swap : Swap) : Stmt → Folding Stmt
  | .block b => keep (.block b) (.block <$> b.folded swap)
  | .localVar m t vs s =>
    keep (.localVar m t vs s) ((.localVar m t · s) <$> keep vs (VarDeclarator.allFolded swap vs))
  | .localType d => return .localType d
  | .expr e s => keep (.expr e s) ((.expr · s) <$> e.folded swap)
  | .ifThen e a s => keep (.ifThen e a s) ((.ifThen · · s) <$> e.folded swap <*> a.folded swap)
  | .ifElse e a b s =>
    keep (.ifElse e a b s)
      ((.ifElse · · · s) <$> e.folded swap <*> a.folded swap <*> b.folded swap)
  | .whileLoop e a s =>
    keep (.whileLoop e a s) ((.whileLoop · · s) <$> e.folded swap <*> a.folded swap)
  | .doLoop a e s => keep (.doLoop a e s) ((.doLoop · · s) <$> a.folded swap <*> e.folded swap)
  | .forLoop i none us a s =>
    keep (.forLoop i none us a s)
      ((.forLoop · none · · s) <$> keep i (Stmt.allFolded swap i)
        <*> keep us (Expr.allFolded swap us) <*> a.folded swap)
  | .forLoop i (some e) us a s =>
    keep (.forLoop i (some e) us a s)
      ((fun i e us a => .forLoop i (some e) us a s) <$> keep i (Stmt.allFolded swap i)
        <*> e.folded swap <*> keep us (Expr.allFolded swap us) <*> a.folded swap)
  | .forEach m t n e a s =>
    keep (.forEach m t n e a s) ((.forEach m t n · · s) <$> e.folded swap <*> a.folded swap)
  | .ret none s => return .ret none s
  | .ret (some e) s => keep (.ret (some e) s) ((fun e => .ret (some e) s) <$> e.folded swap)
  | .breakTo l s => return .breakTo l s
  | .continueTo l s => return .continueTo l s
  | .throwing e s => keep (.throwing e s) ((.throwing · s) <$> e.folded swap)
  | .tryCatch rs b cs none s =>
    keep (.tryCatch rs b cs none s)
      ((.tryCatch · · · none s) <$> keep rs (Stmt.allFolded swap rs) <*> b.folded swap
        <*> keep cs (CatchClause.allFolded swap cs))
  | .tryCatch rs b cs (some f) s =>
    keep (.tryCatch rs b cs (some f) s)
      ((fun rs b cs f => .tryCatch rs b cs (some f) s) <$> keep rs (Stmt.allFolded swap rs)
        <*> b.folded swap <*> keep cs (CatchClause.allFolded swap cs) <*> f.folded swap)
  | .switch e cs s =>
    keep (.switch e cs s)
      ((.switch · · s) <$> e.folded swap <*> keep cs (SwitchCase.allFolded swap cs))
  | .synchronized e b s =>
    keep (.synchronized e b s) ((.synchronized · · s) <$> e.folded swap <*> b.folded swap)
  | .labeled l a s => keep (.labeled l a s) ((.labeled l · s) <$> a.folded swap)
  | .assertion e none s => keep (.assertion e none s) ((.assertion · none s) <$> e.folded swap)
  | .assertion e (some m) s =>
    keep (.assertion e (some m) s)
      ((fun e m => .assertion e (some m) s) <$> e.folded swap <*> m.folded swap)
  | .empty s => return .empty s

/-- Rebuilds statements one after the other. -/
def Stmt.allFolded (swap : Swap) : List Stmt → Folding (List Stmt)
  | [] => return []
  | s :: ss => (· :: ·) <$> s.folded swap <*> Stmt.allFolded swap ss

/-- Rebuilds variables one after the other. -/
def VarDeclarator.allFolded (swap : Swap) : List VarDeclarator → Folding (List VarDeclarator)
  | [] => return []
  | ⟨n, dims, none, s⟩ :: vs => (⟨n, dims, none, s⟩ :: ·) <$> VarDeclarator.allFolded swap vs
  | ⟨n, dims, some e, s⟩ :: vs =>
    (fun e vs => ⟨n, dims, some e, s⟩ :: vs) <$> e.folded swap
      <*> VarDeclarator.allFolded swap vs

/-- Rebuilds handlers one after the other. -/
def CatchClause.allFolded (swap : Swap) : List CatchClause → Folding (List CatchClause)
  | [] => return []
  | ⟨m, ts, n, b, s⟩ :: cs =>
    (fun b cs => ⟨m, ts, n, b, s⟩ :: cs) <$> b.folded swap <*> CatchClause.allFolded swap cs

/-- Rebuilds the groups of a `switch` one after the other. -/
def SwitchCase.allFolded (swap : Swap) : List SwitchCase → Folding (List SwitchCase)
  | [] => return []
  | ⟨ls, ss, s⟩ :: cs =>
    (fun ls ss cs => ⟨ls, ss, s⟩ :: cs) <$> keep ls (Expr.allFolded swap ls)
      <*> keep ss (Stmt.allFolded swap ss) <*> SwitchCase.allFolded swap cs

end

/-- Rebuilds a member. -/
def Member.folded (swap : Swap) : Member → Folding Member
  | .field m t vs s =>
    keep (.field m t vs s) ((.field m t · s) <$> keep vs (VarDeclarator.allFolded swap vs))
  | .method m tps t n ps ts d none s => return .method m tps t n ps ts d none s
  | .method m tps t n ps ts d (some b) s =>
    keep (.method m tps t n ps ts d (some b) s)
      ((fun b => .method m tps t n ps ts d (some b) s) <$> b.folded swap)
  | .constructor m tps n ps ts b s =>
    keep (.constructor m tps n ps ts b s) ((.constructor m tps n ps ts · s) <$> b.folded swap)
  | .initializer st b s => keep (.initializer st b s) ((.initializer st · s) <$> b.folded swap)
  | .type d => return .type d

/-- Rebuilds members one after the other. -/
def Member.allFolded (swap : Swap) : List Member → Folding (List Member)
  | [] => return []
  | m :: ms => (· :: ·) <$> m.folded swap <*> Member.allFolded swap ms

/-- The new callee and arguments that decisions have for a call; the last decision counts. -/
def replacement? (decisions : List Decision) (id : Nat) : Option (Expr × List Expr) :=
  decisions.reverse.findSome? fun
    | .replace call callee args => if call = id then some (callee, args) else none
    | .keep _ => none

/-- What decisions say, their arguments being rebuilt down to a depth. -/
def swapsTo (decisions : List Decision) : Nat → Swap
  | 0 => fun id => (replacement? decisions id).map fun (callee, _) => (callee, failure)
  | depth + 1 => fun id => (replacement? decisions id).map fun (callee, args) =>
      (callee, keep args (Expr.allFolded (swapsTo decisions depth) args))

/-- Modifiers without the annotation at an index, if one is given. -/
def Modifiers.without (m : Modifiers) (strip : Option Nat) : Modifiers :=
  { m with annots := strip.elim m.annots m.annots.eraseIdx }

/-- **Rebuilds a type** with decisions carried out, and without the annotation at an index. The
number of calls that were replaced is returned as well. -/
def TypeDecl.folded (d : TypeDecl) (decisions : List Decision) (strip : Option Nat) (depth : Nat) :
    Option (TypeDecl × Nat) :=
  let fold : Folding TypeDecl := do
    let before ← get
    let members ← keep d.members (Member.allFolded (swapsTo decisions depth) d.members)
    let modifiers := d.modifiers.without strip
    if (← get) = before ∧ modifiers = d.modifiers then return d
    return { d with modifiers, members }
  fold.run 0

/-! ### Decisions that fit -/

/-- **Decisions fit calls** if they have the callees `new` for those that are not foreign, and bring
the receiver and the arguments of a call with its callee. -/
def Fits (decisions : List Decision) (new : Nat → Option Expr) (xs : List (Place × Call)) : Prop :=
  ∀ x ∈ Place.own xs, new x.2.id = (replacement? decisions x.2.id).map Prod.fst ∧
    ∀ callee args, replacement? decisions x.2.id = some (callee, args) →
      args = x.2.receiver :: x.2.args

section

variable {ds before after : List Decision} {new : Nat → Option Expr} {xs ys : List (Place × Call)}

theorem fits_append : Fits ds new (xs ++ ys) ↔ Fits ds new xs ∧ Fits ds new ys := by
  simp only [Fits, Place.own_append, List.forall_mem_append]

/-- What decisions have for a call is a callee with arguments. -/
theorem newCallee?_eq (ds : List Decision) (id : Nat) :
    newCallee? ds id = (replacement? ds id).map Prod.fst := by
  rw [newCallee?, replacement?, List.map_findSome?]
  congr 1
  funext δ
  cases δ with
  | keep r => rfl
  | replace call callee args => by_cases h : call = id <;> simp [h]

/-- What is found is one of the decisions. -/
theorem mem_of_replacement? {id : Nat} {callee : Expr} {args : List Expr}
    (h : replacement? ds id = some (callee, args)) : .replace id callee args ∈ ds := by
  obtain ⟨δ, hδ, hfound⟩ := List.exists_of_findSome?_eq_some h
  rw [List.mem_reverse] at hδ
  cases δ with
  | keep r => cases hfound
  | replace call callee' args' =>
    by_cases hcall : call = id
    · simp only [hcall, if_true, Option.some.injEq, Prod.mk.injEq] at hfound
      obtain ⟨rfl, rfl⟩ := hfound
      rwa [hcall] at hδ
    · simp [hcall] at hfound

/-- A decision on one call is not found for another. -/
theorem replacement?_insert {δ : Decision} {id : Nat}
    (h : ∀ callee args, δ ≠ .replace id callee args) :
    replacement? (before ++ δ :: after) id = replacement? (before ++ after) id := by
  cases δ with
  | keep r => simp [replacement?]
  | replace call callee args =>
    have hcall : call ≠ id := fun heq => h callee args (by rw [heq])
    simp [replacement?, hcall]

end

/-! ### Rebuilding does the same -/

namespace Folding

variable {ds : List Decision} {new : Nat → Option Expr} {n k l : Nat}
  {xs ys : List (Place × Call)} {α β : Type}

/-- **A step that rebuilds**: where the decisions fit the calls `xs` and the depth suffices, it
returns `out` in the place of `old` and counts `k` replaced calls. If there are none to be replaced,
nothing is new. -/
structure Rebuilds (ds : List Decision) (new : Nat → Option Expr) (n : Nat)
    (xs : List (Place × Call)) (fold : Folding α) (old out : α) (k : Nat) : Prop where
  run : Fits ds new xs → k ≤ n → ∀ i, fold.run i = some (out, i + k)
  same : k = 0 → out = old

namespace Rebuilds

variable {fold : Folding α} {old out : α}

/-- Whatever the calls are, none of them matters. -/
theorem pure (a : α) : Rebuilds ds new n xs (Pure.pure a) a a 0 :=
  ⟨fun _ _ _ => rfl, fun _ => rfl⟩

theorem map (f : α → β) (h : Rebuilds ds new n xs fold old out k) :
    Rebuilds ds new n xs (f <$> fold) (f old) (f out) k where
  run hfits hk i := by
    rw [StateT.run_map, h.run hfits hk i]
    rfl
  same hk := congrArg f (h.same hk)

theorem seq {f f' : α → β} {mf : Folding (α → β)} (hf : Rebuilds ds new n xs mf f f' k)
    (h : Rebuilds ds new n ys fold old out l) :
    Rebuilds ds new n (xs ++ ys) (mf <*> fold) (f old) (f' out) (k + l) where
  run hfits hk i := by
    obtain ⟨hxs, hys⟩ := fits_append.mp hfits
    rw [StateT.run_seq, hf.run hxs (by omega) i]
    change (fun p => (f' p.1, p.2)) <$> fold.run (i + k) = _
    rw [h.run hys (by omega) (i + k), Nat.add_assoc]
    rfl
  same hk := by rw [hf.same (by omega), h.same (by omega)]

/-- What is dropped if nothing is replaced is what was there before. -/
theorem keep (h : Rebuilds ds new n xs fold old out k) :
    Rebuilds ds new n xs (Folding.keep old fold) old out k where
  run hfits hk i := by
    change (fold.run i).bind (fun p => some (if p.2 = i then old else p.1, p.2)) = _
    rw [h.run hfits hk i]
    change some (if i + k = i then old else out, i + k) = _
    by_cases hzero : k = 0
    · rw [if_pos (by omega), h.same hzero]
    · rw [if_neg (by omega)]
  same := h.same

/-- Further calls before those that matter. -/
theorem behind (h : Rebuilds ds new n ys fold old out k) :
    Rebuilds ds new n (xs ++ ys) fold old out k :=
  ⟨fun hfits => h.run (fits_append.mp hfits).2, h.same⟩

/-- Further calls after those that matter. -/
theorem ahead (h : Rebuilds ds new n xs fold old out k) :
    Rebuilds ds new n (xs ++ ys) fold old out k :=
  ⟨fun hfits => h.run (fits_append.mp hfits).1, h.same⟩

end Rebuilds

end Folding

open Folding Place

/-- The callees that a call may have, and the receiver that comes of them. -/
theorem Expr.swaps_call (new : Nat → Option Expr) (c : Call) :
    (Expr.call c.id c.callee c.args c.span).swaps new =
      match new c.id with
      | some _ => Expr.allSwaps new (c.receiver :: c.args) + 1
      | none => c.callee.swaps new + Expr.allSwaps new c.args := by
  obtain ⟨id, f, as, s⟩ := c
  cases f with
  | field e n fs => rfl
  | _ =>
    simp only [Expr.swaps, Call.receiver, Call.receiver?, Option.getD_none, Expr.allSwaps]
    cases new id <;> simp

section

-- The linter does not see what the theorems of a mutual block pass on to each other.
set_option linter.unusedSectionVars false

variable {ds : List Decision} {new : Nat → Option Expr} {n : Nat}

/-- All lists of expressions are rebuilt at a depth. -/
def Folding.RebuildsAt (ds : List Decision) (new : Nat → Option Expr) (n : Nat) : Prop :=
  ∀ {p : Place}, p.IsOwn → ∀ es, Rebuilds ds new n (Expr.allCalls p es)
    (Expr.allFolded (swapsTo ds n) es) es (Expr.allSpliced new es)
    (Expr.allSwaps new es)

/-- The calls in a receiver stand in the callee. -/
theorem Call.receiver_fits {p : Place} {c : Call}
    (h : Fits ds new (c.callee.calls p.below ++ Expr.allCalls p.below c.args)) :
    Fits ds new (Expr.allCalls p.below (c.receiver :: c.args)) := by
  obtain ⟨id, f, as, s⟩ := c
  cases f with
  | field e n fs => rwa [Expr.calls, below_below] at h
  | _ => exact (fits_append.mp h).2

/-- **A call is rebuilt** if its parts are, one level of decisions deeper if it is replaced. -/
theorem Call.folded_rebuilds {p : Place} (hp : p.IsOwn) (c : Call)
    (hdeep : ∀ m, n = m + 1 → RebuildsAt ds new m)
    (hcallee : Rebuilds ds new n (c.callee.calls p.below) (c.callee.folded (swapsTo ds n)) c.callee
      (c.callee.spliced new) (c.callee.swaps new))
    (hargs : Rebuilds ds new n (Expr.allCalls p.below c.args) (Expr.allFolded (swapsTo ds n) c.args)
      c.args (Expr.allSpliced new c.args) (Expr.allSwaps new c.args)) :
    let e := Expr.call c.id c.callee c.args c.span
    Rebuilds ds new n (e.calls p) (e.folded (swapsTo ds n)) e (e.spliced new)
      (e.swaps new) := by
  intro e
  have hcalls : e.calls p = [(p, c)] ++ (c.callee.calls p.below ++ Expr.allCalls p.below c.args) :=
    rfl
  have hparts := (hcallee.map (Expr.call c.id · · c.span)).seq hargs.keep
  have hown : (p, c) ∈ own [(p, c)] := by
    rw [own_cons hp]
    exact List.mem_cons_self ..
  rw [hcalls, Expr.spliced_call, Expr.swaps_call]
  refine ⟨fun hfits hk i => ?_, fun hzero => ?_⟩
  · obtain ⟨hcall, hinside⟩ := fits_append.mp hfits
    obtain ⟨hnew, hbring⟩ := hcall _ hown
    cases hfound : replacement? ds c.id with
    | none =>
      have hswap : swapsTo ds n c.id = none := by
        cases n <;> simp [swapsTo, hfound]
      rw [hfound, Option.map_none] at hnew
      rw [hnew] at hk ⊢
      rw [Expr.folded, hswap]
      exact hparts.keep.run hinside hk i
    | some r =>
      obtain ⟨callee, args⟩ := r
      rw [hfound, Option.map_some] at hnew
      rw [hnew] at hk ⊢
      have hdepth : Expr.allSwaps new (c.receiver :: c.args) + 1 ≤ n := hk
      -- The arguments of the decision are those of the call, and one level is left for them.
      obtain rfl : args = c.receiver :: c.args := hbring callee args hfound
      obtain ⟨m, rfl⟩ : ∃ m, n = m + 1 := ⟨n - 1, by omega⟩
      have hrun := ((hdeep m rfl) hp.below (c.receiver :: c.args)).keep.run
        (Call.receiver_fits hinside) (by omega) (i + 1)
      have hswap : swapsTo ds (m + 1) c.id = some (callee, Folding.keep (c.receiver :: c.args)
          (Expr.allFolded (swapsTo ds m) (c.receiver :: c.args))) := by
        simp only [swapsTo, hfound, Option.map_some]
      have hfold : (e.folded (swapsTo ds (m + 1))).run i
          = ((Folding.keep (c.receiver :: c.args)
              (Expr.allFolded (swapsTo ds m) (c.receiver :: c.args))).run (i + 1)).bind
            fun r => some (.call c.id callee r.1 c.span, r.2) := by
        rw [Expr.folded, hswap]
        rfl
      rw [hfold, hrun]
      change some (_, i + 1 + _) = some (_, i + (_ + 1))
      rw [Nat.add_right_comm, Nat.add_assoc]
      rfl
  · cases hnew : new c.id with
    | none =>
      rw [hnew] at hzero
      exact hparts.same hzero
    | some g =>
      rw [hnew] at hzero
      exact absurd hzero (Nat.succ_ne_zero _)

variable (hdeep : ∀ m, n = m + 1 → RebuildsAt ds new m)

include hdeep

mutual

theorem Expr.folded_rebuilds {p : Place} (hp : p.IsOwn) : ∀ e : Expr,
    Rebuilds ds new n (e.calls p) (e.folded (swapsTo ds n)) e (e.spliced new)
      (e.swaps new)
  | .literal .. | .name _ | .this _ | .super _ | .classLit .. => .pure _
  | .call id f as s =>
    Call.folded_rebuilds hp ⟨id, f, as, s⟩ hdeep (Expr.folded_rebuilds hp.below f)
      (Expr.allFolded_rebuilds hp.below as)
  | .field e n s => ((Expr.folded_rebuilds hp.below e).map (Expr.field · n s)).keep
  | .new t as s => ((Expr.allFolded_rebuilds hp.below as).keep.map (Expr.new t · s)).keep
  | .newAnonymous t as ms s =>
    ((Expr.allFolded_rebuilds hp.below as).keep.map (Expr.newAnonymous t · ms s)).keep.ahead
  | .newArray t es s => ((Expr.allFolded_rebuilds hp.below es).keep.map (Expr.newArray t · s)).keep
  | .newArrayOf t as es b s =>
    (((Expr.allFolded_rebuilds hp.below as).keep.map (Expr.newArrayOf t · · b s)).seq
      (Expr.allFolded_rebuilds hp.below es).keep).keep
  | .arrayInit es s => ((Expr.allFolded_rebuilds hp.below es).keep.map (Expr.arrayInit · s)).keep
  | .index a b s =>
    (((Expr.folded_rebuilds hp.below a).map (Expr.index · · s)).seq
      (Expr.folded_rebuilds hp.below b)).keep
  | .unary op e s => ((Expr.folded_rebuilds hp.below e).map (Expr.unary op · s)).keep
  | .update e op s => ((Expr.folded_rebuilds hp.below e).map (Expr.update · op s)).keep
  | .binary a op b s =>
    (((Expr.folded_rebuilds hp.below a).map (Expr.binary · op · s)).seq
      (Expr.folded_rebuilds hp.below b)).keep
  | .instanceOf e t n s => ((Expr.folded_rebuilds hp.below e).map (Expr.instanceOf · t n s)).keep
  | .assign a op b s =>
    (((Expr.folded_rebuilds hp.below a).map (Expr.assign · op · s)).seq
      (Expr.folded_rebuilds hp.below b)).keep
  | .conditional e a b s =>
    ((((Expr.folded_rebuilds hp.below e).map (Expr.conditional · · · s)).seq
      (Expr.folded_rebuilds hp.below a)).seq (Expr.folded_rebuilds hp.below b)).keep
  | .cast t e s => ((Expr.folded_rebuilds hp.below e).map (Expr.cast t · s)).keep
  | .paren e s => ((Expr.folded_rebuilds hp e).map (Expr.paren · s)).keep
  | .lambda ps e s => ((Expr.folded_rebuilds hp.below e).map (Expr.lambda ps · s)).keep
  | .blockLambda ps b s => ((Block.folded_rebuilds hp.below b).map (Expr.blockLambda ps · s)).keep
  | .methodRef e n s => ((Expr.folded_rebuilds hp.below e).map (Expr.methodRef · n s)).keep

theorem Expr.allFolded_rebuilds {p : Place} (hp : p.IsOwn) : ∀ es : List Expr,
    Rebuilds ds new n (Expr.allCalls p es) (Expr.allFolded (swapsTo ds n) es) es
      (Expr.allSpliced new es) (Expr.allSwaps new es)
  | [] => .pure _
  | e :: es =>
    ((Expr.folded_rebuilds hp e).map (· :: ·)).seq (Expr.allFolded_rebuilds hp es)

theorem Block.folded_rebuilds {p : Place} (hp : p.IsOwn) : ∀ b : Block,
    Rebuilds ds new n (b.calls p) (b.folded (swapsTo ds n)) b (b.spliced new)
      (b.swaps new)
  | ⟨ss, s⟩ => (Stmt.allFolded_rebuilds hp ss).keep.map (Block.mk · s)

theorem Stmt.folded_rebuilds {p : Place} (hp : p.IsOwn) : ∀ s : Stmt,
    Rebuilds ds new n (s.calls p) (s.folded (swapsTo ds n)) s (s.spliced new)
      (s.swaps new)
  | .block b => ((Block.folded_rebuilds hp b).map Stmt.block).keep
  | .localVar m t vs s =>
    ((VarDeclarator.allFolded_rebuilds hp.filled vs).keep.map (Stmt.localVar m t · s)).keep.behind
  | .localType d => .pure (Stmt.localType d)
  | .breakTo .. | .continueTo .. | .empty _ | .ret none _ => .pure _
  | .expr e s => ((Expr.folded_rebuilds hp.filled e).map (Stmt.expr · s)).keep
  | .ret (some e) s => ((Expr.folded_rebuilds hp.filled e).map fun e => Stmt.ret (some e) s).keep
  | .throwing e s => ((Expr.folded_rebuilds hp.filled e).map (Stmt.throwing · s)).keep
  | .ifThen e a s =>
    (((Expr.folded_rebuilds hp.filled e).map (Stmt.ifThen · · s)).seq
      (Stmt.folded_rebuilds hp a)).keep
  | .ifElse e a b s =>
    ((((Expr.folded_rebuilds hp.filled e).map (Stmt.ifElse · · · s)).seq
      (Stmt.folded_rebuilds hp a)).seq (Stmt.folded_rebuilds hp b)).keep
  | .whileLoop e a s =>
    (((Expr.folded_rebuilds hp.filled e).map (Stmt.whileLoop · · s)).seq
      (Stmt.folded_rebuilds hp a)).keep
  | .doLoop a e s =>
    (((Stmt.folded_rebuilds hp a).map (Stmt.doLoop · · s)).seq
      (Expr.folded_rebuilds hp.filled e)).keep
  | .forLoop i none us a s =>
    ((((Stmt.allFolded_rebuilds hp i).keep.map (Stmt.forLoop · none · · s)).ahead.seq
      (Expr.allFolded_rebuilds hp.filled us).keep).seq (Stmt.folded_rebuilds hp a)).keep
  | .forLoop i (some e) us a s =>
    (((((Stmt.allFolded_rebuilds hp i).keep.map fun i e us a => Stmt.forLoop i (some e) us a s).seq
      (Expr.folded_rebuilds hp.filled e)).seq (Expr.allFolded_rebuilds hp.filled us).keep).seq
      (Stmt.folded_rebuilds hp a)).keep
  | .forEach m t n e a s =>
    (((Expr.folded_rebuilds hp.filled e).map (Stmt.forEach m t n · · s)).behind.seq
      (Stmt.folded_rebuilds hp a)).keep
  | .tryCatch rs b cs none s =>
    ((((Stmt.allFolded_rebuilds hp rs).keep.map (Stmt.tryCatch · · · none s)).seq
      (Block.folded_rebuilds hp b)).seq (CatchClause.allFolded_rebuilds hp cs).keep).keep.ahead
  | .tryCatch rs b cs (some f) s =>
    (((((Stmt.allFolded_rebuilds hp rs).keep.map
      fun rs b cs f => Stmt.tryCatch rs b cs (some f) s).seq
      (Block.folded_rebuilds hp b)).seq (CatchClause.allFolded_rebuilds hp cs).keep).seq
      (Block.folded_rebuilds hp f)).keep
  | .switch e cs s =>
    (((Expr.folded_rebuilds hp.filled e).map (Stmt.switch · · s)).seq
      (SwitchCase.allFolded_rebuilds hp cs).keep).keep
  | .synchronized e b s =>
    (((Expr.folded_rebuilds hp.filled e).map (Stmt.synchronized · · s)).seq
      (Block.folded_rebuilds hp b)).keep
  | .labeled l a s => ((Stmt.folded_rebuilds hp a).map (Stmt.labeled l · s)).keep
  | .assertion e none s =>
    ((Expr.folded_rebuilds hp.filled e).map (Stmt.assertion · none s)).keep.ahead
  | .assertion e (some m) s =>
    (((Expr.folded_rebuilds hp.filled e).map fun e m => Stmt.assertion e (some m) s).seq
      (Expr.folded_rebuilds hp.filled m)).keep

theorem Stmt.allFolded_rebuilds {p : Place} (hp : p.IsOwn) : ∀ ss : List Stmt,
    Rebuilds ds new n (Stmt.allCalls p ss) (Stmt.allFolded (swapsTo ds n) ss) ss
      (Stmt.allSpliced new ss) (Stmt.allSwaps new ss)
  | [] => .pure _
  | s :: ss => ((Stmt.folded_rebuilds hp s).map (· :: ·)).seq (Stmt.allFolded_rebuilds hp ss)

theorem VarDeclarator.allFolded_rebuilds {p : Place} (hp : p.IsOwn) : ∀ vs : List VarDeclarator,
    Rebuilds ds new n (VarDeclarator.allCalls p vs) (VarDeclarator.allFolded (swapsTo ds n) vs) vs
      (VarDeclarator.allSpliced new vs) (VarDeclarator.allSwaps new vs)
  | [] => .pure _
  | ⟨n, dims, none, s⟩ :: vs =>
    (VarDeclarator.allFolded_rebuilds hp vs).map (VarDeclarator.mk n dims none s :: ·)
  | ⟨n, dims, some e, s⟩ :: vs =>
    ((Expr.folded_rebuilds hp e).map fun e vs => VarDeclarator.mk n dims (some e) s :: vs).seq
      (VarDeclarator.allFolded_rebuilds hp vs)

theorem CatchClause.allFolded_rebuilds {p : Place} (hp : p.IsOwn) : ∀ cs : List CatchClause,
    Rebuilds ds new n (CatchClause.allCalls p cs) (CatchClause.allFolded (swapsTo ds n) cs) cs
      (CatchClause.allSpliced new cs) (CatchClause.allSwaps new cs)
  | [] => .pure _
  | ⟨m, ts, n, b, s⟩ :: cs =>
    ((Block.folded_rebuilds hp b).map fun b cs => CatchClause.mk m ts n b s :: cs).behind.seq
      (CatchClause.allFolded_rebuilds hp cs)

theorem SwitchCase.allFolded_rebuilds {p : Place} (hp : p.IsOwn) : ∀ cs : List SwitchCase,
    Rebuilds ds new n (SwitchCase.allCalls p cs) (SwitchCase.allFolded (swapsTo ds n) cs) cs
      (SwitchCase.allSpliced new cs) (SwitchCase.allSwaps new cs)
  | [] => .pure _
  | ⟨ls, ss, s⟩ :: cs =>
    (((Expr.allFolded_rebuilds hp.below ls).keep.map
      fun ls ss cs => SwitchCase.mk ls ss s :: cs).seq
      (Stmt.allFolded_rebuilds hp ss).keep).seq (SwitchCase.allFolded_rebuilds hp cs)

end

theorem Member.folded_rebuilds (m : Member) :
    Rebuilds ds new n (m.calls .inside) (m.folded (swapsTo ds n)) m (m.spliced new)
      (m.swaps new) := by
  cases m with
  | field m t vs s =>
    exact ((VarDeclarator.allFolded_rebuilds hdeep Place.isOwn_slot vs).keep.map
      (Member.field m t · s)).keep.behind
  | method m tps t n ps ts d b s =>
    cases b with
    | none => exact .pure (Member.method m tps t n ps ts d none s)
    | some b =>
      exact ((Block.folded_rebuilds hdeep Place.isOwn_inside b).map
        fun b => Member.method m tps t n ps ts d (some b) s).keep.behind
  | constructor m tps n ps ts b s =>
    exact ((Block.folded_rebuilds hdeep Place.isOwn_inside b).map
      (Member.constructor m tps n ps ts · s)).keep.behind
  | initializer st b s =>
    exact ((Block.folded_rebuilds hdeep Place.isOwn_inside b).map (Member.initializer st · s)).keep
  | type d => exact .pure (Member.type d)

theorem Member.allFolded_rebuilds (ms : List Member) :
    Rebuilds ds new n (Member.allCalls .inside ms) (Member.allFolded (swapsTo ds n) ms) ms
      (ms.map (·.spliced new)) (Member.allSwaps new ms) := by
  induction ms with
  | nil => exact .pure _
  | cons m ms ih => exact ((Member.folded_rebuilds hdeep m).map (· :: ·)).seq ih

end

/-- **At every depth, expressions are rebuilt** as far as the depth suffices. -/
theorem Folding.rebuildsAt (ds : List Decision) (new : Nat → Option Expr) (n : Nat) :
    RebuildsAt ds new n := by
  induction n with
  | zero => exact fun hp es => Expr.allFolded_rebuilds (fun m hm => absurd hm (by omega)) hp es
  | succ n ih =>
    refine fun hp es => Expr.allFolded_rebuilds (fun m hm => ?_) hp es
    obtain rfl : n = m := by omega
    exact ih

/-! ### The whole type -/

theorem Modifiers.without_none (m : Modifiers) : m.without none = m := by
  cases m
  rfl

namespace TypeDecl

variable {d : TypeDecl} {ds : List Decision} {new : Nat → Option Expr} {n : Nat}

/-- With the modifiers and members that it has, a type is as it is. -/
theorem with_same (d : TypeDecl) {modifiers : Modifiers} {members : List Member}
    (hmodifiers : modifiers = d.modifiers) (hmembers : members = d.members) :
    { d with modifiers, members } = d := by
  subst hmodifiers hmembers
  cases d
  rfl

/-- A type is rebuilt by putting in the new callees and dropping the annotation. -/
theorem folded_eq (hfits : Fits ds new (Member.allCalls .inside d.members))
    (hn : Member.allSwaps new d.members ≤ n) (strip : Option Nat) :
    d.folded ds strip n = some ({ d with
      modifiers := d.modifiers.without strip
      members := d.members.map (·.spliced new) }, Member.allSwaps new d.members) := by
  have hmembers :=
    (Member.allFolded_rebuilds (n := n) (fun m _ => rebuildsAt ds new m) d.members).keep
  have hfold : d.folded ds strip n
      = ((keep d.members (Member.allFolded (swapsTo ds n) d.members)).run 0).bind fun p =>
        (if p.2 = 0 ∧ d.modifiers.without strip = d.modifiers then pure d
          else pure { d with modifiers := d.modifiers.without strip, members := p.1 }
          : Folding TypeDecl).run p.2 := rfl
  rw [hfold, hmembers.run hfits hn 0, Nat.zero_add, Option.bind_some]
  split
  · next hsame =>
    rw [d.with_same hsame.2 (hmembers.same hsame.1)]
    rfl
  · rfl

/-- Decisions that bring receivers and arguments fit with the callees that they have. -/
theorem fits_of_args
    (hargs : ∀ x ∈ Place.own (Member.allCalls .inside d.members), ∀ callee args,
      .replace x.2.id callee args ∈ ds → args = x.2.receiver :: x.2.args) :
    Fits ds (newCallee? ds) (Member.allCalls .inside d.members) :=
  fun x hx => ⟨newCallee?_eq ds x.2.id,
    fun callee args hfound => hargs x hx callee args (mem_of_replacement? hfound)⟩

/-- **A decision on no call of the own code of a member changes nothing.** -/
theorem folded_insert {before after : List Decision} {δ : Decision}
    (hδ : ∀ x ∈ Place.own (Member.allCalls .inside d.members), ∀ callee args,
      δ ≠ .replace x.2.id callee args)
    (hfits : Fits (before ++ δ :: after) new (Member.allCalls .inside d.members))
    (hn : Member.allSwaps new d.members ≤ n) (strip : Option Nat) :
    d.folded (before ++ after) strip n = d.folded (before ++ δ :: after) strip n := by
  have hfits' : Fits (before ++ after) new (Member.allCalls .inside d.members) := by
    intro x hx
    rw [← replacement?_insert (hδ x hx)]
    exact hfits x hx
  rw [folded_eq hfits hn, folded_eq hfits' hn]

/-- What stands in a type, seen from the code of its members. -/
def memberCalls (d : TypeDecl) : List (Place × Call) :=
  d.outsideCalls .foreign ++ Member.allCalls .inside d.members

/-- The place from which they are seen does not change the numbers. -/
theorem map_memberCalls (d : TypeDecl) : d.memberCalls.map (fun x => x.2.id) = d.callIds := by
  have hhide := congrArg (List.map fun x : Place × Call => x.2.id)
    (Member.allMap_hide .inside d.members)
  rw [List.map_map] at hhide
  rw [memberCalls, callIds, calls_eq, ← Member.allCalls_eq_flatMap, List.map_append,
    List.map_append, ← hhide]
  rfl

/-- If no two calls have the same number, a foreign call has that of no call of the own code. -/
theorem ne_of_foreign (hd : d.callIds.Nodup) {x y : Place × Call} (hx : x ∈ d.memberCalls)
    (hforeign : x.1 = .foreign) (hy : y ∈ Place.own (Member.allCalls .inside d.members)) :
    x.2.id ≠ y.2.id := by
  intro hid
  obtain ⟨hmem, hown⟩ := List.mem_filter.mp hy
  rw [← map_memberCalls] at hd
  obtain rfl := List.inj_on_of_nodup_map hd hx (List.mem_append_right _ hmem) hid
  exact of_decide_eq_true hown hforeign

/-- **Rebuilding is substituting.** If the decisions bring the receivers and arguments of the calls
of the members' own code that they replace, rebuilding puts the new callees in and drops one
annotation, and it counts the calls that are replaced. A decision on a foreign call makes no
difference, and with nothing to replace and nothing to drop the type comes back as it was. -/
theorem folded_spec (d : TypeDecl) (ds : List Decision) (strip : Option Nat) {n : Nat}
    (hargs : ∀ x ∈ Member.allCalls .inside d.members, x.1 ≠ .foreign → ∀ callee args,
      .replace x.2.id callee args ∈ ds → args = x.2.receiver :: x.2.args)
    (hn : d.replacedCount ds ≤ n) :
    d.folded ds strip n = some ({ d with
        modifiers := d.modifiers.without strip
        members := d.members.map (·.spliced (newCallee? ds)) }, d.replacedCount ds) ∧
      (∀ annot, strip = annot.map d.modifiers.annots.idxOf →
        d.folded ds strip n = some (d.applied ds annot, d.replacedCount ds)) ∧
      (d.callIds.Nodup → ∀ x ∈ d.memberCalls, x.1 = .foreign → ∀ before callee args after,
        ds = before ++ .replace x.2.id callee args :: after →
          d.folded (before ++ after) strip n = d.folded ds strip n) ∧
      (d.replacedCount ds = 0 → strip = none → d.folded ds strip n = some (d, 0)) := by
  have hfits : Fits ds (newCallee? ds) (Member.allCalls .inside d.members) := by
    refine fits_of_args fun x hx => ?_
    obtain ⟨hmem, hown⟩ := List.mem_filter.mp hx
    exact hargs x hmem (of_decide_eq_true hown)
  have hfolded := folded_eq hfits hn strip
  refine ⟨hfolded, fun annot hstrip => ?_, fun hd x hx hforeign before callee args after hds => ?_,
    fun hzero hstrip => ?_⟩
  · rw [hfolded, applied, hstrip]
    cases annot with
    | none => rfl
    | some a =>
      rw [Modifiers.without, Option.map_some, Option.elim_some, Option.elim_some,
        List.erase_eq_eraseIdx_of_idxOf rfl]
      rfl
  · subst hds
    refine folded_insert (fun y hy callee' args' heq => ?_) hfits hn strip
    exact ne_of_foreign hd hx hforeign hy (Decision.replace.inj heq).1
  · have hmembers := (Member.allFolded_rebuilds (n := n)
      (fun m _ => rebuildsAt ds (newCallee? ds) m) d.members).same hzero
    rw [hfolded, hstrip, d.with_same d.modifiers.without_none hmembers]
    exact congrArg (fun k => some (d, k)) hzero

/-- In `Sample.withMember` the call `tag()` becomes `f(this)`, and the annotation is dropped. -/
theorem folded_spec_sample :
    Sample.withMember.folded [.replace 0 (.name (Sample.ident "f")) [.this .absent]] (some 0) 1
      = some (Sample.withMember.applied [.replace 0 (.name (Sample.ident "f")) [.this .absent]]
          (some Sample.annot), 1) :=
  (folded_spec Sample.withMember [.replace 0 (.name (Sample.ident "f")) [.this .absent]] (some 0)
    (by
      intro x hx _ callee args hδ
      obtain rfl := List.mem_singleton.mp hx
      obtain ⟨-, -, rfl⟩ := Decision.replace.inj (List.mem_singleton.mp hδ)
      rfl) Nat.one_pos).2.1 (some Sample.annot) (by decide)

end TypeDecl

end JavaGraft
