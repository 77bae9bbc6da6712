import JavaGraft.Grammar.Lookahead
import JavaGraft.Proofs.Grammar.Parallel

/-!
# Looking ahead sees kinds only

Whatever is done to the texts and spans of tokens, looking ahead skips the same of them, and so it
decides alike. This is shown for any map of tokens that keeps their kinds; two lists of tokens of
the same kinds become one under the map that keeps nothing else.
-/

namespace JavaGraft.Lookahead

variable {f : Token → Token} (hf : ∀ t, (f t).kind = t.kind)

include hf

/-! ### What is skipped -/

theorem startsWith_map (kind : TokenKind) (ts : List Token) :
    startsWith kind (ts.map f) = startsWith kind ts := by
  cases ts with
  | nil => rfl
  | cons t ts => simp only [startsWith, List.map_cons, List.head?_cons, Option.any_some, hf]

theorem skipTypeArgs_map (depth : Int) (ts : List Token) :
    skipTypeArgs depth (ts.map f) = (skipTypeArgs depth ts).map (List.map f) := by
  induction ts generalizing depth with
  | nil => rfl
  | cons t ts ih =>
    simp only [List.map_cons, skipTypeArgs, hf]
    cases angleChange? t.kind with
    | none => rfl
    | some change =>
      simp only [ih]
      split
      · rfl
      · split <;> rfl

omit hf in
/-- One segment more: its type arguments, and what follows them. -/
theorem skipSegments_succ (n : Nat) (ts : List Token) :
    skipSegments (n + 1) ts
      = (if startsWith Sign.less ts then skipTypeArgs 0 ts else some ts).bind fun ts =>
        match ts with
        | dot :: name :: rest =>
          if dot.kind = Sign.dot ∧ name.kind = .identifier then skipSegments n rest
          else some (dot :: name :: rest)
        | ts => some ts := by
  rw [skipSegments]
  split
  · cases skipTypeArgs 0 ts with
    | none => rfl
    | some us => rcases us with _ | ⟨dot, _ | ⟨name, rest⟩⟩ <;> rfl
  · rcases ts with _ | ⟨dot, _ | ⟨name, rest⟩⟩ <;> rfl

theorem skipSegments_map (n : Nat) (ts : List Token) :
    skipSegments n (ts.map f) = (skipSegments n ts).map (List.map f) := by
  induction n generalizing ts with
  | zero => rfl
  | succ n ih =>
    -- First what may stand in angles, then the dot and the next name.
    have hhead : (if startsWith Sign.less (ts.map f) then skipTypeArgs 0 (ts.map f)
          else some (ts.map f))
        = (if startsWith Sign.less ts then skipTypeArgs 0 ts else some ts).map (List.map f) := by
      rw [startsWith_map hf, skipTypeArgs_map hf]
      split <;> rfl
    rw [skipSegments_succ, skipSegments_succ, hhead]
    generalize (if startsWith Sign.less ts then skipTypeArgs 0 ts else some ts) = rest?
    rcases rest? with _ | (_ | ⟨dot, _ | ⟨name, rest⟩⟩)
    · rfl
    · rfl
    · rfl
    · simp only [Option.map_some, Option.bind_some, List.map_cons, hf, ih]
      split <;> rfl

theorem skipDims_map (ts : List Token) : skipDims (ts.map f) = (skipDims ts).map f := by
  fun_induction skipDims ts with
  | case1 first second rest h ih =>
    simp only [List.map_cons, skipDims, hf, if_pos h, ih]
  | case2 first second rest h => simp only [List.map_cons, skipDims, hf, if_neg h]
  | case3 ts hshort =>
    rcases ts with _ | ⟨t, _ | ⟨u, ts⟩⟩
    · rfl
    · rfl
    · exact (hshort t u ts rfl).elim

theorem skipParens_map (depth : Nat) (ts : List Token) :
    skipParens depth (ts.map f) = (skipParens depth ts).map (List.map f) := by
  induction ts generalizing depth with
  | nil => rfl
  | cons t ts ih =>
    simp only [List.map_cons, skipParens, hf, ih]
    split
    · rfl
    · split
      · split <;> rfl
      · rfl

theorem skipPathTail_map (ts : List Token) :
    skipPathTail (ts.map f) = (skipPathTail ts).map f := by
  fun_induction skipPathTail ts with
  | case1 dot name rest h ih => simp only [List.map_cons, skipPathTail, hf, if_pos h, ih]
  | case2 dot name rest h => simp only [List.map_cons, skipPathTail, hf, if_neg h]
  | case3 ts hshort =>
    rcases ts with _ | ⟨t, _ | ⟨u, ts⟩⟩
    · rfl
    · rfl
    · exact (hshort t u ts rfl).elim

theorem skipAnnot_map (ts : List Token) :
    skipAnnot (ts.map f) = (skipAnnot ts).map (List.map f) := by
  rcases ts with _ | ⟨mark, _ | ⟨name, rest⟩⟩
  · rfl
  · rfl
  · simp only [List.map_cons, skipAnnot, hf, skipPathTail_map hf, startsWith_map hf,
      skipParens_map hf]
    split
    · split <;> rfl
    · rfl

theorem skipAnnots_map (n : Nat) (ts : List Token) :
    skipAnnots n (ts.map f) = (skipAnnots n ts).map (List.map f) := by
  induction n generalizing ts with
  | zero => rfl
  | succ n ih =>
    simp only [skipAnnots, startsWith_map hf, skipAnnot_map hf]
    split
    · cases skipAnnot ts with
      | none => rfl
      | some rest => exact ih rest
    · rfl

theorem skipType_map (ts : List Token) :
    skipType (ts.map f) = (skipType ts).map (List.map f) := by
  simp only [skipType, List.length_map, skipAnnots_map hf]
  rcases skipAnnots (ts.length + 1) ts with _ | (_ | ⟨t, rest⟩)
  · rfl
  · rfl
  · simp only [Option.map_some, Option.bind_eq_bind, Option.bind_some, List.map_cons, hf,
      List.length_map, skipSegments_map hf, skipDims_map hf, Option.map_map]
    split
    · rfl
    · split
      · cases skipSegments (rest.length + 1) rest with
        | none => rfl
        | some ts => simp only [Option.map_some, Function.comp_apply, skipDims_map hf]
      · rfl

theorem afterParens_map (depth : Nat) (ts : List Token) :
    afterParens depth (ts.map f) = (afterParens depth ts).map (List.map f) := by
  induction ts generalizing depth with
  | nil => rfl
  | cons t ts ih =>
    simp only [List.map_cons, afterParens, hf, ih]
    split
    · rfl
    · split
      · split <;> rfl
      · split <;> rfl

/-! ### What is decided -/

theorem isVarDecl_map (ts : List Token) : isVarDecl (ts.map f) = isVarDecl ts := by
  have hstart : isTypeStart (ts.map f) = isTypeStart ts := by
    cases ts with
    | nil => rfl
    | cons t ts => simp only [isTypeStart, List.map_cons, List.head?_cons, Option.any_some, hf]
  rw [isVarDecl, isVarDecl, hstart, skipType_map hf]
  cases skipType ts with
  | none => rfl
  | some rest => simp only [Option.map_some, Option.any_some, startsWith_map hf]

theorem isElementLoop_map (ts : List Token) : isElementLoop (ts.map f) = isElementLoop ts := by
  rw [isElementLoop, isElementLoop, skipType_map hf]
  cases skipType ts with
  | none => rfl
  | some rest => simp only [Option.map_some, Option.any_some, ← List.map_drop, startsWith_map hf]

theorem isLambda_map (ts : List Token) : isLambda (ts.map f) = isLambda ts := by
  rw [isLambda, isLambda, afterParens_map hf]
  cases afterParens 0 ts with
  | none => rfl
  | some rest => simp only [Option.map_some, Option.any_some, startsWith_map hf]

theorem isCast_map (ts : List Token) : isCast (ts.map f) = isCast ts := by
  simp only [isCast, ← List.map_drop, skipType_map hf]
  have hhead : ∀ (p : TokenKind → Bool) (us : List Token),
      ((us.map f).head?.any fun t => p t.kind) = us.head?.any fun t => p t.kind := by
    intro p us
    cases us with
    | nil => rfl
    | cons u us => simp only [List.map_cons, List.head?_cons, Option.any_some, hf]
  rcases skipType (ts.drop 1) with _ | (_ | ⟨close, rest⟩)
  · rfl
  · rfl
  · simp only [Option.map_some, List.map_cons, hf, hhead TokenKind.isPrimitive,
      hhead startsCastOperand]

omit hf

/-! ### Tokens that correspond -/

/-- A token of which nothing but the kind is kept. -/
def bare (t : Token) : Token := ⟨t.kind, "", .absent⟩

variable {c : Correspondence} {ts ts' : List Token}

theorem map_bare_eq (h : List.Forall₂ c.SameToken ts ts') : ts.map bare = ts'.map bare := by
  induction h with
  | nil => rfl
  | cons ht _ ih => rw [List.map_cons, List.map_cons, ih, bare, bare, ht.kind]

/-- A decision that sees kinds only is the same for tokens that correspond. -/
theorem decide_congr {decision : List Token → Bool}
    (hmap : ∀ ts, decision (ts.map bare) = decision ts)
    (h : List.Forall₂ c.SameToken ts ts') : decision ts = decision ts' := by
  rw [← hmap ts, map_bare_eq h, hmap ts']

theorem isVarDecl_congr (h : List.Forall₂ c.SameToken ts ts') : isVarDecl ts = isVarDecl ts' :=
  decide_congr (isVarDecl_map fun _ => rfl) h

theorem isElementLoop_congr (h : List.Forall₂ c.SameToken ts ts') :
    isElementLoop ts = isElementLoop ts' :=
  decide_congr (isElementLoop_map fun _ => rfl) h

theorem isLambda_congr (h : List.Forall₂ c.SameToken ts ts') : isLambda ts = isLambda ts' :=
  decide_congr (isLambda_map fun _ => rfl) h

theorem isCast_congr (h : List.Forall₂ c.SameToken ts ts') : isCast ts = isCast ts' :=
  decide_congr (isCast_map fun _ => rfl) h

end JavaGraft.Lookahead
