import JavaGraft.Grammar.Knot
import JavaGraft.Proofs.Grammar.Declarations

/-!
# The numbers of calls are relative

The whole grammar has corresponding runs, and with it the parser of source files
(`JavaGraft.Correspondence.SameState.parsedUnit`). In particular, starting the numbers of calls
elsewhere moves all of them by the same amount and changes nothing else
(`JavaGraft.parseUnit_shift`).
-/

namespace JavaGraft

open Correspondence

variable {c : Correspondence}

/-! ### The grammar -/

theorem Correspondence.respects_over {g g' : Rules} (hg : c.Respects g g') {rounds rounds' : Nat}
    (hrounds : c.SameRounds rounds rounds') : c.Respects (g.over rounds) (g'.over rounds') where
  rounds := hrounds
  expr := Grammar.parallel_expr hg
  type := Grammar.parallel_type hg
  annot := Grammar.parallel_annot hg
  element := Grammar.parallel_element hg
  block := Grammar.parallel_block hg
  stmt := Grammar.parallel_stmt hg
  classBody := Grammar.parallel_classBody hg
  typeDecl _ _ hm := Grammar.parallel_typeDecl hg hm

/-- **Grammars of every depth have corresponding runs**, and the second one may be deeper if its
bounds may be wider. -/
theorem Correspondence.respects_grammar {n m : Nat} (h : c.SameRounds n m) :
    c.Respects (grammar n) (grammar m) := by
  induction n generalizing m with
  | zero =>
    rcases h with rfl | ⟨hwider, -⟩
    · exact c.respects_none
    · exact respects_none_left hwider _
  | succ n ih =>
    obtain ⟨m, rfl, hless⟩ := h.succ
    exact respects_over (ih hless) hless

/-! ### Running a rule -/

theorem Correspondence.SameState.depth {s s' : ParserState} (h : c.SameState s s') :
    s.depth = s'.depth := by
  -- The depth comes from the weights of the tokens, which are those of their kinds.
  have hweight : ∀ {ts ts'}, List.Forall₂ c.SameToken ts ts' →
      Token.totalWeight ts = Token.totalWeight ts' := by
    intro ts ts' hts
    induction hts with
    | nil => rfl
    | cons ht _ ih =>
      rw [Token.totalWeight, Token.totalWeight, ih, Token.weight, Token.weight, ht.kind]
  rw [ParserState.depth, ParserState.depth, ParserState.remaining, ParserState.remaining,
    hweight h.ahead]

/-- What a run ends with, in two runs that correspond: a value or an error. -/
inductive Correspondence.SameEnd (c : Correspondence) {α : Type} (R : α → α → Prop) :
    Except ParseError α → Except ParseError α → Prop
  | ok {a a' : α} (h : R a a') : SameEnd c R (.ok a) (.ok a')
  | error {e e' : ParseError} (h : c.Same ParseError.relabeled e e') :
    SameEnd c R (.error e) (.error e')

theorem Parser.run_same {α : Type} {R : α → α → Prop} {rule : Rules → Parser α}
    (hrule : ∀ g, c.Respects g g → c.Parallel R (rule g) (rule g)) (hwider : ¬c.wider)
    {s s' : ParserState} (hs : c.SameState s s') :
    c.SameEnd R (run rule s).1 (run rule s').1 ∧ c.SameState (run rule s).2 (run rule s').2 := by
  have h := (hrule _ (respects_grammar (n := s'.depth) (.inl rfl)) s s' hs).resolve_left
    fun h => hwider h.1
  rw [run, run, hs.depth]
  revert h
  cases rule (grammar s'.depth) s with
  | ok a t =>
    cases rule (grammar s'.depth) s' with
    | ok a' t' => exact fun h => ⟨.ok h.1, h.2⟩
    | error e' t' => exact False.elim
  | error e t =>
    cases rule (grammar s'.depth) s' with
    | ok a' t' => exact False.elim
    | error e' t' =>
      rintro ⟨he, ht⟩
      cases e with
      | rejected e =>
        cases e' with
        | rejected e' => exact ⟨.error (Failure.rejected.inj he), ht⟩
        | exhausted => cases he
      | exhausted =>
        cases e' with
        | rejected e' => cases he
        | exhausted =>
          refine ⟨.error ?_, ht⟩
          simp only [Same, ParseError.relabeled, ParseFault.relabeled, ht.next.span]

/-! ### Source files -/

/-- What is read of a source file from a state on. -/
def ParserState.parsedUnit (s : ParserState) : ParsedUnit :=
  match Parser.run Grammar.sourceUnit s with
  | (.ok unit, t) => ⟨unit, t.errors, t.nextCall⟩
  | (.error e, t) => ⟨⟨none, [], [], s.next.span⟩, t.errors ++ [e], t.nextCall⟩

theorem parseUnit_eq (source : List Char) (n : Nat) :
    parseUnit source n = (ParserState.ofSource source n).parsedUnit := rfl

/-- **Two readings of a source file.** From states that correspond, units and errors are read that
correspond, and so do the numbers that follow. -/
theorem Correspondence.SameState.parsedUnit (hwider : ¬c.wider) {s s' : ParserState}
    (h : c.SameState s s') :
    c.Same SourceUnit.relabeled s.parsedUnit.unit s'.parsedUnit.unit ∧
      c.earlier ++ s.parsedUnit.errors.map (ParseError.relabeled c.left)
        = s'.parsedUnit.errors.map (ParseError.relabeled c.right) ∧
      c.left.call s.parsedUnit.nextCall = c.right.call s'.parsedUnit.nextCall := by
  have hrun := Parser.run_same (fun g hg => Grammar.parallel_sourceUnit hg) hwider h
  rw [ParserState.parsedUnit, ParserState.parsedUnit]
  revert hrun
  generalize Parser.run Grammar.sourceUnit s = r
  generalize Parser.run Grammar.sourceUnit s' = r'
  obtain ⟨r, t⟩ := r
  obtain ⟨r', t'⟩ := r'
  rintro ⟨hr, ht⟩
  cases hr with
  | ok hu => exact ⟨hu, ht.errors, ht.calls 0⟩
  | error he =>
    refine ⟨?_, ?_, ht.calls 0⟩
    · simp only [Same, SourceUnit.relabeled, Option.map_none, List.map_nil, h.next.span]
    · simp only [List.map_append, List.map_cons, List.map_nil, ← List.append_assoc, ht.errors, he]

/-- The correspondence between numbers from zero on and numbers from `n` on. -/
def Correspondence.shift (n : Nat) : Correspondence := ⟨.shift n, .same, .inl ⟨rfl, rfl⟩, [], False⟩

theorem Correspondence.sameToken_shift (n : Nat) (t : Token) : (shift n).SameToken t t :=
  ⟨rfl, rfl, rfl⟩

theorem ParseError.relabeled_of_span {ρ : Relabeling} (h : ρ.span = id) (e : ParseError) :
    e.relabeled ρ = e := by
  obtain ⟨fault, span⟩ := e
  cases fault <;> simp only [relabeled, ParseFault.relabeled, LexError.relabeled, h, id_eq]

/-- **The numbers of calls start where they are told to.** Starting them at `n` moves all of them,
and the number behind them, by `n`. -/
theorem parseUnit_shift (source : List Char) (n : Nat) :
    parseUnit source n
      = ⟨(parseUnit source 0).unit.relabeled (.shift n), (parseUnit source 0).errors,
        (parseUnit source 0).nextCall + n⟩ := by
  have hstart : (Correspondence.shift n).SameState (.ofSource source 0) (.ofSource source n) :=
    ⟨.inr .nil, List.forall₂_same.mpr fun t _ => sameToken_shift n t, sameToken_shift n _, rfl,
      fun i => by simp only [Correspondence.shift, Relabeling.shift, Relabeling.same, id_eq,
        ParserState.ofSource]; omega⟩
  obtain ⟨hunit, herrors, hcalls⟩ := hstart.parsedUnit id
  -- A shift leaves spans alone, so the errors are the same and not only correspond.
  have hleft : ParseError.relabeled (Correspondence.shift n).left = id :=
    funext (ParseError.relabeled_of_span rfl)
  have hright : ParseError.relabeled (Correspondence.shift n).right = id :=
    funext (ParseError.relabeled_of_span rfl)
  have hempty : (Correspondence.shift n).earlier = [] := rfl
  rw [hleft, hright, List.map_id, List.map_id, hempty, List.nil_append] at herrors
  simp only [Correspondence.shift, Same, SourceUnit.relabeled_same] at hunit
  rw [parseUnit_eq, parseUnit_eq, herrors, hunit]
  exact congrArg (ParsedUnit.mk _ _) hcalls.symm

end JavaGraft
