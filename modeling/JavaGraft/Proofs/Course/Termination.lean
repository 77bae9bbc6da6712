import JavaGraft.Proofs.Course.Units
import JavaGraft.Proofs.Grammar.Numbering
import JavaGraft.Proofs.Grammar.Precedence

/-!
# Every source is read in finite time

A rule of the grammar calls itself, by way of others, as deeply as the source requires. The depth of
a grammar bounds that, and a run that gets to the bound is exhausted. Whatever a run does before
that it does at every greater depth as well (`JavaGraft.eq_or_exhausted`), so a rule *comes to an
end* from a state if it is not exhausted at some depth. All rules do so from every state
(`JavaGraft.ParserState.terminating`).

The reason is that everything goes on through the source. The measure is the number of times
something can be taken from the tokens ahead: once from each of them, and once for each angle of
those that several lists of type arguments may be closed with. Single tokens alone would not do,
since taking an angle off a token leaves as many tokens as before.
-/

namespace JavaGraft

/-! ### Deeper grammars -/

/-- The correspondence between a run and the same one at a greater depth. -/
def Correspondence.deeper : Correspondence := ⟨.same, .same, .inl ⟨rfl, rfl⟩, [], True⟩

namespace Correspondence

theorem sameToken_deeper {t t' : Token} : deeper.SameToken t t' ↔ t = t' := by
  refine ⟨fun h => ?_, fun h => h ▸ ⟨rfl, rfl, rfl⟩⟩
  obtain ⟨kind, text, span⟩ := t
  obtain ⟨hkind, htext, hspan⟩ := h
  obtain rfl := hkind
  obtain rfl := htext
  obtain rfl : span = t'.span := hspan
  rfl

theorem sameTokens_deeper {ts ts' : List Token} :
    List.Forall₂ deeper.SameToken ts ts' ↔ ts = ts' := by
  have heq : deeper.SameToken = Eq := funext fun _ => funext fun _ => propext sameToken_deeper
  rw [heq, List.forall₂_eq_eq_eq]

theorem relabeled_deeper (e : ParseError) : e.relabeled .same = e :=
  ParseError.relabeled_of_span rfl e

/-- States that correspond are the same. -/
theorem sameState_deeper {s s' : ParserState} : deeper.SameState s s' ↔ s = s' := by
  have hid : ParseError.relabeled .same = id := funext relabeled_deeper
  refine ⟨fun h => ?_, fun h => h ▸ ⟨.inr (sameTokens_deeper.mpr rfl), sameTokens_deeper.mpr rfl,
    sameToken_deeper.mpr rfl, by simp [deeper], fun _ => rfl⟩⟩
  have hconsumed : s.consumed = s'.consumed := by
    rcases h.consumed with hany | hconsumed
    · -- not all spans are the same
      have hspan : Span.absent = ⟨0, 0, 1, 1⟩ := hany _ _
      cases hspan
    · exact sameTokens_deeper.mp hconsumed
  have hahead := sameTokens_deeper.mp h.ahead
  have hfinish := sameToken_deeper.mp h.finish
  have herrors : s.errors = s'.errors := by simpa [deeper, hid] using h.errors
  have hcall : s.nextCall = s'.nextCall := h.calls 0
  obtain ⟨consumed, ahead, finish, errors, nextCall⟩ := s
  simp only at hconsumed hahead hfinish herrors hcall
  rw [hconsumed, hahead, hfinish, herrors, hcall]

variable {α : Type} {f : Relabeling → α → α}

/-- Values that correspond are the same, if the relabelling that keeps all labels keeps them. -/
theorem eq_of_same (hf : ∀ a, f .same a = a) (a b : α) (h : deeper.Same f a b) : a = b :=
  (hf a).symm.trans (h.trans (hf b))

theorem eq_of_sameOption (hf : ∀ a, f .same a = a) (a b : Option α)
    (h : deeper.SameOption f a b) : a = b := by
  have hid : f .same = id := funext hf
  have hsame : a.map (f .same) = b.map (f .same) := h
  simpa [hid] using hsame

theorem eq_of_sameList (hf : ∀ a, f .same a = a) (as bs : List α) (h : deeper.SameList f as bs) :
    as = bs := by
  have hid : f .same = id := funext hf
  have hsame : as.map (f .same) = bs.map (f .same) := h
  simpa [hid] using hsame

end Correspondence

open Correspondence

variable {α : Type} {rule : Rules → Parser α}

/-- **A deeper grammar does the same**, unless the first run is exhausted. -/
theorem eq_or_exhausted {R : α → α → Prop} (hR : ∀ a a', R a a' → a = a')
    (hrule : ∀ g g', deeper.Respects g g' → deeper.Parallel R (rule g) (rule g')) (n m : Nat)
    (hdepth : n ≤ m) (s : ParserState) :
    rule (grammar n) s = rule (grammar m) s ∨ ∃ s', rule (grammar n) s = .error .exhausted s' := by
  have hrun := hrule _ _ (respects_grammar (.inr ⟨trivial, hdepth⟩)) s s (sameState_deeper.mpr rfl)
  rcases hrun with ⟨-, s', hexhausted⟩ | hsame
  · exact .inr ⟨s', hexhausted⟩
  · left
    revert hsame
    rcases rule (grammar n) s with ⟨a, t⟩ | ⟨e, t⟩ <;>
      rcases rule (grammar m) s with ⟨a', t'⟩ | ⟨e', t'⟩
    · rintro ⟨ha, ht⟩
      rw [hR a a' ha, sameState_deeper.mp ht]
    · exact False.elim
    · exact False.elim
    · rintro ⟨he, ht⟩
      rw [sameState_deeper.mp ht]
      rcases e with e | _ <;> rcases e' with e' | _
      · have he := Failure.rejected.inj he
        simp only [deeper, relabeled_deeper] at he
        rw [he]
      · cases he
      · cases he
      · rfl

/-! ### Coming to an end -/

/-- **What a rule comes to** from a state, without a bound on its depth: what the grammar of each
depth comes to unless it is exhausted, which no grammar is that is as deep as the state requires.
On the way the parser only goes on, and if it succeeds, so much less remains. -/
structure Settles (rule : Rules → Parser α) (take : α → Nat) (s : ParserState)
    (r : EStateM.Result Failure ParserState α) : Prop where
  finite : ∀ s', r ≠ .error .exhausted s'
  deep : ∀ n, s.depth ≤ n → rule (grammar n) s = r
  shallow : ∀ n, rule (grammar n) s = r ∨ ∃ s', rule (grammar n) s = .error .exhausted s'
  onward : s.Leads (Parser.endState r)
  takes : ∀ a s', r = .ok a s' → s'.remaining + take a ≤ s.remaining

/-- A rule comes to an end if its bounds suffice. -/
theorem exists_settles {take : α → Nat} {s : ParserState} (start : ParserState → Prop)
    (hfinish : s.finish.kind = .endOfSource) (hs : start s)
    (hdeeper : ∀ n m, n ≤ m → ∀ s, rule (grammar n) s = rule (grammar m) s ∨
      ∃ s', rule (grammar n) s = .error .exhausted s')
    (hruns : ∀ n r, 8 * r + 8 ≤ n → (grammar n).Keep .none n →
      Enclosure.none.RunsFrom start r 0 take (rule (grammar n)))
    (hleads : ∀ n, s.Leads (Parser.endState (rule (grammar n) s))) :
    ∃ r, Settles rule take s r := by
  have hends := hruns s.depth (s.remaining + 1) (by rw [ParserState.depth]; omega)
    (keep_grammar .none _) s hs hfinish (Nat.lt_succ_self _)
  have hfinite (s' : ParserState) : rule (grammar s.depth) s ≠ .error .exhausted s' := by
    intro hexhausted
    rw [hexhausted] at hends
    exact hends
  have hdeep (n : Nat) (hn : s.depth ≤ n) : rule (grammar n) s = rule (grammar s.depth) s := by
    rcases hdeeper s.depth n hn s with heq | ⟨s', hexhausted⟩
    · exact heq.symm
    · exact absurd hexhausted (hfinite s')
  refine ⟨_, hfinite, hdeep, fun n => ?_, hleads _, fun a s' hrun => ?_⟩
  · rcases Nat.le_total n s.depth with hn | hn
    · exact hdeeper n s.depth hn s
    · exact .inl (hdeep n hn)
  · rw [hrun] at hends
    exact hends.1

namespace Parser

variable {source : List Char} {a : α} {s' : ParserState}

/-- A whole text is read if the grammar that is deep enough for it reads it to its end, without
errors. -/
theorem runAll_eq_ok : runAll rule source = .ok a ↔ ∃ s',
    rule (grammar (ParserState.ofSource source 0).depth) (.ofSource source 0) = .ok a s' ∧
      s'.next.kind = .endOfSource ∧ s'.errors = [] := by
  rw [runAll, run]
  rcases rule (grammar (ParserState.ofSource source 0).depth) (.ofSource source 0) with
    ⟨b, s'⟩ | ⟨e | _, s'⟩
  · dsimp only
    split_ifs with hend herrors
    · refine ⟨fun h => ⟨s', by cases h; rfl, hend, List.isEmpty_iff.mp herrors⟩, ?_⟩
      rintro ⟨_, ⟨⟩, -⟩
      rfl
    · refine ⟨by rintro ⟨⟩, ?_⟩
      rintro ⟨_, ⟨⟩, -, hnone⟩
      exact absurd (List.isEmpty_iff.mpr hnone) herrors
    · refine ⟨by rintro ⟨⟩, ?_⟩
      rintro ⟨_, ⟨⟩, hend', -⟩
      exact absurd hend' hend
  · exact ⟨by rintro ⟨⟩, by rintro ⟨_, ⟨⟩, -⟩⟩
  · exact ⟨by rintro ⟨⟩, by rintro ⟨_, ⟨⟩, -⟩⟩

/-- At whatever depth it is read, it is read by a grammar that is deep enough. -/
theorem runAll_of_run {take : α → Nat} (hsettles : ∃ r, Settles rule take (.ofSource source 0) r)
    {n : Nat} (hrun : rule (grammar n) (.ofSource source 0) = .ok a s')
    (hend : s'.next.kind = .endOfSource) (herrors : s'.errors = []) :
    runAll rule source = .ok a := by
  obtain ⟨r, hr⟩ := hsettles
  rcases hr.shallow n with heq | ⟨t, hexhausted⟩
  · exact runAll_eq_ok.mpr ⟨s', (hr.deep _ le_rfl).trans (heq.symm.trans hrun), hend, herrors⟩
  · rw [hrun] at hexhausted
    cases hexhausted

end Parser

/-! ### Recovery and loops -/

/-- **Skipping tokens goes on**, unless the source ends at once. -/
theorem Parser.synchronize_advances {s : ParserState} (hfinish : s.finish.kind = .endOfSource)
    (h : s.next.kind ≠ .endOfSource) :
    ∃ s', synchronize s = .ok () s' ∧ s.Leads s' ∧ s.consumed.length < s'.consumed.length ∧
      s'.remaining < s.remaining := by
  obtain ⟨t, ts, hahead⟩ := List.exists_cons_of_ne_nil (ParserState.ahead_of_next h hfinish)
  have hleads := Course.leads_skip s true s.consumed s.ahead
  have hremaining := (skip_spec s true s.consumed s.ahead).2.2
  rw [if_pos ⟨rfl, by rw [hahead]; exact nofun⟩] at hremaining
  refine ⟨_, rfl, hleads, ?_, hremaining⟩
  -- the next token is taken, whatever it is
  have htaken : t :: s.consumed <:+ (synchronize.skip s true s.consumed s.ahead).consumed := by
    rw [hahead, synchronize.skip, if_pos rfl]
    split
    · exact List.suffix_rfl
    · exact (Course.leads_skip s false (t :: s.consumed) ts).onward.consumed
  exact htaken.length_le

/-! ### All rules -/

/-- **Reading from a state comes to an end**, whatever is read. -/
structure ParserState.Terminating (s : ParserState) : Prop where
  /-- No step gives anything back. -/
  onward : ∀ s', s.Leads s' → s.consumed <:+ s'.consumed ∧ s'.remaining ≤ s.remaining
  /-- Recovery goes on unless the source ends at once. -/
  synchronize : s.next.kind ≠ .endOfSource → ∃ s', Parser.synchronize s = .ok () s' ∧
    s.Leads s' ∧ s.consumed.length < s'.consumed.length ∧ s'.remaining < s.remaining
  /-- A statement takes something, and so do a member, an import and a type. -/
  stmt : ∃ r, Settles (fun g => g.stmt) (fun _ => 1) s r
  member : ∀ typeName, ∃ r, Settles (fun g => Grammar.member g typeName) (fun _ => 1) s r
  importDecl : ∃ r, Settles Grammar.importDecl (fun _ => 1) s r
  typeDecl : ∀ modifiers, ∃ r, Settles (fun g => g.typeDecl modifiers) (fun _ => 1) s r
  topLevel : ∃ r, Settles Grammar.topLevel (fun _ => 1) s r
  /-- An expression takes something, and so does every round of its loop but the last one. -/
  expr : ∀ power, ∃ r, Settles (fun g => g.expr power) (fun _ => 1) s r
  operators : ∀ n power left e s',
    Grammar.operatorStep (grammar n) power left s = .ok (.inl e) s' → s'.remaining < s.remaining
  block : ∃ r, Settles (fun g => g.block) (fun _ => 1) s r
  members : ∀ typeName, ∃ r, Settles (fun g => Grammar.members g typeName) (fun _ => 0) s r
  switch : ∃ r, Settles Grammar.switch (fun _ => 1) s r
  /-- A source file is always read to its end. -/
  sourceUnit : ∃ u s', Settles Grammar.sourceUnit (fun _ => 0) s (.ok u s') ∧
    s'.next.kind = .endOfSource

namespace ParserState

open Grammar

variable {s : ParserState}

/-- What follows an operand takes something. -/
theorem exists_settles_continuation (hfinish : s.finish.kind = .endOfSource) (left : Expr)
    {k : Continuation} (hk : Continuation.ofKind? s.next.kind = some k) :
    ∃ r, Settles (fun g => k.parse g left) (fun _ => 1) s r :=
  exists_settles (fun s => s.next.kind.isInner) hfinish (isInner_of_continuation hk)
    (eq_or_exhausted (eq_of_same Expr.relabeled_same) fun _ _ h => parallel_continuation h rfl k)
    (fun _ _ hr h => runs_continuation h left k (by omega))
    fun n => (gathers_continuation (gathers_grammar [] n) left k s hfinish).1

theorem exists_settles_stmt (hfinish : s.finish.kind = .endOfSource) :
    ∃ r, Settles (fun g => g.stmt) (fun _ => 1) s r :=
  exists_settles (fun _ => True) hfinish trivial
    (eq_or_exhausted (eq_of_same Stmt.relabeled_same) fun _ _ h => h.stmt)
    (fun _ _ hr h => h.stmt (by omega))
    fun n => ((gathers_grammar [] n).stmt .absent .loose s hfinish).1

theorem exists_settles_expr (hfinish : s.finish.kind = .endOfSource) (power : Nat) :
    ∃ r, Settles (fun g => g.expr power) (fun _ => 1) s r :=
  exists_settles (fun _ => True) hfinish trivial
    (eq_or_exhausted (eq_of_same Expr.relabeled_same) fun _ _ h => h.expr power)
    (fun _ _ hr h => h.expr power (by omega))
    fun n => ((gathers_grammar [] n).expr power .absent .loose s hfinish).1

theorem exists_settles_sourceUnit (hfinish : s.finish.kind = .endOfSource) :
    ∃ u s', Settles Grammar.sourceUnit (fun _ => 0) s (.ok u s') ∧
      s'.next.kind = .endOfSource := by
  obtain ⟨r, hr⟩ : ∃ r, Settles Grammar.sourceUnit (fun _ => 0) s r :=
    exists_settles (fun _ => True) hfinish trivial
      (eq_or_exhausted (eq_of_same SourceUnit.relabeled_same) fun _ _ h => parallel_sourceUnit h)
      (fun _ _ hr h => runs_sourceUnit h (fun _ => id) (by omega)) fun n => leads_sourceUnit hfinish
  have hrun := hr.deep s.depth le_rfl
  rcases r with ⟨u, s'⟩ | ⟨e | _, s'⟩
  · obtain ⟨x, hparts, -⟩ := of_sourceUnit hrun
    exact ⟨u, s', hr, unitParts_last hparts⟩
  · exact absurd hrun (accepts_sourceUnit _ _ e s')
  · exact absurd rfl (hr.finite s')

/-- **Reading comes to an end** from every state, if the end of the source follows its tokens. -/
theorem terminating (hfinish : s.finish.kind = .endOfSource) : s.Terminating where
  onward s' h := ⟨h.onward.consumed, h.onward.remaining⟩
  synchronize h := Parser.synchronize_advances hfinish h
  stmt := exists_settles_stmt hfinish
  member typeName := exists_settles (fun _ => True) hfinish trivial
    (eq_or_exhausted (eq_of_sameOption Member.relabeled_same) fun _ _ h =>
      parallel_member h typeName)
    (fun _ _ hr h => runs_member h typeName (by omega))
    fun n => (gathers_member (gathers_grammar [] n) typeName .absent .loose s hfinish).1
  importDecl := exists_settles (fun _ => True) hfinish trivial
    (eq_or_exhausted (eq_of_same fun d => by simp [ImportDecl.relabeled]) fun _ _ h =>
      parallel_importDecl h)
    (fun _ _ hr h => runs_importDecl h (by omega))
    fun _ => (@gathers_importDecl [] _ .absent .loose s hfinish).1
  typeDecl modifiers := exists_settles
    (fun s => (∃ e, Enclosure.none.harmless e) → startsTypeDecl s.next.kind) hfinish
    (fun ⟨_, he⟩ => he.elim)
    (eq_or_exhausted (eq_of_same TypeDecl.relabeled_same) fun _ _ h => h.typeDecl _ _ rfl)
    (fun _ _ hr h => h.typeDecl modifiers (by omega))
    fun n => ((gathers_grammar [] n).typeDecl .absent s.next modifiers s hfinish).1
  topLevel := exists_settles (fun _ => True) hfinish trivial
    (eq_or_exhausted (eq_of_sameOption TypeDecl.relabeled_same) fun _ _ h => parallel_topLevel h)
    (fun _ _ hr h => runs_topLevel h (fun _ => id) (by omega))
    fun n => (gathers_topLevel (gathers_grammar [] n) .absent .loose s hfinish).1
  expr power := exists_settles_expr hfinish power
  operators n power left e s' h := by
    -- the first token tells which operator it is, and what follows each of them settles
    obtain ⟨k, hk, -, hrun⟩ := operatorStep_inl h
    obtain ⟨r, hr⟩ := exists_settles_continuation hfinish left hk
    rcases hr.shallow n with heq | ⟨t, hexhausted⟩
    · exact hr.takes e s' (heq.symm.trans hrun)
    · rw [hrun] at hexhausted
      cases hexhausted
  block := exists_settles (fun _ => True) hfinish trivial
    (eq_or_exhausted (eq_of_same Block.relabeled_same) fun _ _ h => h.block)
    (fun _ _ hr h => h.block (by omega))
    fun n => ((gathers_grammar [] n).block .absent .loose s hfinish).1
  members typeName := exists_settles (fun _ => True) hfinish trivial
    (eq_or_exhausted (eq_of_sameList Member.relabeled_same) fun _ _ h =>
      parallel_members h typeName)
    (fun _ _ hr h => runs_members h typeName (by omega))
    fun n => (gathers_members (gathers_grammar [] n) typeName .absent .loose s hfinish).1
  switch := exists_settles (fun _ => True) hfinish trivial
    (eq_or_exhausted (eq_of_same Stmt.relabeled_same) fun _ _ h => parallel_switch h)
    (fun _ _ hr h => runs_switch h (by omega))
    fun n => (gathers_switch (gathers_grammar [] n) .absent .loose s hfinish).1
  sourceUnit := exists_settles_sourceUnit hfinish

/-- The theorem applied where recovery is needed: a type without a name, and an unclosed list of
type arguments. -/
theorem terminating_faulty :
    (ofSource "class \x7b Map<Map<A>> m; \x7d ; import a.".toList 0).finish.kind = .endOfSource ∧
      (ofSource "class \x7b Map<Map<A>> m; \x7d ; import a.".toList 0).Terminating := by
  have hfinish : (ofSource "class \x7b Map<Map<A>> m; \x7d ; import a.".toList 0).finish.kind
      = .endOfSource := by decide +kernel
  exact ⟨hfinish, terminating hfinish⟩

end ParserState

end JavaGraft
