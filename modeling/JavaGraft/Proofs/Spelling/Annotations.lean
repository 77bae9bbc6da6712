import JavaGraft.Proofs.Spelling.Skipping

/-!
# Annotations among tokens

Where an annotation stands is decided by the words, and by no more of them than are read and the one
behind. So an annotation that is read somewhere is read wherever the same words stand
(`JavaGraft.annotsComeTo_reads`), and it is read again when what follows the type that it stands
before is exchanged for something else that can follow a type
(`JavaGraft.Token.AnnotReads.exchange`).
-/

namespace JavaGraft

open Grammar Lookahead ParserState

namespace Correspondence

/-- Tokens that correspond are of the same words. -/
theorem lexemes_of_sameTokens {c : Correspondence} {ts us : List Token}
    (h : List.Forall₂ c.SameToken ts us) : ts.map Token.lexeme = us.map Token.lexeme := by
  induction h with
  | nil => rfl
  | cons ht _ ih =>
    rw [List.map_cons, List.map_cons, ih, Token.lexeme, Token.lexeme, ht.kind, ht.text]

end Correspondence

/-! ### What an annotation leaves -/

theorem Lookahead.skipPathTail_suffix (ts : List Token) : skipPathTail ts <:+ ts := by
  fun_induction skipPathTail ts with
  | case1 dot name rest _ ih => exact ih.trans ⟨[dot, name], rfl⟩
  | case2 => exact List.suffix_rfl
  | case3 => exact List.suffix_rfl

/-- What was consumed of the tokens ahead is left out. -/
theorem ParserState.ahead_advance_suffix (s : ParserState) : s.advance.ahead <:+ s.ahead := by
  cases hahead : s.ahead with
  | nil => simp only [advance, hahead, List.suffix_rfl]
  | cons t ts =>
    rw [ahead_advance hahead]
    exact List.suffix_cons t ts

/-- **Behind an annotation**, some of the tokens ahead are left as they were. -/
theorem Grammar.suffix_annot {g : Rules} {source : List Char} (hg : g.Gathers source)
    {s s' : ParserState} {a : Annot} (hs : s.finish.kind = .endOfSource)
    (hrun : annot g s = .ok a s') : ∃ x, x ≠ [] ∧ s.ahead = x ++ s'.ahead := by
  obtain ⟨hmark, -, u, htail, hu, h⟩ := annot_ok hg hs hrun
  have hahead := ahead_eq (hmark.trans_ne (by decide)) hs
  have hsuffix : u.ahead <:+ s.advance.ahead :=
    htail ▸ (skipPathTail_suffix _).trans (ahead_advance_suffix _)
  suffices hlast : s'.ahead <:+ s.advance.ahead by
    obtain ⟨x, hx⟩ := hlast
    exact ⟨s.next :: x, List.cons_ne_nil _ _, by rw [hahead, ← hx]; rfl⟩
  rcases h with ⟨-, rfl⟩ | ⟨-, args, v, -, hv, hclose, rfl⟩
  · exact hsuffix
  · -- no angle is taken off the closing parenthesis
    refine (ahead_advance_suffix v).trans ?_
    rcases ((Leads.advance u).trans hv).suffix with hv | ⟨t, ts, hcons, -, hangle⟩
    · exact hv.trans hsuffix
    · rw [next_of_ahead hcons] at hclose
      rcases hangle with hangle | hangle <;> exact absurd (hclose.symm.trans hangle) nofun

/-! ### The same words elsewhere -/

/-- **Where an annotation is read**, at some depth, of tokens of the same words. -/
def Token.AnnotReads (ts us : List Token) : Prop :=
  ∃ x, x ≠ [] ∧ ts = x ++ us ∧ ∃ n s a s', s.Shows (ts.map lexeme) ∧
    (grammar n).annot s = .ok a s' ∧ s'.Shows (us.map lexeme)

namespace Token.AnnotReads

variable {source : List Char} {s s' : ParserState} {n : Nat} {a : Annot}

/-- What is read of a source is read there. -/
theorem of_leads (hs : (ofSource source 0).Leads s) (hrun : (grammar n).annot s = .ok a s')
    (herrors : s'.errors = []) : AnnotReads s.ahead s'.ahead := by
  have hregular := regular_of_leads hs
  have hleads := leads_of_moves (gathers_grammar source n).annot.stays hs hrun
  have htext {u : ParserState} (hu : (ofSource source 0).Leads u) : u.finish.text = "" :=
    hu.onward.finish ▸ (areText_tokenize source).text
  cases n with
  | zero => cases hrun
  | succ n =>
    obtain ⟨x, hx, hahead⟩ := suffix_annot (gathers_grammar source n) hregular.finish hrun
    exact ⟨x, hx, hahead, n + 1, s, a, s', ⟨rfl, hregular.finish, htext hs,
      hleads.errors_nil herrors⟩, hrun, rfl, (regular_of_leads (hs.trans hleads)).finish,
      htext (hs.trans hleads), herrors⟩

/-- It is read where the same words stand, whatever errors there were before. -/
theorem run {ts us : List Token} (h : AnnotReads ts us) (hahead : s.ahead = ts)
    (hfinish : s.finish.IsFinish) : ∃ n a s', (grammar (n + 1)).annot s = .ok a s' ∧ s.Leads s' ∧
      s'.ahead = us ∧ s'.errors = s.errors := by
  obtain ⟨x, -, rfl, n, u, b, v, hu, hrun, hv⟩ := h
  have hlast : u.finish.lexeme = s.finish.lexeme :=
    Prod.ext (hu.finish.trans hfinish.kind.symm) (hu.text.trans hfinish.text.symm)
  have hsame := Correspondence.sameState_unlabeled (hu.ahead.trans (hahead ▸ rfl)) hlast hu.errors
  have hrespects : (Correspondence.unlabeled s.errors).Respects (grammar n) (grammar n) :=
    Correspondence.respects_grammar (.inl rfl)
  rcases hrespects.annot u s hsame with ⟨-, t, hexhausted⟩ | hresult
  · rw [hrun] at hexhausted
    cases hexhausted
  cases n with
  | zero => cases hrun
  | succ n =>
    cases hrun' : (grammar (n + 1)).annot s with
    | error e s' =>
      rw [hrun, hrun'] at hresult
      exact hresult.elim
    | ok a s' =>
      rw [hrun, hrun'] at hresult
      have hleads := leads_of_stays (gathers_grammar [] (n + 1)).annot.stays hfinish.kind hrun'
      refine ⟨n, a, s', hrun', hleads, ?_, ?_⟩
      · -- both are left of the tokens ahead, and there is as much of the one as of the other
        obtain ⟨y, -, hahead'⟩ := suffix_annot (gathers_grammar [] n) hfinish.kind hrun'
        have hlength := congrArg List.length
          ((Correspondence.lexemes_of_sameTokens hresult.2.ahead).symm.trans hv.ahead)
        rw [List.length_map, List.length_map] at hlength
        exact (List.append_inj' (hahead'.symm.trans hahead) hlength).2
      · have herrors := congrArg List.length hresult.2.errors
        rw [hv.errors, List.map_nil, List.append_nil, List.length_map] at herrors
        exact (hleads.onward.errors.eq_of_length ((List.length_map _).symm.trans herrors)).symm

/-- **Behind an annotation other tokens may follow**, if something stands between it and what is
exchanged. -/
theorem exchange {w z w' z' rest rest' : List Token}
    (h : AnnotReads (w ++ (z ++ rest)) (z ++ rest)) (hz : z ≠ [])
    (hw' : w'.map lexeme = w.map lexeme) (hz' : z'.map lexeme = z.map lexeme)
    (hbound : (firstKind rest).isBound) (hbound' : (firstKind rest').isBound) :
    AnnotReads (w' ++ (z' ++ rest')) (z' ++ rest') := by
  -- It is read in a state behind some token.
  have hw : w ≠ [] := by
    obtain ⟨x, hx, hahead, -⟩ := h
    rwa [List.append_cancel_right hahead]
  obtain ⟨u, -⟩ := List.exists_mem_of_ne_nil w hw
  let s : ParserState := ⟨[u], w ++ (z ++ rest), ⟨.endOfSource, "", .absent⟩, [], 0⟩
  obtain ⟨n, a, s', hrun, hleads, hahead', herrors⟩ := h.run (s := s) rfl ⟨rfl, rfl⟩
  let c : Exchange := ⟨rest, rest', hbound, hbound'⟩
  obtain ⟨-, hrecasts⟩ :=
    (carry_grammar c (n + 1)).annot s a s' trivial rfl (List.cons_ne_nil _ _) hrun
  obtain ⟨x, hx, hrun'⟩ := hrecasts herrors z hahead' fun _ => hz
  have hbefore : w ++ (z ++ rest) = x ++ rest := hx.before
  obtain rfl : w ++ z = x := List.append_cancel_right ((List.append_assoc w z rest).trans hbefore)
  refine ⟨w', ?_, rfl, n + 1, _, a, _, ⟨?_, rfl, rfl, rfl⟩, hrun', ?_, ?_, ?_, herrors⟩
  · rwa [ne_eq, ← List.map_eq_nil_iff (f := lexeme), hw', List.map_eq_nil_iff]
  · simp only [ahead_having, List.map_append, hw', hz', List.append_assoc, c]
  · simp only [ahead_having, List.map_append, hz', c]
  · exact congrArg Token.kind hleads.onward.finish
  · exact congrArg Token.text hleads.onward.finish

end Token.AnnotReads

/-- **Wherever an annotation stands, it is read.** -/
theorem annotsComeTo_reads : AnnotsComeTo Token.AnnotReads := by
  intro s us hfinish h
  obtain ⟨n, a, s', hrun, hleads, hahead, herrors⟩ := h.run rfl hfinish
  obtain ⟨hmark, hname, -⟩ := annot_ok (gathers_grammar [] n) hfinish.kind hrun
  refine ⟨⟨hmark, ?_⟩, n + 1, a, s', fun m _ hm _ => ?_,
    ⟨hahead, hleads.onward.finish, herrors⟩, trivial⟩
  · rw [← next_advance, hname]
    exact nofun
  · -- a deeper grammar does the same
    refine ((eq_or_exhausted (Correspondence.eq_of_same Annot.relabeled_same)
      (fun _ _ h => h.annot) _ m hm s).resolve_right ?_).symm.trans hrun
    rintro ⟨u, hexhausted⟩
    rw [hrun] at hexhausted
    cases hexhausted

end JavaGraft
