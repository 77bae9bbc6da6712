import JavaGraft.Proofs.Grammar.Numbering
import JavaGraft.Proofs.Token.Places
import JavaGraft.Proofs.Token.Words

/-!
# Layout carries no meaning

Two sources may be laid out differently and still have the same tokens, each of the same kind and
with the same text: blanks, comments and byte order marks only move tokens about. What is read of
them is then the same, spans aside (`JavaGraft.parseUnit_layout`): the same tree with the same
numbers of calls, and the same errors in the same order.

Lexical errors are an exception to the last part, since a faulty piece becomes a token without text
whatever is wrong with it. So their causes may differ, but there are as many of them in both
sources, and they come first. To set them apart, both sources are compared with a third run, which
starts at the tokens of the first source with no errors recorded.
-/

namespace JavaGraft

/-! ### What is compared -/

/-- The kinds and texts of the tokens, invalid ones included. -/
def Tokens.lexemes (r : Tokens) : List Lexeme := r.tokens.map Token.lexeme

/-- The numbers of calls as they are, and no spans. -/
def Relabeling.unplaced : Relabeling := ⟨id, fun _ => .absent⟩

/-- What an error says wherever it was noticed: its category and its words. The words of a lexical
error name a place, so they are left out. -/
def ParseFault.saying : ParseFault → String × Option String
  | lexical e => ((lexical e).category, none)
  | fault => (fault.category, some fault.message)

/-- **The same is read, spans aside.** -/
structure ParsedUnit.SameReading (p p' : ParsedUnit) : Prop where
  unit : p.unit.relabeled .unplaced = p'.unit.relabeled .unplaced
  errors : p.errors.map (·.fault.saying) = p'.errors.map (·.fault.saying)
  nextCall : p.nextCall = p'.nextCall

theorem ParseFault.saying_relabeled (ρ : Relabeling) (fault : ParseFault) :
    (fault.relabeled ρ).saying = fault.saying := by
  cases fault <;> rfl

/-- Errors that are the same but for their spans say the same. -/
theorem ParseError.sayings_of_relabeled {ρ τ : Relabeling} {es es' : List ParseError}
    (h : es.map (relabeled ρ) = es'.map (relabeled τ)) :
    es.map (·.fault.saying) = es'.map (·.fault.saying) := by
  have hsaying : ∀ (ρ : Relabeling) (es : List ParseError),
      (es.map (relabeled ρ)).map (·.fault.saying) = es.map (·.fault.saying) := by
    intro ρ es
    rw [List.map_map]
    exact List.map_congr_left fun e _ => e.fault.saying_relabeled ρ
  rw [← hsaying ρ, h, hsaying]

/-! ### Tokens of two sources -/

namespace Correspondence

/-- Tokens of the same words differ in their spans only. -/
theorem sameTokens_of_lexemes {c : Correspondence} (hspan : ∀ s t, c.SameSpan s t)
    {ts us : List Token} (h : ts.map Token.lexeme = us.map Token.lexeme) :
    List.Forall₂ c.SameToken ts us := by
  induction ts generalizing us with
  | nil =>
    rw [List.map_nil, eq_comm, List.map_eq_nil_iff] at h
    rw [h]
    exact .nil
  | cons t ts ih =>
    rw [List.map_cons, eq_comm, List.map_eq_cons_iff] at h
    obtain ⟨u, us, rfl, hu, hus⟩ := h
    exact .cons ⟨(congrArg Prod.fst hu).symm, (congrArg Prod.snd hu).symm, hspan _ _⟩ (ih hus.symm)

/-- Spans are left out of account, and the second run has recorded errors before. -/
def unplaced (earlier : List ParseError) : Correspondence :=
  ⟨.unplaced, .unplaced, .inr fun _ _ => rfl, earlier.map (ParseError.relabeled .unplaced), False⟩

end Correspondence

/-- The state before the first token of a source, without the lexical errors. -/
def ParserState.withoutErrors (source : List Char) (firstCall : Nat) : ParserState :=
  { ofSource source firstCall with errors := [] }

section Sources

variable {source source' : List Char} (h : (tokenize source).lexemes = (tokenize source').lexemes)
include h

/-- What is kept of the tokens by their kinds has the same kinds and texts. -/
theorem Tokens.filter_lexemes (p : TokenKind → Bool) :
    ((tokenize source).tokens.filter (p ·.kind)).map Token.lexeme
      = ((tokenize source').tokens.filter (p ·.kind)).map Token.lexeme := by
  have hfilter : ∀ ts : List Token, (ts.filter (p ·.kind)).map Token.lexeme
      = (ts.map Token.lexeme).filter (p ·.1) := by
    intro ts
    rw [List.filter_map]
    rfl
  rw [hfilter, hfilter]
  exact congrArg (List.filter (p ·.1)) h

/-- There are as many lexical errors, one for each invalid token, and so they say the same. -/
theorem Tokens.sayings_errors :
    ((tokenize source).errors.map ParseError.ofLexError).map (·.fault.saying)
      = ((tokenize source').errors.map ParseError.ofLexError).map (·.fault.saying) := by
  have hsaying : ∀ es : List LexError, (es.map ParseError.ofLexError).map (·.fault.saying)
      = List.replicate es.length ("lexical error", none) := by
    intro es
    rw [List.map_map, List.eq_replicate_iff]
    refine ⟨List.length_map _, fun x hx => ?_⟩
    obtain ⟨e, -, rfl⟩ := List.mem_map.mp hx
    rfl
  have hlength : ∀ cs : List Char, (tokenize cs).errors.length
      = (((tokenize cs).tokens.filter (·.kind = .invalid)).map Token.lexeme).length := by
    intro cs
    have herrors := congrArg List.length (isTiling_tokenize cs).errors
    rwa [List.length_map, List.length_map, ← List.length_map (f := Token.lexeme)] at herrors
  rw [hsaying, hsaying, hlength, hlength, Tokens.filter_lexemes h fun k => decide (k = .invalid)]

/-- The first tokens of the two sources correspond; the lexical errors of the second one count as
recorded before. -/
theorem ParserState.sameState_unplaced (n : Nat) :
    (Correspondence.unplaced ((tokenize source').errors.map .ofLexError)).SameState
      (.withoutErrors source n) (.ofSource source' n) where
  consumed := .inl fun _ _ => rfl
  ahead := Correspondence.sameTokens_of_lexemes (fun _ _ => rfl)
    (Tokens.filter_lexemes h fun k => decide (k ≠ .invalid))
  finish :=
    { kind := (areText_tokenize source).finish.trans (areText_tokenize source').finish.symm
      text := (areText_tokenize source).text.trans (areText_tokenize source').text.symm
      span := rfl }
  errors := List.append_nil _
  calls _ := rfl

/-- What is read of the second source is what is read from the tokens of the first one, but for the
lexical errors in front of the others. -/
theorem ParserState.parsedUnit_withoutErrors (n : Nat) :
    (withoutErrors source n).parsedUnit.unit.relabeled .unplaced
        = (parseUnit source' n).unit.relabeled .unplaced ∧
      ((tokenize source').errors.map ParseError.ofLexError).map (·.fault.saying)
          ++ (withoutErrors source n).parsedUnit.errors.map (·.fault.saying)
        = (parseUnit source' n).errors.map (·.fault.saying) ∧
      (withoutErrors source n).parsedUnit.nextCall = (parseUnit source' n).nextCall := by
  obtain ⟨hunit, herrors, hcalls⟩ := (sameState_unplaced h n).parsedUnit id
  refine ⟨hunit, ?_, hcalls⟩
  rw [← List.map_append]
  exact ParseError.sayings_of_relabeled ((List.map_append).trans herrors)

/-- **Layout carries no meaning.** If the tokens of two sources have the same kinds and texts, the
same is read of both, spans aside. -/
theorem parseUnit_layout (n : Nat) :
    (parseUnit source n).SameReading (parseUnit source' n) := by
  have hsame : (tokenize source).lexemes = (tokenize source).lexemes := rfl
  obtain ⟨hunit, herrors, hcalls⟩ := ParserState.parsedUnit_withoutErrors hsame n
  obtain ⟨hunit', herrors', hcalls'⟩ := ParserState.parsedUnit_withoutErrors h n
  refine ⟨hunit.symm.trans hunit', ?_, hcalls.symm.trans hcalls'⟩
  rw [← herrors, ← herrors', Tokens.sayings_errors h]

end Sources

/-- A byte order mark, comments and line ends between the words of a class, with a faulty piece and
a syntax error in its body. -/
theorem parseUnit_layout_of_comments :
    (tokenize "@A class B extends C<D<E>> \x7b int # x = ; \x7d".toList).lexemes
        = (tokenize "\uFEFF@ A/**/class B extends//\n C <D<E >>\x7bint§x= ;\x7d".toList).lexemes ∧
      (parseUnit "@A class B extends C<D<E>> \x7b int # x = ; \x7d".toList 0).SameReading
        (parseUnit "\uFEFF@ A/**/class B extends//\n C <D<E >>\x7bint§x= ;\x7d".toList 0) := by
  have h : (tokenize "@A class B extends C<D<E>> \x7b int # x = ; \x7d".toList).lexemes
      = (tokenize "\uFEFF@ A/**/class B extends//\n C <D<E >>\x7bint§x= ;\x7d".toList).lexemes := by
    decide +kernel
  exact ⟨h, parseUnit_layout h 0⟩

end JavaGraft
