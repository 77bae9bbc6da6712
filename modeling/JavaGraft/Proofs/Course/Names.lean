import JavaGraft.Proofs.Course.Apart
import JavaGraft.Proofs.Token.Words

/-!
# The names in a source file

What a source file calls its package and its types, member types included, are identifiers, whatever
errors are in it (`JavaGraft.parseUnit_named`). A name is the text of a token, a token that is read
as an identifier has the letters of one, and nothing that a parser does to its tokens makes an
identifier of something else (`JavaGraft.ParserState.Worded`).
-/

namespace JavaGraft

open Course CharClass

/-! ### Identifiers among the tokens -/

/-- An identifier is not empty and has no dots in it. -/
theorem isIdentifier_spec {x : String} (h : isIdentifier x) : x ≠ "" ∧ '.' ∉ x.toList := by
  obtain ⟨c, cs, hx, -, hparts, -⟩ := isIdentifier_cases h
  refine ⟨?_, fun hdot => absurd (hparts '.' hdot) (by decide +kernel)⟩
  rintro rfl
  cases hx

namespace Scan

variable {cs : List Char}

/-- Only words are taken for identifiers. -/
theorem word_of_identifier (h : (token cs).verdict = .ok .identifier) :
    ∃ c r, cs = c :: r ∧ isWordStart c ∧ token cs = word cs := by
  -- a sign or a number is never taken for an identifier
  have hsign {cs : List Char} : (sign cs).verdict ≠ .ok .identifier := fun h => by
    unfold sign at h
    split at h <;> cases h
  have hradix {base : Nat} {opening cs : List Char} :
      (radix base opening cs).verdict ≠ .ok .identifier := fun h => by
    simp only [radix] at h
    repeat' split at h
    all_goals cases h
  have hdecimal {cs : List Char} : (decimal cs).verdict ≠ .ok .identifier := fun h => by
    simp only [decimal] at h
    repeat' split at h
    all_goals cases h
  have hnumber {cs : List Char} : (number cs).verdict ≠ .ok .identifier := fun h => by
    unfold number at h
    repeat' split at h
    exacts [hradix h, hradix h, hdecimal h, hdecimal h]
  unfold token at h
  split at h
  · exact absurd h hsign
  · next c r =>
    split_ifs at h with hquote hchar hdigit hword
    · simp only [string] at h
      repeat' split at h
      all_goals cases h
    · simp only [character] at h
      split at h <;> cases h
    · exact absurd h hnumber
    · exact ⟨c, r, rfl, hword, by
        rw [token, if_neg hquote, if_neg hchar, if_neg hdigit, if_pos hword]⟩
    · exact absurd h hsign

/-- A word that is no keyword is an identifier. -/
theorem isIdentifier_word {c : Char} {r : List Char} (hc : isWordStart c)
    (h : (word (c :: r)).verdict = .ok .identifier) :
    isIdentifier (String.ofList (word (c :: r)).text) := by
  have htext : (word (c :: r)).text = c :: r.takeWhile isWordPart := by
    simp [word, List.span_eq_takeWhile_dropWhile, isWordPart_of_isWordStart hc]
  have hverdict : (word (c :: r)).verdict = .ok
      ((Keyword.ofSpelling? (String.ofList (word (c :: r)).text)).elim .identifier .keyword) := rfl
  have hkeyword : Keyword.ofSpelling? (String.ofList (word (c :: r)).text) = none := by
    rw [hverdict] at h
    cases hspelling : Keyword.ofSpelling? (String.ofList (word (c :: r)).text) with
    | none => rfl
    | some k =>
      rw [hspelling] at h
      cases h
  rw [isIdentifier, hkeyword, String.toList_ofList, htext]
  simp [hc]

theorem isIdentifier_front {p : Piece} (hp : front cs = .piece p)
    (h : p.verdict = .ok .identifier) : isIdentifier (String.ofList p.text) := by
  obtain rfl := eq_token_of_front hp h
  obtain ⟨c, r, rfl, hc, heq⟩ := word_of_identifier h
  rw [heq] at h ⊢
  exact isIdentifier_word hc h

end Scan

/-- An identifier token has the text of an identifier. -/
def Token.Worded (t : Token) : Prop := t.kind = .identifier → isIdentifier t.text

theorem Token.worded_of_ne {t : Token} (h : t.kind ≠ .identifier) : t.Worded :=
  fun hkind => absurd hkind h

theorem Lexer.worded_read (c : Cursor) : (read c).token.Worded := by
  unfold read
  generalize c.rest.length + 1 = n
  induction n generalizing c with
  | zero => exact Token.worded_of_ne TokenKind.noConfusion
  | succ n ih =>
    simp only [readWithin]
    cases hfront : Scan.front (c.past (Scan.margin c.rest).1 (Scan.margin c.rest).2).rest with
    | finished => exact Token.worded_of_ne TokenKind.noConfusion
    | comment text rest => exact ih _
    | piece p =>
      simp only [readPiece]
      cases hverdict : p.verdict with
      | ok kind =>
        rintro rfl
        exact Scan.isIdentifier_front hfront hverdict
      | error fault => exact Token.worded_of_ne TokenKind.noConfusion

/-- The identifiers of a text are identifiers. -/
theorem worded_tokenize (cs : List Char) : ∀ t ∈ (tokenize cs).tokens, t.Worded := by
  unfold tokenize
  generalize cs.length + 1 = n, Cursor.ofText cs = c
  induction n generalizing c with
  | zero => exact List.forall_mem_nil _
  | succ n ih =>
    rw [Tokens.readAll]
    split
    · exact List.forall_mem_nil _
    · exact List.forall_mem_cons.mpr ⟨Lexer.worded_read c, ih _⟩

namespace ParserState

/-- The identifiers among the tokens of a state are identifiers. -/
def Worded (s : ParserState) : Prop := ∀ t ∈ s.tokens, t.Worded

variable {s s' : ParserState}

/-- **Every step keeps it so:** what is left of a token of angles is no identifier. -/
theorem Worded.step (h : s.Step s') (hs : s.Worded) : s'.Worded := by
  cases h with
  | @take t ts h =>
    have htokens : ({ s with consumed := t :: s.consumed, ahead := ts } : ParserState).tokens
        = s.tokens := by simp [tokens, h]
    exact fun u hu => hs u (htokens ▸ hu)
  | @split t ts rest h hrest =>
    intro u hu
    rcases List.mem_append.mp hu with hu | hu
    · exact hs u (List.mem_append_left _ hu)
    · rcases List.mem_cons.mp hu with rfl | hu
      · rcases Token.angles_of_dropAngle? hrest with ⟨-, rfl⟩ | ⟨-, rfl⟩ <;>
          exact Token.worded_of_ne TokenKind.noConfusion
      · exact hs u (List.mem_append_right _ (h ▸ List.mem_cons_of_mem _ hu))
  | note e => exact hs
  | number => exact hs

theorem Worded.leads (h : s.Leads s') (hs : s.Worded) : s'.Worded := h.keep Worded.step hs

theorem worded_ofSource (source : List Char) (n : Nat) : (ofSource source n).Worded := by
  intro t ht
  rw [tokens, ofSource, List.reverse_nil, List.nil_append, List.mem_filter] at ht
  exact worded_tokenize source t ht.1

end ParserState

/-! ### What a parser names -/

/-- A result is of a certain form, however it is read. -/
def Parser.Forms {α : Type} (p : Parser α) (good : α → Prop) : Prop :=
  ∀ s a s', p s = .ok a s' → good a

namespace Parser.Forms

variable {α β : Type} {p : Parser β} {f : β → Parser α} {good : α → Prop}

theorem bind (h : ∀ b, Forms (f b) good) : Forms (p >>= f) good := by
  intro s a s' hrun
  rcases hrun₁ : p s with ⟨b, s₁⟩ | ⟨err, s₁⟩
  · rw [Parser.bind_ok hrun₁] at hrun
    exact h b s₁ a s' hrun
  · rw [Parser.bind_error hrun₁] at hrun
    cases hrun

theorem pure {a : α} (h : good a) : Forms (pure a) good := by
  intro s b s' hrun
  cases hrun
  exact h

theorem ite {P : Prop} [Decidable P] {p q : Parser α} (hp : Forms p good) (hq : Forms q good) :
    Forms (if P then p else q) good := by
  split
  · exact hp
  · exact hq

end Parser.Forms

namespace Course

variable {α β : Type} {source : List Char}

/-- What a parser ensures of its result where the identifiers are identifiers. -/
abbrev Names (source : List Char) (p : Parser α) (good : α → Prop) : Prop :=
  Ensures source ParserState.Worded p fun a _ => good a

namespace Names

variable {p : Parser β} {f : β → Parser α} {middle : β → Prop} {good : α → Prop}

/-- What is read first leaves identifiers that are identifiers. -/
theorem kept (hp : Names source p middle) :
    Ensures source ParserState.Worded p fun b s => middle b ∧ s.Worded := by
  intro s b s' hs hnoted hworded hrun
  obtain ⟨hleads, hnoted', hmiddle⟩ := hp s b s' hs hnoted hworded hrun
  exact ⟨hleads, hnoted', hmiddle, hworded.leads hleads⟩

theorem bind (hp : Names source p middle) (hf : ∀ b, middle b → Names source (f b) good) :
    Names source (p >>= f) good := by
  refine Ensures.bind hp.kept fun b s a s' hs hnoted hstart hrun => ?_
  exact hf b hstart.1 s a s' hs hnoted hstart.2 hrun

/-- What is read first is of no interest. -/
theorem pass {start : ParserState → Prop} {finish : β → ParserState → Prop}
    (hp : Ensures source start p finish) (hstart : ∀ s, start s)
    (hf : ∀ b, Names source (f b) good) : Names source (p >>= f) good :=
  .bind ((hp.weaken fun s _ => hstart s).mono fun _ _ _ => trivial) fun b _ => hf b

theorem skip {ext : β → List Extent} (hp : Stays source p ext)
    (hf : ∀ b, Names source (f b) good) : Names source (p >>= f) good :=
  .pass (.passed (.beyond hp)) (fun _ => trivial) hf

theorem pure {a : α} (h : good a) : Names source (pure a) good := Ensures.pure fun _ _ => h

/-- What is of a certain form, however it is read. -/
theorem of_form {start : ParserState → Prop} {finish : β → ParserState → Prop}
    (hp : Ensures source start p finish) (hstart : ∀ s, start s) (hform : p.Forms middle) :
    Names source p middle := by
  intro s b s' hs hnoted _ hrun
  obtain ⟨hleads, hnoted', -⟩ := hp s b s' hs hnoted (hstart s) hrun
  exact ⟨hleads, hnoted', hform s b s' hrun⟩

/-- **An identifier is one.** -/
theorem identifier : Names source Parser.identifier fun x => isIdentifier x.name := by
  intro s x s' hs hnoted hworded hrun
  by_cases hnext : s.next.kind = .identifier
  · rw [Parser.identifier_ok hnext] at hrun
    cases hrun
    refine ⟨.advance s, hnoted.advance, ?_⟩
    rcases hs.next_cases with ⟨-, hfinish⟩ | ⟨ts, hahead, -⟩
    · rw [hfinish, hs.finish] at hnext
      cases hnext
    · have hmem : s.next ∈ s.ahead := by
        rw [hahead]
        exact List.mem_cons_self
      exact hworded _ (ParserState.mem_tokens_of_ahead hmem) hnext
  · obtain ⟨e, he⟩ := Parser.expect_no hnext
    rw [Parser.identifier, Parser.bind_error he] at hrun
    cases hrun

/-- **Recovery** comes to a result that was found, or to none. -/
theorem recovering {p : Parser (Option β)} {x : β → Extent} {middle : β → Prop}
    (hgathers : Stays source p fun b => b.toList.map x)
    (hp : Names source p fun b => ∀ a ∈ b, middle a) :
    Names source (Parser.recovering p) fun b => ∀ a ∈ b, middle a :=
  Ensures.recovering (hgathers.weaken fun _ _ => trivial) hp

/-- A loop that collects items. -/
theorem iterate {step : List β → Parser (List β ⊕ List β)}
    (hstep : ∀ found, (∀ a ∈ found, middle a) →
      Names source (step found) (Sum.elim (∀ a ∈ ·, middle a) (∀ a ∈ ·, middle a)))
    (rounds : Nat) : Names source (Parser.iterate step rounds []) fun as => ∀ a ∈ as, middle a := by
  have hloop : Ensures source (fun s => (∀ a ∈ [], middle a) ∧ s.Worded)
      (Parser.iterate step rounds []) fun as _ => ∀ a ∈ as, middle a :=
    @Ensures.iterate _ _ source step (fun found s => (∀ a ∈ found, middle a) ∧ s.Worded)
      (fun as _ => ∀ a ∈ as, middle a) (fun found => ?_) rounds []
  · exact hloop.weaken fun s hs => ⟨nofun, hs⟩
  · rintro s r s' hs hnoted ⟨hfound, hworded⟩ hrun
    have hround := (hstep found hfound).kept s r s' hs hnoted hworded hrun
    obtain ⟨hleads, hnoted', hr, hworded'⟩ := hround
    refine ⟨hleads, hnoted', ?_⟩
    cases r with
    | inl as => exact ⟨hr, hworded'⟩
    | inr as => exact hr

/-- Items that are collected as long as there are any. -/
theorem collect {item : Parser (Option β)} (hitem : Names source item fun b => ∀ a ∈ b, middle a)
    (rounds : Nat) : Names source (Parser.collect rounds item) fun as => ∀ a ∈ as, middle a := by
  refine iterate (fun found hfound => hitem.bind fun b hb => ?_) rounds
  cases b with
  | none => exact .pure fun a ha => hfound a (List.mem_reverse.mp ha)
  | some a => exact .pure (List.forall_mem_cons.mpr ⟨hb a rfl, hfound⟩)

/-- Items that are collected as long as more may come. -/
theorem collectWhile {more : Parser Bool} {item : Parser (Option β)}
    (hmore : ∀ s, ∃ b, more s = .ok b s) (hitem : Names source item fun b => ∀ a ∈ b, middle a)
    (rounds : Nat) :
    Names source (Parser.collectWhile rounds more item) fun as => ∀ a ∈ as, middle a := by
  refine iterate (fun found hfound => .looking hmore fun b => .ite (fun _ => ?_) fun _ => ?_) rounds
  · refine hitem.bind fun b hb => ?_
    cases b with
    | none => exact .pure hfound
    | some a => exact .pure (List.forall_mem_cons.mpr ⟨hb a rfl, hfound⟩)
  · exact .pure fun _ _ a ha => hfound a (List.mem_reverse.mp ha)

end Names

end Course

/-! ### The names of declarations -/

mutual

/-- The names that a declaration gives to types: its own and those of its member types. -/
def TypeDecl.typeNames : TypeDecl → List String
  | ⟨_, _, name, _, _, _, _, ms, _⟩ => name.name :: Member.allTypeNames ms

/-- The names that a member gives to types, if it is one. -/
def Member.typeNames : Member → List String
  | .type d => d.typeNames
  | .field .. | .method .. | .constructor .. | .initializer .. => []

/-- The same for several members. -/
def Member.allTypeNames : List Member → List String
  | [] => []
  | m :: ms => m.typeNames ++ Member.allTypeNames ms

end

theorem Member.allTypeNames_eq (ms : List Member) :
    Member.allTypeNames ms = ms.flatMap Member.typeNames := by
  induction ms with
  | nil => rfl
  | cons m ms ih => rw [Member.allTypeNames, ih, List.flatMap_cons]

/-- The rules give identifiers for names to the types they read. -/
structure Rules.Names (source : List Char) (g : Rules) : Prop where
  charts : g.Charts source
  classBody (name : String) :
    Course.Names source (g.classBody name) fun ms => ∀ x ∈ Member.allTypeNames ms, isIdentifier x
  typeDecl (m : Modifiers) :
    Course.Names source (g.typeDecl m) fun d => ∀ x ∈ d.typeNames, isIdentifier x

namespace Grammar

variable {source : List Char} {g : Rules}

/-- A block that sets up a class or an instance is no type. -/
theorem forms_initializer : (initializer g).Forms fun m => m.typeNames = [] := by
  unfold initializer
  exact .bind fun _ => .bind fun _ => .bind fun _ => .bind fun _ => .pure rfl

/-- A member that is read behind its type parameters is no type. -/
theorem forms_typedMember (typeName : String) (m : Modifiers) (start : Span) :
    (typedMember g typeName m start).Forms fun m => m.typeNames = [] := by
  have hbody (tps : List TypeParam) (t : TypeExpr) (name : Ident) (ps : List Param)
      (throws : List TypeExpr) (default : Option Element) : Parser.Forms (do
        let body ← if ← Parser.eat Sign.semicolon then pure none else some <$> g.block
        return .method m tps t name ps throws default body (← Parser.spanFrom start) :
          Parser Member) fun m => m.typeNames = [] :=
    .bind fun _ => .ite (.bind fun _ => .bind fun _ => .pure rfl)
      (.bind fun _ => .bind fun _ => .pure rfl)
  unfold typedMember constructor method fields
  refine .bind fun tps => .bind fun t => .bind fun s => .ite ?_ ?_
  · exact .bind fun _ => .bind fun _ => .bind fun _ => .bind fun _ => .bind fun _ => .pure rfl
  · refine .bind fun t => .bind fun s => .bind fun s => .ite ?_ ?_
    · refine .bind fun name => .bind fun ps => .bind fun n => .bind fun throws => ?_
      refine .bind fun b => .ite (.bind fun default => ?_) ?_
      · exact hbody tps _ name ps throws default
      · exact hbody tps _ name ps throws none
    · exact .bind fun _ => .bind fun _ => .bind fun _ => .pure rfl

theorem names_path : Names source (path g) fun p => ∀ x ∈ p.names, isIdentifier x := by
  have hadvance : Ensures source (fun _ => True) (discard Parser.advance) fun _ _ => True := by
    intro s a s' _ hnoted _ hrun
    cases hrun
    exact ⟨.advance s, hnoted.advance, trivial⟩
  have hsegment : Names source nextSegment? fun i => ∀ x ∈ i, isIdentifier x.name := by
    unfold nextSegment?
    refine .looking (fun s => ⟨_, rfl⟩) fun s => .looking (fun s => ⟨_, rfl⟩) fun t => ?_
    refine .ite (fun _ => ?_) fun _ => .pure nofun
    refine Names.pass hadvance (fun _ => trivial) fun _ => Names.identifier.bind fun x hx => ?_
    exact .pure (by rintro _ ⟨⟩; exact hx)
  unfold path
  refine Names.identifier.bind fun first hfirst => (Names.collect hsegment _).bind fun xs hxs => ?_
  refine .looking (fun s => ⟨_, rfl⟩) fun span => .pure fun _ _ => ?_
  exact List.forall_mem_map.mpr (List.forall_mem_cons.mpr ⟨hfirst, hxs⟩)

variable (h : g.Names source)

include h

theorem names_member (typeName : String) : Names source (member g typeName) fun found =>
    ∀ m ∈ found, ∀ x ∈ m.typeNames, isIdentifier x := by
  have hother {m : Member} (hm : m.typeNames = []) :
      ∀ m' ∈ some m, ∀ x ∈ m'.typeNames, isIdentifier x := by
    rintro _ ⟨⟩ x hx
    rw [hm] at hx
    exact absurd hx List.not_mem_nil
  unfold member
  refine .looking (fun s => ⟨_, rfl⟩) fun first => ?_
  refine Names.skip (eat rfl) fun b => .ite (fun _ => .pure nofun) fun _ => ?_
  refine .looking (fun s => ⟨_, rfl⟩) fun s => .looking (fun s => ⟨_, rfl⟩) fun t => ?_
  refine .looking (fun s => ⟨_, rfl⟩) fun u => .ite (fun _ => ?_) fun _ => ?_
  · refine (Names.of_form (.passed (charts_initializer h.charts)) (fun _ => trivial)
      forms_initializer).bind fun m hm => .pure (hother hm)
  · refine Names.pass (.passed (charts_modifiers h.charts)) (fun _ => trivial) fun m => ?_
    refine .looking (fun s => ⟨_, rfl⟩) fun t => .ite (fun _ => ?_) fun _ => ?_
    · exact (h.typeDecl m).bind fun d hd => .pure (by rintro _ ⟨⟩; exact hd)
    · refine (Names.of_form (.passed (charts_typedMember h.charts typeName m first.span))
        (fun _ => trivial) (forms_typedMember typeName m first.span)).bind fun m hm => ?_
      exact .pure (hother hm)

theorem names_members (typeName : String) : Names source (members g typeName) fun ms =>
    ∀ x ∈ Member.allTypeNames ms, isIdentifier x := by
  unfold members
  refine (Names.collectWhile (fun s => ⟨_, rfl⟩)
    (.recovering (gathers_member h.charts.gathers typeName).stays (names_member h typeName))
    _).mono fun ms s hms x hx => ?_
  rw [Member.allTypeNames_eq] at hx
  obtain ⟨m, hm, hx⟩ := List.mem_flatMap.mp hx
  exact hms m hm x hx

theorem names_classBody (typeName : String) : Names source (classBody g typeName) fun ms =>
    ∀ x ∈ Member.allTypeNames ms, isIdentifier x := by
  unfold classBody
  refine .skip (expect rfl).discard.stays fun _ => (names_members h typeName).bind fun ms hms => ?_
  exact .skip (expect rfl).discard.stays fun _ => .pure hms

theorem names_enumBody (typeName : String) : Names source (enumBody g typeName) fun x =>
    ∀ y ∈ Member.allTypeNames x.2, isIdentifier y := by
  unfold enumBody
  refine .skip (expect rfl).discard.stays fun _ => ?_
  refine .skip (gathers_enumConstants h.charts.gathers) fun constants => ?_
  refine .skip (eat rfl) fun b => .ite (fun _ => ?_) fun _ => ?_
  · refine (names_members h typeName).bind fun ms hms => ?_
    exact .skip (expect rfl).discard.stays fun _ => .pure hms
  · exact .given (Names.skip (expect rfl).discard.stays fun _ => .pure (List.forall_mem_nil _))

/-- **A type and its member types are named by identifiers.** -/
theorem names_typeDecl (m : Modifiers) :
    Names source (typeDecl g m) fun d => ∀ x ∈ d.typeNames, isIdentifier x := by
  unfold typeDecl
  refine .looking (fun s => ⟨_, rfl⟩) fun t => Names.skip gathers_typeKind fun kind => ?_
  refine Names.identifier.bind fun name hname => ?_
  refine .skip (gathers_typeParams h.charts.gathers) fun tps => ?_
  refine .skip (gathers_supertypes h.charts.gathers kind) fun x => .ite (fun _ => ?_) fun _ => ?_
  · refine (names_enumBody h _).bind fun body hbody => .looking (fun s => ⟨_, rfl⟩) fun span => ?_
    exact .pure fun _ _ => List.forall_mem_cons.mpr ⟨hname, hbody⟩
  · refine (h.classBody _).bind fun ms hms => .given (.looking (fun s => ⟨_, rfl⟩) fun span => ?_)
    exact .pure fun _ _ => List.forall_mem_cons.mpr ⟨hname, hms⟩

theorem names_topLevel : Names source (topLevel g) fun found =>
    ∀ d ∈ found, ∀ x ∈ d.typeNames, isIdentifier x := by
  unfold topLevel
  refine .skip (eat rfl) fun b => .ite (fun _ => .pure nofun) fun _ => ?_
  refine Names.pass (.passed (charts_modifiers h.charts)) (fun _ => trivial) fun m => ?_
  exact (h.typeDecl m).bind fun d hd => .pure (by rintro _ ⟨⟩; exact hd)

omit h in
theorem names_package : Names source (package g) fun p => ∀ x ∈ p.names, isIdentifier x := by
  unfold package
  refine .skip (expect rfl).discard.stays fun _ => names_path.bind fun p hp => ?_
  exact .skip (expect rfl).discard.stays fun _ => .pure hp

/-- The names that a source file gives to its package and to its types are identifiers. -/
theorem names_sourceUnit : Names source (sourceUnit g) fun u =>
    (∀ p ∈ u.package, ∀ x ∈ p.names, isIdentifier x) ∧
      ∀ d ∈ u.types, ∀ x ∈ d.typeNames, isIdentifier x := by
  have hpackage : Names source (some <$> package g) fun found =>
      ∀ p ∈ found, ∀ x ∈ p.names, isIdentifier x :=
    .map (names_package.mono fun p _ hp => by rintro _ ⟨⟩; exact hp)
  have hrest (start : Span) (package : Option Path)
      (hpackage : ∀ p ∈ package, ∀ x ∈ p.names, isIdentifier x) : Names source (do
      let imports ← Parser.collectWhile g.rounds (Parser.check Keyword.kwImport)
        (Parser.recovering (some <$> importDecl g))
      let types ← Parser.collectWhile g.rounds (return !(← Parser.atEnd))
        (Parser.recovering (topLevel g))
      return ⟨package, imports, types, ← Parser.spanFrom start⟩ : Parser SourceUnit) fun u =>
        (∀ p ∈ u.package, ∀ x ∈ p.names, isIdentifier x) ∧
          ∀ d ∈ u.types, ∀ x ∈ d.typeNames, isIdentifier x := by
    have himport : Moves source (some <$> importDecl g) fun d => d.toList.map ImportDecl.extent :=
      gathers_importDecl.map fun _ => rfl
    refine .skip (collectWhile _ (fun s => rfl) himport.stays.recovering.anywhere) fun imports => ?_
    refine (Names.collectWhile (fun s => ⟨_, rfl⟩)
      (.recovering (gathers_topLevel h.charts.gathers).stays (names_topLevel h)) _).bind
        fun ds hds => ?_
    exact .looking (fun s => ⟨_, rfl⟩) fun span => .pure fun _ _ => ⟨hpackage, hds⟩
  unfold sourceUnit
  refine .looking (fun s => ⟨_, rfl⟩) fun t => .looking (fun s => ⟨_, rfl⟩) fun b => ?_
  refine .ite (fun _ => ?_) fun _ => hrest t.span none nofun
  have hstays : Moves source (some <$> package g) fun p => p.toList.map Path.extent :=
    gathers_package.map fun _ => rfl
  exact (Names.recovering hstays.stays hpackage).bind fun p hp => hrest t.span p hp

end Grammar

/-! ### All rules -/

theorem Rules.Names.over {source : List Char} {g : Rules} (h : g.Names source) (rounds : Nat) :
    (g.over rounds).Names source where
  charts := h.charts.over rounds
  classBody := Grammar.names_classBody h
  typeDecl := Grammar.names_typeDecl h

/-- All rules give identifiers for names, at every depth. -/
theorem names_grammar (source : List Char) (n : Nat) : (grammar n).Names source := by
  induction n with
  | zero => exact ⟨charts_grammar source 0, fun _ => .exhausted, fun _ => .exhausted⟩
  | succ n ih => exact ih.over n

/-- **The package and the types of a source file are named by identifiers**, whatever errors are
in it. -/
theorem parseUnit_named (source : List Char) (n : Nat) :
    (∀ p ∈ (parseUnit source n).unit.package, ∀ x ∈ p.names, isIdentifier x) ∧
      ∀ d ∈ (parseUnit source n).unit.types, ∀ x ∈ d.typeNames, isIdentifier x := by
  obtain ⟨s', hrun, -⟩ := parseUnit_reads source n
  exact (Grammar.names_sourceUnit (names_grammar source _) _ _ _
    (ParserState.regular_ofSource source n) (ParserState.noted_ofSource source n)
    (ParserState.worded_ofSource source n) hrun).2.2

end JavaGraft
