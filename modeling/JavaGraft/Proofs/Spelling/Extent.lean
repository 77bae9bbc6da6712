import JavaGraft.Proofs.Spelling.Behind
import JavaGraft.Proofs.Spelling.Display
import JavaGraft.Proofs.Token.Cutting

/-!
# The places of types

A type that was read stands in its source where its span says, and the text there is read as this
type again, with one exception (`JavaGraft.TypeExpr.readAgain_of_parseType`). A type that closes an
angle of a token with several of them does not cover this angle, since its span ends with the last
token that was consumed as a whole. Then the text is no type, but it becomes the type if the angles
are added that were taken off the token: one of them, or two.
-/

namespace JavaGraft

open Grammar Token TypePiece

/-! ### Where a parser has got -/

namespace ParserState

variable {source : List Char} {s s' : ParserState}

/-- No step changes where the tokens end. -/
theorem Step.stops (h : s.Step s') (hs : s.Regular source) :
    s'.tokens.map (·.span.stop) = s.tokens.map (·.span.stop) := by
  cases h with
  | @take t ts h => simp [tokens, h]
  | @split t ts rest h hrest =>
    have hlength := (hs.fits t (mem_tokens_of_ahead (h ▸ List.mem_cons_self))).offset_lt_stop
    have hstop : (t.behindAngle rest).span.stop = t.span.stop := by
      simp only [Token.behindAngle, Span.dropByte, Span.stop] at hlength ⊢
      omega
    simp [tokens, h, hstop]
  | note e => rfl
  | number => rfl

theorem Leads.stops (h : s.Leads s') (hs : s.Regular source) :
    s'.tokens.map (·.span.stop) = s.tokens.map (·.span.stop) := by
  induction h with
  | refl => rfl
  | tail hleads hstep ih => exact (hstep.stops (hs.leads hleads)).trans ih

/-- **A parser has got to the end of the last token** of those that are no longer ahead. -/
theorem Leads.reached_eq {x rest : List Token} {t : Token} (h : s.Leads s') (hs : s.Regular source)
    (hahead : s.ahead = x ++ rest) (hlength : s'.ahead.length = rest.length)
    (ht : t ∈ x.getLast?) : s'.reached = t.span.stop := by
  have hstops := h.stops hs
  rw [tokens, tokens, hahead, ← List.append_assoc, List.map_append, List.map_append] at hstops
  have hconsumed := (List.append_inj' hstops (by rw [List.length_map, List.length_map, hlength])).1
  have hlast := congrArg List.getLast? hconsumed
  rw [List.getLast?_map, List.getLast?_reverse, List.getLast?_map, List.getLast?_append,
    Option.mem_def.mp ht] at hlast
  rw [reached, hlast]
  rfl

end ParserState

/-! ### Whole texts -/

section Whole

variable {source : List Char}

/-- **What is accepted as a type** has its pieces, and each type within it was read from them. -/
theorem take_of_parseType {t : TypeExpr} (h : parseType source = .ok t) :
    (tokenize source).errors = [] ∧
      (∃ ps, Spells (.type t) ps ∧ Take AnnotReads ps (tokenize source).tokens []) ∧
      ∀ u ∈ t.nodes, u.ReadIn AnnotReads source := by
  obtain ⟨s', hrun, hend, herrors⟩ := Parser.runAll_eq_ok.mp h
  have hread : (grammar (ParserState.ofSource source 0).depth).ReadTypes AnnotReads source :=
    readTypes_grammar (fun _ _ _ _ hs hannot herrors => .of_leads hs hannot herrors) _
  have hleads := leads_of_moves (gathers_grammar source _).type.stays (.refl _) hrun
  have hstart := hleads.errors_nil herrors
  have htokens : (tokenize source).errors = [] := List.map_eq_nil_iff.mp hstart
  have htext := ParserState.areText_of_errors hstart
  rcases hread.type _ _ _ (.refl _) hrun herrors with hname | ⟨⟨ps, hps, htake⟩, hnodes⟩
  · rw [hend] at hname
    cases hname
  · rw [(ParserState.shows_ofSource htext).leads_nil htext hleads hend,
      ParserState.ahead_ofSource htokens] at htake
    exact ⟨htokens, ⟨ps, hps, htake⟩, hnodes (hend ▸ rfl)⟩

theorem ComesTo.ahead_unique {α : Type} {rule : Rules → Nat → Parser α} {s : ParserState}
    {us vs : List Token} {good good' : α → Prop} (h : ComesTo rule s us good)
    (h' : ComesTo rule s vs good') : us = vs := by
  obtain ⟨n, a, s₁, hrun, hleaves, -⟩ := h
  obtain ⟨m, b, s₂, hrun', hleaves', -⟩ := h'
  have hsame := (hrun (max n m) (max n m) (by omega) (by omega)).symm.trans
    (hrun' (max n m) (max n m) (by omega) (by omega))
  cases hsame
  exact hleaves.ahead.symm.trans hleaves'.ahead

/-- Words behind which one more stands. -/
theorem Tokens.AreWords.exists_last {r : Tokens} {x : List Token} {t : Token}
    (h : r.AreWords ((x ++ [t]).map lexeme)) :
    ∃ y u, r.tokens = y ++ [u] ∧ y.map lexeme = x.map lexeme ∧ u.lexeme = t.lexeme := by
  obtain ⟨y, us, hsplit, hy, hus⟩ := List.map_eq_append_iff.mp (h.tokens.trans List.map_append)
  obtain ⟨u, us, rfl, hu, hnil⟩ := List.map_eq_cons_iff.mp hus
  obtain rfl := List.map_eq_nil_iff.mp hnil
  exact ⟨y, u, hsplit, hy, hu⟩

/-- What can follow a type can be exchanged for something else. -/
theorem isBound_of_endsType {ts : List Token} (h : (firstKind ts).endsType) :
    (firstKind ts).isBound := by
  simp only [TokenKind.endsType, Bool.or_eq_true, decide_eq_true_eq] at h
  rcases h with (hkind | hkind) | hangle
  · rw [hkind]
    rfl
  · rw [hkind]
    rfl
  · rw [TokenKind.isBound, TokenKind.isAngle, hangle, Bool.or_true]

/-- An angle can follow a type. -/
theorem endsType_of_isAngle {t : Token} (h : t.kind.isAngle) (ts : List Token) :
    (firstKind (t :: ts)).endsType := by
  rw [firstKind, List.head?_cons, Option.map_some, Option.getD_some, TokenKind.endsType,
    show (Parser.dropAngle? t.kind).isSome from h, Bool.or_true]

/-- **A text is not accepted** if it becomes a type when an angle is added: reading a type would end
before the angle. -/
theorem parseType_ne_of_angle {text more : List Char} {u : TypeExpr} {x : List Token}
    {angle : Token} (htext : (tokenize text).AreWords (x.map lexeme))
    (hmore : (tokenize more).AreWords ((x ++ [angle]).map lexeme)) (hangle : angle.kind.isAngle)
    (hu : parseType more = .ok u) : ∀ t, parseType text ≠ .ok t := by
  intro t h
  obtain ⟨-, ⟨ps, hps, htake⟩, -⟩ := take_of_parseType hu
  obtain ⟨-, ⟨qs, hqs, htake'⟩, -⟩ := take_of_parseType h
  obtain ⟨y, angle', hsplit, hy, hangle'⟩ := hmore.exists_last
  have hkind : angle'.kind = angle.kind := congrArg Prod.fst hangle'
  have hends := endsType_of_isAngle (hkind ▸ hangle) []
  -- the pieces of the text are there as well, and so reading a type would end twice
  have hahead := ParserState.ahead_ofSource hmore.errors
  rw [← List.append_nil (tokenize text).tokens] at htake'
  have hbefore : Take AnnotReads qs (ParserState.ofSource more 0).ahead [angle'] := by
    rw [hahead, hsplit]
    exact take_exchange htake' (hqs.ends.resolve_right nofun).last (hy.trans htext.tokens.symm) rfl
      (isBound_of_endsType hends)
  rw [← hahead] at htake
  have hfirst := comes_type (hqs.comes annotsComeTo_reads) (isFinish_ofSource more) hbefore hends
  have hsecond := comes_type (hps.comes annotsComeTo_reads) (isFinish_ofSource more) htake rfl
  exact List.cons_ne_nil _ _ (hfirst.ahead_unique hsecond)

end Whole

/-! ### Angles off a token -/

namespace Token

variable {t : Token} {n : Nat}

/-- Only a token of angles has more than one to take. -/
theorem angles_of_lt_weight (hn : 0 < n) (h : n < t.weight) :
    t.kind = Sign.shr ∧ n = 1 ∨ t.kind = Sign.ushr ∧ (n = 1 ∨ n = 2) := by
  unfold weight at h
  split at h
  · exact .inl ⟨by assumption, by omega⟩
  · exact .inr ⟨by assumption, by omega⟩
  · omega

theorem isAngle_of_lt_weight (hn : 0 < n) (h : n < t.weight) : t.kind.isAngle := by
  rcases angles_of_lt_weight hn h with ⟨hkind, -⟩ | ⟨hkind, -⟩ <;> rw [hkind] <;> rfl

/-- The text of a token of angles consists of as many. -/
theorem text_of_lt_weight (ht : t.Shaped) (hn : 0 < n) (h : n < t.weight) :
    ∃ more, t.text.toList = .replicate n '>' ++ '>' :: more := by
  unfold Shaped at ht
  rcases angles_of_lt_weight hn h with ⟨hkind, rfl⟩ | ⟨hkind, rfl | rfl⟩
  all_goals
    rw [hkind] at ht
    exact ⟨_, ht⟩

namespace InRow

variable {before text text' gap after : List Char} {x r : List Token}

/-- One or two angles at the end of a text are one token. -/
theorem exists_angles (before : List Char) (hn : n = 1 ∨ n = 2)
    (hgap : Scan.Skips (.replicate n '>' ++ []) gap) :
    ∃ t, InRow before (gap ++ .replicate n '>') [] [t] ∧ t.kind.isAngle ∧ t.weight = n := by
  obtain ⟨sign, hfront, hsign⟩ : ∃ sign : Sign,
      Scan.front (.replicate n '>') = .piece ⟨.replicate n '>', [], .ok sign⟩ ∧
        (n = 1 ∧ sign = .greater ∨ n = 2 ∧ sign = .shr) := by
    rcases hn with rfl | rfl
    · exact ⟨.greater, rfl, .inl ⟨rfl, rfl⟩⟩
    · exact ⟨.shr, rfl, .inr ⟨rfl, rfl⟩⟩
  have hsize : byteSize (.replicate n '>') = n := by rcases hn with rfl | rfl <;> rfl
  let t : Token := ⟨sign, String.ofList (.replicate n '>'), ⟨byteSize (before ++ gap), n, 1, 1⟩⟩
  have htext : t.text.toList = .replicate n '>' := String.toList_ofList
  have hstop : t.span.stop = byteSize (before ++ (gap ++ t.text.toList)) := by
    rw [htext, ← List.append_assoc, byteSize_append _ (.replicate n '>'), hsize]
    rfl
  have hrow : InRow before (gap ++ (t.text.toList ++ [])) [] [t] := by
    refine .cons ?_ ?_ rfl hstop (.nil _ _)
    · rwa [htext]
    · rw [htext, List.append_nil, List.append_nil]
      exact hfront
  rw [htext, List.append_nil] at hrow
  refine ⟨t, hrow, ?_⟩
  rcases hsign with ⟨rfl, rfl⟩ | ⟨rfl, rfl⟩ <;> exact ⟨rfl, rfl⟩

/-- Where angles are cut off behind some of them, the text in front of these is read as before. -/
theorem isCut_angles (gap after : List Char) (hn : 0 < n) :
    Scan.IsCut (gap ++ .replicate n '>') (gap ++ (.replicate n '>' ++ after)) where
  begins := by
    rw [← List.append_assoc]
    exact List.prefix_append _ _
  nonempty := List.append_ne_nil_of_right_ne_nil _ (by simpa using hn.ne')
  ne_point h := by
    have hmem : '>' ∈ ['.'] := h ▸ List.mem_append_right _ (List.mem_replicate.mpr ⟨hn.ne', rfl⟩)
    exact absurd hmem (by decide)

/-- **Some angles of the token behind others** are a token by themselves when the rest is cut
off. -/
theorem cut_angles (h : InRow before text (text' ++ after) x)
    (hrest : InRow (before ++ text) text' after (t :: r)) (ht : t.Shaped) (hn : 0 < n)
    (hless : n < t.weight) : ∃ gap behind angle,
      text' ++ after = gap ++ (.replicate n '>' ++ '>' :: behind) ∧
      Scan.Skips (.replicate n '>' ++ '>' :: behind) gap ∧
      (tokenize (text ++ (gap ++ .replicate n '>'))).AreWords ((x ++ [angle]).map lexeme) ∧
      angle.kind.isAngle ∧ angle.weight = n := by
  cases hrest with
  | @cons _ gap behind _ _ _ hskips =>
    obtain ⟨more, hmore⟩ := text_of_lt_weight ht hn hless
    rw [hmore, List.append_assoc, List.cons_append] at hskips
    have hsplit : (gap ++ (t.text.toList ++ behind)) ++ after
        = gap ++ (.replicate n '>' ++ '>' :: (more ++ (behind ++ after))) := by
      simp only [hmore, List.append_assoc, List.cons_append]
    rw [hsplit] at h ⊢
    have htwo : n = 1 ∨ n = 2 := (angles_of_lt_weight hn hless).elim (.inl ·.2) And.right
    obtain ⟨angle, hangle, hkind⟩ := exists_angles (before ++ text) htwo
      (hskips.congr (by rcases htwo with rfl | rfl <;> rfl))
    have hcut := h.cut_rest (.inl (isCut_angles gap _ hn))
    rw [← List.append_nil (gap ++ _)] at hcut
    exact ⟨gap, _, angle, rfl, hskips, (hcut.append hangle).areWords, hkind⟩

end InRow

end Token

/-! ### Types within a source -/

namespace TypeExpr

/-- **What the place of a type tells** that was read from a source. -/
inductive ReadAgain (source : List Char) (u : TypeExpr) : Prop
  /-- The text there is read as the type. -/
  | whole {text : List Char} {u' : TypeExpr} (htext : u.span.textIn? source = some text)
    (hparse : parseType text = .ok u') (hsame : u.Alike u')
  /-- The type is closed by the first angles of a token that has more of them. The text up to this
  token is no type, and together with the angles it is read as the type. -/
  | within {before text gap after : List Char} {n : Nat} {u' : TypeExpr}
    (hsource : source = before ++ (text ++ (gap ++ (List.replicate n '>' ++ '>' :: after))))
    (hoffset : u.span.offset = byteSize before) (htext : u.span.textIn? source = some text)
    (hgap : Scan.Skips (List.replicate n '>' ++ '>' :: after) gap) (hn : n = 1 ∨ n = 2)
    (hrejected : ∀ t, parseType text ≠ .ok t)
    (hparse : parseType (text ++ (gap ++ List.replicate n '>')) = .ok u') (hsame : u.Alike u')

variable {source : List Char} {u : TypeExpr} {s s' : ParserState} {x rest : List Token}

/-- **The place of a type**, by the tokens that it is read from: its text has these tokens, and the
others follow behind it. -/
theorem ReadFrom.place (h : u.ReadFrom AnnotReads source s s')
    (herrors : (tokenize source).errors = []) (hsuffix : s.ahead <:+ (tokenize source).tokens)
    (hahead : s.ahead = x ++ rest) (hlength : s'.ahead.length = rest.length) (hx : x ≠ []) :
    ∃ before text text' after, source = before ++ (text ++ (text' ++ after)) ∧
      u.span.offset = byteSize before ∧ u.span.textIn? source = some text ∧
      InRow before text (text' ++ after) x ∧ InRow (before ++ text) text' after rest := by
  obtain ⟨all, after, hsource, hrow⟩ := inRow_tokenize herrors
  obtain ⟨ts, hts⟩ := hsuffix
  rw [← hts] at hrow
  obtain ⟨before, here, rfl, -, hrow⟩ := hrow.of_append
  obtain ⟨t, x, rfl⟩ := List.exists_cons_of_ne_nil hx
  rw [hahead] at hrow
  obtain ⟨skipped, here, rfl, hrow, hoffset⟩ := hrow.head
  have hrow : InRow ([] ++ before ++ skipped) here after ((t :: x) ++ rest) := hrow
  obtain ⟨text, text', rfl, hrow, hrest⟩ := hrow.of_append
  have hplace : u.span.offset = byteSize (before ++ skipped) := by
    rw [h.offset, ParserState.next_of_ahead hahead, hoffset]
    rfl
  have hwhole : source = (before ++ skipped) ++ (text ++ (text' ++ after)) := by
    simpa only [List.append_assoc] using hsource
  -- the type ends where the last of its tokens does
  have hstop : u.span.stop = byteSize ((before ++ skipped) ++ text) := by
    have hlast := List.getLast?_eq_some_getLast hx
    rw [h.stop, h.leads.reached_eq (regular_of_leads h.start) hahead hlength hlast,
      hrow.stop_last _ hlast]
    rfl
  refine ⟨before ++ skipped, text, text', after, hwhole, hplace, ?_, hrow, hrest⟩
  rw [Span.textIn?, hplace, hstop, hwhole, ← List.append_assoc]
  exact textBetween?_append _ text _

/-- It is read up to where a type may end. -/
theorem ReadFrom.firstKind_behind (h : u.ReadFrom AnnotReads source s s') :
    (firstKind s'.ahead).endsType := by
  have hbehind := h.behind
  rwa [ParserState.kind_next (regular_of_leads (h.start.trans h.leads)).finish] at hbehind

/-- A type starts with a token of the source as it is. -/
theorem ReadFrom.suffix (h : u.ReadFrom AnnotReads source s s')
    (herrors : (tokenize source).errors = []) : s.ahead <:+ (tokenize source).tokens := by
  rcases h.start.suffix with hsuffix | ⟨t, ts, hcons, -, hangle⟩
  · rwa [ParserState.ahead_ofSource herrors] at hsuffix
  · -- no type starts with an angle
    obtain ⟨ps, hps, htake⟩ := h.spelled
    have hfinish : s.finish.IsFinish := h.start.onward.finish ▸ isFinish_ofSource source
    have hstarts := (hps.comes annotsComeTo_reads s s'.ahead hfinish htake h.firstKind_behind).1
    rw [ParserState.next_of_ahead hcons] at hstarts
    rcases hangle with hangle | hangle <;>
    · rw [hangle] at hstarts
      cases hstarts

/-- A type that ends between two tokens. -/
theorem ReadFrom.again_whole (h : u.ReadFrom AnnotReads source s s')
    (herrors : (tokenize source).errors = []) (hahead : s.ahead = x ++ s'.ahead) :
    u.ReadAgain source := by
  obtain ⟨ps, hps, htake⟩ := h.spelled
  rw [hahead] at htake
  have hends := hps.ends.resolve_right nofun
  obtain ⟨before, text, text', after, -, -, htext, hrow, -⟩ :=
    h.place herrors (h.suffix herrors) hahead rfl (hends.ne_nil_of_take htake)
  have hwords := (hrow.cut_rest (.inr ⟨rfl, kind_last htake hends.last⟩)).areWords
  have halone : Take AnnotReads ps (tokenize text).tokens [] := by
    rw [← List.append_nil (tokenize text).tokens]
    exact take_exchange htake hends.last hwords.tokens (isBound_of_endsType h.firstKind_behind) rfl
  obtain ⟨u', hparse, hsame⟩ :=
    parseType_of_take annotsComeTo_reads (.bare hps) hwords.errors halone
  exact .whole htext hparse hsame

/-- A type that ends within a token of angles. -/
theorem ReadFrom.again_within (h : u.ReadFrom AnnotReads source s s')
    (herrors : (tokenize source).errors = []) {t t' : Token} {r : List Token} {n : Nat}
    {qs : List TypePiece} (hahead : s.ahead = x ++ t :: r) (hahead' : s'.ahead = t' :: r)
    (hps : Spells (.plain u) (qs ++ .replicate n close))
    (hqs : Take AnnotReads qs (x ++ t :: r) (t :: r)) (hn : 0 < n) (hless : n < t.weight) :
    u.ReadAgain source := by
  have hends : Ends qs := Ends.of_append_close.mp (hps.ends.resolve_right nofun)
  obtain ⟨before, text, text', after, hsource, hoffset, htext, hrow, hrest⟩ :=
    h.place herrors (h.suffix herrors) hahead (by rw [hahead']; rfl) (hends.ne_nil_of_take hqs)
  have hshaped : t.Shaped := shaped_tokenize source t ((h.suffix herrors).subset (by
    rw [hahead]
    exact List.mem_append_right _ List.mem_cons_self))
  obtain ⟨gap, behind, angle, hsplit, hgap, hwords, hangle, hweight⟩ :=
    hrow.cut_angles hrest hshaped hn hless
  have halone := (hrow.cut_rest (.inr ⟨rfl, kind_last hqs hends.last⟩)).areWords
  -- The pieces are taken of the tokens of the text and of the angles behind them.
  obtain ⟨y, angle', htokens, hy, hangle'⟩ := hwords.exists_last
  have hkind : angle'.kind = angle.kind := congrArg Prod.fst hangle'
  have htake : Take AnnotReads (qs ++ .replicate n close) (y ++ [angle']) [] := by
    have hcloses := take_angles (A := AnnotReads) (hkind.symm ▸ hangle) []
    rw [weight, hkind, ← weight, hweight] at hcloses
    have hbound {v : Token} (hv : v.kind.isAngle) (vs : List Token) :
        (firstKind (v :: vs)).isBound :=
      isBound_of_endsType (endsType_of_isAngle hv vs)
    exact take_append (take_exchange hqs hends.last hy (hbound (isAngle_of_lt_weight hn hless) _)
      (hbound (hkind.symm ▸ hangle) _)) hcloses
  obtain ⟨u', hparse, hsame⟩ :=
    parseType_of_take annotsComeTo_reads (.bare hps) hwords.errors (htokens ▸ htake)
  rw [hsplit] at hsource
  have htwo : n = 1 ∨ n = 2 := (angles_of_lt_weight hn hless).elim (.inl ·.2) And.right
  exact .within hsource hoffset htext hgap htwo
    (parseType_ne_of_angle halone hwords hangle hparse) hparse hsame

/-- **The text of a type is read again** as this type, whatever source it was read from and however
deep in it, unless a token of angles closes it and goes on. -/
theorem readAgain_of_parseType {t : TypeExpr} (h : parseType source = .ok t) (hu : u ∈ t.nodes) :
    u.ReadAgain source := by
  obtain ⟨herrors, -, hnodes⟩ := take_of_parseType h
  obtain ⟨s, s', hread⟩ := hnodes u hu
  rcases hread.leads.suffix with ⟨x, hx⟩ | ⟨t', r, hahead', ⟨w, hw⟩, -⟩
  · exact hread.again_whole herrors hx.symm
  · -- the last token taken is the one of which something is left
    have hlength := hread.leads.marks_le.2
    rw [hahead', ← hw, List.length_append, List.length_cons] at hlength
    rcases List.eq_nil_or_concat' w with rfl | ⟨x, t, rfl⟩
    · rw [List.length_nil] at hlength
      omega
    have hahead : s.ahead = x ++ t :: r := by
      rw [← hw, List.append_assoc]
      rfl
    obtain ⟨ps, hps, htake⟩ := hread.spelled
    rw [hahead, hahead'] at htake
    obtain ⟨qs, n, rfl, hqs, hcloses⟩ := take_split htake
    rcases Nat.eq_zero_or_pos n with rfl | hn
    · have hsame : t :: r = t' :: r := hcloses
      exact hread.again_whole herrors (hahead'.symm ▸ hsame ▸ hahead)
    · exact hread.again_within herrors hahead hahead' hps hqs hn (lt_weight_of_closes hcloses)

/-- A type with annotations and comments, of which three lists are closed by one token. -/
def nested : String := "@A(b) Map<? extends @C K [ ], p.List/**/<M<@D /* */ Set<int[]> >>>"

/-- The theorem applied to the argument. -/
theorem readAgain_of_parseType_nested : ∃ t, parseType nested.toList = .ok t ∧ ∃ u ∈ t.nodes,
    u.span.textIn? nested.toList = some "p.List/**/<M<@D /* */ Set<int[]>".toList ∧
      u.ReadAgain nested.toList := by
  have hread : (parseType nested.toList).toOption.any (fun t => t.nodes.any fun u =>
      u.span.textIn? nested.toList = some "p.List/**/<M<@D /* */ Set<int[]>".toList) := by
    decide +kernel
  cases hparse : parseType nested.toList with
  | error e =>
    rw [hparse] at hread
    cases hread
  | ok t =>
    rw [hparse] at hread
    obtain ⟨u, hu, htext⟩ := List.any_eq_true.mp hread
    exact ⟨t, rfl, u, hu, of_decide_eq_true htext, readAgain_of_parseType hparse hu⟩

/-- **The text of a type within a type may be no type**: of `A<B<C>>`, the argument has the text
`B<C`. -/
theorem text_of_inner_rejected :
    ∃ t, parseType "A<B<C>>".toList = .ok t ∧ ∃ u ∈ t.nodes,
      u.span.textIn? "A<B<C>>".toList = some "B<C".toList ∧
        ∀ t', parseType "B<C".toList ≠ .ok t' := by
  have hread : (parseType "A<B<C>>".toList).toOption.any (fun t => t.nodes.any fun u =>
      u.span.textIn? "A<B<C>>".toList = some "B<C".toList) := by decide +kernel
  have hrejected : (parseType "B<C".toList).toOption.isNone := by decide +kernel
  cases hparse : parseType "A<B<C>>".toList with
  | error e =>
    rw [hparse] at hread
    cases hread
  | ok t =>
    rw [hparse] at hread
    obtain ⟨u, hu, htext⟩ := List.any_eq_true.mp hread
    refine ⟨t, rfl, u, hu, of_decide_eq_true htext, fun t' h => ?_⟩
    rw [h] at hrejected
    cases hrejected

end TypeExpr

end JavaGraft
