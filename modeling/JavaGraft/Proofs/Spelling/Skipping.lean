import JavaGraft.Proofs.Exchange.Declarations
import JavaGraft.Proofs.Exchange.Words
import JavaGraft.Proofs.Spelling.Respelling

/-!
# Skipping types

Looking ahead skips whatever is read as a type, unless there is an annotation within its type
arguments, where it gives up (`JavaGraft.Lookahead.skipType_of_parseType`). Annotations before the
type are skipped as they are read: their arguments are balanced in their parentheses, as is all that
is read without an error.

Type arguments are skipped by counting angles. That this ends where reading them ends is shown along
their pieces: from one place within them to another one, skipping *goes on*
(`JavaGraft.Lookahead.GoesOn`) with as many more lists open as were opened in between.
-/

namespace JavaGraft

open Grammar Lookahead ParserState TypePiece

/-! ### How many annotations -/

/-- How many annotations may start among tokens. -/
def Token.marks (ts : List Token) : Nat := ts.countP fun t : Token => t.kind = Sign.atSign

namespace Token

variable {t : Token} {ts us : List Token}

theorem marks_mark (ht : t.kind = Sign.atSign) : marks (t :: ts) = marks ts + 1 :=
  List.countP_cons_of_pos (decide_eq_true ht)

theorem marks_cons (ht : t.kind ≠ Sign.atSign) : marks (t :: ts) = marks ts :=
  List.countP_cons_of_neg (by simpa using ht)

theorem marks_le_cons : marks ts ≤ marks (t :: ts) := (List.sublist_cons_self t ts).countP_le

/-- **One closing angle** is a token of its own, or it is taken off one. -/
theorem closed?_cases (h : closed? ts = some us) : ∃ t rest, ts = t :: rest ∧
    (t.kind = Sign.greater ∧ us = rest ∨ ∃ t', us = t' :: rest ∧
      (t.kind = Sign.shr ∧ t'.kind = Sign.greater ∨ t.kind = Sign.ushr ∧ t'.kind = Sign.shr)) := by
  cases ts with
  | nil => cases h
  | cons t ts =>
    rw [closed?] at h
    refine ⟨t, ts, rfl, ?_⟩
    split at h
    · cases h
    · next hdrop =>
      cases h
      rcases Parser.kind_of_dropAngle? hdrop with hkind | hkind | hkind
      · exact .inl ⟨hkind.1, rfl⟩
      · cases hkind.2
      · cases hkind.2
    · next rest hdrop =>
      cases h
      refine .inr ⟨_, rfl, ?_⟩
      rcases angles_of_dropAngle? hdrop with ⟨hkind, rfl⟩ | ⟨hkind, rfl⟩
      · exact .inl ⟨hkind, rfl⟩
      · exact .inr ⟨hkind, rfl⟩

/-- What is left behind a closing angle has as many annotations. -/
theorem marks_closed? (h : closed? ts = some us) : marks us = marks ts := by
  obtain ⟨t, rest, rfl, ⟨hkind, rfl⟩ | ⟨t', rfl, hkinds⟩⟩ := closed?_cases h
  · exact (marks_cons (hkind.trans_ne (by decide))).symm
  · rcases hkinds with ⟨hkind, hkind'⟩ | ⟨hkind, hkind'⟩ <;>
      rw [marks_cons (hkind'.trans_ne (by decide)), marks_cons (hkind.trans_ne (by decide))]

end Token

namespace ParserState.Leads

variable {s s' : ParserState}

/-- No step adds an annotation, or a token. -/
theorem marks_le (h : s.Leads s') :
    Token.marks s'.ahead ≤ Token.marks s.ahead ∧ s'.ahead.length ≤ s.ahead.length := by
  refine h.keep (p := fun u => Token.marks u.ahead ≤ Token.marks s.ahead ∧
    u.ahead.length ≤ s.ahead.length) (fun hstep hle => ?_) ⟨le_rfl, le_rfl⟩
  cases hstep with
  | take hahead =>
    rw [hahead] at hle
    exact ⟨Token.marks_le_cons.trans hle.1, (Nat.le_succ _).trans hle.2⟩
  | split hahead hdrop =>
    rw [hahead] at hle
    refine ⟨le_trans (Token.marks_cons ?_).le (Token.marks_le_cons.trans hle.1), hle.2⟩
    rcases Token.angles_of_dropAngle? hdrop with ⟨-, rfl⟩ | ⟨-, rfl⟩
    · exact (by decide : TokenKind.sign .greater ≠ .sign .atSign)
    · exact (by decide : TokenKind.sign .shr ≠ .sign .atSign)
  | note e => exact hle
  | number => exact hle

/-- If nothing was recorded in the end, nothing was recorded on the way. -/
theorem errors_eq {u : ParserState} (h : s.Leads s') (h' : s'.Leads u)
    (herrors : u.errors = s.errors) : s'.errors = s.errors ∧ u.errors = s'.errors := by
  have hafter := h'.onward.errors
  rw [herrors] at hafter
  have hsame := hafter.eq_of_length_le h.onward.errors.length_le
  exact ⟨hsame, herrors.trans hsame.symm⟩

end ParserState.Leads

/-! ### Annotations before a type -/

/-- Parentheses that are open stay open where as many are closed as are opened. -/
theorem Passes.skipParens_eq {n depth : Nat} {ts us : List Token} (h : Passes n ts us)
    (hdepth : n < depth) : skipParens depth ts = skipParens (depth - n) us := by
  induction h generalizing depth with
  | refl => rfl
  | flat ht _ ih =>
    simp only [TokenKind.isFlat, Bool.and_eq_true, decide_eq_true_eq] at ht
    rw [skipParens, if_neg ht.1, if_neg ht.2, ih hdepth]
  | opening ht _ ih =>
    rw [skipParens, if_pos ht, ih (Nat.succ_lt_succ hdepth), Nat.succ_sub_succ]
  | closing ht _ ih =>
    have hopen := ht.trans_ne (show TokenKind.sign .rparen ≠ .sign .lparen by decide)
    rw [skipParens, if_neg hopen, if_pos ht, if_neg (by omega), ih (by omega), Nat.sub_sub,
      Nat.add_comm]
  | angle ht ht' _ ih =>
    simp only [TokenKind.isFlat, Bool.and_eq_true, decide_eq_true_eq] at ht ht'
    rw [← ih hdepth, skipParens, if_neg ht.1, if_neg ht.2, skipParens, if_neg ht'.1, if_neg ht'.2]

namespace ParserState

variable {source : List Char} {s s' : ParserState}

theorem startsWith_ahead (kind : TokenKind) (hkind : kind ≠ .endOfSource)
    (hfinish : s.finish.kind = .endOfSource) :
    startsWith kind s.ahead = decide (s.next.kind = kind) := by
  cases hahead : s.ahead with
  | nil =>
    rw [next_of_ahead_nil hahead, hfinish]
    exact (decide_eq_false hkind.symm).symm
  | cons u ts =>
    rw [next_of_ahead hahead]
    rfl

/-- A further part of a dotted name is skipped. -/
theorem skipPathTail_ahead (hfinish : s.finish.kind = .endOfSource) :
    skipPathTail s.ahead = if s.next.kind = Sign.dot ∧ (s.nth 1).kind = .identifier then
      skipPathTail s.advance.advance.ahead else s.ahead := by
  split_ifs with hmore
  · have hname : s.advance.next.kind = .identifier := s.next_advance ▸ hmore.2
    rw [ahead_eq (hmore.1.trans_ne (by decide)) hfinish,
      ahead_eq (hname.trans_ne (by decide)) (s.finish_advance.symm ▸ hfinish), skipPathTail,
      if_pos ⟨hmore.1, hname⟩]
  · rcases hahead : s.ahead with _ | ⟨dot, _ | ⟨name, ts⟩⟩
    · rfl
    · rfl
    · rw [next_of_ahead hahead, show s.nth 1 = name by rw [nth, hahead]; rfl] at hmore
      rw [skipPathTail, if_neg hmore]

end ParserState

namespace Grammar

variable {source : List Char} {s s' : ParserState} {n : Nat}

theorem nextSegment?_eq (s : ParserState) : nextSegment? s =
    if s.next.kind = Sign.dot ∧ (s.nth 1).kind = .identifier then
      .ok (some ⟨(s.nth 1).text, (s.nth 1).span⟩) s.advance.advance
    else .ok none s := by
  rw [nextSegment?, Parser.bind_ok (Parser.get_eq s), Parser.bind_ok (Parser.get_eq s)]
  split_ifs with hmore
  · rw [Parser.bind_ok (Parser.discard_ok (Parser.advance_eq s)),
      Parser.bind_ok (Parser.identifier_ok (by rw [s.next_advance, hmore.2])), s.next_advance]
    rfl
  · rfl

/-- The further parts of a dotted name are skipped. -/
theorem skips_segments {rounds : Nat} {found names : List Ident}
    (hfinish : s.finish.kind = .endOfSource)
    (hrun : Parser.iterate (Parser.oneCollected nextSegment?) rounds found s = .ok names s') :
    skipPathTail s.ahead = s'.ahead := by
  induction rounds generalizing found s with
  | zero => cases hrun
  | succ rounds ih =>
    obtain ⟨r, s₁, hstep, hrun⟩ := Parser.exists_of_bind_ok hrun
    obtain ⟨a, s₂, hnext, hstep⟩ := Parser.exists_of_bind_ok hstep
    rw [nextSegment?_eq] at hnext
    rw [skipPathTail_ahead hfinish]
    split_ifs at hnext ⊢
    · cases hnext
      cases hstep
      exact ih (by rwa [s.advance.finish_advance, s.finish_advance]) hrun
    · cases hnext
      cases hstep
      cases hrun
      rfl

/-- **What an annotation is made of.** -/
theorem annot_ok {g : Rules} (hg : g.Gathers source) {a : Annot} (hs : s.finish.kind = .endOfSource)
    (hrun : annot g s = .ok a s') :
    s.next.kind = Sign.atSign ∧ s.advance.next.kind = .identifier ∧
      ∃ u, skipPathTail s.advance.advance.ahead = u.ahead ∧ s.advance.Leads u ∧
      (u.next.kind ≠ Sign.lparen ∧ s' = u ∨
        u.next.kind = Sign.lparen ∧ ∃ args v, annotArgs g u.advance = .ok args v ∧
          u.advance.Leads v ∧ v.next.kind = Sign.rparen ∧ s' = v.advance) := by
  obtain ⟨mark, s₁, hmark, hrun⟩ := Parser.exists_of_bind_ok hrun
  obtain ⟨hnext, rfl⟩ := Parser.of_expect_ok hmark
  obtain ⟨name, u, hname, hrun⟩ := Parser.exists_of_bind_ok hrun
  have hs₁ : s.advance.finish.kind = .endOfSource := s.finish_advance ▸ hs
  have hpath : Course.Stays source (path g) fun p => [p.extent] := gathers_path.stays
  have hu : s.advance.Leads u := leads_of_stays hpath hs₁ hname
  have hu₁ : u.advance.finish.kind = .endOfSource :=
    u.finish_advance.symm ▸ hu.onward.finish.symm ▸ hs₁
  obtain ⟨first, s₂, hfirst, hname⟩ := Parser.exists_of_bind_ok hname
  obtain ⟨hidentifier, rfl⟩ := Parser.of_identifier_ok hfirst
  obtain ⟨names, s₃, hnames, hname⟩ := Parser.exists_of_bind_ok hname
  cases hname
  refine ⟨hnext, hidentifier, u,
    skips_segments (s.advance.finish_advance.symm ▸ hs₁) hnames, hu, ?_⟩
  by_cases hopen : u.next.kind = Sign.lparen
  · rw [Parser.bind_ok (Parser.eat_ok hopen), if_pos rfl] at hrun
    obtain ⟨args, v, hargs, hrun⟩ := Parser.exists_of_bind_ok hrun
    obtain ⟨_, w, hclose, hrun⟩ := Parser.exists_of_bind_ok hrun
    obtain ⟨_, hclose⟩ := Parser.exists_of_discard_ok hclose
    obtain ⟨hnext', rfl⟩ := Parser.of_expect_ok hclose
    cases hrun
    exact .inr ⟨hopen, args, v, hargs, leads_of_stays (gathers_annotArgs hg) hu₁ hargs, hnext', rfl⟩
  · rw [Parser.bind_ok (Parser.eat_no hopen), if_neg Bool.false_ne_true] at hrun
    cases hrun
    exact .inl ⟨hopen, rfl⟩

/-- What is read of the arguments of an annotation is balanced in its parentheses. -/
theorem passes_annotArgs {args : List AnnotArg} (hfinish : s.finish.kind = .endOfSource)
    (hconsumed : s.consumed ≠ []) (hrun : annotArgs (grammar n) s = .ok args s')
    (herrors : s'.errors = s.errors) (hroom : s'.ahead ≠ []) : Passes 0 s.ahead s'.ahead := by
  obtain ⟨-, hrecasts⟩ :=
    carries_annotArgs (carry_grammar ⟨[], [], rfl, rfl⟩ n) s args s' trivial hfinish hconsumed hrun
  obtain ⟨x, hx, -⟩ := hrecasts herrors s'.ahead (List.append_nil _).symm hroom
  obtain rfl : s.ahead = x := hx.before.trans (List.append_nil x)
  exact hx.passes

/-- **An annotation is skipped**, with its arguments. -/
theorem skips_annot {a : Annot} (hs : (ofSource source 0).Leads s)
    (hrun : annot (grammar n) s = .ok a s') (herrors : s'.errors = s.errors) :
    skipAnnot s.ahead = some s'.ahead := by
  obtain ⟨hmark, hname, u, htail, hu, h⟩ :=
    annot_ok (gathers_grammar source n) (regular_of_leads hs).finish hrun
  have hs₁ := hs.trans (.advance s)
  have hsu := hs₁.trans hu
  rw [ahead_eq (hmark.trans_ne (by decide)) (regular_of_leads hs).finish,
    ahead_eq (hname.trans_ne (by decide)) (regular_of_leads hs₁).finish, skipAnnot,
    if_pos ⟨hmark, hname⟩, htail]
  dsimp only
  rw [startsWith_ahead Sign.lparen (by decide) (regular_of_leads hsu).finish]
  rcases h with ⟨hclosed, rfl⟩ | ⟨hopen, args, v, hargs, hv, hclose, rfl⟩
  · rw [decide_eq_false hclosed, if_neg Bool.false_ne_true]
  · have hsu₁ := hsu.trans (.advance u)
    have hufinish := (regular_of_leads hsu).finish
    have hvahead := ahead_eq (hclose.trans_ne (by decide)) (regular_of_leads (hsu₁.trans hv)).finish
    have hconsumed : u.advance.consumed ≠ [] := by
      rw [consumed_advance (hopen.trans_ne (by decide)) hufinish]
      exact List.cons_ne_nil _ _
    have hsame := (hv.errors_eq (.advance v) ((((Leads.advance s).trans hu).trans
      (.advance u)).errors_eq (hv.trans (.advance v)) herrors).2).1
    -- what is read without an error is balanced, so the parenthesis behind it closes the first one
    have hpasses := passes_annotArgs (regular_of_leads hsu₁).finish hconsumed hargs hsame
      (by rw [hvahead]; exact List.cons_ne_nil _ _)
    have hopen' := hclose.trans_ne (show TokenKind.sign .rparen ≠ .sign .lparen by decide)
    rw [decide_eq_true hopen, if_pos rfl, ahead_eq (hopen.trans_ne (by decide)) hufinish,
      skipParens, if_pos hopen, hpasses.skipParens_eq Nat.zero_lt_one, hvahead, skipParens,
      if_neg hopen', if_pos hclose, if_pos le_rfl]

/-- Behind an annotation there is one less. -/
theorem marks_annot {a : Annot} (hs : (ofSource source 0).Leads s)
    (hrun : annot (grammar n) s = .ok a s') :
    s.next.kind = Sign.atSign ∧ s.Leads s' ∧ Token.marks s'.ahead < Token.marks s.ahead ∧
      s'.ahead.length < s.ahead.length := by
  obtain ⟨hmark, -, u, -, hu, h⟩ :=
    annot_ok (gathers_grammar source n) (regular_of_leads hs).finish hrun
  have hleads : s.advance.Leads s' := by
    rcases h with ⟨-, rfl⟩ | ⟨-, args, v, -, hv, -, rfl⟩
    · exact hu
    · exact (hu.trans (.advance u)).trans (hv.trans (.advance v))
  have hle := hleads.marks_le
  rw [ahead_eq (hmark.trans_ne (by decide)) (regular_of_leads hs).finish, Token.marks_mark hmark,
    List.length_cons]
  exact ⟨hmark, (Leads.advance s).trans hleads, by omega, by omega⟩

/-- **Annotations before a type are skipped.** -/
theorem skips_annots {rounds : Nat} {found as : List Annot} (hs : (ofSource source 0).Leads s)
    (hrun : Parser.iterate (Parser.oneCollected (annot? (grammar n))) rounds found s = .ok as s')
    (herrors : s'.errors = s.errors) (hnext : s'.next.kind ≠ Sign.atSign) {m : Nat}
    (hm : s.ahead.length < m) : skipAnnots m s.ahead = some s'.ahead := by
  induction rounds generalizing found s m with
  | zero => cases hrun
  | succ rounds ih =>
    obtain ⟨m, rfl⟩ := Nat.exists_eq_succ_of_ne_zero (Nat.ne_zero_of_lt hm)
    rw [skipAnnots, startsWith_ahead Sign.atSign (by decide) (regular_of_leads hs).finish]
    obtain ⟨r, s₁, hstep, hrun⟩ := Parser.exists_of_bind_ok hrun
    obtain ⟨a, s₂, hannot, hstep⟩ := Parser.exists_of_bind_ok hstep
    rw [annot?, Parser.bind_ok (Parser.get_eq s), Parser.bind_ok (Parser.get_eq s)] at hannot
    split at hannot
    · obtain ⟨b, s₃, hb, hannot⟩ := Parser.exists_of_bind_ok hannot
      cases hannot
      cases hstep
      cases n with
      | zero => cases hb
      | succ n =>
        obtain ⟨hmark, hleads, -, hlength⟩ := marks_annot hs hb
        have hleads' := (takes_annots (readTypes_grammar (A := fun _ _ => True)
          (fun _ _ _ _ _ _ _ => trivial) _) (hs.trans hleads) hrun).1
        obtain ⟨hsame, hlater⟩ := hleads.errors_eq hleads' herrors
        -- no error comes later, so none was recorded within this annotation
        rw [decide_eq_true hmark, if_pos rfl, skips_annot hs hb hsame, Option.bind_some]
        exact ih (hs.trans hleads) hrun hlater (by omega)
    · cases hannot
      cases hstep
      cases hrun
      rw [decide_eq_false hnext, if_neg Bool.false_ne_true]

end Grammar

/-! ### Type arguments -/

/-- Where an annotation stands, as far as skipping types is concerned. -/
structure Token.Annotated (ts us : List Token) : Prop where
  starts : startsWith Sign.atSign ts
  marks_lt : marks us < marks ts
  length_le : us.length ≤ ts.length

/-- Behind pieces there are no more tokens. -/
theorem TypePiece.length_le_of_take {ps : List TypePiece} {ts us : List Token}
    (h : Take Token.Annotated ps ts us) : us.length ≤ ts.length := by
  induction ps generalizing ts with
  | nil =>
    obtain rfl : ts = us := h
    exact le_rfl
  | cons p ps ih =>
    obtain ⟨vs, hp, hps⟩ := h
    refine (ih hps).trans ?_
    cases p with
    | name =>
      obtain ⟨t, rfl, -⟩ := hp
      exact Nat.le_succ _
    | token =>
      obtain ⟨t, rfl, -⟩ := hp
      exact Nat.le_succ _
    | close =>
      obtain ⟨t, rest, rfl, ⟨-, rfl⟩ | ⟨t', rfl, -⟩⟩ := Token.closed?_cases hp
      · exact Nat.le_succ _
      · exact le_rfl
    | annot => exact hp.length_le

namespace Lookahead

variable {r r' r'' : Option (List Token)} {ts us vs : List Token} {depth change : Int}
  {ps qs : List TypePiece}

/-- **From one place to another one**, what skipping returns stays the same, unless an annotation
stands in between, where it returns nothing. -/
inductive GoesOn (r r' : Option (List Token)) (ts us : List Token) : Prop
  | past (hmarks : Token.marks us = Token.marks ts) (h : r = r')
  | stuck (hmarks : Token.marks us < Token.marks ts) (h : r = none)

namespace GoesOn

theorem refl : GoesOn r r ts ts := .past rfl rfl

theorem marks_le (h : GoesOn r r' ts us) : Token.marks us ≤ Token.marks ts := by
  cases h with
  | past hmarks => exact hmarks.le
  | stuck hmarks => exact hmarks.le

theorem trans (h : GoesOn r r' ts us) (h' : GoesOn r' r'' us vs) : GoesOn r r'' ts vs := by
  cases h with
  | stuck hmarks hr => exact .stuck (h'.marks_le.trans_lt hmarks) hr
  | past hmarks hr =>
    cases h' with
    | past hmarks' hr' => exact .past (hmarks'.trans hmarks) (hr.trans hr')
    | stuck hmarks' hr' => exact .stuck (hmarks'.trans_eq hmarks) (hr.trans hr')

/-- What is done with the tokens that are left. -/
theorem bind {f : List Token → Option (List Token)} (h : GoesOn r (some us) ts us)
    (h' : GoesOn (f us) r' us vs) : GoesOn (r.bind f) r' ts vs := by
  cases h with
  | stuck hmarks hr => exact .stuck (h'.marks_le.trans_lt hmarks) (by rw [hr, Option.bind_none])
  | past hmarks hr =>
    rw [hr, Option.bind_some]
    exact (past hmarks rfl).trans h'

/-- A token that may stand in type arguments. -/
theorem token {t : Token} (ht : angleChange? t.kind = some change) (hdepth : 0 < depth + change) :
    GoesOn (skipTypeArgs depth (t :: ts)) (skipTypeArgs (depth + change) ts) (t :: ts) ts := by
  refine .past (Token.marks_cons fun hmark => ?_).symm ?_
  · rw [hmark] at ht
    cases ht
  · rw [skipTypeArgs, ht]
    exact if_pos hdepth

/-- A closing angle of a list that is not the outermost one. -/
theorem close (h : Token.closed? ts = some us) (hdepth : 0 < depth) :
    GoesOn (skipTypeArgs (depth + 1) ts) (skipTypeArgs depth us) ts us := by
  refine .past (Token.marks_closed? h) ?_
  obtain ⟨t, rest, rfl, ⟨hkind, rfl⟩ | ⟨t', rfl, hkinds⟩⟩ := Token.closed?_cases h
  · rw [skipTypeArgs, hkind, angleChange?]
    exact (if_pos (by omega)).trans (by rw [Int.add_neg_cancel_right])
  · -- what is left of the token closes as many more lists as the whole token closes in all
    have hchange : ∃ c, angleChange? t.kind = some (c - 1) ∧ angleChange? t'.kind = some c := by
      rcases hkinds with ⟨hkind, hkind'⟩ | ⟨hkind, hkind'⟩
      · exact ⟨-1, hkind ▸ rfl, hkind' ▸ rfl⟩
      · exact ⟨-2, hkind ▸ rfl, hkind' ▸ rfl⟩
    obtain ⟨c, hc, hc'⟩ := hchange
    rw [skipTypeArgs, skipTypeArgs, hc, hc']
    dsimp only
    rw [show depth + 1 + (c - 1) = depth + c by omega]

/-- The closing angle of the outermost list, behind which no further angle is left. -/
theorem last (h : Token.closed? ts = some us)
    (hus : (angleChange? (Token.firstKind us)).getD 0 = 0) :
    GoesOn (skipTypeArgs 1 ts) (some us) ts us := by
  refine .past (Token.marks_closed? h) ?_
  obtain ⟨t, rest, rfl, ⟨hkind, rfl⟩ | ⟨t', rfl, hkinds⟩⟩ := Token.closed?_cases h
  · rw [skipTypeArgs, hkind]
    rfl
  · rw [Token.firstKind, List.head?_cons, Option.map_some, Option.getD_some] at hus
    rcases hkinds with ⟨-, hkind⟩ | ⟨-, hkind⟩ <;> rw [hkind] at hus <;> cases hus

end GoesOn

theorem angleChange?_of_primitive {kind : TokenKind} {p : Primitive}
    (hp : primitiveOf? kind = some p) : angleChange? kind = some 0 := by
  cases kind with
  | keyword word => cases word <;> first | rfl | cases hp
  | _ => cases hp

/-- Pieces within type arguments. -/
def Within (ps : List TypePiece) : Prop :=
  ∀ ts us depth, 0 < depth → Take Token.Annotated ps ts us →
    GoesOn (skipTypeArgs depth ts) (skipTypeArgs depth us) ts us

namespace Within

theorem nil : Within [] := by
  rintro ts _ depth - rfl
  exact .refl

theorem append (h : Within ps) (h' : Within qs) : Within (ps ++ qs) := by
  intro ts us depth hdepth htake
  obtain ⟨vs, hps, hqs⟩ := take_append_iff.mp htake
  exact (h ts vs depth hdepth hps).trans (h' vs us depth hdepth hqs)

theorem name {x : String} (h : Within ps) : Within (.name x :: ps) := by
  rintro _ us depth hdepth ⟨vs, ⟨t, rfl, hkind, -⟩, htake⟩
  have ht : angleChange? t.kind = some 0 := hkind ▸ rfl
  refine (GoesOn.token ht (by omega)).trans ?_
  rw [Int.add_zero]
  exact h vs us depth hdepth htake

theorem token {kind : TokenKind} (h : Within ps) (hkind : angleChange? kind = some 0) :
    Within (.token kind :: ps) := by
  rintro _ us depth hdepth ⟨vs, ⟨t, rfl, rfl⟩, htake⟩
  refine (GoesOn.token hkind (by omega)).trans ?_
  rw [Int.add_zero]
  exact h vs us depth hdepth htake

theorem annot (h : Within ps) : Within (.annot :: ps) := by
  rintro ts us depth hdepth ⟨vs, hannot, htake⟩
  refine GoesOn.trans (.stuck hannot.marks_lt ?_) (h vs us depth hdepth htake)
  obtain _ | ⟨t, ts⟩ := ts
  · cases hannot.starts
  · have hmark : t.kind = Sign.atSign := of_decide_eq_true hannot.starts
    rw [skipTypeArgs, hmark]
    rfl

/-- A list within a list. -/
theorem angles (h : Within ps) : Within (.token Sign.less :: (ps ++ [.close])) := by
  rintro _ us depth hdepth ⟨vs, ⟨t, rfl, hkind⟩, htake⟩
  obtain ⟨ws, hps, zs, hclose, rfl⟩ := take_append_iff.mp htake
  have ht : angleChange? t.kind = some 1 := hkind ▸ rfl
  exact ((GoesOn.token ht (by omega)).trans (h vs ws _ (by omega) hps)).trans
    (.close hclose hdepth)

/-- A list within a list of which there is nothing. -/
theorem diamond : Within [.token Sign.less, .token Sign.greater] := by
  rintro _ _ depth hdepth ⟨_, ⟨t, rfl, hkind⟩, ts, ⟨u, rfl, hkind'⟩, rfl⟩
  have ht : angleChange? t.kind = some 1 := hkind ▸ rfl
  have hu : angleChange? u.kind = some (-1) := hkind' ▸ rfl
  have hclose : GoesOn (skipTypeArgs (depth + 1) (u :: ts)) (skipTypeArgs (depth + 1 + -1) ts)
      (u :: ts) ts := .token hu (by omega)
  rw [Int.add_neg_cancel_right] at hclose
  exact (GoesOn.token ht (by omega)).trans hclose

theorem brackets (n : Nat) : Within (brackets n) := by
  induction n with
  | zero => exact .nil
  | succ n ih => exact (ih.token rfl).token rfl

end Within

end Lookahead

/-- **Skipping goes on through whatever spells a part of a type.** -/
theorem Spells.within {ph : TypePhrase} {ps : List TypePiece} (h : Spells ph ps) :
    Within ps := by
  induction h with
  | annotated _ ih => exact ih.annot
  | bare _ ih => exact ih
  | primitive hp n span => exact (Within.brackets n).token (angleChange?_of_primitive hp)
  | named _ n span ih => exact ih.append (.brackets n)
  | last _ ih => exact ih.name
  | segment _ _ ih ih' => exact (ih.append (ih'.token rfl)).name
  | none => exact .nil
  | diamond => exact .diamond
  | angles _ ih => exact ih.angles
  | single _ ih => exact ih
  | more _ _ ih ih' => exact ih.append (ih'.token rfl)
  | type _ ih => exact ih
  | wildcard span => exact Within.nil.token rfl
  | upper _ span ih | lower _ span ih => exact (ih.token rfl).token rfl

/-! ### Types -/

namespace Lookahead

theorem firstKind_of_startsWith {kind : TokenKind} {ts : List Token} (h : startsWith kind ts) :
    Token.firstKind ts = kind := by
  cases ts with
  | nil => cases h
  | cons t ts => exact of_decide_eq_true h

theorem isPrimitive_of_primitive {kind : TokenKind} {p : Primitive}
    (hp : primitiveOf? kind = some p) : kind.isPrimitive := by
  cases kind with
  | keyword word => cases word <;> first | rfl | cases hp
  | _ => cases hp

end Lookahead

namespace Spells

variable {ts us : List Token} {ps : List TypePiece}

/-- Brackets up to the end are skipped. -/
theorem skips_brackets {n : Nat} (h : Take Token.Annotated (brackets n) ts []) :
    GoesOn (some (skipDims ts)) (some []) ts [] := by
  induction n generalizing ts with
  | zero =>
    obtain rfl : ts = [] := h
    exact .refl
  | succ n ih =>
    obtain ⟨_, ⟨t, rfl, ht⟩, _, ⟨u, rfl, hu⟩, h⟩ := h
    rw [skipDims, if_pos ⟨ht, hu⟩]
    refine .trans (.past ?_ rfl) (ih h)
    rw [Token.marks_cons (ht.trans_ne (by decide)), Token.marks_cons (hu.trans_ne (by decide))]

/-- **Type arguments are skipped**, if there are any, unless an annotation is within them. -/
theorem skips_angles {args : List TypeArg} (h : Spells (.angles args) ps)
    (htake : Take Token.Annotated ps ts us)
    (hus : (angleChange? (Token.firstKind us)).getD 0 = 0) :
    GoesOn (if startsWith Sign.less ts then skipTypeArgs 0 ts else some ts) (some us) ts us := by
  cases h with
  | none =>
    obtain rfl : ts = us := htake
    rw [if_neg]
    · exact .refl
    · intro hless
      rw [firstKind_of_startsWith hless] at hus
      cases hus
  | diamond =>
    obtain ⟨_, ⟨t, rfl, hkind⟩, us, ⟨u, rfl, hkind'⟩, rfl⟩ := htake
    have ht : angleChange? t.kind = some 1 := hkind ▸ rfl
    have hclose : Token.closed? (u :: us) = some us := by rw [Token.closed?, hkind']; rfl
    rw [if_pos (show startsWith Sign.less (t :: u :: us) from decide_eq_true hkind)]
    exact (GoesOn.token ht (by decide)).trans (.last hclose hus)
  | @angles _ qs h =>
    obtain ⟨vs, ⟨t, rfl, hkind⟩, htake⟩ := htake
    obtain ⟨ws, hps, zs, hclose, rfl⟩ := take_append_iff.mp htake
    have ht : angleChange? t.kind = some 1 := hkind ▸ rfl
    rw [if_pos (show startsWith Sign.less (t :: vs) from decide_eq_true hkind)]
    exact ((GoesOn.token ht (by decide)).trans (h.within vs ws 1 (by decide) hps)).trans
      (.last hclose hus)

/-- **The segments of a name are skipped** behind the first word, with their type arguments. -/
theorem skips_segments {xs : List String} {args : List TypeArg} (h : Spells (.segments xs args) ps)
    (htake : Take Token.Annotated ps ts us)
    (hus : (angleChange? (Token.firstKind us)).getD 0 = 0) (hdot : Token.firstKind us ≠ Sign.dot) :
    ∃ t rest, ts = t :: rest ∧ t.kind = .identifier ∧ ∀ n, rest.length < n →
      GoesOn (skipSegments n rest) (some us) rest us := by
  induction xs generalizing ps ts with
  | nil => cases h
  | cons x xs ih =>
    cases h with
    | last h =>
      obtain ⟨rest, ⟨t, rfl, hkind, -⟩, htake⟩ := htake
      refine ⟨t, rest, rfl, hkind, fun n hn => ?_⟩
      obtain ⟨n, rfl⟩ := Nat.exists_eq_succ_of_ne_zero (Nat.ne_zero_of_lt hn)
      rw [skipSegments_succ]
      refine (h.skips_angles htake hus).bind ?_
      rcases us with _ | ⟨dot, _ | ⟨name, us⟩⟩
      · exact .refl
      · exact .refl
      · dsimp only
        rw [if_neg fun hmore => hdot hmore.1]
        exact .refl
    | segment h h' =>
      obtain ⟨rest, ⟨t, rfl, hkind, -⟩, htake⟩ := htake
      refine ⟨t, rest, rfl, hkind, fun n hn => ?_⟩
      obtain ⟨n, rfl⟩ := Nat.exists_eq_succ_of_ne_zero (Nat.ne_zero_of_lt hn)
      obtain ⟨vs, hps, ws, ⟨dot, rfl, hkind'⟩, hqs⟩ := take_append_iff.mp htake
      obtain ⟨name, rest', rfl, hname, hsegments⟩ := ih h' hqs
      rw [skipSegments_succ]
      have hangle : (angleChange? dot.kind).getD 0 = 0 := hkind' ▸ rfl
      refine (h.skips_angles hps hangle).bind ?_
      dsimp only
      rw [if_pos ⟨hkind', hname⟩]
      have hlength := length_le_of_take hps
      rw [List.length_cons, List.length_cons] at hlength
      refine .trans (.past ?_ rfl) (hsegments n (by omega))
      rw [Token.marks_cons (hkind'.trans_ne (by decide)),
        Token.marks_cons (hname.trans_ne (by decide))]

/-- **A type is skipped** behind the annotations before it, if nothing follows. -/
theorem skips_plain {t : TypeExpr} (h : Spells (.plain t) ps)
    (htake : Take Token.Annotated ps ts []) :
    Token.firstKind ts ≠ Sign.atSign ∧ GoesOn (skipPlain ts) (some []) ts [] := by
  cases h with
  | primitive hp n span =>
    obtain ⟨rest, ⟨u, rfl, rfl⟩, htake⟩ := htake
    have hmark : u.kind ≠ Sign.atSign := fun hmark => by
      rw [hmark] at hp
      cases hp
    rw [skipPlain, if_pos (isPrimitive_of_primitive hp)]
    exact ⟨hmark, .trans (.past (Token.marks_cons hmark).symm rfl) (skips_brackets htake)⟩
  | named h n span =>
    obtain ⟨vs, hps, hbrackets⟩ := take_append_iff.mp htake
    have hends : Token.firstKind vs = .endOfSource ∨ Token.firstKind vs = Sign.lbracket := by
      cases n with
      | zero =>
        obtain rfl : vs = [] := hbrackets
        exact .inl rfl
      | succ n =>
        obtain ⟨_, ⟨u, rfl, hu⟩, -⟩ := hbrackets
        exact .inr hu
    obtain ⟨u, rest, rfl, hkind, hskips⟩ := h.skips_segments hps
      (by rcases hends with hend | hend <;> rw [hend] <;> rfl)
      (by rcases hends with hend | hend <;> rw [hend] <;> decide)
    have hmark : u.kind ≠ Sign.atSign := hkind.trans_ne (by decide)
    rw [skipPlain, if_neg (by rw [hkind]; decide), if_pos hkind]
    refine ⟨hmark, .trans (.past (Token.marks_cons hmark).symm rfl) ?_⟩
    rw [Option.map_eq_bind]
    exact (hskips _ (Nat.lt_succ_self _)).bind (skips_brackets hbrackets)

end Spells

namespace Lookahead

variable {source : List Char} {t : TypeExpr}

/-- What types are read from, an annotation standing for the tokens of one. -/
theorem readTypes_annotated (source : List Char) (n : Nat) :
    (grammar n).ReadTypes Token.Annotated source := by
  refine readTypes_grammar (fun n s a s' hs hannot _ => ?_) n
  cases n with
  | zero => cases hannot
  | succ n =>
    obtain ⟨hmark, -, hmarks, hlength⟩ := marks_annot hs hannot
    refine ⟨?_, hmarks, hlength.le⟩
    rw [startsWith_ahead Sign.atSign (by decide) (regular_of_leads hs).finish]
    exact decide_eq_true hmark

/-- **A type that is read is skipped**, unless an annotation is within it: the annotations before
it are skipped as they are read, and the rest up to the end, if no annotation starts in it;
otherwise nothing is skipped. -/
theorem skipType_of_parseType (h : parseType source = .ok t) : ∃ n as s,
    Parser.collect (grammar n).rounds (annot? (grammar n)) (ofSource source 0) = .ok as s ∧
      skipAnnots ((ofSource source 0).ahead.length + 1) (ofSource source 0).ahead = some s.ahead ∧
      skipType (ofSource source 0).ahead
        = if s.ahead.any fun u : Token => u.kind = Sign.atSign then none else some [] := by
  obtain ⟨s', hrun, hend, herrors⟩ := Parser.runAll_eq_ok.mp h
  obtain ⟨n, hn⟩ : ∃ n, (ofSource source 0).depth = n + 1 := ⟨_, rfl⟩
  rw [hn] at hrun
  have hrun : type (grammar n) (ofSource source 0) = .ok t s' := hrun
  rw [type_eq] at hrun
  obtain ⟨_, s, hannots, hrun⟩ := Parser.exists_of_bind_ok hrun
  obtain ⟨as, hannots⟩ := Parser.exists_of_discard_ok hannots
  have hread := readTypes_annotated source n
  have hs := (takes_annots hread (.refl _) hannots).1
  obtain ⟨hs', hread⟩ := reads_bracketed hread hs hrun
  rcases hread herrors with hname | ⟨⟨ps, hps, htake⟩, -⟩
  · rw [hend] at hname
    cases hname
  · -- no error is recorded, so the type is all of the source but the annotations before it
    have hstart : (ofSource source 0).errors = [] := (hs.trans hs').errors_nil herrors
    have htext := areText_of_errors hstart
    have hnil : s'.ahead = [] := (shows_ofSource htext).leads_nil htext (hs.trans hs') hend
    rw [hnil] at htake
    obtain ⟨hmark, hskips⟩ := hps.skips_plain htake
    have hnext : s.next.kind ≠ Sign.atSign := by rwa [kind_next (regular_of_leads hs).finish]
    have hskipped := skips_annots (.refl _) hannots
      (hs.errors_eq hs' (herrors.trans hstart.symm)).1 hnext (Nat.lt_succ_self _)
    refine ⟨n, as, s, hannots, hskipped, ?_⟩
    rw [skipType_eq, hskipped, Option.bind_some]
    cases hskips with
    | past hmarks hskip =>
      rw [hskip, if_neg]
      rw [List.any_eq_true]
      rintro ⟨u, hu, hmark⟩
      exact absurd hmark (List.countP_eq_zero.mp hmarks.symm u hu)
    | stuck hmarks hskip =>
      rw [hskip, if_pos]
      rw [List.any_eq_true]
      exact List.countP_pos_iff.mp hmarks

/-- A type with annotations before it. -/
def annotatedType : List Char := "@A @B(c = d()) E.List<Map<K, V[]>>.L<? extends M>[]".toList

/-- The theorem applied to this type: it is skipped. -/
theorem skipType_of_parseType_annotated :
    (∃ t, parseType annotatedType = .ok t) ∧
      (∃ n as s, Parser.collect (grammar n).rounds (annot? (grammar n))
        (ofSource annotatedType 0) = .ok as s) ∧
      skipType (ofSource annotatedType 0).ahead = some [] := by
  have hread : (parseType annotatedType).toOption.isSome := by decide +kernel
  have hrest : ((skipAnnots ((ofSource annotatedType 0).ahead.length + 1)
      (ofSource annotatedType 0).ahead).getD []).any (fun u => u.kind = Sign.atSign) = false := by
    decide +kernel
  cases hparse : parseType annotatedType with
  | error e =>
    rw [hparse] at hread
    cases hread
  | ok t =>
    obtain ⟨n, as, s, hannots, hskipped, hskip⟩ := skipType_of_parseType hparse
    rw [hskipped, Option.getD_some] at hrest
    rw [hrest, if_neg Bool.false_ne_true] at hskip
    exact ⟨⟨t, rfl⟩, ⟨n, as, s, hannots⟩, hskip⟩

/-- **A type that is read may not be skipped**: an annotation within type arguments is in the
way. -/
theorem skipType_annotated_arg :
    (∃ t, parseType "List<@A String>".toList = .ok t) ∧
      skipType (ParserState.ofSource "List<@A String>".toList 0).ahead = none := by
  have hread : (parseType "List<@A String>".toList).toOption.isSome := by decide +kernel
  refine ⟨?_, by decide +kernel⟩
  cases hparse : parseType "List<@A String>".toList with
  | error e =>
    rw [hparse] at hread
    cases hread
  | ok t => exact ⟨t, rfl⟩

end Lookahead

end JavaGraft
