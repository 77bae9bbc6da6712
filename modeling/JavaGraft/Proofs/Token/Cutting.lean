import JavaGraft.Proofs.Token.Spacing

/-!
# Cutting a text between its tokens

How far a token goes depends on what follows it, so it is not clear that a part of a text has the
tokens that stand in this part. It does if it starts and ends with a token
(`JavaGraft.Token.InRow.areWords`), since no scanner looks further than one character behind what
it reads, or two if the first of them is a point: `1.e` is a whole number before a member, and `1.`
alone is not.

What remains of a text when its end is cut off, so that a token in front of it is still read, is
described by `JavaGraft.Scan.IsCut`. Each scanner is compared on both texts
(`JavaGraft.Scan.front_cut`), then the comments and blanks between tokens, and then all tokens that
stand in a row.
-/

namespace JavaGraft

open CharClass

namespace Scan

/-! ### What a scanner looks at -/

/-- **What remains of a text when its end is cut off**, of which a scanner in front of it sees as
much as before. -/
structure IsCut (cut cs : List Char) : Prop where
  begins : cut <+: cs
  nonempty : cut ≠ []
  ne_point : cut ≠ ['.']

variable {cut cs text : List Char}

namespace IsCut

theorem head (h : IsCut cut cs) : cut.head? = cs.head? := by
  obtain ⟨tail, rfl⟩ := h.begins
  obtain ⟨c, cut, rfl⟩ := List.exists_cons_of_ne_nil h.nonempty
  rfl

/-- The cut may be made further behind. -/
theorem append (h : IsCut cut cs) (text : List Char) : IsCut (text ++ cut) (text ++ cs) where
  begins := (List.prefix_append_right_inj text).mpr h.begins
  nonempty := List.append_ne_nil_of_right_ne_nil text h.nonempty
  ne_point hpoint := by
    rcases List.append_eq_singleton_iff.mp hpoint with ⟨-, hcut⟩ | ⟨-, hcut⟩
    · exact h.ne_point hcut
    · exact h.nonempty hcut

end IsCut

/-- A run of a class of characters ends where the same character follows. -/
theorem span_cut {f : Char → Bool} (h : (text ++ cs).span f = (text, cs))
    (hhead : cut.head? = cs.head?) : (text ++ cut).span f = (text, cut) := by
  have hall := span_all (f := f) (text ++ cs)
  have hstop := span_stop (f := f) (text ++ cs)
  rw [h] at hall hstop
  exact span_append hall (hhead ▸ hstop)

/-! ### Numbers -/

theorem startsWith_congr {f : Char → Bool} (h : cut.head? = cs.head?) :
    startsWith f cut = startsWith f cs := by rw [startsWith, startsWith, h]

theorem digits_cut {base : Nat} (h : digits base (text ++ cs) = (text, cs))
    (hhead : cut.head? = cs.head?) : digits base (text ++ cut) = (text, cut) := span_cut h hhead

theorem fraction_cut (h : fraction (text ++ cs) = (text, cs)) (hcut : IsCut cut cs) :
    fraction (text ++ cut) = (text, cut) := by
  rcases text with _ | ⟨c, text⟩
  · -- Nothing is read, since no point follows, or since it stands directly before a word.
    obtain ⟨c, cut, rfl⟩ := List.exists_cons_of_ne_nil hcut.nonempty
    obtain ⟨tail, rfl⟩ := hcut.begins
    rw [List.nil_append] at h ⊢
    by_cases hpoint : c = '.'
    · subst hpoint
      have hhead : cut.head? = (cut ++ tail).head? := by
        rcases cut with _ | ⟨d, cut⟩
        · exact absurd rfl hcut.ne_point
        · rfl
      rw [List.cons_append, fraction] at h
      rw [fraction, startsWith_congr hhead, startsWith_congr hhead]
      split_ifs at h ⊢
      · cases h
      · rfl
      · cases h
    · rw [fraction.eq_2 _ (by rintro r ⟨⟩; exact hpoint rfl)]
  · obtain rfl : c = '.' := by
      rw [fraction.eq_def] at h
      split at h
      · next heq => exact (List.cons_eq_cons.mp heq).1
      · cases h
    have hhead := (hcut.append text).head
    rw [List.cons_append, fraction] at h
    rw [List.cons_append, fraction, startsWith_congr hhead, startsWith_congr hhead]
    split_ifs at h ⊢
    · generalize hdigits : digits 10 (text ++ cs) = parts at h
      obtain ⟨ds, rest⟩ := parts
      obtain ⟨rfl, rfl⟩ : ds = text ∧ rest = cs := by simpa using h
      rw [digits_cut hdigits hcut.head]
    · cases h
    · obtain rfl : text = [] := by simpa using h
      rfl

/-- The parts of a decimal number that is read. -/
theorem decimal_parts {kind : TokenKind} (h : decimal (text ++ cs) = ⟨text, cs, .ok kind⟩) :
    ∃ whole frac power mark scaled number, text = whole ++ (frac ++ (power ++ mark)) ∧
      digits 10 (text ++ cs) = (whole, frac ++ (power ++ (mark ++ cs))) ∧
      fraction (frac ++ (power ++ (mark ++ cs))) = (frac, power ++ (mark ++ cs)) ∧
      IsPower scaled power ∧ IsMark (!frac.isEmpty || scaled) number mark ∧
      (∀ c ∈ cs.head?, isWordPart c = false) ∧ kind = .literal number := by
  obtain ⟨whole, r, hwhole⟩ : ∃ whole r, digits 10 (text ++ cs) = (whole, r) := ⟨_, _, rfl⟩
  obtain ⟨frac, r', hfrac⟩ : ∃ frac r', fraction r = (frac, r') := ⟨_, _, rfl⟩
  obtain ⟨scaled?, power, r'', hpower⟩ : ∃ scaled? power r'', exponent r' = (scaled?, power, r'') :=
    ⟨_, _, _, rfl⟩
  obtain rfl : frac ++ r' = r := by
    rw [← fraction_whole r, hfrac]
  obtain rfl : power ++ r'' = r' := by
    rw [← exponent_whole r', hpower]
  have hispower {scaled : Bool} (h : scaled? = some scaled) : IsPower scaled power := by
    have hread := @isPower_exponent (power ++ r'') scaled
    rw [hpower] at hread
    exact hread h
  -- the verdict is no fault, so the exponent has digits and no word goes on behind the suffix
  simp only [decimal, hwhole, hfrac, hpower] at h
  cases scaled? with
  | none => cases h
  | some scaled =>
    dsimp only at h
    have hismark := isMark_suffix (!frac.isEmpty || scaled) r''
    have hmarked := suffix_whole (!frac.isEmpty || scaled) r''
    generalize suffix (!frac.isEmpty || scaled) r'' = marked at h hismark hmarked
    obtain ⟨number, mark, rest⟩ := marked
    obtain rfl : mark ++ rest = r'' := hmarked
    dsimp only at h hismark
    have hstop := span_stop (f := isWordPart) rest
    have hword := span_whole isWordPart rest
    split at h
    · next hempty =>
      rw [List.isEmpty_iff.mp hempty, List.nil_append] at hword
      rw [hword] at h hstop
      obtain ⟨rfl, rfl, rfl⟩ : whole ++ (frac ++ (power ++ mark)) = text ∧ rest = cs ∧
          TokenKind.literal number = kind := by simpa using h
      exact ⟨whole, frac, power, mark, scaled, number, rfl, hwhole, hfrac, hispower rfl, hismark,
        hstop, rfl⟩
    · cases h

theorem decimal_cut {kind : TokenKind} (h : decimal (text ++ cs) = ⟨text, cs, .ok kind⟩)
    (hcut : IsCut cut cs) : decimal (text ++ cut) = ⟨text, cut, .ok kind⟩ := by
  obtain ⟨whole, frac, power, mark, scaled, number, rfl, hwhole, hfrac, hpower, hmark, hword,
    rfl⟩ := decimal_parts h
  have hword : ∀ c ∈ cut.head?, isWordPart c = false := hcut.head ▸ hword
  have hcut' : IsCut (power ++ (mark ++ cut)) (power ++ (mark ++ cs)) := (hcut.append _).append _
  simp only [List.append_assoc] at hwhole ⊢
  -- Each part ends where it did, since what follows it starts with the same character.
  rw [decimal_of_parts (digits_cut hwhole (hcut'.append frac).head) (fraction_cut hfrac hcut')
    (power_append_mark hpower hmark hword) (mark_append hmark hword) hword]
  simp only [List.append_assoc]

theorem radix_cut {base : Nat} {opening : List Char} {kind : TokenKind}
    (h : radix base opening (text ++ cs) = ⟨opening ++ text, cs, .ok kind⟩)
    (hcut : IsCut cut cs) :
    radix base opening (text ++ cut) = ⟨opening ++ text, cut, .ok kind⟩ := by
  obtain ⟨ds, r, hdigits⟩ : ∃ ds r, digits base (text ++ cs) = (ds, r) := ⟨_, _, rfl⟩
  have hwhole := digits_whole base (text ++ cs)
  rw [hdigits] at hwhole
  simp only [radix, hdigits] at h
  split_ifs at h with hnone
  · cases congrArg Piece.verdict h
  rcases r with _ | ⟨c, r⟩
  · obtain ⟨-, rfl, -⟩ : opening ++ ds = opening ++ text ∧ [] = cs ∧ _ = _ := by simpa using h
    exact absurd (List.prefix_nil.mp hcut.begins) hcut.nonempty
  dsimp only at h
  split_ifs at h with hlong
  · -- the suffix
    obtain ⟨rfl, rfl, rfl⟩ : ds ++ [c] = text ∧ r = cs ∧ _ = kind := by simpa using h
    rw [List.append_assoc] at hdigits ⊢
    have hdigits' : digits base (ds ++ c :: cut) = (ds, c :: cut) := digits_cut hdigits rfl
    simp only [radix, hdigits', if_neg hnone, List.cons_append, List.nil_append, if_pos hlong,
      List.append_assoc]
  · obtain ⟨rfl, rfl, rfl⟩ : ds = text ∧ c :: r = cs ∧ _ = kind := by simpa using h
    obtain ⟨cut, rfl⟩ : ∃ r', cut = c :: r' := ⟨_, List.eq_cons_of_mem_head? (hcut.head ▸ rfl)⟩
    simp only [radix, digits_cut hdigits hcut.head, if_neg hnone, if_neg hlong]

/-- A number with a radix starts with what announces it. -/
theorem radix_text (base : Nat) (opening cs : List Char) :
    ∃ ds, (radix base opening cs).text = opening ++ ds := by
  unfold radix
  dsimp only
  split
  · exact ⟨_, rfl⟩
  · split
    · split
      · exact ⟨_, List.append_assoc _ _ _⟩
      · exact ⟨_, rfl⟩
    · exact ⟨_, rfl⟩

/-- Only the two characters in front can announce a radix. -/
theorem announced?_congr {c : Char} (h : cut.head? = cs.head?) :
    announced? (c :: cut) = announced? (c :: cs) := by
  by_cases hzero : c = '0'
  · subst hzero
    rcases cut with _ | ⟨d, cut⟩ <;> rcases cs with _ | ⟨e, cs⟩
    · rfl
    · cases h
    · cases h
    · obtain rfl : d = e := Option.some.inj h
      rfl
  · have hnone (r : List Char) : announced? (c :: r) = none :=
      announced?.eq_2 _ (by rintro x tail ⟨⟩; exact hzero rfl)
    rw [hnone, hnone]

theorem number_cut {kind : TokenKind} (h : number (text ++ cs) = ⟨text, cs, .ok kind⟩)
    (hne : text ≠ []) (hcut : IsCut cut cs) : number (text ++ cut) = ⟨text, cut, .ok kind⟩ := by
  have hsame : announced? (text ++ cut) = announced? (text ++ cs) := by
    obtain ⟨c, text, rfl⟩ := List.exists_cons_of_ne_nil hne
    exact announced?_congr (hcut.append text).head
  rw [number_eq] at h ⊢
  rw [hsame]
  cases hbase : announced? (text ++ cs) with
  | none =>
    rw [hbase] at h
    exact decimal_cut h hcut
  | some base =>
    rw [hbase] at h
    dsimp only at h ⊢
    obtain ⟨x, r, hcs, -⟩ := of_announced? hbase
    rw [hcs] at h
    obtain ⟨ds, hds⟩ := radix_text base ['0', x] r
    have hdrop : radix base ['0', x] r = ⟨text, cs, .ok kind⟩ := h
    rw [hdrop] at hds
    obtain rfl : text = '0' :: x :: ds := hds
    obtain rfl : ds ++ cs = r := by simpa using hcs
    exact radix_cut hdrop hcut

/-! ### Quotes, words and signs -/

theorem quote_cut {quote : Char} {kind : LiteralKind} {fault : LexFault}
    (hquote : IsQuote quote kind fault)
    (h : front (text ++ cs) = .piece ⟨text, cs, .ok (.literal kind)⟩) (hcut : IsCut cut cs) :
    front (text ++ cut) = .piece ⟨text, cut, .ok (.literal kind)⟩ := by
  rcases literal_of_front hquote h rfl with ⟨body, htext, hbody⟩ | ⟨rfl, r, hr, htext⟩
  · obtain rfl : text = quote :: (body ++ [quote]) := htext
    have hblock : threeQuotes.isPrefixOf (quote :: (body ++ quote :: cut)) = false := by
      refine hbody.isPrefixOf hquote fun hnil => Bool.eq_false_iff.mpr fun hthree => ?_
      -- Then the third quote is there in the whole text as well, which starts a text block.
      obtain ⟨tail, htail⟩ := List.isPrefixOf_iff_prefix.mp hthree
      obtain ⟨rfl, htail⟩ := List.cons_eq_cons.mp htail
      obtain ⟨-, rfl⟩ := List.cons_eq_cons.mp htail
      obtain ⟨rest, rfl⟩ := hcut.begins
      subst hnil
      change Front.piece (string ('"' :: '"' :: '"' :: (tail ++ rest))) = _ at h
      have htext := congrArg Piece.text (Front.piece.inj h)
      cases htext
    rw [List.cons_append, List.append_assoc, List.singleton_append, front_quote hquote hblock,
      hbody.quoted_closed hquote]
    rfl
  · obtain rfl : text = threeQuotes ++ (blockBody r).2.1 := htext
    rw [List.append_assoc, front_block hr]

theorem word_cut {c : Char} {r : List Char} (hstart : isWordStart c)
    (hwhole : text ++ cs = c :: r) (hspan : (text ++ cs).span isWordPart = (text, cs))
    (hcut : IsCut cut cs) : front (text ++ cut) = .piece ⟨text, cut,
      .ok ((Keyword.ofSpelling? (String.ofList text)).elim .identifier .keyword)⟩ := by
  have hall := span_all (f := isWordPart) (text ++ cs)
  have hstop := span_stop (f := isWordPart) (text ++ cs)
  rw [hspan, ← hcut.head] at hstop
  rw [hspan] at hall
  have hne : text ≠ [] := by
    rintro rfl
    rw [hwhole] at hspan
    exact span_nonempty (isWordPart_of_isWordStart hstart) r (congrArg Prod.fst hspan)
  obtain ⟨d, text, rfl⟩ := List.exists_cons_of_ne_nil hne
  obtain ⟨rfl, -⟩ := List.cons_eq_cons.mp hwhole
  have hfront := front_word (x := String.ofList (d :: text)) String.toList_ofList hstart
    (by rwa [String.toList_ofList]) hstop
  rwa [String.toList_ofList] at hfront

theorem sign_cut {s : Sign} (h : front (text ++ cs) = .piece ⟨text, cs, .ok (.sign s)⟩)
    (hread : sign (text ++ cs) = ⟨text, cs, .ok (.sign s)⟩)
    (hcut : IsCut cut cs) : front (text ++ cut) = .piece ⟨text, cut, .ok (.sign s)⟩ := by
  obtain rfl : text = s.spelling.toList := shape_front h rfl
  -- What starts a comment or a number behind the cut starts it in the whole text.
  have hslash (hs : s = .slash) : ∀ c ∈ cut.head?, c ≠ '/' ∧ c ≠ '*' := by
    rw [hcut.head]
    rintro c hc
    obtain ⟨rest, rfl⟩ : ∃ rest, cs = c :: rest := ⟨_, List.eq_cons_of_mem_head? hc⟩
    subst hs
    constructor
    · rintro rfl
      cases h
    · rintro rfl
      change (if (commentBody rest).1 then Front.comment _ _ else Front.piece _) = _ at h
      split_ifs at h
      cases h
  have hdot (hs : s = .dot) : startsWith isDigit cut = false := by
    rw [startsWith_congr hcut.head, Bool.eq_false_iff]
    intro hdigit
    subst hs
    have hstart : startsNumber ('.' :: cs) := by
      rw [startsNumber, hdigit]
      rfl
    have hnumber := Front.piece.inj ((front_of_startsNumber hstart).symm.trans h)
    obtain ⟨number, hkind, -⟩ := (isNumberPiece_number hstart).isNumeral
      (congrArg Piece.verdict hnumber)
    cases hkind
  have hlongest : Sign.longest? (s.spelling.toList ++ cs) = some s := by
    rw [sign] at hread
    split at hread
    · next s' hs' =>
      obtain rfl : s' = s := by simpa using congrArg Piece.verdict hread
      exact hs'
    · cases congrArg Piece.verdict hread
  -- A longer sign would be longer in the whole text as well.
  obtain ⟨s', more, hs', hmore, hbegins⟩ := Sign.longest?_append_cases s cut
  have hfits : s'.spelling.toList <+: s.spelling.toList ++ cs :=
    hmore ▸ (List.prefix_append_right_inj _).mpr (hbegins.trans hcut.begins)
  have hlength := Sign.length_le_of_longest? hlongest hfits
  obtain rfl : more = [] := by
    have := congrArg List.length hmore
    rw [List.length_append, String.length_toList, String.length_toList] at this
    exact List.length_eq_zero_iff.mp (by omega)
  obtain rfl : s' = s :=
    Sign.eq_of_spelling (String.toList_inj.mp (hmore.trans (List.append_nil _)))
  rw [front_eq_sign hslash hdot, sign, hs']
  dsimp only
  rw [← String.length_toList, List.drop_left]

/-- **A token is read as it was** when the end of the text behind it is cut off. -/
theorem front_cut {kind : TokenKind} (h : front (text ++ cs) = .piece ⟨text, cs, .ok kind⟩)
    (hcut : IsCut cut cs) : front (text ++ cut) = .piece ⟨text, cut, .ok kind⟩ := by
  have hreads := reads_front h rfl
  generalize hwhole : text ++ cs = whole at hreads
  generalize hp : (⟨text, cs, .ok kind⟩ : Piece) = p at hreads
  cases hreads with
  | string => exact quote_cut .string h hcut
  | char => exact quote_cut .char h hcut
  | number hstart hnumeral =>
    rw [← hp] at hnumeral
    have hstart' := hnumeral.startsNumber cut
    have hne : text ≠ [] := by
      rintro rfl
      cases hnumeral.startsNumber []
    rw [front_of_startsNumber hstart', number_cut (by rw [hwhole, hp]) hne hcut]
  | word hstart hkind =>
    rw [← hwhole] at hp
    have hspan : (text ++ cs).span isWordPart = (text, cs) :=
      Prod.ext (congrArg Piece.text hp).symm (congrArg Piece.rest hp).symm
    rw [← hkind, ← hwhole, ← hp]
    exact word_cut hstart hwhole hspan hcut
  | sign => exact sign_cut h (by rw [hwhole, hp]) hcut

/-! ### Blanks and comments -/

variable {blank skipped behind behind' : List Char}

theorem margin_cut (h : margin (blank ++ cs) = (blank, cs)) (hhead : cut.head? = cs.head?) :
    margin (blank ++ cut) = (blank, cut) := by
  rcases blank with _ | ⟨c, blank⟩
  · rcases cs with _ | ⟨c, cs⟩
    · rw [List.head?_eq_none_iff.mp hhead]
      rfl
    · obtain ⟨r, rfl⟩ : ∃ r, cut = c :: r := ⟨_, List.eq_cons_of_mem_head? hhead⟩
      rw [List.nil_append, margin] at h ⊢
      split_ifs at h ⊢
      · cases h
      · rw [← List.nil_append (c :: _)] at h ⊢
        exact span_cut h hhead
  · rw [List.cons_append, margin] at h ⊢
    split_ifs at h ⊢
    · have hspan : (blank ++ cs).span isBlank = (blank, cs) := by
        simpa [Prod.ext_iff] using h
      rw [span_cut hspan hhead]
    · rw [← List.cons_append] at h ⊢
      exact span_cut h hhead

/-- A bracketed comment ends where it ends, whatever stands behind it. -/
theorem commentBody_append (h : (commentBody cs).1) (tail : List Char) :
    commentBody ((commentBody cs).2.1 ++ tail) = (true, (commentBody cs).2.1, tail) := by
  fun_induction commentBody cs with
  | case1 => cases h
  | case2 => rfl
  | case3 c cs hopen closed text rest heq ih =>
    have hclosed : (commentBody cs).1 := by rwa [heq]
    have hwhole := commentBody_whole cs
    obtain ⟨body, hbody, -⟩ := commentBody_closed hclosed
    rw [heq] at ih hwhole hbody
    dsimp only at ih hwhole hbody
    -- What is left has the closing bracket in it, so what is behind it decides nothing.
    obtain ⟨a, t, rfl⟩ : ∃ a t, text = a :: t :=
      List.exists_cons_of_ne_nil (by rw [hbody]; simp)
    have hopen' : ∀ r, c = '*' → a :: (t ++ tail) = '/' :: r → False := by
      rintro r hc ⟨⟩
      exact hopen _ hc hwhole.symm
    have ih := ih h
    rw [List.cons_append] at ih
    rw [List.cons_append, List.cons_append, commentBody.eq_3 _ _ hopen', ih]

theorem comment_cut (h : front (text ++ cs) = .comment text cs) (hhead : cut.head? = cs.head?) :
    front (text ++ cut) = .comment text cut := by
  generalize hwhole : text ++ cs = whole at h
  unfold front at h
  split at h
  · cases h
  · next r =>
    obtain ⟨rfl, rfl⟩ :
        '/' :: '/' :: (r.span (· ≠ '\n')).1 = text ∧ (r.span (· ≠ '\n')).2 = cs := by
      simpa using h
    have hwhole : ((r.span (· ≠ '\n')).1 ++ (r.span (· ≠ '\n')).2).span (· ≠ '\n')
        = r.span (· ≠ '\n') := by rw [span_whole]
    rw [List.cons_append, List.cons_append, front, span_cut hwhole hhead]
  · next r =>
    dsimp only at h
    split_ifs at h with hclosed
    obtain ⟨rfl, rfl⟩ : '/' :: '*' :: (commentBody r).2.1 = text ∧ (commentBody r).2.2 = cs := by
      simpa using h
    rw [List.cons_append, List.cons_append, front, commentBody_append hclosed]
    rfl
  · cases h

/-- What is skipped before a text is skipped before every text that starts as this one does. -/
theorem Skips.congr (h : Skips behind skipped) (hhead : behind'.head? = behind.head?) :
    Skips behind' skipped := by
  induction h with
  | margin h => exact .margin (margin_cut h hhead)
  | @comment blank text skipped hmargin hcomment h ih =>
    have hhead' : (skipped ++ behind').head? = (skipped ++ behind).head? := by
      rw [List.head?_append, List.head?_append, hhead]
    refine .comment (margin_cut hmargin ?_) (comment_cut hcomment hhead') ih
    rw [List.head?_append, hhead', ← List.head?_append]

theorem nonempty_comment (h : front (text ++ cs) = .comment text cs) : text ≠ [] := by
  rcases front_cases (text ++ cs) with ⟨hfront, -⟩ | ⟨text', rest', hfront, -, hcomment⟩ |
    ⟨p, hfront, -⟩
  all_goals
    rw [h] at hfront
    cases hfront
  exact hcomment.nonempty

/-- A token is read as it was when all of the text behind it is cut off. -/
theorem front_end {kind : TokenKind} (h : front (text ++ cs) = .piece ⟨text, cs, .ok kind⟩) :
    front text = .piece ⟨text, [], .ok kind⟩ := by
  have hfront := (isStable_of_front h rfl).front .nothing
  rwa [String.toList_ofList, List.append_nil] at hfront

/-- A token starts with a character that is not skipped. -/
theorem head_of_front {kind : TokenKind}
    (h : front (text ++ cs) = .piece ⟨text, cs, .ok kind⟩) :
    ∃ c r, text = c :: r ∧ isBlank c = false ∧ c ≠ byteOrderMark := by
  have hhead := (isStable_of_front h rfl).head
  rwa [String.toList_ofList] at hhead

end Scan

/-- What stands behind what is skipped is read. -/
theorem Lexer.read_skips {c : Cursor} {skipped : List Char} {p : Scan.Piece}
    (hskips : Scan.Skips (p.text ++ p.rest) skipped)
    (hfront : Scan.front (p.text ++ p.rest) = .piece p)
    (hrest : c.rest = skipped ++ (p.text ++ p.rest)) :
    read c = readPiece (c.past skipped (p.text ++ p.rest)) p := by
  rw [read]
  have hless : c.rest.length < c.rest.length + 1 := Nat.lt_succ_self _
  generalize c.rest.length + 1 = n at hless
  induction hskips generalizing n c with
  | margin h =>
    obtain ⟨n, rfl⟩ := Nat.exists_eq_succ_of_ne_zero (Nat.ne_zero_of_lt hless)
    rw [readWithin, hrest, h]
    simp only [Cursor.past, hfront]
  | @comment blank text skipped hmargin hcomment h ih =>
    obtain ⟨n, rfl⟩ := Nat.exists_eq_succ_of_ne_zero (Nat.ne_zero_of_lt hless)
    rw [List.append_assoc, List.append_assoc] at hrest
    have hlength := congrArg List.length hrest
    have hpos := List.length_pos_iff.mpr (Scan.nonempty_comment hcomment)
    simp only [List.length_append] at hlength
    -- one round passes the margin and the comment
    have hstep : readWithin (n + 1) c =
        readWithin n (c.past (blank ++ text) (skipped ++ (p.text ++ p.rest))) := by
      rw [← Cursor.past_past _ _ _ (text ++ (skipped ++ (p.text ++ p.rest)))]
      simp only [readWithin, hrest, hmargin, Cursor.past, hcomment]
    rw [hstep, ih (c := c.past (blank ++ text) (skipped ++ (p.text ++ p.rest))) rfl n (by
      simp only [Cursor.past, List.length_append]
      omega), Cursor.past_past, List.append_assoc]

/-! ### Tokens in a row -/

namespace Token

/-- **Tokens stand in a row** and make up a text, each of them behind blanks and comments. The text
stands between `before` and `rest`. -/
inductive InRow : List Char → List Char → List Char → List Token → Prop
  | nil (before rest : List Char) : InRow before [] rest []
  | cons {before skipped text rest : List Char} {t : Token} {ts : List Token}
    (hskips : Scan.Skips (t.text.toList ++ (text ++ rest)) skipped)
    (hfront : Scan.front (t.text.toList ++ (text ++ rest)) =
      .piece ⟨t.text.toList, text ++ rest, .ok t.kind⟩)
    (hoffset : t.span.offset = byteSize (before ++ skipped))
    (hstop : t.span.stop = byteSize (before ++ (skipped ++ t.text.toList)))
    (h : InRow (before ++ (skipped ++ t.text.toList)) text rest ts) :
    InRow before (skipped ++ (t.text.toList ++ text)) rest (t :: ts)

namespace InRow

variable {before text text' rest cut : List Char} {t : Token} {ts us : List Token}

theorem append (h : InRow before text (text' ++ rest) ts)
    (h' : InRow (before ++ text) text' rest us) : InRow before (text ++ text') rest (ts ++ us) := by
  generalize hbehind : text' ++ rest = behind at h
  induction h with
  | nil => rwa [List.append_nil] at h'
  | @cons before skipped text behind t ts hskips hfront hoffset hstop h ih =>
    subst hbehind
    rw [← List.append_assoc text] at hskips hfront
    rw [List.append_assoc skipped, List.append_assoc t.text.toList]
    exact .cons hskips hfront hoffset hstop (ih (by simpa only [List.append_assoc] using h') rfl)

/-- Tokens in a row can be set apart. -/
theorem of_append (h : InRow before text rest (ts ++ us)) : ∃ text₁ text₂, text = text₁ ++ text₂ ∧
    InRow before text₁ (text₂ ++ rest) ts ∧ InRow (before ++ text₁) text₂ rest us := by
  induction ts generalizing before text with
  | nil => exact ⟨[], text, rfl, .nil _ _, by rwa [List.append_nil]⟩
  | cons t ts ih =>
    cases h with
    | @cons _ skipped text _ _ _ hskips hfront hoffset hstop h =>
      obtain ⟨text₁, text₂, rfl, hts, hus⟩ := ih h
      rw [List.append_assoc] at hskips hfront
      refine ⟨skipped ++ (t.text.toList ++ text₁), text₂, by simp only [List.append_assoc],
        .cons hskips hfront hoffset hstop hts, ?_⟩
      simpa only [List.append_assoc] using hus

/-- What is skipped in front of tokens can be left to the text before. -/
theorem head (h : InRow before text rest (t :: ts)) : ∃ skipped text', text = skipped ++ text' ∧
    InRow (before ++ skipped) text' rest (t :: ts) ∧
      t.span.offset = byteSize (before ++ skipped) := by
  cases h with
  | @cons _ skipped text _ _ _ _ hfront hoffset hstop h =>
    rw [← List.append_assoc] at h hstop
    have hnone : Scan.Skips (t.text.toList ++ (text ++ rest)) [] := by
      obtain ⟨c, r, hc, hhead⟩ := Scan.head_of_front hfront
      refine .margin (Scan.margin_of_head ?_).1
      rw [hc]
      rintro _ ⟨⟩
      exact hhead
    refine ⟨skipped, t.text.toList ++ text, rfl, .cons hnone hfront ?_ hstop h, hoffset⟩
    rwa [List.append_nil]

/-- The last token ends where the text does. -/
theorem stop_last (h : InRow before text rest ts) :
    ∀ t ∈ ts.getLast?, t.span.stop = byteSize (before ++ text) := by
  induction h with
  | nil => exact nofun
  | @cons before skipped text rest t ts _ _ _ hstop h ih =>
    rcases ts with _ | ⟨u, ts⟩
    · rintro _ ⟨⟩
      cases h
      rw [List.append_nil]
      exact hstop
    · rw [List.getLast?_cons_cons]
      simpa only [List.append_assoc] using ih

theorem eq_nil (h : InRow before [] rest ts) : ts = [] := by
  generalize hnil : [] = text at h
  cases h with
  | nil => rfl
  | cons _ hfront =>
    obtain ⟨c, r, hc, -⟩ := Scan.head_of_front hfront
    rw [hc] at hnil
    simp at hnil

/-- A text that is nothing but a point is one token. -/
theorem kind_of_point (h : InRow before ['.'] rest ts) :
    ∃ t ∈ ts.getLast?, t.kind = .sign .dot := by
  generalize hpoint : ['.'] = text at h
  cases h with
  | nil => cases hpoint
  | @cons _ skipped text _ t ts _ hfront _ _ h =>
    obtain ⟨c, r, hc, -⟩ := Scan.head_of_front hfront
    rw [hc] at hpoint
    obtain ⟨rfl, hpoint⟩ : skipped = [] ∧ ['.'] = c :: (r ++ text) := by
      rcases skipped with _ | ⟨d, skipped⟩
      · exact ⟨rfl, hpoint⟩
      · exact absurd (List.cons_eq_cons.mp hpoint).2.symm (by simp)
    obtain ⟨rfl, hnil⟩ := List.cons_eq_cons.mp hpoint
    obtain ⟨rfl, rfl⟩ := List.append_eq_nil_iff.mp hnil.symm
    obtain rfl := h.eq_nil
    have hfront := Scan.front_end hfront
    rw [hc] at hfront
    have hdot : Scan.front ['.'] = .piece ⟨['.'], [], .ok (.sign .dot)⟩ := rfl
    exact ⟨t, rfl, by simpa using (hdot.symm.trans hfront).symm⟩

/-- **The tokens stand in a row** when the text behind them is cut off, if the last one is no point
or something is left behind it. -/
theorem cut_rest (h : InRow before text rest ts) (hcut : Scan.IsCut cut rest ∨
    cut = [] ∧ ∀ t ∈ ts.getLast?, t.kind ≠ .sign .dot) : InRow before text cut ts := by
  induction h with
  | nil => exact .nil _ _
  | @cons before skipped text rest t ts hskips hfront hoffset hstop h ih =>
    obtain ⟨c, r, hc, -⟩ := Scan.head_of_front hfront
    have hlast : Scan.IsCut cut rest ∨ cut = [] ∧ ∀ t ∈ ts.getLast?, t.kind ≠ .sign .dot :=
      hcut.imp_right fun ⟨hnil, hlast⟩ => ⟨hnil, fun u hu => hlast u (List.mem_getLast?_cons hu)⟩
    refine .cons (hskips.congr (by rw [hc]; rfl)) ?_ hoffset hstop (ih hlast)
    rcases eq_or_ne (text ++ cut) [] with hnil | hne
    · -- Nothing is left behind the last token.
      rw [hnil, List.append_nil]
      exact Scan.front_end hfront
    · refine Scan.front_cut hfront ?_
      rcases hlast with hcut | ⟨rfl, hlast⟩
      · exact hcut.append text
      · rw [List.append_nil] at hne ⊢
        refine ⟨List.prefix_append _ _, hne, ?_⟩
        rintro rfl
        obtain ⟨u, hu, hdot⟩ := h.kind_of_point
        exact hlast u hu hdot

theorem readAll (h : InRow before text [] ts) {n : Nat} {c : Cursor} (hc : c.rest = text)
    (hn : text.length < n) : (Tokens.readAll n c).AreWords (ts.map Token.lexeme) := by
  generalize hrest : [] = rest at h
  induction h generalizing n c with
  | nil =>
    obtain ⟨n, rfl⟩ := Nat.exists_eq_succ_of_ne_zero (Nat.ne_zero_of_lt hn)
    rw [Tokens.readAll, if_pos (Lexer.kind_read_end hc)]
    exact ⟨rfl, rfl, Lexer.kind_read_end hc⟩
  | @cons before skipped text rest t ts hskips hfront _ _ h ih =>
    subst hrest
    obtain ⟨n, rfl⟩ := Nat.exists_eq_succ_of_ne_zero (Nat.ne_zero_of_lt hn)
    obtain ⟨d, r, hd, -⟩ := Scan.head_of_front hfront
    rw [List.append_nil] at hskips hfront
    have hread := Lexer.read_skips (p := ⟨t.text.toList, text, .ok t.kind⟩) hskips hfront hc
    have hkind : t.kind ≠ .endOfSource := by
      have htext := Scan.isText_front hfront rfl
      rw [TokenKind.isText, Bool.and_eq_true, decide_eq_true_eq] at htext
      exact htext.1
    -- the text behind the first token is read from the cursor behind it
    have hlater := ih (c := (Lexer.read c).next) (n := n) (by rw [hread]; rfl) (by
      rw [hd] at hn
      simp only [List.length_append, List.length_cons] at hn
      omega) rfl
    rw [Tokens.readAll]
    have htoken : (Lexer.read c).token.lexeme = t.lexeme := by
      rw [hread]
      exact Prod.ext rfl String.ofList_toList
    have hread' : (Lexer.read c).token.kind = t.kind := congrArg Prod.fst htoken
    rw [if_neg (by rwa [hread'])]
    refine ⟨?_, ?_, hlater.finish⟩
    · rw [List.map_cons, List.map_cons, htoken, hlater.tokens]
    · dsimp only
      rw [hlater.errors, hread]
      rfl

/-- **The tokens of a text in which tokens stand in a row** are these tokens. -/
theorem areWords (h : InRow before text [] ts) : (tokenize text).AreWords (ts.map Token.lexeme) :=
  h.readAll rfl (Nat.lt_succ_self _)

end InRow

theorem inRow_readAll {n : Nat} {c : Cursor} (before : List Char) (h : c.rest.length < n)
    (hplace : c.position = Position.start.afterAll before)
    (herrors : (Tokens.readAll n c).errors = []) :
    ∃ text rest, c.rest = text ++ rest ∧ InRow before text rest (Tokens.readAll n c).tokens := by
  induction n generalizing c before with
  | zero => exact absurd h (Nat.not_lt_zero _)
  | succ n ih =>
    rcases Tokens.readAll_succ before h hplace with ⟨hnone, -⟩ |
      ⟨t, skipped, p, c', hread, hskips, hrest, hrest', hplace', hless, htokens, -, hsub⟩
    · rw [hnone]
      exact ⟨[], c.rest, rfl, .nil _ _⟩
    · rw [herrors, List.subset_nil] at hsub
      rw [List.append_assoc] at hplace'
      obtain ⟨text, rest, hc', hrow⟩ := ih _ hless hplace' hsub
      have htells := hread.tells
      -- without errors the verdict on the piece is its kind
      cases hverdict : p.verdict with
      | error fault =>
        rw [hverdict, herrors] at htells
        cases htells with
        | fault _ _ herror => exact absurd herror List.not_mem_nil
      | ok kind =>
        rw [hverdict] at htells
        cases htells with
        | kind hkind htext =>
          have htext : p.text = t.text.toList := by rw [htext, String.toList_ofList]
          have hp : p = ⟨t.text.toList, text ++ rest, .ok t.kind⟩ := by
            rw [← htext, ← hc', hrest', hkind, ← hverdict]
          subst hp
          refine ⟨skipped ++ (t.text.toList ++ text), rest, ?_, ?_⟩
          · rw [hrest, hc']
            simp only [List.append_assoc]
          · rw [htokens]
            refine .cons hskips hread.front ?_ ?_ hrow
            · rw [hread.covers.span_eq, Span.between, Tokens.offset_start]
            · rw [hread.covers.span_eq, Tokens.stop_between, List.append_assoc]

/-- **The tokens of a text stand in a row.** -/
theorem inRow_tokenize {source : List Char} (h : (tokenize source).errors = []) :
    ∃ text rest, source = text ++ rest ∧ InRow [] text rest (tokenize source).tokens :=
  inRow_readAll [] (Nat.lt_succ_self _) rfl h

end Token

end JavaGraft
