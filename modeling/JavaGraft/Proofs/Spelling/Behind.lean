import JavaGraft.Proofs.Spelling.Annotations

/-!
# Pieces before other tokens

Which pieces are taken of tokens does not depend on what stands behind them. So if the tokens of a
type are followed by something else that can follow a type, the same pieces are taken of them
(`JavaGraft.TypePiece.take_exchange`). There is one thing to be careful about: an annotation is read
by looking at the token behind it, so one piece more must stand before what is exchanged. It does,
since no type ends with an annotation, not even if the angles at its end are left out
(`JavaGraft.Spells.ends`).

These angles are the other thing. If what is left behind pieces starts within a token of several
angles, then the last pieces have been taken off this token, and the pieces before end where it
starts (`JavaGraft.TypePiece.take_split`).
-/

namespace JavaGraft

open Token

/-! ### What types end with -/

namespace TypePiece

/-- Whether a type goes on behind the piece. -/
def goesOn : TypePiece → Bool
  | annot => true
  | token kind => kind = Sign.dot
  | _ => false

/-- Whether the piece is an angle, which may be one of several in a token. -/
def isClose : TypePiece → Bool
  | close => true
  | _ => false

/-- The last of some pieces, closing angles aside. -/
def last? (ps : List TypePiece) : Option TypePiece := (ps.filter fun p => !p.isClose).getLast?

/-- There is a last one, and a type may end behind it. -/
def Ends (ps : List TypePiece) : Prop := ∃ p ∈ last? ps, p.goesOn = false

variable {p : TypePiece} {ps qs : List TypePiece}

theorem last?_append (ps qs : List TypePiece) : last? (ps ++ qs) = (last? qs).or (last? ps) := by
  rw [last?, List.filter_append, List.getLast?_append]
  rfl

theorem last?_replicate_close (n : Nat) : last? (.replicate n close) = none := by
  rw [last?, List.filter_replicate_of_neg (by decide)]
  rfl

theorem mem_last?_cons {q : TypePiece} (h : q ∈ last? ps) : q ∈ last? (p :: ps) := by
  rw [← List.singleton_append, last?_append, Option.mem_def.mp h]
  rfl

namespace Ends

theorem append (h : Ends qs) (ps : List TypePiece) : Ends (ps ++ qs) := by
  obtain ⟨p, hp, hgoes⟩ := h
  exact ⟨p, by rw [last?_append, Option.mem_def.mp hp]; rfl, hgoes⟩

theorem cons (h : Ends ps) (p : TypePiece) : Ends (p :: ps) := h.append [p]

theorem of_append_close {n : Nat} : Ends (ps ++ .replicate n close) ↔ Ends ps := by
  rw [Ends, last?_append, last?_replicate_close]
  rfl

theorem singleton (hclose : p.isClose = false) (hgoes : p.goesOn = false) : Ends [p] :=
  ⟨p, by rw [last?, List.filter_singleton]; simp [hclose], hgoes⟩

/-- A type may end behind the last piece. -/
theorem last (h : Ends ps) : ∀ p ∈ last? ps, p.goesOn = false := by
  obtain ⟨p, hp, hgoes⟩ := h
  exact fun q hq => Option.mem_unique hp hq ▸ hgoes

theorem brackets (h : Ends ps) (n : Nat) : Ends (ps ++ brackets n) := by
  cases n with
  | zero => rwa [TypePiece.brackets, List.append_nil]
  | succ n =>
    refine append ?_ ps
    induction n with
    | zero => exact ⟨_, rfl, rfl⟩
    | succ n ih => exact (ih.cons _).cons _

end Ends

end TypePiece

open TypePiece

/-- **No type ends with an annotation or with a dot**, even without the angles at its end. -/
theorem Spells.ends {ph : TypePhrase} {ps : List TypePiece} (h : Spells ph ps) :
    Ends ps ∨ ps = [] ∧ ∃ args, ph = .angles args := by
  induction h with
  | annotated _ ih => exact .inl ((ih.resolve_right nofun).cons _)
  | bare _ ih => exact .inl (ih.resolve_right nofun)
  | @primitive kind _ hp n span =>
    have hkind : Ends [.token kind] := .singleton rfl (decide_eq_false fun hdot => by
      rw [hdot] at hp
      cases hp)
    exact .inl (hkind.brackets n)
  | named _ n span ih => exact .inl ((ih.resolve_right nofun).brackets n)
  | @last x args ps _ ih =>
    rcases ih with hends | ⟨rfl, -⟩
    · exact .inl (hends.cons _)
    · exact .inl (.singleton rfl rfl)
  | segment _ _ _ ih' => exact .inl ((((ih'.resolve_right nofun).cons _).append _).cons _)
  | none => exact .inr ⟨rfl, [], rfl⟩
  | diamond => exact .inl ⟨_, rfl, rfl⟩
  | angles _ ih =>
    have hclosed := Ends.of_append_close (n := 1).mpr (ih.resolve_right nofun)
    exact .inl (hclosed.cons _)
  | single _ ih => exact .inl (ih.resolve_right nofun)
  | more _ _ _ ih' => exact .inl (((ih'.resolve_right nofun).cons _).append _)
  | type _ ih => exact .inl (ih.resolve_right nofun)
  | wildcard span => exact .inl (.singleton rfl rfl)
  | upper _ span ih | lower _ span ih => exact .inl (((ih.resolve_right nofun).cons _).cons _)

/-! ### How much is taken -/

namespace TypePiece

variable {p : TypePiece} {ps : List TypePiece} {ts us y y' rest rest' : List Token}

/-- A piece takes something. -/
theorem totalWeight_takes (h : p.Takes AnnotReads ts us) : totalWeight us < totalWeight ts := by
  cases p with
  | name =>
    obtain ⟨t, rfl, -⟩ := h
    exact totalWeight_cons t us
  | token =>
    obtain ⟨t, rfl, -⟩ := h
    exact totalWeight_cons t us
  | close =>
    rcases ts with _ | ⟨t, ts⟩
    · cases h
    · simp only [Takes, closed?] at h
      split at h
      · cases h
      · cases h
        exact totalWeight_cons t us
      · next rest hrest =>
        cases h
        rw [totalWeight, totalWeight, ← weight_behindAngle hrest]
        omega
  | annot =>
    obtain ⟨x, hx, rfl, -⟩ := h
    rw [totalWeight_append]
    exact Nat.lt_add_of_pos_left (totalWeight_pos.mpr hx)

theorem totalWeight_take (h : Take AnnotReads ps ts us) :
    totalWeight us + ps.length ≤ totalWeight ts := by
  induction ps generalizing ts with
  | nil =>
    obtain rfl : ts = us := h
    exact le_rfl
  | cons p ps ih =>
    obtain ⟨vs, hp, hps⟩ := h
    have hless := totalWeight_takes hp
    have hle := ih hps
    rw [List.length_cons]
    omega

/-- **Where a piece is taken before other tokens**: it ends before them, or it takes some of them
as well, or it is an angle of the first one of them. -/
theorem takes_cases (h : p.Takes AnnotReads (y ++ rest) us) :
    y ≠ [] ∧ (∃ z, us = z ++ rest) ∨ (∃ x, x ≠ [] ∧ rest = x ++ us) ∨
      y = [] ∧ p = close ∧ ∃ t t' ts, rest = t :: ts ∧ us = t' :: ts := by
  have htoken {t : Token} {ts : List Token} (hcons : y ++ rest = t :: ts) :
      y ≠ [] ∧ (∃ z, ts = z ++ rest) ∨ ∃ x, x ≠ [] ∧ rest = x ++ ts := by
    rcases y with _ | ⟨u, y⟩
    · exact .inr ⟨[t], List.cons_ne_nil _ _, hcons⟩
    · exact .inl ⟨List.cons_ne_nil _ _, y, (List.cons_eq_cons.mp hcons).2.symm⟩
  cases p with
  | name =>
    obtain ⟨t, hcons, -⟩ := h
    exact (htoken hcons).imp_right .inl
  | token =>
    obtain ⟨t, hcons, -⟩ := h
    exact (htoken hcons).imp_right .inl
  | close =>
    obtain ⟨t, ts, hcons, ⟨-, rfl⟩ | ⟨t', rfl, -⟩⟩ := closed?_cases h
    · exact (htoken hcons).imp_right .inl
    · rcases y with _ | ⟨u, y⟩
      · exact .inr (.inr ⟨rfl, rfl, t, t', ts, hcons, rfl⟩)
      · obtain ⟨-, rfl⟩ := List.cons_eq_cons.mp hcons
        exact .inl ⟨List.cons_ne_nil _ _, t' :: y, rfl⟩
  | annot =>
    obtain ⟨x, hx, hahead, -⟩ := h
    -- an annotation ends among the tokens before the others or among the others
    rcases List.append_eq_append_iff.mp hahead with ⟨z, rfl, rfl⟩ | ⟨z, rfl, rfl⟩
    · rcases eq_or_ne z [] with rfl | hz
      · exact .inl ⟨by simpa using hx, [], rfl⟩
      · exact .inr (.inl ⟨z, hz, rfl⟩)
    · exact .inl ⟨by simp [hx], z, rfl⟩

/-- **If pieces end before other tokens**, so does the first one. -/
theorem take_before (h : Take AnnotReads (p :: ps) (y ++ rest) rest) : y ≠ [] ∧
    ∃ z, p.Takes AnnotReads (y ++ rest) (z ++ rest) ∧ Take AnnotReads ps (z ++ rest) rest := by
  obtain ⟨vs, hp, hps⟩ := h
  have hless := totalWeight_takes hp
  have hle := totalWeight_take hps
  rcases takes_cases hp with ⟨hy, z, rfl⟩ | ⟨x, hx, rfl⟩ | ⟨rfl, -⟩
  · exact ⟨hy, z, hp, hps⟩
  · rw [totalWeight_append] at hle
    have := totalWeight_pos.mpr hx
    omega
  · rw [List.nil_append] at hless
    omega

/-- Nothing is taken by no more than no pieces. -/
theorem eq_nil_of_take (h : Take AnnotReads ps ts ts) : ps = [] := by
  have hle := totalWeight_take h
  exact List.length_eq_zero_iff.mp (by omega)

/-- Pieces behind which a type may end are taken of something. -/
theorem Ends.ne_nil_of_take (h : Ends ps) (htake : Take AnnotReads ps (y ++ rest) rest) :
    y ≠ [] := by
  rintro rfl
  obtain rfl := eq_nil_of_take htake
  obtain ⟨p, hp, -⟩ := h
  cases hp

/-! ### Angles off one token -/

/-- **If pieces end within a token of angles**, the last ones are angles of it. -/
theorem take_split {t t' : Token} {r : List Token}
    (h : Take AnnotReads ps (y ++ t :: r) (t' :: r)) :
    ∃ qs n, ps = qs ++ .replicate n close ∧ Take AnnotReads qs (y ++ t :: r) (t :: r) ∧
      Take AnnotReads (.replicate n close) (t :: r) (t' :: r) := by
  -- On the pieces: the token loses an angle with each of the last ones.
  induction ps generalizing y t with
  | nil =>
    have hnil : y ++ t :: r = t' :: r := h
    obtain rfl : y = [] := by
      have hlength := congrArg List.length hnil
      rw [List.length_append, List.length_cons, List.length_cons] at hlength
      exact List.length_eq_zero_iff.mp (by omega)
    exact ⟨[], 0, rfl, rfl, hnil⟩
  | cons p ps ih =>
    obtain ⟨vs, hp, hps⟩ := h
    rcases takes_cases hp with ⟨-, z, rfl⟩ | ⟨x, hx, hrest⟩ | ⟨rfl, rfl, u, u', us, hrest, rfl⟩
    · obtain ⟨qs, n, rfl, hqs, hcloses⟩ := ih hps
      exact ⟨p :: qs, n, rfl, take_cons hp hqs, hcloses⟩
    · -- too little would be left
      obtain ⟨v, x, rfl⟩ := List.exists_cons_of_ne_nil hx
      have hr : r = x ++ vs := (List.cons_eq_cons.mp hrest).2
      have hle := totalWeight_take hps
      have hless := totalWeight_cons t' r
      have hmore : totalWeight r = totalWeight x + totalWeight vs := hr ▸ totalWeight_append x vs
      omega
    · obtain ⟨rfl, rfl⟩ := List.cons_eq_cons.mp hrest
      obtain ⟨qs, n, rfl, hqs, hcloses⟩ := ih (y := []) hps
      obtain rfl := eq_nil_of_take hqs
      exact ⟨[], n + 1, rfl, rfl, take_cons hp hcloses⟩

/-- Fewer angles are taken off a token than it has, if something is left of it. -/
theorem lt_weight_of_closes {n : Nat} {t t' : Token} {r : List Token}
    (h : Take AnnotReads (.replicate n close) (t :: r) (t' :: r)) : n < t.weight := by
  have hle := totalWeight_take h
  have hpos := t'.one_le_weight
  rw [List.length_replicate, totalWeight, totalWeight] at hle
  omega

/-! ### Exchanging what follows -/

/-- A piece is taken before other tokens as it was, if something stands between them. -/
theorem takes_exchange {z : List Token} (h : p.Takes AnnotReads (y ++ rest) (z ++ rest))
    (hy : y ≠ []) (hz : p = annot → z ≠ []) (hy' : y'.map lexeme = y.map lexeme)
    (hbound : (firstKind rest).isBound) (hbound' : (firstKind rest').isBound) :
    ∃ z', z'.map lexeme = z.map lexeme ∧ p.Takes AnnotReads (y' ++ rest') (z' ++ rest') := by
  -- the first token has another place, but its kind and its text are the same
  obtain ⟨t, y, rfl⟩ := List.exists_cons_of_ne_nil hy
  obtain ⟨t', y₁, rfl, ht, hy₁⟩ := List.map_eq_cons_iff.mp hy'
  have hkind : t'.kind = t.kind := congrArg Prod.fst ht
  have htext : t'.text = t.text := congrArg Prod.snd ht
  cases p with
  | name =>
    obtain ⟨u, hcons, hname, rfl⟩ := h
    obtain ⟨rfl, hsame⟩ := List.cons_eq_cons.mp hcons
    exact ⟨y₁, hy₁.trans (List.append_cancel_right hsame ▸ rfl), t', rfl, hkind.trans hname, htext⟩
  | token =>
    obtain ⟨u, hcons, rfl⟩ := h
    obtain ⟨rfl, hsame⟩ := List.cons_eq_cons.mp hcons
    exact ⟨y₁, hy₁.trans (List.append_cancel_right hsame ▸ rfl), t', rfl, hkind⟩
  | close =>
    simp only [Takes, List.cons_append, closed?, hkind] at h ⊢
    split at h
    · cases h
    · next hdrop =>
      obtain rfl := List.append_cancel_right (Option.some.inj h)
      exact ⟨y₁, hy₁, rfl⟩
    · next k hdrop =>
      rw [← List.cons_append] at h
      obtain rfl := List.append_cancel_right (Option.some.inj h)
      refine ⟨t'.behindAngle k :: y₁, ?_, rfl⟩
      rw [List.map_cons, List.map_cons, hy₁, lexeme, lexeme, behindAngle, behindAngle, htext]
  | annot =>
    obtain ⟨w, hw, hahead, -⟩ := id h
    have hwhole : t :: y = w ++ z :=
      List.append_cancel_right (hahead.trans (List.append_assoc w z rest).symm)
    rw [hwhole, List.append_assoc] at h
    rw [hwhole] at hy'
    obtain ⟨w', z', hsplit, hw', hz'⟩ := List.map_eq_append_iff.mp (hy'.trans List.map_append)
    rw [hsplit, List.append_assoc]
    exact ⟨z', hz', h.exchange (hz rfl) hw' hz' hbound hbound'⟩

/-- Where a type goes on behind a piece, something is left before the other tokens. -/
theorem ne_nil_of_goesOn {z : List Token} (hps : ∀ q ∈ last? (p :: ps), q.goesOn = false)
    (h : Take AnnotReads ps (z ++ rest) rest) (hp : p.goesOn) : z ≠ [] := by
  rintro rfl
  obtain rfl := eq_nil_of_take h
  have hlast : p ∈ last? [p] := by cases p <;> first | rfl | cases hp
  rw [hps p hlast] at hp
  cases hp

/-- **Other tokens may follow pieces** behind which a type may end. -/
theorem take_exchange (h : Take AnnotReads ps (y ++ rest) rest)
    (hps : ∀ p ∈ last? ps, p.goesOn = false) (hy' : y'.map lexeme = y.map lexeme)
    (hbound : (firstKind rest).isBound) (hbound' : (firstKind rest').isBound) :
    Take AnnotReads ps (y' ++ rest') rest' := by
  -- On the pieces: what is left of the tokens before `rest` is of the same words in both rows.
  induction ps generalizing y y' with
  | nil =>
    have hnil : y ++ rest = rest := h
    rw [List.append_left_eq_self.mp hnil, List.map_nil, List.map_eq_nil_iff] at hy'
    rw [hy']
    exact take_nil
  | cons p ps ih =>
    obtain ⟨hy, z, hp, hrest⟩ := take_before h
    obtain ⟨z', hz', hp'⟩ := takes_exchange hp hy
      (fun hannot => ne_nil_of_goesOn hps hrest (hannot ▸ rfl)) hy' hbound hbound'
    exact take_cons hp' (ih hrest (fun q hq => hps q (mem_last?_cons hq)) hz')

/-- If the last token behind a piece is no dot, then it is none before the piece. -/
theorem takes_last {z : List Token} (h : p.Takes AnnotReads (y ++ rest) (z ++ rest))
    (hp : p.goesOn → z ≠ []) (hz : ∀ t ∈ z.getLast?, t.kind ≠ Sign.dot) :
    ∀ t ∈ y.getLast?, t.kind ≠ Sign.dot := by
  -- the last token is that behind the piece, or else the piece ends with it
  have hcons {t : Token} {us : List Token} (ht : t.kind = Sign.dot → us ≠ [])
      (hus : ∀ u ∈ us.getLast?, u.kind ≠ Sign.dot) :
      ∀ u ∈ (t :: us).getLast?, u.kind ≠ Sign.dot := by
    rcases us with _ | ⟨v, us⟩
    · rintro _ ⟨⟩ hdot
      exact ht hdot rfl
    · rwa [List.getLast?_cons_cons]
  have hbefore {t : Token} (h : y ++ rest = t :: (z ++ rest)) : y = t :: z :=
    List.append_cancel_right (h.trans (List.cons_append).symm)
  cases p with
  | name =>
    obtain ⟨t, hahead, hname, -⟩ := h
    rw [hbefore hahead]
    exact hcons (fun hdot => absurd (hname.symm.trans hdot) nofun) hz
  | token =>
    obtain ⟨t, hahead, rfl⟩ := h
    rw [hbefore hahead]
    exact hcons (fun hdot => hp (decide_eq_true hdot)) hz
  | close =>
    obtain ⟨t, ts, hahead, ⟨hkind, rfl⟩ | ⟨t', hleft, hkinds⟩⟩ := closed?_cases h
    · rw [hbefore hahead]
      exact hcons (fun hdot => absurd (hkind.symm.trans hdot) nofun) hz
    · rcases z with _ | ⟨u, z⟩
      · have hlength := congrArg List.length hahead
        rw [show rest = t' :: ts from hleft] at hlength
        obtain rfl : y = [] := by simpa using hlength
        exact hz
      · obtain ⟨-, rfl⟩ := List.cons_eq_cons.mp hleft
        obtain rfl : y = t :: z := List.append_cancel_right (hahead.trans (List.cons_append).symm)
        refine hcons (fun hdot => ?_) fun v hv => hz v (List.mem_getLast?_cons hv)
        rcases hkinds with ⟨hkind, -⟩ | ⟨hkind, -⟩ <;> exact absurd (hkind.symm.trans hdot) nofun
  | annot =>
    obtain ⟨w, -, hahead, -⟩ := h
    obtain rfl : y = w ++ z :=
      List.append_cancel_right (hahead.trans (List.append_assoc w z rest).symm)
    rwa [List.getLast?_append_of_ne_nil _ (hp rfl)]

/-- **The last token is no dot.** -/
theorem kind_last (h : Take AnnotReads ps (y ++ rest) rest)
    (hps : ∀ p ∈ last? ps, p.goesOn = false) : ∀ t ∈ y.getLast?, t.kind ≠ Sign.dot := by
  induction ps generalizing y with
  | nil =>
    have hnil : y ++ rest = rest := h
    rw [List.append_left_eq_self.mp hnil]
    exact nofun
  | cons p ps ih =>
    obtain ⟨-, z, hp, hrest⟩ := take_before h
    refine takes_last hp (ne_nil_of_goesOn hps hrest) (ih hrest fun q hq => hps q ?_)
    exact mem_last?_cons hq

end TypePiece

end JavaGraft
