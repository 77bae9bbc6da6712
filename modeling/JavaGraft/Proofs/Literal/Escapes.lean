import JavaGraft.Proofs.Literal.Alone
import JavaGraft.Proofs.Literal.Digits

/-!
# Escapes

An escape is a backslash and a text behind it that stands for characters
(`JavaGraft.Escape.IsEscape`): a letter or quote, a line feed, up to three octal digits, or four
hexadecimal digits behind letters `u`. A text is unescaped if every backslash in it starts an
escape, the longest one that is there (`JavaGraft.Escape.Decodes`).

Hexadecimal digits are read more freely than that (`JavaGraft.Escape.IsLoose`): the first of the
four characters may be a plus sign, and at the end of the text there may be fewer than four. On the
other hand each escape is a character by itself, so that the halves of a supplementary character
are none.

The main statement is `JavaGraft.Escape.unescape_spec`: which texts are unescaped, as what, which
are not and why, and that unescaping undoes the writing of characters as such or by escapes that
nothing continues.
-/

namespace JavaGraft.Escape

open CharClass

/-! ### The forms of escapes -/

/-- The letters and quotes behind a backslash, and the characters they stand for. -/
def letters : List (Char × Char) :=
  [('n', '\n'), ('t', '\t'), ('r', '\r'), ('b', '\x08'), ('f', '\x0c'), ('s', ' '), ('\\', '\\'),
    ('\'', '\''), ('"', '"')]

/-- **What may stand behind a backslash**, and the characters that the escape stands for. -/
inductive IsEscape : List Char → List Char → Prop
  | letter {c d : Char} (h : (c, d) ∈ letters) : IsEscape [c] [d]
  | lineEnd : IsEscape ['\n'] []
  | octal {ds : List Char} {n : Nat} (hds : number? 8 ds = some n) (hlength : ds.length ≤ 3)
    (hn : n ≤ 255) : IsEscape ds [Char.ofNat n]
  | unicode {ds : List Char} {n : Nat} (more : Nat) (hds : number? 16 ds = some n)
    (hlength : ds.length = 4) (hn : n.isValidChar) :
    IsEscape ('u' :: (List.replicate more 'u' ++ ds)) [Char.ofNat n]

/-- **What is taken for hexadecimal digits besides**, before the given rest of the text: digits
with a plus sign before them, and fewer than four characters at the end of the text. -/
inductive IsLoose (rest : List Char) : List Char → List Char → Prop
  | signed {ds : List Char} {n : Nat} (more : Nat) (hds : number? 16 ds = some n)
    (hlength : ds.length = 3 ∨ ds.length < 3 ∧ rest = []) (hn : n.isValidChar) :
    IsLoose rest ('u' :: (List.replicate more 'u' ++ '+' :: ds)) [Char.ofNat n]
  | short {ds : List Char} {n : Nat} (more : Nat) (hds : number? 16 ds = some n)
    (hlength : ds.length < 4) (hrest : rest = []) (hn : n.isValidChar) :
    IsLoose rest ('u' :: (List.replicate more 'u' ++ ds)) [Char.ofNat n]

/-- A text that is no escape any more if a character is added. -/
def IsFinal (text : List Char) (c : Char) : Prop := ∀ out, ¬IsEscape (text ++ [c]) out

/-- **What is read behind a backslash** before the given rest of the text: the longest escape, or
a loose one. -/
def Starts (rest text out : List Char) : Prop :=
  (IsEscape text out ∧ ∀ c ∈ rest.head?, IsFinal text c) ∨ IsLoose rest text out

/-- **A text and what it is unescaped to**, before the given rest: each escape is replaced by what
it stands for, and every other character stands for itself. -/
inductive Decodes (rest : List Char) : List Char → List Char → Prop
  | nil : Decodes rest [] []
  | plain {c : Char} {cs out : List Char} (hc : c ≠ '\\') (h : Decodes rest cs out) :
    Decodes rest (c :: cs) (c :: out)
  | escape {text out cs out' : List Char} (htext : Starts (cs ++ rest) text out)
    (h : Decodes rest cs out') : Decodes rest ('\\' :: (text ++ cs)) (out ++ out')

/-! ### Hexadecimal escapes -/

section Unicode

variable {rest text out cs ds : List Char} {c d : Char} {n : Nat}

theorem charOf?_eq_some : charOf? n = some c ↔ n.isValidChar ∧ Char.ofNat n = c := by
  rw [charOf?]
  split_ifs with h
  · simp [h]
  · simp [h]

/-- The letters `u` in front, and what is behind them. -/
theorem exists_replicate (cs : List Char) :
    ∃ more, cs = List.replicate more 'u' ++ cs.dropWhile (· = 'u') := by
  refine ⟨(cs.takeWhile (· = 'u')).length, ?_⟩
  have hall : cs.takeWhile (· = 'u') = List.replicate (cs.takeWhile (· = 'u')).length 'u' :=
    List.eq_replicate_of_mem fun c hc => by
      simpa using List.all_eq_true.mp List.all_takeWhile c hc
  rw [← hall, List.takeWhile_append_dropWhile]

theorem dropWhile_replicate (more : Nat) (h : cs.head? ≠ some 'u') :
    (List.replicate more 'u' ++ cs).dropWhile (· = 'u') = cs := by
  rw [List.dropWhile_append_of_pos (by simp)]
  cases cs with
  | nil => rfl
  | cons c cs => exact List.dropWhile_cons_of_neg (by simpa using h)

/-- The first of the digits. -/
theorem head?_of_number? {base : Nat} (h : number? base cs = some n) :
    ∃ c ∈ cs.head?, (digitValue? base c).isSome := by
  cases cs with
  | nil => cases h
  | cons c cs => exact ⟨c, rfl, isSome_of_number? h c List.mem_cons_self⟩

/-- Hexadecimal digits may have a plus sign before them. -/
theorem hexNumber?_eq_some : hexNumber? cs = some n ↔
    number? 16 cs = some n ∨ ∃ ds, cs = '+' :: ds ∧ number? 16 ds = some n := by
  rw [hexNumber?.eq_def]
  split
  · next ds =>
    refine ⟨fun h => .inr ⟨ds, rfl, h⟩, ?_⟩
    rintro (h | ⟨ds', hds', h⟩)
    · cases isSome_of_number? h '+' List.mem_cons_self
    · rwa [(List.cons_eq_cons.mp hds').2]
  · next hplus =>
    refine ⟨.inl, ?_⟩
    rintro (h | ⟨ds, rfl, -⟩)
    · exact h
    · exact absurd rfl (hplus ds)

theorem unicode?_eq_some : unicode? cs = some (out, rest) ↔
    ∃ more ds n, cs = List.replicate more 'u' ++ (ds ++ rest) ∧
      (ds.length = 4 ∨ ds.length < 4 ∧ rest = []) ∧ hexNumber? ds = some n ∧
        n.isValidChar ∧ out = [Char.ofNat n] := by
  constructor
  · intro h
    simp only [unicode?, Option.bind_eq_bind, Option.bind_eq_some_iff, Option.pure_def,
      Option.some.injEq, Prod.mk.injEq, charOf?_eq_some] at h
    obtain ⟨n, hn, _, ⟨hvalid, rfl⟩, rfl, rfl⟩ := h
    obtain ⟨more, hmore⟩ := exists_replicate cs
    refine ⟨more, _, n, by rwa [List.take_append_drop], ?_, hn, hvalid, rfl⟩
    rw [List.length_take, List.drop_eq_nil_iff]
    omega
  · rintro ⟨more, ds, n, rfl, hlength, hn, hvalid, rfl⟩
    -- none of the letters in front is a digit
    have hhead : (ds ++ rest).head? ≠ some 'u' := by
      rcases hexNumber?_eq_some.mp hn with h | ⟨ds', rfl, -⟩
      · obtain ⟨c, hc, hdigit⟩ := head?_of_number? h
        rw [List.head?_append, Option.mem_def.mp hc]
        rintro ⟨⟩
        cases hdigit
      · exact fun h => absurd (Option.some.inj h) (by decide)
    have htake : (ds ++ rest).take 4 = ds ∧ (ds ++ rest).drop 4 = rest := by
      rcases hlength with h | ⟨h, rfl⟩
      · exact ⟨List.take_left' h, List.drop_left' h⟩
      · rw [List.append_nil]
        exact ⟨List.take_of_length_le (Nat.le_of_lt h), List.drop_of_length_le (Nat.le_of_lt h)⟩
    simp [unicode?, dropWhile_replicate more hhead, htake, hn, charOf?_eq_some.mpr ⟨hvalid, rfl⟩]

end Unicode

/-! ### Octal escapes -/

section Octal

variable {rest out cs ds : List Char} {c d : Char} {n : Nat}

/-- How many digits may follow the first one of an octal escape. -/
def octalRoom (d : Char) : Nat := if d ≤ '3' then 2 else 1

/-- The digits up to three are those whose characters are. -/
theorem le_three_iff (h : digitValue? 8 d = some n) : d ≤ '3' ↔ n ≤ 3 := by
  have hdigit := isDigit_of_digitValue? h (by decide)
  rw [digitValue?, if_pos hdigit] at h
  obtain rfl := Option.some.inj (Option.filter_eq_some_iff.mp h).1
  rw [le_iff_toNat]
  change d.toNat ≤ 51 ↔ d.toNat - 48 ≤ 3
  omega

/-- Up to three octal digits spell a byte unless the first of three is above three. -/
theorem le_byte_iff (h : number? 8 (d :: ds) = some n) (hlength : ds.length ≤ 2) :
    n ≤ 255 ↔ ds.length ≤ octalRoom d := by
  obtain ⟨v, hv⟩ := Option.isSome_iff_exists.mp (isSome_of_number? h d List.mem_cons_self)
  have hfirst := digitValue?_lt hv
  have hone : number? 8 [d] = some v := (number?_singleton 8 d).trans hv
  have hroom : octalRoom d = if v ≤ 3 then 2 else 1 := by
    rw [octalRoom]
    simp only [le_three_iff hv]
  rw [hroom]
  match ds, hlength, h with
  | [], _, h =>
    obtain rfl := Option.some.inj (hone.symm.trans h)
    simp only [List.length_nil, Nat.zero_le, iff_true]
    omega
  | [a], _, h =>
    obtain ⟨w, hw⟩ := Option.isSome_iff_exists.mp (isSome_of_number? h a (by simp))
    obtain rfl := Option.some.inj ((number?_snoc hone hw).symm.trans h)
    have := digitValue?_lt hw
    simp only [List.length_singleton]
    split_ifs <;> omega
  | [a, b], _, h =>
    obtain ⟨w, hw⟩ := Option.isSome_iff_exists.mp (isSome_of_number? h a (by simp))
    obtain ⟨x, hx⟩ := Option.isSome_iff_exists.mp (isSome_of_number? h b (by simp))
    obtain rfl := Option.some.inj ((number?_snoc (number?_snoc hone hw) hx).symm.trans h)
    have := digitValue?_lt hw
    have := digitValue?_lt hx
    simp only [List.length_cons, List.length_nil]
    split_ifs <;> omega

/-- A byte is a character. -/
theorem isValidChar_of_byte (h : n ≤ 255) : n.isValidChar := .inl (by omega)

/-- What may be taken for the first digit of an octal escape is one. -/
theorem isEscape_octal_iff (hd : (digitValue? 8 d).isSome) :
    IsEscape (d :: ds) out ↔ ∃ n, number? 8 (d :: ds) = some n ∧ ds.length ≤ octalRoom d ∧
      out = [Char.ofNat n] := by
  constructor
  · intro h
    generalize hall : d :: ds = all at h
    cases h with
    | letter h =>
      obtain ⟨rfl, -⟩ := List.cons_eq_cons.mp hall
      simp only [letters, List.mem_cons, Prod.mk.injEq, List.not_mem_nil, or_false] at h
      rcases h with h | h | h | h | h | h | h | h | h <;> (obtain ⟨rfl, -⟩ := h; cases hd)
    | lineEnd =>
      obtain ⟨rfl, -⟩ := List.cons_eq_cons.mp hall
      cases hd
    | octal hds hlength hn =>
      subst hall
      have hlength' : ds.length ≤ 2 := Nat.le_of_succ_le_succ hlength
      exact ⟨_, hds, (le_byte_iff hds hlength').mp hn, rfl⟩
    | unicode =>
      obtain ⟨rfl, -⟩ := List.cons_eq_cons.mp hall
      cases hd
  · rintro ⟨n, hds, hlength, rfl⟩
    have hlength' : ds.length ≤ 2 := by
      rw [octalRoom] at hlength
      split_ifs at hlength <;> omega
    exact .octal hds (Nat.succ_le_succ hlength') ((le_byte_iff hds hlength').mpr hlength)

/-- An octal escape goes on as long as there is room for digits and digits follow. -/
theorem isFinal_octal_iff (hd : (digitValue? 8 d).isSome) (hds : number? 8 (d :: ds) = some n) :
    IsFinal (d :: ds) c ↔ (ds.length < octalRoom d → digitValue? 8 c = none) := by
  rw [← Option.not_isSome_iff_eq_none]
  constructor
  · intro h hroom hc
    obtain ⟨v, hv⟩ := Option.isSome_iff_exists.mp hc
    have hlonger : IsEscape (d :: (ds ++ [c])) [Char.ofNat (8 * n + v)] := by
      refine (isEscape_octal_iff hd).mpr ⟨_, number?_snoc hds hv, ?_, rfl⟩
      rwa [List.length_append, List.length_singleton]
    exact h _ hlonger
  · intro h out (hout : IsEscape (d :: (ds ++ [c])) out)
    obtain ⟨m, hm, hlength, -⟩ := (isEscape_octal_iff hd).mp hout
    rw [List.length_append, List.length_singleton] at hlength
    exact h hlength (isSome_of_number? hm c (by simp))

/-- What a test takes off the first characters of a text. -/
theorem takeWhile_take_append {p : Char → Bool} {k : Nat} :
    ((ds ++ rest).take k).takeWhile p = ds ↔
      (∀ c ∈ ds, p c) ∧ ds.length ≤ k ∧ (ds.length < k → ∀ c ∈ rest.head?, p c = false) := by
  induction ds generalizing k with
  | nil => cases k <;> cases rest <;> simp [List.takeWhile_cons]
  | cons d ds ih =>
    cases k with
    | zero => simp
    | succ k =>
      by_cases hd : p d
      · simp [hd, ih]
      · simp [hd]

theorem octal?_eq_some (hd : (digitValue? 8 d).isSome) : octal? d cs = some (out, rest) ↔
    ∃ ds, cs = ds ++ rest ∧ IsEscape (d :: ds) out ∧ ∀ c ∈ rest.head?, IsFinal (d :: ds) c := by
  constructor
  · intro h
    simp only [octal?, Option.bind_eq_bind, Option.bind_eq_some_iff, Option.pure_def,
      Option.some.injEq, Prod.mk.injEq, charOf?_eq_some] at h
    obtain ⟨n, hn, _, ⟨-, rfl⟩, rfl, hrest⟩ := h
    change number? 8 (d :: ((cs.take (octalRoom d)).takeWhile _)) = some n at hn
    change cs.drop ((cs.take (octalRoom d)).takeWhile _).length = rest at hrest
    generalize hds : (cs.take (octalRoom d)).takeWhile _ = ds at hn hrest
    obtain ⟨rest', rfl⟩ : ds <+: cs := hds ▸ (List.takeWhile_prefix _).trans (List.take_prefix _ _)
    obtain rfl : rest' = rest := by rwa [List.drop_left] at hrest
    obtain ⟨-, hlength, hstop⟩ := takeWhile_take_append.mp hds
    refine ⟨ds, rfl, (isEscape_octal_iff hd).mpr ⟨n, hn, hlength, rfl⟩, fun c hc => ?_⟩
    exact (isFinal_octal_iff hd hn).mpr fun hroom => by simpa using hstop hroom c hc
  · rintro ⟨ds, rfl, hds, hfinal⟩
    obtain ⟨n, hn, hlength, rfl⟩ := (isEscape_octal_iff hd).mp hds
    -- as many digits are taken as the escape has: no digit follows, or there is no room for it
    have hmore : ((ds ++ rest).take (octalRoom d)).takeWhile
        (fun c => (digitValue? 8 c).isSome) = ds := by
      refine takeWhile_take_append.mpr ⟨fun c hc => ?_, hlength, fun hroom c hc => ?_⟩
      · exact isSome_of_number? hn c (List.mem_cons_of_mem _ hc)
      · rw [(isFinal_octal_iff hd hn).mp (hfinal c hc) hroom, Option.isSome_none]
    have hbyte : n ≤ 255 := by
      refine (le_byte_iff hn ?_).mpr hlength
      rw [octalRoom] at hlength
      split_ifs at hlength <;> omega
    simp only [octal?]
    rw [show (if d ≤ '3' then 2 else 1) = octalRoom d from rfl, hmore, hn]
    simp [charOf?_eq_some.mpr ⟨isValidChar_of_byte hbyte, rfl⟩]

end Octal

/-! ### Any escape -/

section Any

variable {rest text out cs ds : List Char} {c d : Char} {n : Nat}

theorem simple?_eq_some :
    simple? c = some out ↔ (∃ d, (c, d) ∈ letters ∧ out = [d]) ∨ c = '\n' ∧ out = [] := by
  constructor
  · intro h
    unfold simple? at h
    split at h <;> cases h <;> simp [letters]
  · rintro (⟨d, h, rfl⟩ | ⟨rfl, rfl⟩)
    · simp only [letters, List.mem_cons, Prod.mk.injEq, List.not_mem_nil, or_false] at h
      rcases h with h | h | h | h | h | h | h | h | h <;> obtain ⟨rfl, rfl⟩ := h <;> rfl
    · rfl

/-- Behind the letter `u` there are more of it and four digits, or nothing of the kind. -/
theorem isEscape_unicode_iff : IsEscape ('u' :: cs) out ↔ ∃ more ds n,
    cs = List.replicate more 'u' ++ ds ∧ ds.length = 4 ∧ number? 16 ds = some n ∧
      n.isValidChar ∧ out = [Char.ofNat n] := by
  constructor
  · intro h
    generalize hall : 'u' :: cs = all at h
    cases h with
    | letter h =>
      obtain ⟨rfl, -⟩ := List.cons_eq_cons.mp hall
      simp [letters] at h
    | lineEnd => cases hall
    | octal hds =>
      obtain rfl := hall
      cases isSome_of_number? hds 'u' List.mem_cons_self
    | unicode more hds hlength hn =>
      exact ⟨more, _, _, (List.cons_eq_cons.mp hall).2, hlength, hds, hn, rfl⟩
  · rintro ⟨more, ds, n, rfl, hlength, hds, hn, rfl⟩
    exact .unicode more hds hlength hn

theorem isFinal_unicode (h : IsEscape ('u' :: cs) out) : IsFinal ('u' :: cs) c := by
  obtain ⟨more, ds, n, rfl, hlength, hds, -, -⟩ := isEscape_unicode_iff.mp h
  intro out (hout : IsEscape ('u' :: (List.replicate more 'u' ++ ds ++ [c])) out)
  obtain ⟨more', ds', n', heq, hlength', hds', -, -⟩ := isEscape_unicode_iff.mp hout
  have hhead {es : List Char} {m : Nat} (hes : number? 16 es = some m) (tail : List Char) :
      (es ++ tail).head? ≠ some 'u' := by
    obtain ⟨x, hx, hdigit⟩ := head?_of_number? hes
    rw [List.head?_append, Option.mem_def.mp hx]
    rintro ⟨⟩
    cases hdigit
  have hskip := dropWhile_replicate more (hhead hds [c])
  rw [← List.append_assoc, heq, dropWhile_replicate more' (by simpa using hhead hds' [])] at hskip
  rw [hskip, List.length_append, hlength] at hlength'
  cases hlength'

/-- What is neither the letter `u` nor an octal digit is a whole escape, or starts none. -/
theorem isEscape_simple_iff (hu : c ≠ 'u') (hc : (digitValue? 8 c).isSome = false) :
    IsEscape (c :: cs) out ↔ cs = [] ∧ simple? c = some out := by
  rw [simple?_eq_some]
  constructor
  · intro h
    generalize hall : c :: cs = all at h
    cases h with
    | letter h =>
      obtain ⟨rfl, rfl⟩ := List.cons_eq_cons.mp hall
      exact ⟨rfl, .inl ⟨_, h, rfl⟩⟩
    | lineEnd =>
      obtain ⟨rfl, rfl⟩ := List.cons_eq_cons.mp hall
      exact ⟨rfl, .inr ⟨rfl, rfl⟩⟩
    | octal hds =>
      obtain rfl := hall
      rw [isSome_of_number? hds c List.mem_cons_self] at hc
      cases hc
    | unicode => exact absurd (List.cons_eq_cons.mp hall).1 hu
  · rintro ⟨rfl, ⟨d, h, rfl⟩ | ⟨rfl, rfl⟩⟩
    · exact .letter h
    · exact .lineEnd

theorem isLoose_cons_iff : IsLoose rest (c :: cs) out ↔ c = 'u' ∧ ∃ more ds n,
    cs = List.replicate more 'u' ++ ds ∧ (ds.length = 4 ∨ ds.length < 4 ∧ rest = []) ∧
      ((ds.length < 4 ∧ number? 16 ds = some n) ∨
        ∃ ds', ds = '+' :: ds' ∧ number? 16 ds' = some n) ∧
      n.isValidChar ∧ out = [Char.ofNat n] := by
  constructor
  · intro h
    generalize hall : c :: cs = all at h
    cases h with
    | signed more hds hlength hn =>
      obtain ⟨rfl, rfl⟩ := List.cons_eq_cons.mp hall
      refine ⟨rfl, more, _, _, rfl, ?_, .inr ⟨_, rfl, hds⟩, hn, rfl⟩
      rw [List.length_cons]
      exact hlength.imp (congrArg (· + 1)) fun h => ⟨Nat.succ_lt_succ h.1, h.2⟩
    | short more hds hlength hrest hn =>
      obtain ⟨rfl, rfl⟩ := List.cons_eq_cons.mp hall
      exact ⟨rfl, more, _, _, rfl, .inr ⟨hlength, hrest⟩, .inl ⟨hlength, hds⟩, hn, rfl⟩
  · rintro ⟨rfl, more, ds, n, rfl, hlength, ⟨hshort, hds⟩ | ⟨ds, rfl, hds⟩, hn, rfl⟩
    · rcases hlength with h | ⟨-, hrest⟩
      · omega
      · exact .short more hds hshort hrest hn
    · rw [List.length_cons] at hlength
      exact .signed more hds (hlength.imp (by omega) fun h => ⟨by omega, h.2⟩) hn

/-- **What is read behind a backslash** is the text that an escape starts with. -/
theorem escape?_cons_eq_some : escape? (c :: cs) = some (out, rest) ↔
    ∃ text, cs = text ++ rest ∧ Starts rest (c :: text) out := by
  rw [escape?]
  by_cases hu : c = 'u'
  · subst hu
    rw [if_pos rfl, unicode?_eq_some]
    constructor
    · rintro ⟨more, ds, n, rfl, hlength, hn, hvalid, rfl⟩
      refine ⟨List.replicate more 'u' ++ ds, (List.append_assoc ..).symm, ?_⟩
      by_cases hexact : ds.length = 4 ∧ number? 16 ds = some n
      · have hescape := IsEscape.unicode more hexact.2 hexact.1 hvalid
        exact .inl ⟨hescape, fun c _ => isFinal_unicode hescape⟩
      · refine .inr (isLoose_cons_iff.mpr ⟨rfl, more, ds, n, rfl, hlength, ?_, hvalid, rfl⟩)
        exact (hexNumber?_eq_some.mp hn).imp_left fun h =>
          ⟨Nat.lt_of_le_of_ne (by omega) fun h4 => hexact ⟨h4, h⟩, h⟩
    · rintro ⟨text, rfl, ⟨hescape, -⟩ | hloose⟩
      · obtain ⟨more, ds, n, rfl, hlength, hds, hn, rfl⟩ := isEscape_unicode_iff.mp hescape
        exact ⟨more, ds, n, List.append_assoc .., .inl hlength,
          hexNumber?_eq_some.mpr (.inl hds), hn, rfl⟩
      · obtain ⟨-, more, ds, n, rfl, hlength, hds, hn, rfl⟩ := isLoose_cons_iff.mp hloose
        exact ⟨more, ds, n, List.append_assoc .., hlength,
          hexNumber?_eq_some.mpr (hds.imp_left And.right), hn, rfl⟩
  · have hloose {text : List Char} : ¬IsLoose rest (c :: text) out := fun h =>
      hu (isLoose_cons_iff.mp h).1
    rw [if_neg hu]
    simp only [Starts, hloose, or_false]
    -- a digit starts an octal escape, and anything else is an escape of one character
    by_cases hc : (digitValue? 8 c).isSome
    · rw [if_pos hc, octal?_eq_some hc]
    · have hc' := Bool.eq_false_iff.mpr hc
      rw [if_neg hc, Option.map_eq_some_iff]
      constructor
      · rintro ⟨_, hsimple, ⟨⟩⟩
        refine ⟨[], rfl, (isEscape_simple_iff hu hc').mpr ⟨rfl, hsimple⟩, fun d _ out hout => ?_⟩
        cases ((isEscape_simple_iff hu hc').mp hout).1
      · rintro ⟨text, rfl, hescape, -⟩
        obtain ⟨rfl, hsimple⟩ := (isEscape_simple_iff hu hc').mp hescape
        exact ⟨out, hsimple, rfl⟩

theorem Starts.exists_cons (h : Starts rest text out) : ∃ c cs, text = c :: cs := by
  refine List.exists_cons_of_ne_nil ?_
  rintro rfl
  rcases h with ⟨h, -⟩ | h
  · cases h with
    | octal hds => cases hds
  · cases h

theorem escape?_eq_some : escape? cs = some (out, rest) ↔
    ∃ text, cs = text ++ rest ∧ Starts rest text out := by
  cases cs with
  | nil =>
    refine ⟨fun h => (nomatch h), ?_⟩
    rintro ⟨text, htext, h⟩
    obtain ⟨c, cs, rfl⟩ := h.exists_cons
    cases htext
  | cons c cs =>
    rw [escape?_cons_eq_some]
    constructor
    · rintro ⟨text, rfl, h⟩
      exact ⟨c :: text, rfl, h⟩
    · rintro ⟨text, htext, h⟩
      obtain ⟨c', text, rfl⟩ := h.exists_cons
      obtain ⟨rfl, rfl⟩ := List.cons_eq_cons.mp htext
      exact ⟨text, rfl, h⟩

theorem escape?_eq_none : escape? cs = none ↔
    ∀ text rest out, cs = text ++ rest → ¬Starts rest text out := by
  rw [Option.eq_none_iff_forall_ne_some]
  refine ⟨fun h text rest out hcs htext => ?_, fun h (out, rest) hescape => ?_⟩
  · exact h _ (escape?_eq_some.mpr ⟨text, hcs, htext⟩)
  · obtain ⟨text, hcs, htext⟩ := escape?_eq_some.mp hescape
    exact h text rest out hcs htext

end Any

/-! ### Texts -/

section Text

variable {rest behind cs out out' : List Char} {c : Char}

theorem unescape_plain (hc : c ≠ '\\') (cs : List Char) :
    unescape (c :: cs) = (unescape cs).map (c :: ·) := by
  rw [unescape, if_neg hc]

theorem unescape_escape (h : escape? cs = some (out, rest)) :
    unescape ('\\' :: cs) = (unescape rest).map (out ++ ·) := by
  rw [unescape, if_pos rfl]
  split
  · next h' => cases h.symm.trans h'
  · next h' =>
    cases h.symm.trans h'
    rfl

theorem unescape_eq_none (h : escape? cs = none) : unescape ('\\' :: cs) = none := by
  rw [unescape, if_pos rfl]
  split
  · rfl
  · next h' => cases h.symm.trans h'

/-- **A decoded beginning** does not depend on what is behind the rest. -/
theorem unescape_append (h : Decodes rest cs out) :
    unescape (cs ++ rest) = (unescape rest).map (out ++ ·) := by
  induction h with
  | nil => simp
  | plain hc _ ih =>
    rw [List.cons_append, unescape_plain hc, ih, Option.map_map]
    rfl
  | escape htext _ ih =>
    rw [List.cons_append, List.append_assoc, unescape_escape (escape?_eq_some.mpr ⟨_, rfl, htext⟩),
      ih, Option.map_map]
    simp only [Function.comp_def, List.append_assoc]

/-- A text consists of escapes and characters that stand for themselves, up to its end or up to a
backslash that starts no escape. -/
theorem exists_decodes (cs : List Char) : (∃ out, Decodes [] cs out) ∨
    ∃ before out behind, cs = before ++ '\\' :: behind ∧ Decodes ('\\' :: behind) before out ∧
      escape? behind = none := by
  induction cs using unescape.induct with
  | case1 => exact .inl ⟨[], .nil⟩
  | case2 cs hnone => exact .inr ⟨[], [], cs, rfl, .nil, hnone⟩
  | case3 cs out rest hescape _ ih =>
    obtain ⟨text, rfl, htext⟩ := escape?_eq_some.mp hescape
    rcases ih with ⟨out', h⟩ | ⟨before, out', behind, rfl, h, hnone⟩
    · exact .inl ⟨_, .escape (by rwa [List.append_nil]) h⟩
    · refine .inr ⟨_, _, behind, ?_, .escape htext h, hnone⟩
      rw [List.cons_append, List.append_assoc]
  | case4 c cs hc ih =>
    rcases ih with ⟨out', h⟩ | ⟨before, out', behind, rfl, h, hnone⟩
    · exact .inl ⟨_, .plain hc h⟩
    · exact .inr ⟨_, _, behind, rfl, .plain hc h, hnone⟩

theorem unescape_of_decodes (h : Decodes [] cs out) : unescape cs = some out := by
  have := unescape_append h
  rwa [List.append_nil, unescape, Option.map_some, List.append_nil] at this

theorem unescape_broken (h : Decodes ('\\' :: behind) cs out) (hnone : escape? behind = none) :
    unescape (cs ++ '\\' :: behind) = none := by
  rw [unescape_append h, unescape_eq_none hnone, Option.map_none]

/-- A text is got back from a writing of its characters as themselves or by escapes that nothing
continues. -/
theorem unescape_flatMap {write : Char → List Char}
    (hwrite : ∀ c, (write c = [c] ∧ c ≠ '\\') ∨
      ∃ text, write c = '\\' :: text ∧ IsEscape text [c] ∧ ∀ d, IsFinal text d) (cs : List Char) :
    unescape (cs.flatMap write) = some cs := by
  refine unescape_of_decodes ?_
  induction cs with
  | nil => exact .nil
  | cons c cs ih =>
    rw [List.flatMap_cons]
    rcases hwrite c with ⟨hc, hplain⟩ | ⟨text, hc, htext, hfinal⟩
    · rw [hc]
      exact .plain hplain ih
    · rw [hc]
      have hstarts : Starts (cs.flatMap write ++ []) text [c] := .inl ⟨htext, fun d _ => hfinal d⟩
      exact .escape hstarts ih

/-- **Unescaping.** Exactly the texts that consist of escapes and of characters that stand for
themselves are unescaped, to what these stand for; the others have a backslash that starts no
escape. A text is got back from any writing of its characters as themselves or by escapes that
nothing continues. -/
theorem unescape_spec (cs : List Char) :
    (∀ out, unescape cs = some out ↔ Decodes [] cs out) ∧
    (unescape cs = none ↔ ∃ before out behind, cs = before ++ '\\' :: behind ∧
      Decodes ('\\' :: behind) before out ∧
        ∀ text rest out, behind = text ++ rest → ¬Starts rest text out) ∧
    ∀ write : Char → List Char,
      (∀ c, (write c = [c] ∧ c ≠ '\\') ∨ ∃ text, write c = '\\' :: text ∧ IsEscape text [c] ∧
        ∀ d, IsFinal text d) →
      unescape (cs.flatMap write) = some cs := by
  refine ⟨fun out => ⟨fun h => ?_, unescape_of_decodes⟩, ⟨fun h => ?_, ?_⟩,
    fun write hwrite => unescape_flatMap hwrite cs⟩
  · rcases exists_decodes cs with ⟨out', hcs⟩ | ⟨before, out', behind, rfl, hcs, hnone⟩
    · cases h.symm.trans (unescape_of_decodes hcs)
      exact hcs
    · cases h.symm.trans (unescape_broken hcs hnone)
  · rcases exists_decodes cs with ⟨out', hcs⟩ | ⟨before, out', behind, hcs, hbefore, hnone⟩
    · cases h.symm.trans (unescape_of_decodes hcs)
    · exact ⟨before, out', behind, hcs, hbefore, escape?_eq_none.mp hnone⟩
  · rintro ⟨before, out, behind, rfl, hbefore, hnone⟩
    exact unescape_broken hbefore (escape?_eq_none.mpr hnone)

/-- A writing that puts a backslash before backslashes and quotes. -/
def quoting (c : Char) : List Char := if c = '\\' ∨ c = '"' then ['\\', c] else [c]

theorem unescape_spec_quoting : unescape ("a\\\"".toList.flatMap quoting) = some "a\\\"".toList :=
  (unescape_spec "a\\\"".toList).2.2 quoting fun c => by
    have hfinal {c d : Char} (hc : c = '\\' ∨ c = '"') : IsFinal [c] d := by
      intro out (hout : IsEscape (c :: [d]) out)
      cases ((isEscape_simple_iff (by rcases hc with rfl | rfl <;> decide)
        (by rcases hc with rfl | rfl <;> rfl)).mp hout).1
    rw [quoting]
    split_ifs with hc
    · exact .inr ⟨[c], rfl, .letter (by rcases hc with rfl | rfl <;> decide), fun _ => hfinal hc⟩
    · exact .inl ⟨rfl, fun h => hc (.inl h)⟩

/-- **Fewer than four digits may be read as an escape**, at the end of the text or behind a plus
sign, and the halves of a supplementary character are none. -/
theorem unescape_short : (∀ text rest out, "u41".toList = text ++ rest → ¬IsEscape text out) ∧
    unescape "\\u41".toList = some ['A'] ∧ unescape "\\u+041".toList = some ['A'] ∧
    unescape "\\ud83d\\ude00".toList = none ∧
    parseExpr "\"\\u41\"".toList = .ok (.literal (.string "A") ⟨0, 6, 1, 1⟩) := by
  refine ⟨fun text rest out htext hescape => ?_, by decide +kernel⟩
  have hlength : 3 = (text ++ rest).length := congrArg List.length htext
  have hstarts : Starts [] text out := .inl ⟨hescape, nofun⟩
  obtain ⟨c, cs, rfl⟩ := hstarts.exists_cons
  obtain ⟨rfl, -⟩ := List.cons_eq_cons.mp htext
  obtain ⟨more, ds, n, rfl, hds, -⟩ := isEscape_unicode_iff.mp hescape
  simp only [List.length_append, List.length_cons, hds] at hlength
  omega

end Text

end JavaGraft.Escape
