import JavaGraft.Text.Lines
import JavaGraft.Text.Span

/-!
# Escapes and text blocks

`unescape` replaces the escapes of a string or character literal by the characters they stand for;
it fails on a backslash that starts none. `blockBody` is the content of a text block, with the
indentation that its lines share removed.
-/

namespace JavaGraft.Escape

open CharClass

/-! ### Single escapes -/

/-- What a backslash and one character stand for; a line feed is dropped together with the
backslash. -/
def simple? : Char → Option (List Char)
  | 'n' => some ['\n']
  | 't' => some ['\t']
  | 'r' => some ['\r']
  | 'b' => some ['\x08']
  | 'f' => some ['\x0c']
  | 's' => some [' ']
  | '\\' => some ['\\']
  | '\'' => some ['\'']
  | '"' => some ['"']
  | '\n' => some []
  | _ => none

/-- The number that digits of a radix spell; there must be at least one. -/
def number? (radix : Nat) (cs : List Char) : Option Nat :=
  if cs.isEmpty then none
  else cs.foldlM (fun n c => (digitValue? radix c).map (radix * n + ·)) 0

/-- The character with a code point, if there is one. -/
def charOf? (n : Nat) : Option Char := if n.isValidChar then some (Char.ofNat n) else none

/-- The four digits behind a `u`, of which a plus sign may be the first. -/
def hexNumber? (cs : List Char) : Option Nat :=
  match cs with
  | '+' :: rest => number? 16 rest
  | _ => number? 16 cs

/-- What the text behind a backslash and a `u` stands for, and what follows: further letters `u`
are skipped and up to four characters are read as a code point. -/
def unicode? (cs : List Char) : Option (List Char × List Char) := do
  let digits := cs.dropWhile (· = 'u')
  let code ← hexNumber? (digits.take 4)
  let c ← charOf? code
  return ([c], digits.drop 4)

/-- What the octal digits behind a backslash stand for, and what follows: one digit, then at most
two more, or at most one more if the first is above three. -/
def octal? (d : Char) (cs : List Char) : Option (List Char × List Char) := do
  let more := (cs.take (if d ≤ '3' then 2 else 1)).takeWhile fun c => (digitValue? 8 c).isSome
  let code ← number? 8 (d :: more)
  let c ← charOf? code
  return ([c], cs.drop more.length)

/-- What the text behind a backslash stands for, and what follows. -/
def escape? : List Char → Option (List Char × List Char)
  | [] => none
  | c :: cs =>
    if c = 'u' then unicode? cs
    else if (digitValue? 8 c).isSome then octal? c cs
    else (simple? c).map fun out => (out, cs)

theorem unicode?_length {cs rest out : List Char} (h : unicode? cs = some (out, rest)) :
    rest.length ≤ cs.length := by
  simp only [unicode?, Option.bind_eq_bind, Option.bind_eq_some_iff, Option.pure_def,
    Option.some.injEq, Prod.mk.injEq] at h
  obtain ⟨_, _, _, _, _, rfl⟩ := h
  have := (List.dropWhile_sublist (fun c => decide (c = 'u')) (l := cs)).length_le
  simp only [List.length_drop]
  omega

theorem octal?_length {d : Char} {cs rest out : List Char} (h : octal? d cs = some (out, rest)) :
    rest.length ≤ cs.length := by
  simp only [octal?, Option.bind_eq_bind, Option.bind_eq_some_iff, Option.pure_def,
    Option.some.injEq, Prod.mk.injEq] at h
  obtain ⟨_, _, _, _, _, rfl⟩ := h
  simp

/-- An escape leaves no more than what follows the backslash. -/
theorem escape?_length {cs rest out : List Char} (h : escape? cs = some (out, rest)) :
    rest.length ≤ cs.length := by
  cases cs with
  | nil => simp [escape?] at h
  | cons c cs =>
    simp only [escape?] at h
    split at h
    · exact Nat.le_succ_of_le (unicode?_length h)
    split at h
    · exact Nat.le_succ_of_le (octal?_length h)
    · simp only [Option.map_eq_some_iff, Prod.mk.injEq] at h
      obtain ⟨_, _, _, rfl⟩ := h
      simp

/-- **The text with each escape replaced by its character**, or nothing if a backslash starts no
escape. -/
def unescape (cs : List Char) : Option (List Char) :=
  match cs with
  | [] => some []
  | c :: cs =>
    if c = '\\' then
      match h : escape? cs with
      | none => none
      | some (out, rest) =>
        have : rest.length < cs.length + 1 := Nat.lt_succ_of_le (escape?_length h)
        (unescape rest).map (out ++ ·)
    else (unescape cs).map (c :: ·)
termination_by cs.length

/-! ### Text blocks -/

/-- The number of bytes of the blanks that a line starts with. -/
def indentOf (line : List Char) : Nat := byteSize line - byteSize (Lines.trimStart line)

/-- The smallest indentation of a line that is not blank; without such a line it is zero. -/
def commonIndent (lines : List (List Char)) : Nat :=
  ((lines.filter fun l => !Lines.isBlank l).map indentOf).min?.getD 0

/-- The line without its first `n` bytes; a shorter line, or one with a character across that
boundary, comes out empty. -/
def dropIndent (n : Nat) (line : List Char) : List Char :=
  (splitAtByte? n line).elim [] Prod.snd

/-- What stands behind the first line feed; without one, the whole text. -/
def afterFirstLine (cs : List Char) : List Char :=
  if cs.contains '\n' then (cs.dropWhile (· ≠ '\n')).drop 1 else cs

/-- **The content of a text block**, given with its quotes: the lines below the opening quotes,
without the indentation they share and without blanks at their ends. -/
def blockBody (literal : List Char) : List Char :=
  let lines := Lines.ofText (afterFirstLine ((literal.drop 3).take (literal.length - 6)))
  Lines.unlines (lines.map fun l => Lines.trimEnd (dropIndent (commonIndent lines) l))

end JavaGraft.Escape
