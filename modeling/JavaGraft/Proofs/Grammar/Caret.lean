import JavaGraft.Grammar.Knot
import JavaGraft.Proofs.Token.Tiling

/-!
# Where the caret of a report stands

A parse error is reported with the source line that it is in, and a caret in the line below. Each of
the two lines has a gutter on its left. That of the quoted line holds the line number, right-aligned
in a field of three characters or more, and a bar with a blank on both sides; that of the caret line
is always two blanks, a bar and a blank. So the first one is wider, by two bytes up to line 999
and by one more for every further digit of the line number, and the caret stands that much too far
to the left (`JavaGraft.ParseError.caretBelow_textIn`).

The two lines are the last ones of the report, and neither holds a line feed of its own, which is
why a report can be cut into them in one way only (`JavaGraft.ParseError.caretBelow_iff`).
-/

namespace JavaGraft

/-! ### Cutting at a separator -/

/-- The part in front of the first separator is what it is, however a list is cut. -/
theorem append_cons_inj {α : Type} {a : α} {l l' r r' : List α} (h : a ∉ l) (h' : a ∉ l')
    (heq : l ++ a :: r = l' ++ a :: r') : l = l' ∧ r = r' := by
  induction l generalizing l' with
  | nil =>
    cases l' with
    | nil => exact ⟨rfl, (List.cons.inj heq).2⟩
    | cons b l' => exact (h' ((List.cons.inj heq).1 ▸ List.mem_cons_self)).elim
  | cons b l ih =>
    cases l' with
    | nil => exact (h ((List.cons.inj heq).1 ▸ List.mem_cons_self)).elim
    | cons b' l' =>
      obtain ⟨rfl, hrest⟩ := List.cons.inj heq
      obtain ⟨rfl, rfl⟩ := ih (fun hl => h (List.mem_cons_of_mem _ hl))
        (fun hl => h' (List.mem_cons_of_mem _ hl)) hrest
      exact ⟨rfl, rfl⟩

/-- The part behind the last separator is what it is, however a list is cut. -/
theorem append_cons_inj_last {α : Type} {a : α} {l l' r r' : List α} (h : a ∉ r) (h' : a ∉ r')
    (heq : l ++ a :: r = l' ++ a :: r') : l = l' ∧ r = r' := by
  have hreversed : r.reverse ++ a :: l.reverse = r'.reverse ++ a :: l'.reverse := by
    simpa using congrArg List.reverse heq
  obtain ⟨hr, hl⟩ := append_cons_inj (by simpa using h) (by simpa using h') hreversed
  exact ⟨List.reverse_inj.mp hl, List.reverse_inj.mp hr⟩

/-- A line of a text holds no line feed. -/
theorem Lines.lineFeed_notMem {cs line : List Char} (h : line ∈ Lines.ofText cs) : '\n' ∉ line := by
  -- by induction on the text, since what was seen of the line holds none either
  suffices ∀ cs seen, '\n' ∉ seen → ∀ line ∈ Lines.ofText.go seen cs, '\n' ∉ line from
    this cs [] List.not_mem_nil line h
  intro cs
  induction cs with
  | nil =>
    intro seen hseen line hline
    rw [Lines.ofText.go] at hline
    split at hline
    · cases hline
    · rw [List.mem_singleton.mp hline, List.mem_reverse]
      exact hseen
  | cons c cs ih =>
    intro seen hseen line hline
    rw [Lines.ofText.go] at hline
    split at hline
    · rcases List.mem_cons.mp hline with rfl | hline
      · rw [Lines.dropReturn]
        split
        · exact fun hmem => hseen (List.mem_reverse.mp (List.dropLast_subset _ hmem))
        · exact fun hmem => hseen (List.mem_reverse.mp hmem)
      · exact ih [] List.not_mem_nil line hline
    · rename_i hc
      have hseen' : '\n' ∉ c :: seen :=
        fun hmem => (List.mem_cons.mp hmem).elim (fun h => hc h.symm) hseen
      exact ih (c :: seen) hseen' line hline

/-- A text of characters of one byte has as many bytes as characters. -/
theorem byteSize_eq_length {cs : List Char} (h : ∀ c ∈ cs, c.utf8Size = 1) :
    byteSize cs = cs.length := by
  induction cs with
  | nil => rfl
  | cons c cs ih =>
    rw [byteSize, h c List.mem_cons_self, ih fun d hd => h d (List.mem_cons_of_mem _ hd),
      List.length_cons, Nat.add_comm]

namespace ParseError

/-! ### Carets below quoted lines -/

/-- **A caret below a byte of a quoted line.** The last line of a report holds a caret. The line
above it is the quoted line behind a gutter. As many bytes stand in front of the caret as in front
of the byte with the number `column` of the quoted line, counted from one. -/
def CaretBelow (report line : List Char) (column : Nat) : Prop :=
  ∃ above gutter indent tail,
    report = above ++ '\n' :: (gutter ++ line) ++ '\n' :: (indent ++ '^' :: tail) ++ ['\n'] ∧
      '\n' ∉ gutter ∧ '\n' ∉ indent ∧ '\n' ∉ tail ∧ '^' ∉ indent ∧
      byteSize indent + 1 = byteSize gutter + column

/-- Where the caret stands can be read off any one way to cut the report. -/
theorem caretBelow_iff {above gutter line indent tail : List Char} (hgutter : '\n' ∉ gutter)
    (hline : '\n' ∉ line) (hindent : '\n' ∉ indent) (htail : '\n' ∉ tail) (hcaret : '^' ∉ indent)
    (column : Nat) :
    CaretBelow
        (above ++ '\n' :: (gutter ++ line) ++ '\n' :: (indent ++ '^' :: tail) ++ ['\n']) line column
      ↔ byteSize indent + 1 = byteSize gutter + column := by
  refine ⟨?_, fun h => ⟨above, gutter, indent, tail, rfl, hgutter, hindent, htail, hcaret, h⟩⟩
  rintro ⟨above', gutter', indent', tail', heq, hgutter', hindent', htail', hcaret', hcolumn⟩
  have hlast {i t : List Char} (hi : '\n' ∉ i) (ht : '\n' ∉ t) : '\n' ∉ i ++ '^' :: t := by
    simp [hi, ht]
  have hquoted {g : List Char} (hg : '\n' ∉ g) : '\n' ∉ g ++ line := by simp [hg, hline]
  obtain ⟨hlines, hlastEq⟩ := append_cons_inj_last (hlast hindent htail) (hlast hindent' htail')
    (List.append_cancel_right heq)
  obtain ⟨-, hquotedEq⟩ := append_cons_inj_last (hquoted hgutter) (hquoted hgutter') hlines
  obtain rfl := (append_cons_inj hcaret hcaret' hlastEq).1
  obtain rfl := List.append_cancel_right hquotedEq
  exact hcolumn

/-! ### The two gutters -/

/-- The characters of a line number in its field: blanks and digits. -/
theorem mem_lineNumber {n : Nat} {c : Char} (h : c ∈ (lineNumber n).toList) :
    c = ' ' ∨ c.isDigit := by
  rw [lineNumber, String.toList_append, String.toList_ofList, List.mem_append] at h
  rcases h with h | h
  · exact .inl (List.mem_replicate.mp h).2
  · rw [Nat.toString_eq_ofList_toDigits, String.toList_ofList] at h
    exact .inr (Nat.isDigit_of_mem_toDigits (by decide) (by decide) h)

/-- A line number fills a field of three characters, or one as wide as its digits. -/
theorem length_lineNumber (n : Nat) :
    (lineNumber n).toList.length = max 3 (toString n).length := by
  rw [lineNumber, String.toList_append, String.toList_ofList, List.length_append,
    List.length_replicate, String.length_toList]
  omega

theorem utf8Size_of_isDigit {c : Char} (h : c.isDigit) : c.utf8Size = 1 := by
  have hval : c.val ≤ 57 := by
    have := (Bool.and_eq_true_iff.mp h).2
    exact of_decide_eq_true this
  exact Char.utf8Size_eq_one_iff.mpr (UInt32.le_trans hval (by decide))

/-- The gutter of a quoted line. -/
theorem byteSize_gutter (n : Nat) :
    byteSize ((lineNumber n).toList ++ [' ', '|', ' ']) = max 3 (toString n).length + 3 := by
  rw [byteSize_append, byteSize_eq_length, length_lineNumber]
  · rfl
  · intro c hc
    rcases mem_lineNumber hc with rfl | hdigit
    · rfl
    · exact utf8Size_of_isDigit hdigit

/-- What stands in front of a caret. -/
theorem byteSize_indent {column : Nat} (h : 1 ≤ column) :
    byteSize ([' ', ' ', '|', ' '] ++ List.replicate (column - 1) ' ') + 1 = column + 4 := by
  have hgutter : byteSize [' ', ' ', '|', ' '] = 4 := rfl
  have hblanks : byteSize (List.replicate (column - 1) ' ') = column - 1 := by
    rw [byteSize_eq_length fun c hc => by rw [(List.mem_replicate.mp hc).2]; rfl,
      List.length_replicate]
  rw [byteSize_append]
  omega

/-! ### Reports -/

/-- The last two lines of a report. -/
theorem toList_textIn {e : ParseError} {source line : List Char}
    (hline : quotedLine? source e.span = some line) :
    ∃ above, (e.textIn source).toList = above ++
      '\n' :: ((lineNumber e.span.line).toList ++ [' ', '|', ' '] ++ line) ++
      '\n' :: ([' ', ' ', '|', ' '] ++ List.replicate (e.span.column - 1) ' ' ++
        '^' :: List.replicate (e.span.length - 1) '~') ++ ['\n'] := by
  rw [textIn, hline]
  generalize "Error at " ++ e.span.text ++ ": " ++ e.fault.category ++ "\n" = head
  generalize (if e.fault.message = "" then "" else "  " ++ e.fault.message ++ "\n") = message
  exact ⟨head.toList ++ message.toList ++ [' ', ' ', '|'], by simp [caretLine]⟩

/-- **The caret of a report stands left of the error**, by one byte less than the field of the line
number is wide: by two bytes up to line 999, and by one more for every further digit. So it never
stands below the byte that the error is at. -/
theorem caretBelow_textIn {e : ParseError} {source line : List Char}
    (hline : quotedLine? source e.span = some line) (hcolumn : 1 ≤ e.span.column) (column : Nat) :
    CaretBelow (e.textIn source).toList line column ↔
      column + (max 3 (toString e.span.line).length - 1) = e.span.column := by
  have hnumber : '\n' ∉ (lineNumber e.span.line).toList ++ [' ', '|', ' '] := by
    intro h
    rcases List.mem_append.mp h with h | h
    · rcases mem_lineNumber h with h | h <;> exact absurd h (by decide)
    · exact absurd h (by decide)
  have hquoted : '\n' ∉ line := by
    rw [quotedLine?] at hline
    split at hline
    · cases hline
    · exact Lines.lineFeed_notMem (List.mem_of_getElem? hline)
  obtain ⟨above, htext⟩ := toList_textIn hline
  rw [htext, caretBelow_iff hnumber hquoted (by simp) (by simp) (by simp), byteSize_gutter,
    byteSize_indent hcolumn]
  omega

/-- With an error at byte 7 of line 2, the caret stands below byte 5. -/
theorem caretBelow_textIn_missing_name :
    CaretBelow (textIn ⟨.expectedToken "identifier" (.sign .assign), ⟨16, 1, 2, 7⟩⟩
      "class A \x7b\n  int = 3;\n\x7d".toList).toList "  int = 3;".toList 5 :=
  (caretBelow_textIn (e := ⟨_, ⟨16, 1, 2, 7⟩⟩) (by decide) (by decide) 5).mpr (by decide)

/-- The missing name is reported at byte 7 of line 2, but the caret does not stand below it. -/
theorem not_caretBelow_missing_name :
    ∃ e ∈ (parseUnit "class A \x7b\n  int = 3;\n\x7d".toList 0).errors,
      quotedLine? "class A \x7b\n  int = 3;\n\x7d".toList e.span = some "  int = 3;".toList ∧
      e.span.column = 7 ∧
      ¬ CaretBelow (e.textIn "class A \x7b\n  int = 3;\n\x7d".toList).toList
        "  int = 3;".toList 7 := by
  have herror : ⟨.expectedToken "identifier" (.sign .assign), ⟨16, 1, 2, 7⟩⟩ ∈
      (parseUnit "class A \x7b\n  int = 3;\n\x7d".toList 0).errors := by decide +kernel
  refine ⟨_, herror, by decide, rfl, ?_⟩
  have hline : quotedLine? "class A \x7b\n  int = 3;\n\x7d".toList ⟨16, 1, 2, 7⟩
      = some "  int = 3;".toList := by decide
  obtain ⟨above, htext⟩ := @toList_textIn
    ⟨.expectedToken "identifier" (.sign .assign), ⟨16, 1, 2, 7⟩⟩ _ _ hline
  rw [htext, caretBelow_iff (by decide) (by decide) (by decide) (by decide) (by decide)]
  decide

end ParseError

end JavaGraft
