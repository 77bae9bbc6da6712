import JavaGraft.Proofs.Literal.Alone

/-!
# Text blocks

The content of a text block is the text below the line of its opening quotes, line by line: each
line without the bytes that the indentations of all of them share, and without the blanks at its end
(`JavaGraft.Escape.blockBody_unlines`). An empty last line is left out, so that a line feed is lost
if the closing quotes have a line of their own and nothing is in front of them.

Between its blanks a line is kept if the bytes that are cut off are whole characters, otherwise it
comes out empty (`JavaGraft.Escape.blockBody_lines`). Nothing is lost if the blanks of the line are
one byte wide.
-/

namespace JavaGraft

/-! ### Trimming -/

namespace Lines

variable {cs blanks line : List Char} {c : Char}

/-- The text without the blanks around it. -/
def trim (cs : List Char) : List Char := trimStart (trimEnd cs)

theorem trimStart_append (h : isBlank blanks) (cs : List Char) :
    trimStart (blanks ++ cs) = trimStart cs :=
  List.dropWhile_append_of_pos (List.all_eq_true.mp h)

theorem isBlank_reverse (cs : List Char) : isBlank cs.reverse = isBlank cs := List.all_reverse

theorem isBlank_append (cs ds : List Char) : isBlank (cs ++ ds) = (isBlank cs && isBlank ds) :=
  List.all_append

theorem trimEnd_append (h : isBlank blanks) (cs : List Char) :
    trimEnd (cs ++ blanks) = trimEnd cs := by
  rw [trimEnd, List.reverse_append, trimStart_append (by rwa [isBlank_reverse]), trimEnd]

theorem trimEnd_blank (h : isBlank blanks) : trimEnd blanks = [] := trimEnd_append h []

/-- A text is the blanks that it starts with and what is left without them. -/
theorem exists_trimStart (cs : List Char) :
    ∃ blanks, isBlank blanks ∧ blanks ++ trimStart cs = cs :=
  ⟨cs.takeWhile CharClass.isBlank, List.all_takeWhile, List.takeWhile_append_dropWhile⟩

theorem exists_trimEnd (cs : List Char) : ∃ blanks, isBlank blanks ∧ trimEnd cs ++ blanks = cs := by
  obtain ⟨blanks, hblanks, hcs⟩ := exists_trimStart cs.reverse
  refine ⟨blanks.reverse, by rwa [isBlank_reverse], ?_⟩
  rw [trimEnd, ← List.reverse_append, hcs, List.reverse_reverse]

theorem isBlank_trimEnd (cs : List Char) : isBlank (trimEnd cs) = isBlank cs := by
  obtain ⟨blanks, hblanks, hcs⟩ := exists_trimEnd cs
  conv_rhs => rw [← hcs, isBlank_append, hblanks, Bool.and_true]

theorem trimStart_eq_nil (h : trimStart cs = []) : isBlank cs := by
  obtain ⟨blanks, hblanks, hcs⟩ := exists_trimStart cs
  rw [h, List.append_nil] at hcs
  rwa [← hcs]

/-- Only of blanks nothing is left. -/
theorem trim_eq_nil_iff : trim cs = [] ↔ isBlank cs := by
  refine ⟨fun h => ?_, fun h => ?_⟩
  · rw [← isBlank_trimEnd]
    exact trimStart_eq_nil h
  · rw [trim, trimEnd_blank h]
    rfl

theorem trim_trimEnd (cs : List Char) : trim (trimEnd cs) = trim cs := by
  obtain ⟨blanks, hblanks, hcs⟩ := exists_trimEnd cs
  conv_rhs => rw [← hcs, trim, trimEnd_append hblanks]
  rfl

/-- Blanks in front do not count. -/
theorem trim_append (h : isBlank blanks) (cs : List Char) : trim (blanks ++ cs) = trim cs := by
  by_cases hcs : isBlank cs
  · rw [trim_eq_nil_iff.mpr hcs, trim_eq_nil_iff, isBlank_append, h, hcs, Bool.and_self]
  · have hleft : ¬(cs.reverse.dropWhile CharClass.isBlank).isEmpty := fun hnil => hcs (by
      rw [← isBlank_reverse]
      exact trimStart_eq_nil (List.isEmpty_iff.mp hnil))
    have hend : trimEnd (blanks ++ cs) = blanks ++ trimEnd cs := by
      rw [trimEnd, List.reverse_append, trimStart, List.dropWhile_append, if_neg hleft,
        List.reverse_append, List.reverse_reverse]
      rfl
    rw [trim, hend, trimStart_append h, trim]

/-! ### Lines of a text -/

/-- A line without the carriage return at its end, if there is one. -/
theorem exists_dropReturn (line : List Char) :
    ∃ ends, isBlank ends ∧ dropReturn line ++ ends = line := by
  rw [dropReturn]
  split_ifs with h
  · exact ⟨['\r'], rfl, List.dropLast_append_getLast? _ h⟩
  · exact ⟨[], rfl, List.append_nil line⟩

theorem unlines_cons {lines : List (List Char)} (h : lines ≠ []) (line : List Char) :
    unlines (line :: lines) = line ++ '\n' :: unlines lines := by
  obtain ⟨next, rest, rfl⟩ := List.exists_cons_of_ne_nil h
  simp [unlines]

theorem unlines_singleton (line : List Char) : unlines [line] = line := by simp [unlines]

theorem unlines_concat {lines : List (List Char)} (h : lines ≠ []) (last : List Char) :
    unlines (lines ++ [last]) = unlines lines ++ '\n' :: last := by
  induction lines with
  | nil => exact absurd rfl h
  | cons line lines ih =>
    cases lines with
    | nil => rw [List.singleton_append, unlines_cons (List.cons_ne_nil _ _), unlines_singleton,
        unlines_singleton]
    | cons next lines =>
      have hbelow : next :: lines ++ [last] ≠ [] := List.cons_ne_nil _ _
      rw [List.cons_append, unlines_cons hbelow, ih (List.cons_ne_nil _ _),
        unlines_cons (List.cons_ne_nil _ _), List.append_assoc, List.cons_append]

/-- Between the lines stand the line feeds. -/
theorem count_unlines {lines : List (List Char)} (hlines : ∀ l ∈ lines, '\n' ∉ l)
    (h : lines ≠ []) : (unlines lines).count '\n' + 1 = lines.length := by
  induction lines with
  | nil => exact absurd rfl h
  | cons line lines ih =>
    obtain ⟨hline, hlines⟩ := List.forall_mem_cons.mp hlines
    by_cases hnil : lines = []
    · rw [hnil, unlines_singleton, List.count_eq_zero.mpr hline]
      rfl
    · rw [unlines_cons hnil, List.count_append, List.count_cons_self, List.count_eq_zero.mpr hline,
        List.length_cons, ← ih hlines hnil, Nat.zero_add]

/-- The pieces between line feeds have none. -/
theorem not_mem_of_mem_splitOn {cs : List Char} (h : line ∈ cs.splitOn '\n') : '\n' ∉ line := by
  induction cs generalizing line with
  | nil =>
    obtain rfl := List.mem_singleton.mp h
    exact List.not_mem_nil
  | cons c cs ih =>
    obtain ⟨first, rest, hsplit⟩ := List.exists_cons_of_ne_nil (List.splitOn_ne_nil '\n' cs)
    rw [List.splitOn_cons_eq_if_modifyHead, hsplit] at h
    rw [hsplit] at ih
    split_ifs at h with hc
    · rcases List.mem_cons.mp h with rfl | h
      · exact List.not_mem_nil
      · exact ih h
    · rw [List.modifyHead_cons] at h
      rcases List.mem_cons.mp h with rfl | h
      · rw [List.mem_cons, not_or]
        exact ⟨fun heq => hc (beq_iff_eq.mpr heq.symm), ih List.mem_cons_self⟩
      · exact ih (List.mem_cons_of_mem _ h)

/-- A text is its lines, one below the other. -/
theorem exists_unlines (cs : List Char) : ∃ lines last, cs.splitOn '\n' = lines ++ [last] ∧
    unlines (lines ++ [last]) = cs ∧ (∀ l ∈ lines, '\n' ∉ l) ∧ '\n' ∉ last := by
  have hne := List.splitOn_ne_nil '\n' cs
  have hconcat := List.dropLast_concat_getLast hne
  refine ⟨_, _, hconcat.symm, ?_, fun l hl => ?_, ?_⟩
  · rw [hconcat]
    exact List.intercalate_splitOn '\n'
  · exact not_mem_of_mem_splitOn ((List.dropLast_sublist _).subset hl)
  · exact not_mem_of_mem_splitOn (List.getLast_mem hne)

/-- A text ends with a line feed if its last line is empty and not the only one. -/
theorem getLast?_unlines (lines : List (List Char)) {last : List Char} (hlast : '\n' ∉ last) :
    (unlines (lines ++ [last])).getLast? = some '\n' ↔ last = [] ∧ lines ≠ [] := by
  have hne : last.getLast? ≠ some '\n' := fun h => hlast (List.mem_of_getLast? h)
  by_cases hlines : lines = []
  · rw [hlines, List.nil_append, unlines_singleton]
    exact iff_of_false hne fun h => h.2 rfl
  · rw [unlines_concat hlines]
    cases last with
    | nil => simp [hlines]
    | cons c last =>
      rw [List.getLast?_append_of_ne_nil _ (List.cons_ne_nil _ _),
        List.getLast?_cons_of_ne_nil (List.cons_ne_nil _ _)]
      exact iff_of_false hne fun h => List.cons_ne_nil _ _ h.1

theorem splitOn_unlines {lines : List (List Char)} (hlines : ∀ l ∈ lines, '\n' ∉ l)
    (h : lines ≠ []) : (unlines lines).splitOn '\n' = lines :=
  List.splitOn_intercalate '\n' hlines h

theorem ofText_line {seen : List Char} (h : '\n' ∉ line) (cs : List Char) :
    ofText.go seen (line ++ '\n' :: cs) = dropReturn (seen.reverse ++ line) :: ofText cs := by
  induction line generalizing seen with
  | nil => simp [ofText.go, ofText]
  | cons c line ih =>
    obtain ⟨hc, hline⟩ := List.ne_and_not_mem_of_not_mem_cons h
    rw [List.cons_append, ofText.go, if_neg hc.symm, ih hline]
    simp

theorem ofText_last {seen : List Char} (h : '\n' ∉ line) :
    ofText.go seen line = if seen.reverse ++ line = [] then [] else [seen.reverse ++ line] := by
  induction line generalizing seen with
  | nil => cases seen <;> simp [ofText.go]
  | cons c line ih =>
    obtain ⟨hc, hline⟩ := List.ne_and_not_mem_of_not_mem_cons h
    rw [ofText.go, if_neg hc.symm, ih hline]
    simp

/-- **The lines of a text** are those between its line feeds, without an empty last one. -/
theorem ofText_unlines {lines : List (List Char)} {last : List Char}
    (hlines : ∀ l ∈ lines, '\n' ∉ l) (hlast : '\n' ∉ last) :
    ofText (unlines (lines ++ [last]))
      = lines.map dropReturn ++ if last = [] then [] else [last] := by
  induction lines with
  | nil =>
    rw [List.nil_append, unlines_singleton, ofText, ofText_last hlast]
    rfl
  | cons line lines ih =>
    obtain ⟨hline, hlines⟩ := List.forall_mem_cons.mp hlines
    rw [List.cons_append, unlines_cons (by simp), ofText, ofText_line hline, ih hlines]
    rfl

end Lines

/-! ### Indentation -/

namespace Escape

open Lines

variable {n : Nat} {c : Char} {line indent cs rest : List Char}

/-- Where a text is cut. -/
theorem splitAtByte?_eq_some :
    splitAtByte? n cs = some (indent, rest) ↔ cs = indent ++ rest ∧ byteSize indent = n := by
  refine ⟨fun h => ?_, ?_⟩
  · induction cs generalizing n indent with
    | nil =>
      rw [splitAtByte?] at h
      split_ifs at h with hn
      cases h
      exact ⟨rfl, hn.symm⟩
    | cons c cs ih =>
      rw [splitAtByte?] at h
      split_ifs at h with hn hc
      · cases h
        exact ⟨rfl, hn.symm⟩
      · obtain ⟨⟨before, after⟩, hparts, h⟩ := Option.map_eq_some_iff.mp h
        cases h
        obtain ⟨rfl, hbefore⟩ := ih hparts
        exact ⟨rfl, by rw [byteSize, hbefore]; omega⟩
  · rintro ⟨rfl, rfl⟩
    exact splitAtByte?_append indent rest

/-- What is left of a line if the cut is between two of its characters. -/
theorem dropIndent_append (indent rest : List Char) :
    dropIndent (byteSize indent) (indent ++ rest) = rest := by
  rw [dropIndent, splitAtByte?_append]
  rfl

theorem dropIndent_eq_nil (h : ∀ indent, indent <+: line → byteSize indent ≠ n) :
    dropIndent n line = [] := by
  cases hparts : splitAtByte? n line with
  | none => rw [dropIndent, hparts]; rfl
  | some parts =>
    obtain ⟨hline, hn⟩ := splitAtByte?_eq_some.mp hparts
    exact absurd hn (h parts.1 ⟨parts.2, hline.symm⟩)

/-- A line is cut between two characters, or nothing is left of it. -/
theorem dropIndent_cases (n : Nat) (line : List Char) :
    (∃ indent rest, line = indent ++ rest ∧ byteSize indent = n ∧ dropIndent n line = rest) ∨
      (∀ indent, indent <+: line → byteSize indent ≠ n) ∧ dropIndent n line = [] := by
  by_cases h : ∃ indent, indent <+: line ∧ byteSize indent = n
  · obtain ⟨indent, ⟨rest, rfl⟩, rfl⟩ := h
    exact .inl ⟨indent, rest, rfl, rfl, dropIndent_append indent rest⟩
  · have h' : ∀ indent, indent <+: line → byteSize indent ≠ n := fun indent hindent hn =>
      h ⟨indent, hindent, hn⟩
    exact .inr ⟨h', dropIndent_eq_nil h'⟩

/-- What becomes of a line. -/
def cutLine (n : Nat) (line : List Char) : List Char := trimEnd (dropIndent n line)

/-- Blanks at the end of a line do not matter. -/
theorem cutLine_append {ends : List Char} (hends : isBlank ends) (n : Nat)
    (line : List Char) :
    cutLine n (line ++ ends) = cutLine n line := by
  rw [cutLine, cutLine]
  rcases dropIndent_cases n line with ⟨indent, rest, rfl, rfl, hrest⟩ | ⟨hnone, hrest⟩
  · rw [hrest, List.append_assoc, dropIndent_append, trimEnd_append hends]
  · rw [hrest]
    rcases dropIndent_cases n (line ++ ends) with ⟨indent, rest, hall, hn, hrest'⟩ | ⟨-, hrest'⟩
    · rcases List.prefix_or_prefix_of_prefix ⟨rest, hall.symm⟩ (List.prefix_append line ends) with
        hindent | ⟨more, rfl⟩
      · exact absurd hn (hnone indent hindent)
      · rw [List.append_assoc, List.append_cancel_left_eq] at hall
        rw [hall, isBlank_append, Bool.and_eq_true] at hends
        rw [hrest', trimEnd_blank hends.2, trimEnd_blank rfl]
    · rw [hrest']

theorem cutLine_dropReturn (n : Nat) (line : List Char) :
    cutLine n (dropReturn line) = cutLine n line := by
  obtain ⟨ends, hends, hline⟩ := exists_dropReturn line
  conv_rhs => rw [← hline, cutLine_append hends]

/-- The indentation of a line is the size of the blanks in front of it. -/
theorem exists_indentOf (line : List Char) : ∃ blanks, isBlank blanks ∧
    blanks ++ trimStart line = line ∧ indentOf line = byteSize blanks := by
  obtain ⟨blanks, hblanks, hline⟩ := exists_trimStart line
  refine ⟨blanks, hblanks, hline, ?_⟩
  rw [indentOf]
  conv_lhs =>
    arg 1
    rw [← hline, byteSize_append]
  rw [Nat.add_sub_cancel_right]

/-- The indentation of a line that counts for the common one. -/
def margin? (line : List Char) : Option Nat :=
  if isBlank line then none else some (indentOf line)

theorem commonIndent_eq (lines : List (List Char)) :
    commonIndent lines = (lines.filterMap margin?).min?.getD 0 := by
  rw [commonIndent]
  congr 2
  induction lines with
  | nil => rfl
  | cons line lines ih => by_cases h : isBlank line <;> simp [margin?, h, ih]

theorem margin?_append {ends : List Char} (hends : isBlank ends) (line : List Char) :
    margin? (line ++ ends) = margin? line := by
  rw [margin?, margin?, isBlank_append, hends, Bool.and_true]
  split_ifs with hline
  · rfl
  · have hne : ¬(line.dropWhile CharClass.isBlank).isEmpty := fun hnil =>
      hline (trimStart_eq_nil (List.isEmpty_iff.mp hnil))
    have hstart : trimStart (line ++ ends) = trimStart line ++ ends := by
      rw [trimStart, List.dropWhile_append, if_neg hne]
      rfl
    rw [indentOf, indentOf, hstart, byteSize_append, byteSize_append, Nat.add_sub_add_right]

theorem margin?_dropReturn (line : List Char) : margin? (dropReturn line) = margin? line := by
  obtain ⟨ends, hends, hline⟩ := exists_dropReturn line
  conv_rhs => rw [← hline, margin?_append hends]

theorem commonIndent_le {lines : List (List Char)} (hline : line ∈ lines) (h : ¬isBlank line) :
    commonIndent lines ≤ indentOf line := by
  rw [commonIndent_eq]
  exact List.min?_getD_le_of_mem (List.mem_filterMap.mpr ⟨line, hline, if_neg h⟩)

/-- What is in front of a line within its indentation consists of blanks. -/
theorem isBlank_of_front (hn : n ≤ indentOf line) (hfront : indent <+: line)
    (hindent : byteSize indent = n) : isBlank indent := by
  obtain ⟨blanks, hblanks, hline, hsize⟩ := exists_indentOf line
  rcases List.prefix_or_prefix_of_prefix hfront ⟨trimStart line, hline⟩ with
    ⟨more, rfl⟩ | ⟨more, rfl⟩
  · rw [isBlank_append, Bool.and_eq_true] at hblanks
    exact hblanks.1
  · rw [byteSize_append] at hindent
    cases more with
    | nil => rwa [List.append_nil]
    | cons c more =>
      have := c.utf8Size_pos
      rw [byteSize] at hindent
      omega

/-- Blanks of one byte each are cut anywhere. -/
theorem exists_cut (hn : n ≤ indentOf line)
    (hline : ∀ c ∈ line, CharClass.isBlank c → c.utf8Size = 1) :
    ∃ indent, indent <+: line ∧ byteSize indent = n := by
  obtain ⟨blanks, hblanks, hall, hsize⟩ := exists_indentOf line
  have hwidth {cs : List Char} (hcs : ∀ c ∈ cs, c ∈ blanks) : byteSize cs = cs.length := by
    induction cs with
    | nil => rfl
    | cons c cs ih =>
      obtain ⟨hc, hcs⟩ := List.forall_mem_cons.mp hcs
      have hmem : c ∈ line := by
        rw [← hall]
        exact List.mem_append_left _ hc
      rw [byteSize, ih hcs, hline c hmem (List.all_eq_true.mp hblanks c hc), List.length_cons,
        Nat.add_comm]
  refine ⟨blanks.take n, ?_, ?_⟩
  · exact (List.take_prefix n blanks).trans ⟨trimStart line, hall⟩
  · rw [hwidth fun c => List.mem_of_mem_take, List.length_take]
    rw [hsize, hwidth fun c hc => hc] at hn
    exact Nat.min_eq_left hn

/-- **What is left of a line** that has at least the indentation that is cut off, between its
blanks: all of it, or nothing. -/
theorem trim_cutLine (hn : ¬isBlank line → n ≤ indentOf line) :
    (trim (cutLine n line) = trim line ∨ cutLine n line = []) ∧
      (trim (cutLine n line) = trim line ↔
        isBlank line ∨ ∃ indent, indent <+: line ∧ byteSize indent = n) := by
  rw [cutLine, trim_trimEnd]
  rcases dropIndent_cases n line with ⟨indent, rest, rfl, hsize, hrest⟩ | ⟨hnone, hrest⟩
  · have hblank : isBlank indent := by
      by_cases hline : isBlank (indent ++ rest)
      · rw [isBlank_append, Bool.and_eq_true] at hline
        exact hline.1
      · exact isBlank_of_front (hn hline) (List.prefix_append indent rest) hsize
    rw [hrest, trim_append hblank]
    exact ⟨.inl rfl, iff_of_true rfl (.inr ⟨indent, List.prefix_append indent rest, hsize⟩)⟩
  · rw [hrest]
    refine ⟨.inr rfl, ?_⟩
    rw [show trim [] = [] from rfl, eq_comm, trim_eq_nil_iff]
    exact ⟨.inl, fun h => h.elim id fun ⟨indent, hindent, hsize⟩ =>
      absurd hsize (hnone indent hindent)⟩

/-! ### The block -/

/-- A text block, with what stands beside its opening quotes and the text below them. -/
def textBlock (beside below : List Char) : List Char :=
  "\"\"\"".toList ++ (beside ++ '\n' :: below) ++ "\"\"\"".toList

theorem afterFirstLine_append {head : List Char} (hhead : '\n' ∉ head) (body : List Char) :
    afterFirstLine (head ++ '\n' :: body) = body := by
  rw [afterFirstLine, if_pos (by simp), List.dropWhile_append_of_pos]
  · simp
  · exact fun c hc => decide_eq_true fun h => hhead (h ▸ hc)

/-- **The content of a text block, line by line**: without an empty last line, the common
indentation and the blanks at the ends of lines. -/
theorem blockBody_unlines {head last : List Char} {lines : List (List Char)} (hhead : '\n' ∉ head)
    (hlines : ∀ l ∈ lines, '\n' ∉ l) (hlast : '\n' ∉ last) :
    blockBody (textBlock head (unlines (lines ++ [last]))) =
      unlines ((lines ++ if last = [] then [] else [last]).map
        (cutLine (commonIndent (lines ++ [last])))) := by
  have hinner : ∀ inner : List Char, (("\"\"\"".toList ++ inner ++ "\"\"\"".toList).drop 3).take
      (("\"\"\"".toList ++ inner ++ "\"\"\"".toList).length - 6) = inner := by
    simp
  have hindent : commonIndent (lines.map dropReturn ++ if last = [] then [] else [last])
      = commonIndent (lines ++ [last]) := by
    rw [commonIndent_eq, commonIndent_eq, List.filterMap_append, List.filterMap_append,
      List.filterMap_map]
    congr 3
    · exact congrArg (List.filterMap · lines) (funext margin?_dropReturn)
    · split_ifs with h
      · rw [h]
        rfl
      · rfl
  rw [blockBody, textBlock, hinner, afterFirstLine_append hhead, ofText_unlines hlines hlast,
    hindent]
  change unlines (List.map (cutLine _) _) = _
  simp only [List.map_append, List.map_map, Function.comp_def, cutLine_dropReturn]

/-- No line feed comes into a line. -/
theorem not_mem_cutLine (h : '\n' ∉ line) (n : Nat) : '\n' ∉ cutLine n line := by
  rw [cutLine]
  obtain ⟨ends, -, hends⟩ := exists_trimEnd (dropIndent n line)
  rcases dropIndent_cases n line with ⟨indent, rest, rfl, -, hrest⟩ | ⟨-, hrest⟩
  · rw [hrest] at hends ⊢
    intro hmem
    refine h (List.mem_append_right _ ?_)
    rw [← hends]
    exact List.mem_append_left _ hmem
  · rw [hrest]
    exact List.not_mem_nil

/-- The lines of a text block are those of its text, without an empty last one that is not the only
one. -/
theorem exists_kept {head last : List Char} {lines : List (List Char)} (hhead : '\n' ∉ head)
    (hlines : ∀ l ∈ lines, '\n' ∉ l) (hlast : '\n' ∉ last) :
    ∃ ls, ls <+: lines ++ [last] ∧ ls ≠ [] ∧
      blockBody (textBlock head (unlines (lines ++ [last])))
        = unlines (ls.map (cutLine (commonIndent (lines ++ [last])))) ∧
      ls.length + (if (unlines (lines ++ [last])).getLast? = some '\n' then 1 else 0)
        = (lines ++ [last]).length := by
  rw [blockBody_unlines hhead hlines hlast]
  simp only [getLast?_unlines lines hlast]
  by_cases hnil : last = []
  · by_cases hfirst : lines = []
    · exact ⟨[[]], by rw [hfirst, hnil]; exact List.prefix_rfl, nofun, by rw [hfirst, hnil]; rfl,
        by rw [hfirst, hnil]; rfl⟩
    · refine ⟨lines, List.prefix_append lines [last], hfirst, ?_, ?_⟩
      · rw [if_pos hnil, List.append_nil]
      · rw [if_pos ⟨hnil, hfirst⟩, List.length_append, List.length_singleton]
  · refine ⟨lines ++ [last], List.prefix_rfl, by simp, by rw [if_neg hnil], ?_⟩
    rw [if_neg fun h => hnil h.1, Nat.add_zero]

/-- **What text blocks keep.** The content has as many line feeds as the text below the opening
quotes, or one fewer if that ends with one. Between its blanks each line is kept or comes out empty,
and it is kept if and only if it is blank or a character of it starts, or the line ends, where the
common indentation does. Lines whose blanks are one byte wide are kept. -/
theorem blockBody_lines {head : List Char} (hhead : '\n' ∉ head) (body : List Char) :
    let block := blockBody (textBlock head body)
    block.count '\n' + (if body.getLast? = some '\n' then 1 else 0) = body.count '\n' ∧
    ∀ (i : Nat) (line kept : List Char), (body.splitOn '\n')[i]? = some line →
      (block.splitOn '\n')[i]? = some kept →
      (trim kept = trim line ∨ kept = []) ∧
      (trim kept = trim line ↔ isBlank line ∨
        ∃ indent, indent <+: line ∧ byteSize indent = commonIndent (body.splitOn '\n')) ∧
      ((∀ c ∈ line, CharClass.isBlank c → c.utf8Size = 1) → trim kept = trim line) := by
  intro block
  obtain ⟨lines, last, hsplit, rfl, hlines, hlast⟩ := exists_unlines body
  have hall : ∀ l ∈ lines ++ [last], '\n' ∉ l :=
    List.forall_mem_append.mpr ⟨hlines, List.forall_mem_singleton.mpr hlast⟩
  obtain ⟨ls, hfront, hne, hlines', hlength⟩ := exists_kept hhead hlines hlast
  have hblock : block = unlines (ls.map (cutLine (commonIndent (lines ++ [last])))) := hlines'
  clear_value block
  -- each line of the content is cut from one of the text, and cutting adds no line feed
  have hcut : ∀ l ∈ ls.map (cutLine (commonIndent (lines ++ [last]))), '\n' ∉ l := by
    intro l hl
    obtain ⟨line, hline, rfl⟩ := List.mem_map.mp hl
    exact not_mem_cutLine (hall line (hfront.subset hline)) _
  have hcut_ne : ls.map (cutLine (commonIndent (lines ++ [last]))) ≠ [] := by simpa using hne
  constructor
  · have hcount := count_unlines hcut hcut_ne
    have hcount' := count_unlines hall (by simp)
    rw [List.length_map, ← hblock] at hcount
    omega
  · intro i line kept hline hkept
    rw [hsplit] at hline ⊢
    have hkept' : (ls.map (cutLine (commonIndent (lines ++ [last]))))[i]? = some kept := by
      rwa [← splitOn_unlines hcut hcut_ne, ← hblock]
    rw [List.getElem?_map] at hkept'
    obtain ⟨line', hline', rfl⟩ := Option.map_eq_some_iff.mp hkept'
    -- the lines that are kept come first, so they stand at the same places
    obtain rfl : line' = line := by
      obtain ⟨more, hmore⟩ := hfront
      have hi := (List.getElem?_eq_some_iff.mp hline').1
      rw [← hmore, List.getElem?_append_left hi, hline'] at hline
      exact Option.some.inj hline
    have hmargin : ¬isBlank line' → commonIndent (lines ++ [last]) ≤ indentOf line' :=
      commonIndent_le (List.mem_of_getElem? hline)
    obtain ⟨hwhole, hiff⟩ := trim_cutLine hmargin
    refine ⟨hwhole, hiff, fun hwidth => hiff.mpr ?_⟩
    by_cases hblank : isBlank line'
    · exact .inl hblank
    · exact .inr (exists_cut (hmargin hblank) hwidth)

theorem blockBody_lines_tab :
    let block := blockBody (textBlock [] "\t a\n  b".toList)
    block.count '\n' + (if "\t a\n  b".toList.getLast? = some '\n' then 1 else 0)
        = "\t a\n  b".toList.count '\n' ∧
    ∀ (i : Nat) (line kept : List Char), ("\t a\n  b".toList.splitOn '\n')[i]? = some line →
      (block.splitOn '\n')[i]? = some kept →
      (trim kept = trim line ∨ kept = []) ∧
      (trim kept = trim line ↔ isBlank line ∨
        ∃ indent, indent <+: line ∧
          byteSize indent = commonIndent ("\t a\n  b".toList.splitOn '\n')) ∧
      ((∀ c ∈ line, CharClass.isBlank c → c.utf8Size = 1) → trim kept = trim line) :=
  blockBody_lines List.not_mem_nil "\t a\n  b".toList

/-- **A text block may lose its last line feed**, if the closing quotes are in front of everything,
and a line whose first blank is wider than the common indentation. -/
theorem blockBody_loses :
    blockBody (textBlock [] " a\n".toList) = "a".toList ∧
    blockBody (textBlock [] " a\n\u2003b".toList) = "a\n".toList ∧
    parseExpr (textBlock [] " a\n".toList) = .ok (.literal (.string "a") ⟨0, 10, 1, 1⟩) := by
  decide +kernel

end Escape

end JavaGraft
