import JavaGraft.Symbol.Registry

/-!
# Packages and those above them

A package is written as names with dots between them, and names that are empty do not count. The
packages at and above it are what its first names make up (`JavaGraft.IsBeginning`). If no name is
empty, they are the beginnings of its text that end at a dot or at its end
(`JavaGraft.isBeginning_iff`).
-/

namespace JavaGraft

/-- The names that make up a package. -/
def packageNames (package : String) : List String := (splitDots package).filter (· ≠ "")

/-- **The text is a package or one above it**: the first names of the package, at least one. -/
def IsBeginning (p package : String) : Prop :=
  ∃ first rest, first ≠ [] ∧ packageNames package = first ++ rest ∧ p = joinDots first

/-- The model lists the packages at and above a package. -/
theorem Registry.mem_beginnings {p package : String} :
    p ∈ beginnings package ↔ IsBeginning p package := by
  rw [beginnings, ← packageNames, List.mem_map]
  constructor
  · rintro ⟨i, hi, rfl⟩
    refine ⟨_, _, ?_, (List.take_append_drop (i + 1) _).symm, rfl⟩
    rw [List.mem_range] at hi
    rw [ne_eq, ← List.length_eq_zero_iff, List.length_take]
    omega
  · rintro ⟨first, rest, hne, hnames, rfl⟩
    have hpos := List.length_pos_iff.mpr hne
    refine ⟨first.length - 1, ?_, ?_⟩
    · rw [List.mem_range, hnames, List.length_append]
      omega
    · rw [hnames, Nat.sub_add_cancel hpos, List.take_left]

/-! ### Texts with dots -/

theorem joinDots_append {names names' : List String} (h : names ≠ []) (h' : names' ≠ []) :
    joinDots (names ++ names') = joinDots names ++ "." ++ joinDots names' :=
  String.intercalate_append_of_ne_nil h h'

/-- Names that are not empty make up a text that is not. -/
theorem joinDots_ne_empty {names : List String} (h : names ≠ []) (hnames : "" ∉ names) :
    joinDots names ≠ "" := by
  obtain ⟨name, names, rfl⟩ := List.exists_cons_of_ne_nil h
  have hname : name ≠ "" := fun hname => hnames (hname ▸ List.mem_cons_self)
  cases names with
  | nil => simpa [joinDots] using hname
  | cons next names =>
    rw [joinDots, String.intercalate_cons_cons]
    simp

/-- The text of names with one more name. -/
theorem joinDots_concat {names : List String} (hnames : "" ∉ names) (name : String) :
    joinDots (names ++ [name])
      = (if joinDots names = "" then joinDots names else joinDots names ++ ".") ++ name := by
  by_cases hne : names = []
  · rw [hne, joinDots, joinDots, String.intercalate_nil, if_pos rfl]
    simp
  · rw [if_neg (joinDots_ne_empty hne hnames), joinDots_append hne (List.cons_ne_nil _ _)]
    simp [joinDots]

/-- Cutting a text at its dots and putting the pieces together gives it back. -/
theorem joinDots_splitDots (text : String) : joinDots (splitDots text) = text := by
  rw [← String.toList_inj, joinDots, splitDots, String.toList_intercalate, List.map_map,
    show String.toList ∘ String.ofList = id from funext fun cs => String.toList_ofList,
    List.map_id, show ".".toList = ['.'] from rfl, List.intercalate_splitOn]

theorem splitDots_append (text text' : String) :
    splitDots (text ++ "." ++ text') = splitDots text ++ splitDots text' := by
  rw [splitDots, String.toList_append, String.toList_append, List.append_assoc,
    show ".".toList ++ text'.toList = '.' :: text'.toList from rfl, List.splitOn,
    List.splitOnP_append_cons _ _ rfl, List.map_append]
  rfl

theorem splitDots_ne_nil (text : String) : splitDots text ≠ [] := by
  rw [splitDots, ne_eq, List.map_eq_nil_iff]
  exact List.splitOnP_ne_nil _ _

/-- **A package without empty names begins** with every text, other than the empty one, that ends
where the package does or in front of one of its dots. -/
theorem isBeginning_iff {p package : String} (h : "" ∉ splitDots package) :
    IsBeginning p package ↔ p ≠ "" ∧ (p = package ∨ ∃ rest, package = p ++ "." ++ rest) := by
  have hnames : packageNames package = splitDots package :=
    List.filter_eq_self.mpr fun name hname => decide_eq_true fun he => h (he ▸ hname)
  rw [IsBeginning, hnames]
  constructor
  · rintro ⟨first, rest, hne, hsplit, rfl⟩
    rw [hsplit] at h
    refine ⟨joinDots_ne_empty hne fun hmem => h (List.mem_append_left _ hmem), ?_⟩
    rw [← joinDots_splitDots package, hsplit]
    by_cases hrest : rest = []
    · rw [hrest, List.append_nil]
      exact .inl rfl
    · exact .inr ⟨joinDots rest, joinDots_append hne hrest⟩
  · rintro ⟨-, rfl | ⟨rest, rfl⟩⟩
    · exact ⟨_, [], splitDots_ne_nil p, (List.append_nil _).symm, (joinDots_splitDots p).symm⟩
    · exact ⟨_, _, splitDots_ne_nil p, splitDots_append p rest, (joinDots_splitDots p).symm⟩

end JavaGraft
