import JavaGraft.Proofs.Course.DeclarationCharts
import JavaGraft.Proofs.Course.Ensuring
import JavaGraft.Proofs.Tree.Inside

/-!
# Members stand apart

The members of the types of a source file, member types included, follow each other in the source,
and what is inside a member ends before the member does: there is a closing brace or a semicolon
behind it (`JavaGraft.parseUnit_tidy`). An expression stands in its member, so no expression is in
two of them, even though equal expressions are told apart by nothing but their places
(`JavaGraft.SourceFile.coded_unique`).
-/

namespace JavaGraft

open Course

/-! ### The members of a type -/

mutual

/-- The members of a type of a given name that have code of their own, each with the type that it
is a member of. Instead of a member type there are its members. -/
def TypeDecl.coded (name : QualifiedName) : TypeDecl → List (TypeHash × Member)
  | ⟨_, _, _, _, _, _, _, ms, _⟩ => Member.allCoded name ms

/-- A member of a type of a given name, or the members of the member type. -/
def Member.coded (name : QualifiedName) : Member → List (TypeHash × Member)
  | .type d => d.coded (name.member d.name.name)
  | m => [(name.hash, m)]

/-- The same for several members. -/
def Member.allCoded (name : QualifiedName) : List Member → List (TypeHash × Member)
  | [] => []
  | m :: ms => m.coded name ++ Member.allCoded name ms

end

/-- The members in a file that have code of their own, each with the type that it is a member of. -/
def SourceFile.coded (f : SourceFile) : List (TypeHash × Member) :=
  f.unit.types.flatMap fun d => d.coded ⟨f.scope.package, d.name.name⟩

theorem Member.allCoded_eq (name : QualifiedName) (ms : List Member) :
    Member.allCoded name ms = ms.flatMap (Member.coded name) := by
  induction ms with
  | nil => rfl
  | cons m ms ih => rw [Member.allCoded, ih, List.flatMap_cons]

/-- A member is a type, or has code of its own. -/
theorem Member.coded_eq (name : QualifiedName) (m : Member) :
    (∃ d, m = .type d ∧ m.coded name = d.coded (name.member d.name.name)) ∨
      m.coded name = [(name.hash, m)] := by
  cases m with
  | type d => exact .inl ⟨d, rfl, rfl⟩
  | _ => exact .inr rfl

/-! ### Soundness -/

namespace Extent.Sound

variable {source : List Char} {x : Extent}

/-- What is below a node is sound and stands in it. -/
theorem parts {span : Span} {call : Option Nat} {xs : List Extent}
    (h : (Extent.node span call xs).Sound source) :
    ∀ y ∈ xs, y.Sound source ∧ span.Contains y.span := by
  cases h with
  | node _ hwithin hparts => exact fun y hy => ⟨hparts y hy, hwithin y hy⟩

end Extent.Sound

theorem Span.Contains.trans {r s t : Span} (h : r.Contains s) (h' : s.Contains t) :
    r.Contains t := ⟨h.1.trans h'.1, h'.2.trans h.2⟩

mutual

/-- The members in a sound type are sound and stand in it. -/
theorem TypeDecl.coded_sound {source : List Char} :
    ∀ (d : TypeDecl) (name : QualifiedName), d.extent.Sound source →
      ∀ x ∈ d.coded name, x.2.extent.Sound source ∧ d.span.Contains x.2.span
  | ⟨_, _, _, _, _, _, _, ms, _⟩, name, h => by
    refine Member.allCoded_sound ms name fun y hy => h.parts y ?_
    simp only [List.mem_append, List.mem_cons]
    tauto

theorem Member.coded_sound {source : List Char} :
    ∀ (m : Member) (name : QualifiedName), m.extent.Sound source →
      ∀ x ∈ m.coded name, x.2.extent.Sound source ∧ m.span.Contains x.2.span
  | .type d, name, h => TypeDecl.coded_sound d (name.member d.name.name) h
  | .field .., _, h | .method .., _, h | .constructor .., _, h | .initializer .., _, h =>
    List.forall_mem_singleton.mpr ⟨h, le_rfl, le_rfl⟩

theorem Member.allCoded_sound {source : List Char} {span : Span} :
    ∀ (ms : List Member) (name : QualifiedName),
      (∀ y ∈ Member.extents ms, y.Sound source ∧ span.Contains y.span) →
      ∀ x ∈ Member.allCoded name ms, x.2.extent.Sound source ∧ span.Contains x.2.span
  | [], _, _ => nofun
  | m :: ms, name, h => by
    intro x hx
    rcases List.mem_append.mp hx with hx | hx
    · obtain ⟨hsound, hcontains⟩ := h m.extent List.mem_cons_self
      obtain ⟨hx, hinner⟩ := Member.coded_sound m name hsound x hx
      rw [m.span_extent] at hcontains
      exact ⟨hx, hcontains.trans hinner⟩
    · exact Member.allCoded_sound ms name (fun y hy => h y (List.mem_cons_of_mem _ hy)) x hx

end

/-- A block ends behind its statements. -/
def Block.Closed (b : Block) : Prop := ∀ y ∈ Stmt.extents b.stmts, y.span.stop < b.span.stop

/-- A member ends behind its code. -/
def Member.Closed (m : Member) : Prop := ∀ y ∈ m.code, y.span.stop < m.span.stop

/-- **Members stand apart** if they follow each other and each of them ends behind its code. -/
structure Member.Tidy (xs : List (TypeHash × Member)) : Prop where
  apart : xs.Pairwise fun x y => x.2.span.stop ≤ y.2.span.offset
  closed : ∀ x ∈ xs, x.2.Closed

/-- What stands apart has members that stand apart, if these stand in it. -/
theorem Member.Tidy.flatMap {α : Type} {as : List α} {x : α → Extent}
    {coded : α → List (TypeHash × Member)}
    (hapart : as.Pairwise fun a b => (x a).span.stop ≤ (x b).span.offset)
    (hwithin : ∀ a ∈ as, ∀ y ∈ coded a, (x a).span.Contains y.2.span)
    (h : ∀ a ∈ as, Member.Tidy (coded a)) : Member.Tidy (as.flatMap coded) where
  apart := by
    refine List.pairwise_flatMap.mpr ⟨fun a ha => (h a ha).apart, ?_⟩
    refine hapart.imp_of_mem fun {a b} ha hb hab y hy z hz => ?_
    exact ((hwithin a ha y hy).2.trans hab).trans (hwithin b hb z hz).1
  closed := by
    intro y hy
    obtain ⟨a, ha, hy⟩ := List.mem_flatMap.mp hy
    exact (h a ha).closed y hy

/-- A member that ends behind its code is no type. -/
theorem Member.Closed.tidy {m : Member} (h : m.Closed) (name : QualifiedName) :
    Member.Tidy (m.coded name) := by
  rcases m.coded_eq name with ⟨d, rfl, -⟩ | hcoded
  · have hlt := h d.extent List.mem_cons_self
    rw [d.span_extent] at hlt
    exact absurd hlt (Nat.lt_irrefl _)
  · rw [hcoded]
    exact ⟨List.pairwise_singleton _ _, List.forall_mem_singleton.mpr h⟩

/-! ### The rules -/

theorem Member.tidy_type {d : TypeDecl} (h : ∀ n, Member.Tidy (d.coded n)) (name : QualifiedName) :
    Member.Tidy ((Member.type d).coded name) := h (name.member d.name.name)

/-- A member that holds a closed block ends behind what is in the block. -/
theorem Block.Closed.stop_lt {b : Block} {s : Span} (hb : b.Closed)
    (hs : s.Contains b.extent.span) :
    ∀ y ∈ Stmt.extents b.stmts, y.span.stop < s.stop := by
  obtain ⟨ss, t⟩ := b
  exact fun y hy => (hb y hy).trans_le hs.2

/-- The rules ensure that members stand apart. -/
structure Rules.Tidies (source : List Char) (g : Rules) : Prop where
  charts : g.Charts source
  block : Yields source g.block Block.Closed
  classBody (name : String) :
    Yields source (g.classBody name) fun ms => ∀ n, Member.Tidy (Member.allCoded n ms)
  typeDecl (m : Modifiers) :
    Yields source (g.typeDecl m) fun d => ∀ n, Member.Tidy (d.coded n)

namespace Grammar

variable {source : List Char} {g : Rules}

/-- Behind a block there is its closing brace. -/
theorem yields_block (h : g.Gathers source) : Yields source (block g) Block.Closed := by
  unfold block
  refine .skip (expect rfl).stays fun first => ?_
  refine .bind ((Ensures.gathered (gathers_stmts h) 0).weaken
    fun _ _ => ⟨trivial, Nat.zero_le _⟩) fun stmts => ?_
  refine .bind ((Ensures.expect rfl ((Stmt.extents stmts).map (·.span.stop))).weaken
    fun s hs => ?_) fun last => .pure fun s hs y hy => ?_
  · rw [Stmt.extents_eq_map]
    exact List.forall_mem_map.mpr fun y hy => (hs y hy).2.2
  · have hlast := hs.2 y.span.stop (List.mem_map_of_mem hy)
    rw [Span.stop_merge]
    exact hlast.trans_le (le_max_right _ _)

/-- Behind the variables of a field there is a semicolon. -/
theorem yields_fields (h : g.Gathers source) (m : Modifiers) (type : TypeExpr) (start : Span) :
    Yields source (fields g m type start) fun m => m.extent.Sound source → m.Closed := by
  unfold fields
  refine .bind ((Ensures.gathered (gathers_varDeclarators h).stays 0).weaken
    fun _ _ => ⟨trivial, Nat.zero_le _⟩) fun vars => ?_
  refine .bind ((Ensures.closing rfl ((VarDeclarator.extents vars).map (·.span.stop))).weaken
    fun s hs => ?_) fun _ => .bind (.spanFrom start) fun span => .pure fun s hs _ y hy => ?_
  · rw [VarDeclarator.extents_eq_map]
    exact List.forall_mem_map.mpr fun y hy => (hs y hy).2.2
  · have hlast := hs.1 y.span.stop (List.mem_map_of_mem hy)
    rw [Member.span, hs.2, Span.stop_merge]
    exact hlast.trans_le (le_max_right _ _)

variable (h : g.Tidies source)

include h

theorem yields_initializer :
    Yields source (initializer g) fun m => m.extent.Sound source → m.Closed := by
  unfold initializer
  refine .looking (fun s => ⟨_, rfl⟩) fun t => .skip (eat rfl) fun isStatic => ?_
  refine h.block.bind fun body => .looking (fun s => ⟨_, rfl⟩) fun span => ?_
  refine .pure fun s hbody hm => ?_
  exact hbody.stop_lt (hm.parts _ List.mem_cons_self).2

theorem yields_constructor (m : Modifiers) (typeParams : List TypeParam) (start : Span) :
    Yields source (constructor g m typeParams start)
      fun m => m.extent.Sound source → m.Closed := by
  unfold constructor
  refine .skip identifier.stays fun name => ?_
  refine .skip (gathers_params h.charts.gathers).stays fun ps => ?_
  refine .skip (gathers_typesBehind h.charts.gathers) fun throws => h.block.bind fun body => ?_
  refine .looking (fun s => ⟨_, rfl⟩) fun span => .pure fun s hbody hm => ?_
  exact hbody.stop_lt (hm.parts _ (by simp)).2

theorem yields_method (m : Modifiers) (typeParams : List TypeParam) (returnType : TypeExpr)
    (start : Span) : Yields source (method g m typeParams returnType start)
      fun m => m.extent.Sound source → m.Closed := by
  unfold method
  have hdefault : Stays source (some <$> g.element) fun v => v.toList.map Element.extent :=
    (h.charts.gathers.element.map fun _ => rfl).stays
  -- With or without a default value, a body may follow, or a semicolon in its place.
  have hrest (n : Nat) (name : Ident) (ps : List Param) (throws : List TypeExpr)
      (default : Option Element) : Yields source (do
        let body ← if ← Parser.eat Sign.semicolon then pure none else some <$> g.block
        return .method m typeParams (returnType.addDims n) name ps throws default body
          (← Parser.spanFrom start) : Parser Member) fun m => m.extent.Sound source → m.Closed := by
    have hclose (body : Option Block) (hbody : ∀ b ∈ body, b.Closed) : Yields source (do
        return .method m typeParams (returnType.addDims n) name ps throws default body
          (← Parser.spanFrom start) : Parser Member) fun m => m.extent.Sound source → m.Closed := by
      refine .looking (fun s => ⟨_, rfl⟩) fun span => .pure fun s _ hm y hy => ?_
      obtain ⟨b, hb, hyb⟩ := List.mem_flatMap.mp hy
      obtain rfl := Option.mem_toList.mp hb
      exact (hbody b rfl).stop_lt (hm.parts _ (by simp [Block.optionExtents])).2 y hyb
    have hbody : Yields source (some <$> g.block) fun body => ∀ b ∈ body, b.Closed :=
      .map (h.block.mono fun b _ hb => by rintro _ ⟨⟩; exact hb)
    refine .skip (eat rfl) fun b => .ite (fun _ => hclose none nofun) fun _ => ?_
    exact hbody.bind fun body s a s' hs hnoted hb => hclose body hb s a s' hs hnoted trivial
  refine .skip identifier.stays fun name => ?_
  refine .skip (gathers_params h.charts.gathers).stays fun ps => ?_
  refine .skip dims fun n => .skip (gathers_typesBehind h.charts.gathers) fun throws => ?_
  refine .skip (eat rfl) fun b => .ite (fun _ => ?_) fun _ => hrest n name ps throws none
  exact .skip hdefault fun default => hrest n name ps throws default

theorem yields_typedMember (typeName : String) (m : Modifiers) (start : Span) :
    Yields source (typedMember g typeName m start)
      fun m => m.extent.Sound source → m.Closed := by
  unfold typedMember
  refine .skip (gathers_typeParams h.charts.gathers) fun typeParams => ?_
  refine .looking (fun s => ⟨_, rfl⟩) fun t => .looking (fun s => ⟨_, rfl⟩) fun s => ?_
  refine .ite (fun _ => yields_constructor h m typeParams start) fun _ => ?_
  refine .skip h.charts.gathers.type.stays fun type => ?_
  refine .looking (fun s => ⟨_, rfl⟩) fun s => .looking (fun s => ⟨_, rfl⟩) fun s => ?_
  exact .ite (fun _ => yields_method h m typeParams type start)
    fun _ => yields_fields h.charts.gathers m type start

/-- A member that is sound is a type whose members stand apart, or ends behind its code. -/
theorem yields_member (typeName : String) :
    Yields source (member g typeName) fun found =>
      ∀ m ∈ found, m.extent.Sound source → ∀ n, Member.Tidy (m.coded n) := by
  have hsome {m : Member} (hm : m.extent.Sound source → m.Closed) :
      ∀ m' ∈ some m, m'.extent.Sound source → ∀ n, Member.Tidy (m'.coded n) := by
    rintro _ ⟨⟩ hsound
    exact (hm hsound).tidy
  unfold member
  refine .looking (fun s => ⟨_, rfl⟩) fun first => .skip (eat rfl) fun b => .ite ?_ fun _ => ?_
  · exact fun _ => .pure fun _ _ _ hm => nomatch hm
  refine .looking (fun s => ⟨_, rfl⟩) fun s => .looking (fun s => ⟨_, rfl⟩) fun s => ?_
  refine .looking (fun s => ⟨_, rfl⟩) fun s => .ite (fun _ => ?_) fun _ => ?_
  · exact (yields_initializer h).bind fun m => .pure fun _ hm => hsome hm
  · refine .bind (.passed (charts_modifiers h.charts)) fun m => ?_
    refine .looking (fun s => ⟨_, rfl⟩) fun t => .ite (fun _ => ?_) fun _ => ?_
    · refine (h.typeDecl m).bind fun d => .pure fun s hd => ?_
      rintro _ ⟨⟩ - n
      exact Member.tidy_type hd n
    · exact (yields_typedMember h typeName m first.span).bind fun m => .pure fun _ hm => hsome hm

theorem yields_members (typeName : String) :
    Yields source (members g typeName) fun ms => ∀ n, Member.Tidy (Member.allCoded n ms) := by
  unfold members
  refine (Ensures.collectWhile (fun s => ⟨_, rfl⟩)
    (gathers_member h.charts.gathers typeName).stays.recovering
    (.recovering (gathers_member h.charts.gathers typeName).stays (yields_member h typeName))).mono
    fun ms s hms n => ?_
  rw [Member.allCoded_eq]
  refine .flatMap hms.1 (fun m hm y hy => ?_) fun m hm => (hms.2 m hm).2.1 (hms.2 m hm).1 n
  rw [m.span_extent]
  exact (Member.coded_sound m n (hms.2 m hm).1 y hy).2

theorem yields_classBody (typeName : String) :
    Yields source (classBody g typeName) fun ms => ∀ n, Member.Tidy (Member.allCoded n ms) := by
  unfold classBody
  refine .skip (expect rfl).discard.stays fun _ => (yields_members h typeName).bind fun ms => ?_
  exact .skip (expect rfl).discard.stays fun _ => .pure fun _ hms => hms

/-! ### Types -/

theorem yields_enumBody (typeName : String) : Yields source (enumBody g typeName)
    fun x => ∀ n, Member.Tidy (Member.allCoded n x.2) := by
  unfold enumBody
  have hclose (constants : List EnumConstant) (ms : List Member) :
      Ensures source (fun _ => ∀ n, Member.Tidy (Member.allCoded n ms)) (do
        discard (Parser.expect Sign.rbrace)
        return (constants, ms) : Parser (List EnumConstant × List Member))
        fun x _ => ∀ n, Member.Tidy (Member.allCoded n x.2) :=
    .skip (expect rfl).discard.stays fun _ => .pure fun _ hms => hms
  refine .skip (expect rfl).discard.stays fun _ => ?_
  refine .skip (gathers_enumConstants h.charts.gathers) fun constants => ?_
  refine .skip (eat rfl) fun b => .ite (fun _ => ?_) fun _ => ?_
  · exact (yields_members h typeName).bind fun ms => hclose constants ms
  · exact (hclose constants []).weaken fun _ _ n => ⟨.nil, nofun⟩

/-- The members of a type stand apart. -/
theorem yields_typeDecl (m : Modifiers) :
    Yields source (typeDecl g m) fun d => ∀ n, Member.Tidy (d.coded n) := by
  unfold typeDecl
  refine .looking (fun s => ⟨_, rfl⟩) fun t => .skip gathers_typeKind fun kind => ?_
  refine .skip identifier.stays fun name => ?_
  refine .skip (gathers_typeParams h.charts.gathers) fun tps => ?_
  refine .skip (gathers_supertypes h.charts.gathers kind) fun x => .ite (fun _ => ?_) fun _ => ?_
  · refine (yields_enumBody h _).bind fun body => .looking (fun s => ⟨_, rfl⟩) fun span => ?_
    exact .pure fun _ hbody => hbody
  · refine (h.classBody _).bind fun ms => .given (.looking (fun s => ⟨_, rfl⟩) fun span => ?_)
    exact .pure fun _ hms => hms

/-! ### Source files -/

end Grammar

/-! ### All rules -/

theorem Rules.Tidies.over {source : List Char} {g : Rules} (h : g.Tidies source) (rounds : Nat) :
    (g.over rounds).Tidies source where
  charts := h.charts.over rounds
  block := Grammar.yields_block h.charts.gathers
  classBody := Grammar.yields_classBody h
  typeDecl := Grammar.yields_typeDecl h

end JavaGraft
