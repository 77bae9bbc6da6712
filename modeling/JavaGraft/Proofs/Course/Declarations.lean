import JavaGraft.Grammar.Knot
import JavaGraft.Proofs.Course.Statements

/-!
# What the rules for declarations gather

With the rules for declarations, all rules of the grammar gather the extents of their results
(`JavaGraft.gathers_grammar`). A source file is the only node that may be read without taking a
token; the nodes in it stand from its first token on, and behind no more than what was consumed.
-/

namespace JavaGraft

open Course

namespace Grammar

variable {source : List Char} {g : Rules} (h : g.Gathers source)

include h

/-! ### Members -/

omit h in
theorem extent_addDims (t : TypeExpr) (n : Nat) : (t.addDims n).extent = t.extent := by
  cases t
  rfl

theorem gathers_param : Moves source (param g) fun p => [p.extent] := by
  unfold param
  refine .of_peek fun t => gathers_behindModifiers h (fun _ hs => hs.1) fun m => ?_
  refine h.type.anywhere.bind fun type => (eat rfl).skip fun varargs => ?_
  refine identifier.bind fun name => dims.skip fun n => .close fun span => ?_
  simp [Param.extent, extent_addDims]

theorem gathers_params : Moves source (params g) fun ps => ps.map Param.extent := by
  unfold params
  refine fun _ _ => (expect rfl).discard.skip fun _ => .joinNext (fun ps => ps.map Param.extent)
    (fun _ _ => .pure rfl) (sepBy rfl (gathers_param h)).stays.anywhere fun ps => ?_
  exact (expect rfl).discard.skip fun _ => .pure rfl

theorem gathers_initializer : Moves source (initializer g) fun m => [m.extent] := by
  unfold initializer
  refine .of_peek fun t => (eat rfl).anywhere.skip fun isStatic => h.block.bind fun body => ?_
  exact .close fun span => rfl

theorem gathers_constructor (m : Modifiers) (typeParams : List TypeParam) (start : Span) :
    Gathers source start .loose (m.extents ++ typeParams.map TypeParam.extent)
      (constructor g m typeParams start) .tight fun m => [m.extent] := by
  unfold constructor
  refine identifier.bind fun name => (gathers_params h).bind fun ps => ?_
  refine (gathers_typesBehind h).bind fun throws => h.block.bind fun body => .close fun span => ?_
  simp [Member.extent, Param.extents_eq_map]

theorem gathers_method (m : Modifiers) (typeParams : List TypeParam) (returnType : TypeExpr)
    (start : Span) :
    Gathers source start .tight (m.extents ++ typeParams.map TypeParam.extent ++
      [returnType.extent]) (method g m typeParams returnType start) .tight fun m => [m.extent] := by
  unfold method
  have hdefault : Stays source (some <$> g.element) fun v => v.toList.map Element.extent :=
    (h.element.map fun _ => rfl).stays
  have hbody : Stays source (some <$> g.block) fun b => b.toList.map Block.extent :=
    (h.block.map fun _ => rfl).stays
  refine identifier.bind fun name => (gathers_params h).bind fun ps => dims.skip fun n => ?_
  refine (gathers_typesBehind h).bind fun throws => ?_
  -- what follows an optional part is read alike, whether the part is there or not
  have hclose (default : Option Element) (body : Option Block) : Gathers source start .tight
      (m.extents ++ typeParams.map TypeParam.extent ++ [returnType.extent] ++ [name.extent] ++
        ps.map Param.extent ++ throws.map TypeExpr.extent ++ default.toList.map Element.extent ++
        body.toList.map Block.extent) (do
          return .method m typeParams (returnType.addDims n) name ps throws default body
            (← Parser.spanFrom start) : Parser Member) .tight fun m => [m.extent] :=
    .close fun span => by
      simp [Member.extent, Param.extents_eq_map, Element.optionExtents_eq_map,
        Block.optionExtents_eq_map, extent_addDims]
  have hrest (default : Option Element) : Gathers source start .tight
      (m.extents ++ typeParams.map TypeParam.extent ++ [returnType.extent] ++ [name.extent] ++
        ps.map Param.extent ++ throws.map TypeExpr.extent ++ default.toList.map Element.extent) (do
          let body ← if ← Parser.eat Sign.semicolon then pure none else some <$> g.block
          return .method m typeParams (returnType.addDims n) name ps throws default body
            (← Parser.spanFrom start) : Parser Member) .tight fun m => [m.extent] :=
    .joinEat rfl (fun b => b.toList.map Block.extent) (fun _ _ => .pure rfl) hbody (hclose default)
      (hclose default)
  exact .joinEat rfl (fun v => v.toList.map Element.extent) hdefault (fun _ _ => .pure rfl) hrest
    hrest

theorem gathers_fields (m : Modifiers) (type : TypeExpr) (start : Span) :
    Gathers source start .tight (m.extents ++ [type.extent]) (fields g m type start) .tight
      fun m => [m.extent] := by
  unfold fields
  refine (gathers_varDeclarators h).bind fun vars => (expect rfl).discard.skip fun _ => ?_
  exact .close fun span => by simp [Member.extent, VarDeclarator.extents_eq_map]

theorem gathers_typedMember (typeName : String) (m : Modifiers) (start : Span) :
    Gathers source start .loose m.extents (typedMember g typeName m start) .tight
      fun m => [m.extent] := by
  unfold typedMember
  refine (gathers_typeParams h).bind fun typeParams => .peeking fun t => .getting fun s => ?_
  refine .ite (fun _ => gathers_constructor h m typeParams start) fun _ => ?_
  refine h.type.bind fun type => .getting fun s => .getting fun u => ?_
  refine .ite (fun _ => gathers_method h m typeParams type start) fun _ => ?_
  refine GathersFrom.drop (gathers_fields h m type start) ?_
  exact (List.sublist_append_left _ _).append (.refl _)

theorem gathers_member (typeName : String) :
    Moves source (member g typeName) fun m => m.toList.map Member.extent := by
  unfold member
  refine .of_peek fun t => .ifEat rfl (.pure rfl) (.getting fun s => .getting fun u => ?_)
  refine .getting fun v => .ite (fun _ => ?_) fun _ => ?_
  · exact (gathers_initializer h).anywhere.bind fun _ => .pure rfl
  · refine gathers_behindModifiers h (fun _ hs => hs.2.1) fun m => .peek_bind fun u => ?_
    refine .ite (fun _ => ?_) fun _ => ?_
    · exact ((h.typeDecl t.span t m).weaken fun s hs => hs.2).seq fun d => .pure rfl
    · exact (gathers_typedMember h typeName m t.span).anywhere.seq fun m => .pure rfl

theorem gathers_members (typeName : String) :
    Stays source (members g typeName) fun ms => ms.map Member.extent :=
  collectBefore (gathers_member h typeName).stays.recovering

theorem gathers_classBody (typeName : String) :
    Moves source (classBody g typeName) fun ms => ms.map Member.extent := by
  unfold classBody
  refine fun _ _ => (expect rfl).discard.skip fun _ => ?_
  refine (gathers_members h typeName).bind fun ms => ?_
  exact (expect rfl).discard.skip fun _ => .pure rfl

/-! ### Types -/

theorem gathers_enumConstant : Moves source (enumConstant g) fun c => [c.extent] := by
  unfold enumConstant
  have hannot : Stays source (do
      if ← Parser.check Sign.atSign then return some (← g.annot) else return none)
      fun a => a.toList.map Annot.extent :=
    fun _ _ => .ifNext (h.annot.stays.anywhere.bind fun _ => .pure rfl) (.pure rfl)
  refine .of_peek fun t => (collect hannot).anywhere.bind fun annots => ?_
  refine identifier.bind fun name => .joinNext (fun es => es.map Expr.extent)
    (gathers_arguments h).stays.anywhere (fun _ _ => .pure rfl) fun args => ?_
  refine .ifNext ((h.classBody "").anywhere.bind fun body => .close fun span => ?_) ?_
  · simp [EnumConstant.extent, Annot.extents_eq_map, Expr.extents_eq_map, Member.extents_eq_map]
  · exact .close fun span => by
      simp [EnumConstant.extent, Annot.extents_eq_map, Expr.extents_eq_map]

theorem gathers_enumConstants :
    Stays source (enumConstants g) fun cs => cs.map EnumConstant.extent := by
  unfold enumConstants
  refine fun _ _ => loop (fun found => found.reverse.map EnumConstant.extent) (fun found => ?_)
    g.rounds []
  refine .kindAt_bind fun kind => .ite (fun _ => .pure rfl) fun _ => ?_
  refine (gathers_enumConstant h).stays.anywhere.bind fun c => ?_
  exact (eat rfl).skip fun b => .ite (fun _ => .pure (by simp)) fun _ => .pure (by simp)

theorem gathers_enumBody (typeName : String) : Moves source (enumBody g typeName) fun x =>
    x.1.map EnumConstant.extent ++ x.2.map Member.extent := by
  unfold enumBody
  refine fun _ _ => (expect rfl).discard.skip fun _ => ?_
  refine (gathers_enumConstants h).bind fun constants => ?_
  have hclose (ms : List Member) {base : Span} : Gathers source base .tight
      ([] ++ constants.map EnumConstant.extent ++ ms.map Member.extent) (do
        discard (Parser.expect Sign.rbrace)
        return (constants, ms) : Parser (List EnumConstant × List Member)) .tight
      fun x => x.1.map EnumConstant.extent ++ x.2.map Member.extent :=
    (expect rfl).discard.skip fun _ => .pure (by simp)
  exact .joinEat rfl (fun ms => ms.map Member.extent) (gathers_members h typeName)
    (fun _ _ => .pure rfl) (fun ms => hclose ms) fun ms => hclose ms

omit h in
theorem gathers_typeKind : Stays source typeKind fun _ => [] := by
  unfold typeKind
  refine fun _ _ => .getting fun s => ?_
  split
  · exact advance.skip fun _ => .pure rfl
  · exact advance.skip fun _ => .pure rfl
  · exact advance.skip fun _ => .pure rfl
  · refine .ite (fun _ => advance.skip fun _ => advance.skip fun _ => .pure rfl) fun _ => ?_
    exact .rejectNext fun _ _ => nofun
  · exact .rejectNext fun _ _ => nofun

theorem gathers_supertypes (kind : TypeKind) : Stays source (supertypes g kind) fun x =>
    x.1.toList.map TypeExpr.extent ++ x.2.map TypeExpr.extent := by
  have hrest {word : Keyword} (superclass : Option TypeExpr) {base : Span} {e : Edge} :
      Gathers source base e ([] ++ superclass.toList.map TypeExpr.extent)
        (do return (superclass, ← typesBehind g word) : Parser (Option TypeExpr × List TypeExpr)) e
        fun x => x.1.toList.map TypeExpr.extent ++ x.2.map TypeExpr.extent :=
    (gathers_typesBehind h).bind fun _ => .pure (by simp)
  intro base e
  cases kind with
  | classType =>
    have hsuper : Stays source (some <$> g.type) fun t => t.toList.map TypeExpr.extent :=
      (h.type.map fun _ => rfl).stays
    exact .joinEat rfl (fun t => t.toList.map TypeExpr.extent) hsuper (fun _ _ => .pure rfl)
      (fun t => hrest t) fun t => hrest t
  | interfaceType => exact hrest none
  | enumType => exact hrest none
  | annotType => exact .pure rfl

/-- Behind its modifiers, a type is read from the base at which they start. -/
theorem gathers_typeDecl (base : Span) (t : Token) (m : Modifiers) :
    GathersFrom source (m.Lead source base t) base .loose m.extents (typeDecl g m) .tight
      fun d => [d.extent] := by
  unfold typeDecl
  refine .peek_bind fun u => ?_
  refine GathersFrom.rebase_when (?_ : GathersFrom source _
    (if m.span.isEmpty then u.span else m.span) .loose m.extents _ .tight _)
    fun s first hs hregular hheld => ?_
  · refine gathers_typeKind.anywhere.skip fun kind => identifier.bind fun name => ?_
    refine (gathers_typeParams h).bind fun typeParams => ?_
    refine (gathers_supertypes h kind).bind fun x => ?_
    refine .ite (fun _ => ?_) fun _ => ?_
    · refine (gathers_enumBody h _).bind fun body => .close fun span => ?_
      simp [TypeDecl.extent, EnumConstant.extents_eq_map, Member.extents_eq_map]
    · refine (h.classBody _).bind fun ms => .close fun span => ?_
      simp [TypeDecl.extent, EnumConstant.extents, Member.extents_eq_map]
  -- the base is where the modifiers start, or else the word that declares the type
  obtain ⟨hnext, hlead⟩ := hs
  by_cases hempty : m.span.isEmpty
  · rw [if_pos hempty, ← hnext, hlead.next hempty]
    exact ⟨held_lead hlead hheld, hlead.offset_le, hlead.stop_le⟩
  · rw [if_neg hempty]
    rw [Modifiers.extents_of_present hlead.present] at hheld ⊢
    have hm := List.mem_singleton.mpr (Eq.refl (Extent.node m.span none (Annot.extents m.annots)))
    refine ⟨⟨(hheld.sound _ hm).liesIn, (hheld.before _ hm).past, hheld.sound,
      List.forall_mem_singleton.mpr le_rfl, hheld.before, hheld.ordered, hheld.since,
      hheld.distinct, hheld.numbers⟩, hheld.behind _ hm, hlead.stop_le.trans (hlead.stop hempty)⟩

/-! ### Source files -/

omit h in
theorem gathers_package : Moves source (package g) fun p => [p.extent] := by
  unfold package
  refine fun _ _ => (expect rfl).discard.skip fun _ => gathers_path.bind fun name => ?_
  exact (expect rfl).discard.skip fun _ => .pure rfl

omit h in
theorem gathers_importSegments : Moves source (importSegments g) fun x =>
    x.1.map Ident.extent := by
  unfold importSegments
  refine fun _ _ => identifier.bind fun first => ?_
  refine loop (fun found => found.reverse.map Ident.extent) (fun found => ?_) g.rounds [first]
  refine .ifEat rfl (.ifEat rfl (.pure rfl) ?_) (.pure rfl)
  exact identifier.anywhere.bind fun _ => .pure (by simp)

omit h in
theorem gathers_importDecl : Moves source (importDecl g) fun d => [d.extent] := by
  unfold importDecl
  refine (expect rfl).lead_skip (fun _ => rfl) fun start => (eat rfl).skip fun isStatic => ?_
  have hpath : Gathers source start.span .tight [] (Parser.peek >>= fun t =>
      importSegments g >>= fun x => Parser.spanFrom t.span >>= fun span => do
        discard (Parser.expect Sign.semicolon)
        return ⟨⟨x.1, span⟩, isStatic, x.2, ← Parser.spanFrom start.span⟩ : Parser ImportDecl)
      .tight fun d => [d.extent] :=
    MovesFrom.spanned gathers_importSegments fun x span =>
      (expect rfl).discard.skip fun _ => .close fun _ => rfl
  exact hpath

theorem gathers_topLevel : Moves source (topLevel g) fun d => d.toList.map TypeDecl.extent := by
  unfold topLevel
  refine fun base _ => .ifEat rfl (.pure rfl) (.by_next fun t => ?_)
  refine gathers_behindModifiers h (fun _ hs => hs.1) fun m => ?_
  exact (h.typeDecl base t m).seq fun d => .pure rfl

omit h in
/-- The package, the imports and the types of a source file. -/
def unitParts (g : Rules) : Parser (Option Path × List ImportDecl × List TypeDecl) := do
  let name ←
    if ← Parser.check Keyword.kwPackage then Parser.recovering (some <$> package g) else pure none
  let imports ← Parser.collectWhile g.rounds (Parser.check Keyword.kwImport)
    (Parser.recovering (some <$> importDecl g))
  let types ← Parser.collectWhile g.rounds (return !(← Parser.atEnd))
    (Parser.recovering (topLevel g))
  return (name, imports, types)

omit h in
theorem sourceUnit_eq_parts (g : Rules) : sourceUnit g = (do
    let start := (← Parser.peek).span
    let x ← unitParts g
    return ⟨x.1, x.2.1, x.2.2, ← Parser.spanFrom start⟩) := by
  unfold sourceUnit unitParts
  simp only [bind_assoc, pure_bind]
  refine congrArg _ (funext fun t => congrArg _ (funext fun b => ?_))
  cases b <;> simp [bind_assoc]

theorem gathers_unitParts : Stays source (unitParts g) fun x =>
    x.1.toList.map Path.extent ++ (x.2.1.map ImportDecl.extent ++ x.2.2.map TypeDecl.extent) := by
  unfold unitParts
  have hpackage : Moves source (some <$> package g) fun p => p.toList.map Path.extent :=
    gathers_package.map fun _ => rfl
  have himport : Moves source (some <$> importDecl g) fun d => d.toList.map ImportDecl.extent :=
    gathers_importDecl.map fun _ => rfl
  refine fun _ _ => .joinNext (fun p => p.toList.map Path.extent)
    hpackage.stays.recovering.anywhere (fun _ _ => .pure rfl) fun name => ?_
  refine StaysFrom.bind (collectWhile (fun s => s.next.kind = Keyword.kwImport) (fun _ => rfl)
    himport.stays.recovering.anywhere) fun imports => ?_
  refine StaysFrom.bind (collectWhile (fun s => !decide (s.next.kind = .endOfSource)) (fun _ => rfl)
    (gathers_topLevel h).stays.recovering.anywhere) fun types => .pure ?_
  simp

end Grammar

/-! ### All rules -/

theorem Rules.Gathers.over {source : List Char} {g : Rules} (h : g.Gathers source) (rounds : Nat) :
    (g.over rounds).Gathers source where
  annot := Grammar.gathers_annot h
  block := Grammar.gathers_block h
  classBody := Grammar.gathers_classBody h
  typeDecl := Grammar.gathers_typeDecl h
  type := Grammar.gathers_type h
  expr := Grammar.gathers_expr h
  element := Grammar.gathers_element h
  stmt := Grammar.gathers_stmt h

/-- **All rules gather** the extents of their results, at every depth. -/
theorem gathers_grammar (source : List Char) (n : Nat) : (grammar n).Gathers source := by
  induction n with
  | zero =>
    have hnone {α : Type} {ext : α → List Extent} : Moves source (throw .exhausted) ext :=
      fun _ _ => .exhausted
    exact ⟨hnone, hnone, fun _ => hnone, fun _ _ _ => .exhausted, hnone, fun _ => hnone, hnone,
      hnone⟩
  | succ n ih => exact ih.over n

end JavaGraft
