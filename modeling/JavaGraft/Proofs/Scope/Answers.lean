import JavaGraft.Proofs.Scope.Reading
import JavaGraft.Proofs.Tree.Relabel
import JavaGraft.Typing.Member
import Mathlib.Data.List.TakeDrop

/-!
# Registries that give the same answers

A registry is only ever asked for types by name or identity, for supertypes, and for how many types
there are. Two registries that agree in these answers can take each other's place: names and types
mean the same, and fields and methods have the same types. Registries that differ only in the order
of their types agree, if no two types have the same identity.

Nor does it matter for the meaning of a type how its spans are labelled.
-/

namespace JavaGraft

namespace Registry

/-- **Registries that give the same answers.** -/
structure Agrees (r r' : Registry) : Prop where
  count : r'.count = r.count
  find? : ∀ n, r'.find? n = r.find? n
  get? : ∀ h, r'.get? h = r.get? h
  supertypes : ∀ h, r'.supertypes h = r.supertypes h

theorem Agrees.refl (r : Registry) : r.Agrees r := ⟨rfl, fun _ => rfl, fun _ => rfl, fun _ => rfl⟩

/-- The order of declaration does not matter. -/
theorem agrees_of_perm {r r' : Registry} (h : r.latestFirst.Perm r'.latestFirst)
    (hr : r.Distinct) : r.Agrees r' := by
  -- Different identities have different names, as the identity is computed from the name.
  have hnames : (r.latestFirst.map TypeSymbol.name).Nodup := by
    refine List.Nodup.of_map QualifiedName.hash ?_
    rw [List.map_map, show QualifiedName.hash ∘ TypeSymbol.name = TypeSymbol.hash from
      funext fun t => t.hash_eq.symm]
    exact hr
  exact ⟨h.length_eq.symm, fun n => (find?_perm h hnames n).symm, fun x => (get?_perm h hr x).symm,
    fun x => (supertypes_perm h hr x).symm⟩

variable {r r' : Registry} (h : r.Agrees r')
include h

theorem Agrees.alike : r.Alike r' :=
  ⟨h.count.symm, fun n => by rw [h.find?], fun x => by rw [h.get?]⟩

theorem Agrees.sameMembers (c : Context) (names : List String) : c.SameMembers r r' names :=
  Context.sameMembers_of_supertypes h.alike c (fun x => by rw [h.supertypes]) names

theorem Agrees.isSubtype (sub sup : TypeHash) : r'.isSubtype sub sup = r.isSubtype sub sup := by
  rw [Registry.isSubtype, Registry.isSubtype, h.supertypes]

theorem Agrees.methodsNamed (x : TypeHash) (name : String) :
    r'.methodsNamed x name = r.methodsNamed x name := by
  rw [Registry.methodsNamed, Registry.methodsNamed, h.supertypes]

theorem Agrees.fieldNamed? (x : TypeHash) (name : String) :
    r'.fieldNamed? x name = r.fieldNamed? x name := by
  rw [Registry.fieldNamed?, Registry.fieldNamed?, h.supertypes]

theorem Agrees.select (ms : List MethodSymbol) (args : List (Option DataType)) :
    r'.select ms args = r.select ms args := by
  have hassigns : r'.assigns = r.assigns := by
    funext a t
    simp only [assigns, assignsType, h.isSubtype]
  have haccepts : r'.acceptsAll = r.acceptsAll := by
    funext s as
    simp only [acceptsAll, accepts, hassigns]
  rw [Registry.select, Registry.select, haccepts]

theorem Agrees.joinTypes (a b : DataType) : r'.joinTypes a b = r.joinTypes a b := by
  simp only [Registry.joinTypes, h.isSubtype]

end Registry

/-! ### Files -/

namespace SourceFile

/-- A file with its labels replaced. -/
def relabeled (ρ : Relabeling) (f : SourceFile) : SourceFile := ⟨f.name, f.unit.relabeled ρ⟩

/-- What a file sees has nothing to do with labels. -/
theorem scope_relabeled (ρ : Relabeling) (f : SourceFile) : (f.relabeled ρ).scope = f.scope := by
  have hpackage : (f.unit.relabeled ρ).packageName = f.unit.packageName := by
    rw [SourceUnit.packageName, SourceUnit.packageName, SourceUnit.relabeled]
    cases f.unit.package with
    | none => rfl
    | some path => exact Path.dotted_relabeled ρ path
  have hdotted : ∀ i : ImportDecl, (i.relabeled ρ).path.dotted = i.path.dotted :=
    fun i => Path.dotted_relabeled ρ i.path
  have hstatic : ∀ i : ImportDecl, (i.relabeled ρ).isStatic = i.isStatic := fun _ => rfl
  have hdemand : ∀ i : ImportDecl, (i.relabeled ρ).onDemand = i.onDemand := fun _ => rfl
  have himports : (f.unit.relabeled ρ).imports = f.unit.imports.map (ImportDecl.relabeled ρ) := rfl
  simp only [scope, FileScope.ofUnit, relabeled, hpackage, himports, List.filter_map, List.map_map,
    Function.comp_def, hdotted, hstatic, hdemand]

/-- Files that are the given ones, but for the numbers of their calls. -/
def Renumbered (bases files : List SourceFile) : Prop :=
  List.Forall₂ (fun b f => ∃ n, f = relabeled (.shift n) b) bases files

theorem Renumbered.getElem? {bases files : List SourceFile} (h : Renumbered bases files) {i : Nat}
    {b : SourceFile} (hb : bases[i]? = some b) :
    ∃ n, files[i]? = some (b.relabeled (.shift n)) := by
  induction h generalizing i with
  | nil => cases hb
  | cons hf _ ih =>
    cases i with
    | zero =>
      cases hb
      obtain ⟨n, rfl⟩ := hf
      exact ⟨n, rfl⟩
    | succ i => exact ih hb

end SourceFile

/-! ### Types as written -/

namespace Context

theorem base_relabeled (c : Context) (ρ : Relabeling) (t : TypeExpr) :
    c.base (t.relabeled ρ) = c.base t := by
  rw [base, base, TypeExpr.base_relabeled]
  cases t.base with
  | primitive p => rfl
  | named path => simp only [TypeBase.relabeled, Path.names_relabeled, Path.dotted_relabeled]
  | inferred => rfl

variable {c : Context} {r : Registry} (h : c.registry.Agrees r) (ρ : Relabeling)
include h

theorem enclosing_against : (c.against r).enclosing = c.enclosing :=
  (enclosing_congr h.alike c).symm

theorem namedType?_against (names : List String) :
    (c.against r).namedType? names = c.namedType? names :=
  (namedType?_congr h.alike (h.sameMembers c names)).symm

theorem base_against (t : TypeExpr) : (c.against r).base (t.relabeled ρ) = c.base t := by
  rw [base_relabeled]
  exact (base_congr h.alike (h.sameMembers c t.names)).symm

theorem type_against (t : TypeExpr) : (c.against r).type (t.relabeled ρ) = c.type t := by
  rw [type, type, base_against h, TypeExpr.dims_relabeled]

theorem valueType_against (t : TypeExpr) :
    (c.against r).valueType (t.relabeled ρ) = c.valueType t := by
  rw [valueType, valueType, type_against h]

theorem superclass?_against : (c.against r).superclass? = c.superclass? := by
  rw [superclass?, superclass?]
  simp only [against, show r.get? = c.registry.get? from funext h.get?]

theorem ownCallType_against (name : String) (args : List (Option DataType)) :
    (c.against r).ownCallType name args = c.ownCallType name args := by
  rw [ownCallType, ownCallType, enclosing_against h]
  simp only [against, h.methodsNamed, h.select]

theorem callType_against (receiver : Option TypeHash) (name : String)
    (args : List (Option DataType)) :
    (c.against r).callType receiver name args = c.callType receiver name args := by
  rw [callType, callType]
  simp only [against, h.methodsNamed, h.select]

end Context

/-! ### Local variables -/

/-- A local variable with its span relabelled. -/
def LocalVar.relabeled (ρ : Relabeling) (v : LocalVar) : LocalVar :=
  { v with span := ρ.span v.span }

namespace LocalScope

/-- Local variables with their spans relabelled. -/
def relabeled (ρ : Relabeling) (s : LocalScope) : LocalScope :=
  ⟨s.visible.map (LocalVar.relabeled ρ), s.depth, s.hidden.map fun (d, v) => (d, v.relabeled ρ)⟩

variable (ρ : Relabeling) (s : LocalScope)

theorem get?_relabeled (name : String) :
    (s.relabeled ρ).get? name = (s.get? name).map (LocalVar.relabeled ρ) := by
  rw [get?, get?, relabeled, List.find?_map]
  rfl

theorem isDeclared_relabeled (name : String) :
    (s.relabeled ρ).isDeclared name = s.isDeclared name := by
  rw [isDeclared, isDeclared, get?_relabeled, Option.isSome_map]

theorem typeOf?_relabeled (name : String) : (s.relabeled ρ).typeOf? name = s.typeOf? name := by
  rw [typeOf?, typeOf?, get?_relabeled, Option.bind_map]
  rfl

theorem put_relabeled (vars : List LocalVar) (v : LocalVar) :
    (put vars v).map (LocalVar.relabeled ρ)
      = put (vars.map (LocalVar.relabeled ρ)) (v.relabeled ρ) := by
  rw [put, put, List.map_cons, List.filter_map]
  rfl

theorem leave_relabeled : s.leave.relabeled ρ = (s.relabeled ρ).leave := by
  -- The variables that come back are put in one by one.
  have hback : ∀ (back : List (Nat × LocalVar)) (vars : List LocalVar),
      (back.foldl (fun vars h => put vars h.2) vars).map (LocalVar.relabeled ρ)
        = (back.map fun (d, v) => (d, v.relabeled ρ)).foldl (fun vars h => put vars h.2)
            (vars.map (LocalVar.relabeled ρ)) := by
    intro back vars
    induction back generalizing vars with
    | nil => rfl
    | cons v back ih => rw [List.foldl_cons, ih, put_relabeled, List.map_cons, List.foldl_cons]
  rw [leave, leave]
  by_cases hdepth : s.depth = 0
  · rw [if_pos hdepth, if_pos (show (s.relabeled ρ).depth = 0 from hdepth)]
  · rw [if_neg hdepth, if_neg (show ¬(s.relabeled ρ).depth = 0 from hdepth)]
    simp only [relabeled, List.span_eq_takeWhile_dropWhile, List.takeWhile_map,
      List.dropWhile_map, hback, List.filter_map]
    rfl

theorem declare_relabeled (name : String) (type : Option DataType) (span : Span) :
    (s.declare name type span).relabeled ρ
      = (s.relabeled ρ).declare name type (ρ.span span) := by
  simp only [declare, relabeled, put_relabeled, List.map_append, LocalScope.mk.injEq]
  refine ⟨rfl, trivial, congrArg (· ++ _) ?_⟩
  have hget : ((⟨s.visible.map (LocalVar.relabeled ρ), s.depth, _⟩ : LocalScope).get? name)
      = (s.get? name).map (LocalVar.relabeled ρ) := s.get?_relabeled ρ name
  rw [hget]
  cases s.get? name with
  | none => rfl
  | some v =>
    -- The variable is hidden if it is from an outer scope, and replaced otherwise.
    by_cases hdepth : v.depth < s.depth
    · simp [Option.filter, hdepth, LocalVar.relabeled]
    · simp [Option.filter, hdepth, LocalVar.relabeled]

end LocalScope

namespace Context

variable {c : Context} {r : Registry} (h : c.registry.Agrees r) (ρ : Relabeling)
  (scope : LocalScope)
include h

theorem nameType_against (name : String) :
    (c.against r).nameType (scope.relabeled ρ) name = c.nameType scope name := by
  rw [nameType, nameType, LocalScope.isDeclared_relabeled, LocalScope.typeOf?_relabeled,
    enclosing_against h]
  simp only [against, h.fieldNamed?]

theorem denotedType_against (e : Expr) :
    (c.against r).denotedType (scope.relabeled ρ) (e.relabeled ρ) = c.denotedType scope e := by
  have hchain : (e.relabeled ρ).chain?.bind (fun is => (c.against r).namedType? (is.map Ident.name))
      = e.chain?.bind fun is => c.namedType? (is.map Ident.name) := by
    rw [Expr.chain?_relabeled, Option.bind_map]
    refine congrArg (Option.bind e.chain?) (funext fun is => ?_)
    rw [Function.comp_apply, List.map_map, namedType?_against h]
    rfl
  cases e with
  | name i =>
    simp only [denotedType, Expr.relabeled, Ident.name_relabeled,
      LocalScope.isDeclared_relabeled, namedType?_against h]
  | _ => exact hchain

theorem fieldType_against (target : Expr) (type : Option DataType) (name : String) :
    (c.against r).fieldType (scope.relabeled ρ) (target.relabeled ρ) type name
      = c.fieldType scope target type name := by
  cases type with
  | none =>
    simp only [fieldType, denotedType_against h]
    simp only [against, h.fieldNamed?]
  | some t => simp only [fieldType, against, h.fieldNamed?]

theorem receiverType_against (receiver : Expr) (type : Option DataType) :
    (c.against r).receiverType (scope.relabeled ρ) (receiver.relabeled ρ) type
      = c.receiverType scope receiver type := by
  cases type with
  | none => exact denotedType_against h ρ scope receiver
  | some t => rfl

end Context

end JavaGraft
