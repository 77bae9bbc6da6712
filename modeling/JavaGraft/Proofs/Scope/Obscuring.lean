import JavaGraft.Proofs.Extension.Hygiene
import JavaGraft.Proofs.Tree.Relabel

/-!
# Variables and the names of types

A chain of names `a.b.c` that a member is selected from is read from left to right. Where a part of
it has a value, it is read as that value, and otherwise as the type that its names denote, if they
denote one (`JavaGraft.Context.Reading`).

A name that is a local variable is never read as a type when it stands alone. In a longer chain it
does not keep the names from denoting a type (`JavaGraft.Expr.reading_of_declared`): if the variable
has no known type, or no field of the next name, the part of the chain up to there is read as a type
after all. Only if this happens nowhere is the chain what the variable and its fields make of it.
-/

namespace JavaGraft

/-! ### What a chain is read as -/

namespace Context

/-- What typing takes an expression to be that a member is selected from. -/
inductive Reading where
  | value (type : DataType)
  | type (hash : TypeHash)
  | nothing
deriving DecidableEq, Repr

/-- A value is read as that, and the name of a type as the type if it has no value. -/
def read (c : Context) (scope : LocalScope) (e : Expr) : Option DataType → Reading
  | some t => .value t
  | none =>
    match c.denotedType scope e with
    | some h => .type h
    | none => .nothing

/-- The type of a member selected from what was read. -/
def selected (c : Context) (reading : Reading) (name : String) : Option DataType :=
  let field := fun h => (c.registry.fieldNamed? h name).map FieldSymbol.type
  match reading with
  | .value t =>
    if t.isArray then if name = "length" then some (.simple .int) else none else field t.base
  | .type h => field h
  | .nothing => none

/-- The type whose methods are called on what was read. -/
def Reading.receiver : Reading → Option TypeHash
  | .value t => if t.isArray then some .object else if t.isPrimitive then none else some t.base
  | .type h => some h
  | .nothing => none

variable (c : Context) (scope : LocalScope) (e : Expr) (type : Option DataType)

theorem fieldType_eq_selected (name : String) :
    c.fieldType scope e type name = c.selected (c.read scope e type) name := by
  cases type with
  | some t => rfl
  | none =>
    rw [fieldType, read]
    cases c.denotedType scope e <;> rfl

theorem receiverType_eq_receiver :
    c.receiverType scope e type = (c.read scope e type).receiver := by
  cases type with
  | some t => rfl
  | none =>
    rw [receiverType, read]
    cases c.denotedType scope e <;> rfl

/-- What is read as a type has no value. -/
theorem read_eq_type_iff (h : TypeHash) :
    c.read scope e type = .type h ↔ type = none ∧ c.denotedType scope e = some h := by
  cases type with
  | some t => simp [read]
  | none =>
    rw [read]
    cases c.denotedType scope e <;> simp

/-- What is not read as a type is read as its value, if it has one. -/
theorem read_of_ne_type (h : ∀ t, c.read scope e type ≠ .type t) :
    c.read scope e type = type.elim .nothing .value := by
  cases type with
  | some t => rfl
  | none =>
    rw [read] at h ⊢
    cases hdenoted : c.denotedType scope e with
    | none => rfl
    | some t => exact absurd (by rw [hdenoted]) (h t)

end Context

namespace Expr

/-- The type of a chain of names as a value. -/
def chainValue (c : Context) (scope : LocalScope) : Expr → Option DataType
  | .name i => c.nameType scope i.name
  | .field e n _ => c.selected (c.read scope e (e.chainValue c scope)) n.name
  | _ => none

/-- What a chain of names is read as. -/
def reading (c : Context) (scope : LocalScope) (e : Expr) : Context.Reading :=
  c.read scope e (e.chainValue c scope)

/-- The type of a chain as variables alone make it: that of the variable it starts with, of the
field of the next name in it, and so on. -/
def variableValue (c : Context) (scope : LocalScope) : Expr → Option DataType
  | .name i => scope.typeOf? i.name
  | .field e n _ => (e.variableValue c scope).bind fun t => c.selected (.value t) n.name
  | _ => none

/-- A chain and the shorter ones that it begins with. -/
def beginnings : Expr → List Expr
  | .field e n s => .field e n s :: e.beginnings
  | e => [e]

variable {c : Context} {e : Expr} {i : Ident} {names rest : List Ident}

theorem ne_nil_of_chain (h : e.chain? = some names) : names ≠ [] := by
  cases e with
  | name i =>
    cases h
    exact List.cons_ne_nil _ _
  | field e n s =>
    obtain ⟨names, -, rfl⟩ := Option.map_eq_some_iff.mp h
    simp
  | _ => cases h

/-- A chain of more than one name goes on from a chain that starts with the same name. -/
theorem chain_of_field {n : Ident} (h : e.chain?.map (· ++ [n]) = some (i :: rest)) :
    ∃ names, e.chain? = some (i :: names) ∧ rest = names ++ [n] := by
  obtain ⟨names, hchain, heq⟩ := Option.map_eq_some_iff.mp h
  obtain ⟨j, names, rfl⟩ := List.exists_cons_of_ne_nil (ne_nil_of_chain hchain)
  obtain ⟨rfl, rfl⟩ := List.cons.inj heq
  exact ⟨names, hchain, rfl⟩

/-- **Typing a chain** leaves the local variables alone, and comes to its type as a value. -/
theorem typed_chain (h : e.chain?.isSome) (s : TyperState) (expected : Option DataType) :
    ((e.typed c expected).run s).1 = e.chainValue c s.scope
      ∧ ((e.typed c expected).run s).2.scope = s.scope := by
  fun_induction chain? e generalizing expected with
  | case1 i =>
    simp only [typed]
    exact ⟨rfl, rfl⟩
  | case2 e n span ih =>
    obtain ⟨htype, hscope⟩ := ih (by simpa using h) none
    simp only [typed]
    change c.fieldType ((Typer.note e (e.typed c none)).run s).2.scope e
        ((Typer.note e (e.typed c none)).run s).1 n.name = _
      ∧ ((Typer.note e (e.typed c none)).run s).2.scope = _
    rw [Typer.run_note]
    dsimp only
    rw [htype, hscope, Context.fieldType_eq_selected]
    exact ⟨rfl, rfl⟩
  | case3 => cases h

/-! ### Chains that start with a local variable -/

variable {scope : LocalScope}

/-- **Which types a chain denotes** that starts with a local variable: none if it is the variable
alone, and else the type of its names. -/
theorem denotedType_of_declared (h : e.chain? = some (i :: rest)) (hi : scope.isDeclared i.name) :
    c.denotedType scope e
      = if rest = [] then none else c.namedType? ((i :: rest).map Ident.name) := by
  cases e with
  | name j =>
    obtain ⟨rfl, rfl⟩ := List.cons.inj (Option.some.inj h)
    rw [Context.denotedType, if_pos hi, if_pos rfl]
  | field e n span =>
    obtain ⟨names, -, rfl⟩ := chain_of_field h
    rw [if_neg (by simp), Context.denotedType, h]
    · rfl
    · intro j hj
      cases hj
  | _ => cases h

theorem mem_beginnings_self (e : Expr) : e ∈ e.beginnings := by
  cases e <;> exact List.mem_cons_self

/-- The chains that a chain begins with start with the same name. -/
theorem chain_of_mem_beginnings (h : e.chain? = some (i :: rest)) :
    ∀ p ∈ e.beginnings, ∃ names, p.chain? = some (i :: names) := by
  fun_induction chain? e generalizing rest with
  | case1 j => exact List.forall_mem_singleton.mpr ⟨rest, h⟩
  | case2 e n span ih =>
    obtain ⟨names, hchain, -⟩ := chain_of_field h
    exact List.forall_mem_cons.mpr ⟨⟨rest, h⟩, ih hchain⟩
  | case3 => cases h

/-- Where no beginning of a chain is read as a type, its value is what the variable and its fields
make of it. -/
theorem chainValue_eq_variableValue (h : e.chain? = some (i :: rest))
    (hi : scope.isDeclared i.name)
    (htypes : ∀ p ∈ e.beginnings, ∀ t, p.reading c scope ≠ .type t) :
    e.chainValue c scope = e.variableValue c scope := by
  fun_induction chain? e generalizing rest with
  | case1 j =>
    obtain ⟨rfl, rfl⟩ := List.cons.inj (Option.some.inj h)
    rw [chainValue, Context.nameType, if_pos hi, variableValue]
  | case2 e n span ih =>
    obtain ⟨names, hchain, -⟩ := chain_of_field h
    obtain ⟨-, htypes⟩ := List.forall_mem_cons.mp htypes
    have ih := ih hchain htypes
    have hreading : e.reading c scope = (e.variableValue c scope).elim .nothing .value := by
      rw [← ih]
      exact Context.read_of_ne_type c scope e _ (htypes e e.mem_beginnings_self)
    rw [chainValue, variableValue]
    change c.selected (e.reading c scope) n.name = _
    rw [hreading]
    cases e.variableValue c scope <;> rfl
  | case3 => cases h

/-- **Variables and types.** When a member is selected or called on a chain that starts with a local
variable, the type of the member is found in what the chain is read as. The chain, or a beginning of
it, is read as a type if and only if it is more than the variable alone, it has no value, and its
names denote the type. If this is so nowhere, its value is what the variable and its fields make of
it. -/
theorem reading_of_declared (c : Context) (s : TyperState) (h : e.chain? = some (i :: rest))
    (hi : s.scope.isDeclared i.name) :
    (∀ n span expected, (((Expr.field e n span).typed c expected).run s).1
        = c.selected (e.reading c s.scope) n.name)
      ∧ (∀ id n span args span' expected,
        (((Expr.call id (.field e n span) args span').typed c expected).run s).1
          = c.callType (e.reading c s.scope).receiver n.name
            ((Expr.allTyped c none args).run ((Typer.note e (e.typed c none)).run s).2).1)
      ∧ (∀ p ∈ e.beginnings, ∃ names, p.chain? = some (i :: names)
        ∧ ∀ t, p.reading c s.scope = .type t ↔ names ≠ [] ∧ p.chainValue c s.scope = none
          ∧ c.namedType? ((i :: names).map Ident.name) = some t)
      ∧ ((∀ p ∈ e.beginnings, ∀ t, p.reading c s.scope ≠ .type t) →
        e.reading c s.scope = (e.variableValue c s.scope).elim .nothing .value) := by
  have hsome : e.chain?.isSome := by rw [h, Option.isSome_some]
  obtain ⟨htype, hscope⟩ := typed_chain (c := c) hsome s none
  refine ⟨fun n span expected => ?_, fun id n span args span' expected => ?_, fun p hp => ?_,
    fun htypes => ?_⟩
  · exact (typed_chain (e := .field e n span) (by simp [chain?, h]) s expected).1
  · simp only [typed]
    change c.callType (c.receiverType ((Typer.note e (e.typed c none)).run s).2.scope e
      ((Typer.note e (e.typed c none)).run s).1) n.name _ = _
    -- the receiver is typed before the call, and typing it leaves the scope as it is
    have hnote : ((Typer.note e (e.typed c none)).run s).1 = e.chainValue c s.scope := by
      rw [Typer.run_note, htype]
    have hnote' : ((Typer.note e (e.typed c none)).run s).2.scope = s.scope := by
      rw [Typer.run_note, hscope]
    rw [hnote, hnote', Context.receiverType_eq_receiver]
    rfl
  · obtain ⟨names, hnames⟩ := chain_of_mem_beginnings h p hp
    refine ⟨names, hnames, fun t => ?_⟩
    rw [reading, Context.read_eq_type_iff, denotedType_of_declared hnames hi]
    split
    · next hnil => simp [hnil]
    · next hnil => simp [hnil]
  · rw [← chainValue_eq_variableValue h hi htypes]
    exact Context.read_of_ne_type c s.scope e _ (htypes e e.mem_beginnings_self)

/-- The variable `ext` in the scope of a block, of a type that is not known. -/
def sampleState : TyperState := ⟨LocalScope.empty.declare "ext" none .absent, []⟩

/-- A place in a file that sees `Sample.registry`. -/
def samplePlace : Context := .inType Sample.registry ⟨"", [], []⟩ Sample.owner

/-- The chain `ext.other` is read as nothing where `ext` is a variable. -/
theorem reading_of_declared_other :
    sampleState.scope.isDeclared "ext"
      ∧ (ofNames .absent ["ext", "other"]).chain? = some [⟨"ext", .absent⟩, ⟨"other", .absent⟩]
      ∧ (ofNames .absent ["ext", "other"]).reading samplePlace sampleState.scope = .nothing := by
  have hi : sampleState.scope.isDeclared "ext" := by decide
  have h : (ofNames .absent ["ext", "other"]).chain?
      = some [⟨"ext", .absent⟩, ⟨"other", .absent⟩] := rfl
  obtain ⟨-, -, htypes, hvalue⟩ := reading_of_declared samplePlace sampleState h hi
  refine ⟨hi, h, (hvalue fun p hp t ht => ?_).trans rfl⟩
  have hnone : samplePlace.namedType? ["ext", "other"] = none := by decide +kernel
  obtain ⟨names, hnames, hiff⟩ := htypes p hp
  obtain ⟨hne, -, hnamed⟩ := (hiff t).mp ht
  rcases List.mem_cons.mp hp with rfl | hp
  · cases hnames
    exact Option.some_ne_none t (hnamed.symm.trans hnone)
  · obtain rfl := List.mem_singleton.mp hp
    cases hnames
    exact hne rfl

/-- **A variable that does not obscure a type.** Where `ext` is a variable, the chain `ext.Ext` is
read as the type of this name, and `ext.Ext.tag(null)` is a call of its method. -/
theorem reading_of_declared_type :
    sampleState.scope.isDeclared "ext"
      ∧ (ofNames .absent ["ext", "Ext"]).reading samplePlace sampleState.scope
        = .type Sample.extName.hash
      ∧ (((Expr.call 0 (ofNames .absent ["ext", "Ext", "tag"]) [.literal .null .absent]
          .absent).typed samplePlace none).run sampleState).1 = some .void := by
  refine ⟨by decide, ?_, ?_⟩
  · decide +kernel
  · decide +kernel

end Expr

end JavaGraft
