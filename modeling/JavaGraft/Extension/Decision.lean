import JavaGraft.Extension.CallSite
import JavaGraft.Extension.Catalog

/-!
# What becomes of a call

A call `r.m(a)` becomes `P.m(r, a)` if a provider `P` offers a method `m`. A call without receiver
counts as one on `this`. The receiver must have a type, and generic methods and methods whose first
parameter has exactly the type of the receiver are passed over; of the others, the first provider
in the catalog that offers one is taken, whatever the remaining parameters are.
-/

namespace JavaGraft

/-- Why a call is left as it is. -/
inductive KeepReason where
  | constructorCall
  | unresolvedReceiver
  | noMatchingMethod
deriving DecidableEq, Repr

/-- What becomes of a call. -/
inductive Decision where
  | keep (reason : KeepReason)
  | replace (call : Nat) (callee : Expr) (args : List Expr)
deriving DecidableEq

/-- The receiver of a call; `this` if none is written. -/
def Call.receiver (c : Call) : Expr := c.receiver?.getD (.this c.callee.span)

/-- A chain of member accesses in which everything has the same span. -/
def Expr.ofNames (span : Span) : List String → Expr
  | [] => .name ⟨"", span⟩
  | n :: ns => ns.foldl (fun e n => .field e ⟨n, span⟩ span) (.name ⟨n, span⟩)

/-- Whether a provider offers a method of the name for receivers of the type. -/
def Extension.offers (e : Extension) (name : String) (receiver : DataType) : Bool :=
  e.methods.any fun m =>
    m.name == name && m.typeParams.isNone && m.signature.params.head? != some receiver

/-- The first provider that offers a method of the name for receivers of the type. -/
def Catalog.provider? (c : Catalog) (name : String) (receiver : DataType) : Option Extension :=
  c.extensions.find? (·.offers name receiver)

/-- The call of a provider's method in the place of another call. -/
def Call.moveTo (c : Call) (e : Extension) (name : String) : Decision :=
  .replace c.id (.ofNames c.callee.span (e.name.segments ++ [name])) (c.receiver :: c.args)

/-- **What becomes of a call.** The types of the receiver and of all arguments are asked for. -/
def Catalog.decide (c : Catalog) (s : CallSite) (a : Attribution) : Decision × Attribution :=
  match s.call.name? with
  | none => (.keep .noMatchingMethod, a)
  | some name =>
    if name = "this" || name = "super" then (.keep .constructorCall, a)
    else
      let (type, a) := a.resolve s.site s.call.receiver
      let a := s.call.args.foldl (fun a e => (a.resolve s.site e).2) a
      match type with
      | none => (.keep .unresolvedReceiver, a)
      | some t =>
        match c.provider? name t with
        | none => (.keep .noMatchingMethod, a)
        | some e => (s.call.moveTo e name, a)

/-- What becomes of calls, one after the other. -/
def Catalog.decideAll (c : Catalog) : List CallSite → Attribution → List Decision × Attribution
  | [], a => ([], a)
  | s :: ss, a =>
    let (d, a) := c.decide s a
    let (ds, a) := c.decideAll ss a
    (d :: ds, a)

end JavaGraft
