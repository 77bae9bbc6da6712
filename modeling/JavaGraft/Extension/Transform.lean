import JavaGraft.Extension.Splice

/-!
# Extension methods for one type

An annotation on a type is carried out in four steps: the type must be a class or enum and list
providers; the methods they offer are collected; all candidates are decided upon; and the decisions
are carried out together. The annotation is dropped, unless it is misused. If no method is offered,
nothing else happens.
-/

namespace JavaGraft

/-- What became of the candidates of a type, by number. -/
structure Tally where
  sites : Nat
  replaced : Nat
  constructorCalls : Nat
  unresolvedReceivers : Nat
  unmatched : Nat
deriving DecidableEq, Repr

/-- Whether a call is left as it is for a reason. -/
def Decision.keeps (reason : KeepReason) : Decision → Bool
  | keep r => r = reason
  | replace .. => false

/-- Whether a call is replaced. -/
def Decision.replaces : Decision → Bool
  | keep _ => false
  | replace .. => true

/-- Counts decisions. -/
def Tally.ofDecisions (ds : List Decision) : Tally where
  sites := ds.length
  replaced := ds.countP Decision.replaces
  constructorCalls := ds.countP (Decision.keeps .constructorCall)
  unresolvedReceivers := ds.countP (Decision.keeps .unresolvedReceiver)
  unmatched := ds.countP (Decision.keeps .noMatchingMethod)

/-- What became of an annotation. -/
inductive ExtensionOutcome where
  | carriedOut (tally : Tally)
  | nothingToDo
  | usageError (error : UsageError)
deriving DecidableEq, Repr

/-- An annotation carried out: the type as it is now, what became of it, and the types that were
asked for. -/
structure Transformed where
  decl : TypeDecl
  outcome : ExtensionOutcome
  attribution : Attribution

/-- **Carries an annotation on a type out.** -/
def TypeDecl.extended (d : TypeDecl) (annot : Annot) (file : Nat) (owner : TypeHash)
    (a : Attribution) : Transformed :=
  match Catalog.ofAnnot a ⟨file, owner, none⟩ d.kind annot with
  | .error e => ⟨d, .usageError e, a⟩
  | .ok catalog =>
    if catalog.isEmpty then ⟨d.applied [] (some annot), .nothingToDo, a⟩
    else
      let (decisions, a) := catalog.decideAll (d.callSites file owner) a
      ⟨d.applied decisions (some annot), .carriedOut (.ofDecisions decisions), a⟩

end JavaGraft
