import JavaGraft.Build.Unit
import Mathlib.Data.List.DropRight
import Mathlib.Data.List.Nodup

/-!
# The life of a unit

A unit is asked to add a source, to build, or to drop all sources, in any order. Here this is done
in place, statement by statement: what was changed before a fault stays changed. Yet no fault leaves
a trace, because nothing is changed before the last thing that can go wrong
(`JavaGraft.BuildUnit.settle_addSource`, `JavaGraft.BuildUnit.settle_buildSources`).

What a unit holds can be read off the answers that it gave since it was cleared last
(`JavaGraft.BuildUnit.Records`), and with that it is known how it answers next
(`JavaGraft.BuildUnit.lifecycle`).
-/

namespace JavaGraft.BuildUnit

/-! ### Requests in place -/

/-- What is done to a unit in place. A fault takes nothing back. -/
abbrev Action (ε α : Type) := EStateM ε BuildUnit α

/-- Adds a source. -/
def addSource (name source : String) : Action AddFault Unit := do
  if (← get).isBuilt then throw .alreadyBuilt
  if (← get).sources.any (·.1 == name) then throw (.duplicateSource name)
  modify fun u => { u with sources := u.sources ++ [(name, source)] }

/-- Parses, registers and processes the sources. -/
def buildSources : Action BuildFault BuildOutput := do
  if (← get).isBuilt then throw .alreadyBuilt
  if (← get).sources.isEmpty then throw .noSources
  let parsed := parseSources 0 (← get).sources
  let failed := failedFiles parsed
  if !(← get).options.lenient && !failed.isEmpty then throw (.parseErrors failed)
  let files := sourceFiles parsed
  let registered := Registration.run (baseRegistry (← get).options.prelude) files
  if !registered.isSuccess then throw (.registration registered.faults)
  let diagnostics := reportWarnings (reportErrors .empty failed) files registered.warnings
  let workshop := ⟨(← get).options.markers, registered.registry, files⟩
  let (files, p) := Workshop.processFiles workshop 0 files ⟨diagnostics, []⟩
  modify fun u => { u with isBuilt := true }
  return ⟨files, p.diagnostics, p.applications, registered.registry⟩

/-- What comes of an action, and the unit after it. -/
def settle {ε α : Type} (u : BuildUnit) (act : Action ε α) : Except ε α × BuildUnit :=
  match act.run u with
  | .ok a u => (.ok a, u)
  | .error e u => (.error e, u)

section Settle

variable {ε α : Type} (u : BuildUnit)

theorem settle_get_bind (k : BuildUnit → Action ε α) : u.settle (get >>= k) = u.settle (k u) := rfl

/-- What comes behind a check. -/
theorem settle_check (c : Prop) [Decidable c] (e : ε) (k : Unit → Action ε α) :
    u.settle (if c then throw e >>= k else k ())
      = if c then (.error e, u) else u.settle (k ()) := by
  split <;> rfl

end Settle

/-- **Adding in place** is adding, and a fault leaves the unit as it was. -/
theorem settle_addSource (u : BuildUnit) (name source : String) :
    u.settle (addSource name source) =
      match u.add name source with
      | .ok v => (.ok (), v)
      | .error e => (.error e, u) := by
  rw [addSource, add, settle_get_bind, settle_check]
  by_cases hbuilt : u.isBuilt = true
  · rw [if_pos hbuilt, if_pos hbuilt]
  · rw [if_neg hbuilt, if_neg hbuilt, settle_get_bind, settle_check]
    by_cases hknown : u.sources.any (·.1 == name) = true
    · rw [if_pos hknown, if_pos hknown]
    · rw [if_neg hknown, if_neg hknown]
      rfl

/-- **Building in place** is building, and a fault leaves the unit as it was, whatever was done
before it. -/
theorem settle_buildSources (u : BuildUnit) :
    u.settle buildSources =
      match u.build with
      | .ok (out, v) => (.ok out, v)
      | .error e => (.error e, u) := by
  rw [buildSources, build, settle_get_bind, settle_check]
  by_cases hbuilt : u.isBuilt = true
  · rw [if_pos hbuilt, if_pos hbuilt]
  · rw [if_neg hbuilt, if_neg hbuilt, settle_get_bind, settle_check]
    by_cases hempty : u.sources.isEmpty = true
    · rw [if_pos hempty, if_pos hempty]
    · rw [if_neg hempty, if_neg hempty, settle_get_bind, settle_get_bind, settle_check, output]
      simp only
      split
      · rfl
      · rw [settle_get_bind, settle_check]
        split
        · rfl
        · rfl

/-! ### Requests and answers -/

/-- What a unit may be asked. -/
inductive Request where
  | add (name source : String)
  | build
  | clear
deriving DecidableEq

/-- A request with its answer. -/
inductive Exchange where
  | add (name source : String) (answer : Except AddFault Unit)
  | build (answer : Except BuildFault BuildOutput)
  | clear

namespace Exchange

/-- What was asked. -/
def request : Exchange → Request
  | add name source _ => .add name source
  | build _ => .build
  | clear => .clear

/-- Whether the answer is a fault. -/
def isFault : Exchange → Bool
  | add _ _ answer => !answer.isOk
  | build answer => !answer.isOk
  | clear => false

/-- The source that was added. -/
def source? : Exchange → Option (String × String)
  | add name source (.ok _) => some (name, source)
  | _ => none

/-- Whether the sources were built. -/
def isOutput : Exchange → Bool
  | build answer => answer.isOk
  | _ => false

/-- What was said since the unit was cleared last. -/
def sinceClear (log : List Exchange) : List Exchange := log.rtakeWhile (·.request != .clear)

end Exchange

/-- The answer while a unit is built. -/
def Request.refusal : Request → Exchange
  | add name source => .add name source (.error .alreadyBuilt)
  | build => .build (.error .alreadyBuilt)
  | clear => .clear

/-- **Does what is asked.** -/
def perform (u : BuildUnit) : Request → Exchange × BuildUnit
  | .add name source => (u.settle (addSource name source)).map (.add name source) id
  | .build => (u.settle buildSources).map .build id
  | .clear => (.clear, u.clear)

/-- Does one thing after the other. -/
def performAll (u : BuildUnit) : List Request → List Exchange × BuildUnit
  | [] => ([], u)
  | r :: rs =>
    let (x, v) := u.perform r
    let (xs, w) := v.performAll rs
    (x :: xs, w)

/-- The names of the sources. -/
def names (u : BuildUnit) : List String := u.sources.map Prod.fst

/-- The unit with a source added. -/
def extended (u : BuildUnit) (name source : String) : BuildUnit :=
  { u with sources := u.sources ++ [(name, source)] }

/-- The unit after its sources were built, or could not be built. -/
def settled (u : BuildUnit) : BuildUnit := { u with isBuilt := u.output.isOk }

/-! ### What one request does -/

section Perform

variable (u : BuildUnit)

theorem perform_clear : u.perform .clear = (.clear, .new u.options) := rfl

/-- Nothing but clearing is done to a unit that is built. -/
theorem perform_of_built (hbuilt : u.isBuilt) {r : Request} (hr : r ≠ .clear) :
    u.perform r = (r.refusal, u) := by
  cases r with
  | add name source =>
    rw [perform, settle_addSource, add, if_pos hbuilt]
    rfl
  | build =>
    rw [perform, settle_buildSources, build, if_pos hbuilt]
    rfl
  | clear => exact absurd rfl hr

variable (hbuilt : u.isBuilt = false)
include hbuilt

theorem perform_add (name source : String) :
    u.perform (.add name source) =
      if name ∈ u.names then (.add name source (.error (.duplicateSource name)), u)
      else (.add name source (.ok ()), u.extended name source) := by
  have hknown : u.sources.any (·.1 == name) = true ↔ name ∈ u.names := by
    rw [names, List.any_eq_true, List.mem_map]
    exact exists_congr fun s => and_congr_right fun _ => beq_iff_eq
  rw [perform, settle_addSource, add, hbuilt, if_neg Bool.false_ne_true]
  by_cases hmem : name ∈ u.names
  · rw [if_pos (hknown.mpr hmem), if_pos hmem]
    rfl
  · rw [if_neg (mt hknown.mp hmem), if_neg hmem, extended, hbuilt]
    rfl

theorem perform_build :
    u.perform .build =
      if u.sources = [] then (.build (.error .noSources), u) else (.build u.output, u.settled) := by
  rw [perform, settle_buildSources, build, hbuilt, if_neg Bool.false_ne_true]
  by_cases hempty : u.sources = []
  · rw [if_pos (List.isEmpty_iff.mpr hempty), if_pos hempty]
    rfl
  · rw [if_neg (mt List.isEmpty_iff.mp hempty), if_neg hempty, settled]
    cases u.output with
    | ok out => rfl
    | error e =>
      obtain ⟨options, sources, isBuilt⟩ := u
      obtain rfl : isBuilt = false := hbuilt
      rfl

end Perform

/-- **A fault changes nothing**, whatever it is. -/
theorem perform_of_isFault (u : BuildUnit) (r : Request) (h : (u.perform r).1.isFault) :
    (u.perform r).2 = u := by
  cases r with
  | add name source =>
    rw [perform, settle_addSource] at h ⊢
    cases hadd : u.add name source with
    | error e => rfl
    | ok v =>
      rw [hadd] at h
      exact absurd h Bool.false_ne_true
  | build =>
    rw [perform, settle_buildSources] at h ⊢
    cases hbuild : u.build with
    | error e => rfl
    | ok x =>
      rw [hbuild] at h
      exact absurd h Bool.false_ne_true
  | clear => exact absurd h Bool.false_ne_true

@[simp] theorem request_perform (u : BuildUnit) (r : Request) : (u.perform r).1.request = r := by
  cases r <;> rfl

/-- The requests are answered one after the other. -/
theorem requests_performAll (u : BuildUnit) (rs : List Request) :
    (u.performAll rs).1.map Exchange.request = rs := by
  induction rs generalizing u with
  | nil => rfl
  | cons r rs ih => exact congr (congrArg List.cons (u.request_perform r)) (ih _)

/-- **A unit that is built stays as it is** until it is cleared. -/
theorem performAll_of_built (u : BuildUnit) (hbuilt : u.isBuilt) (rs : List Request)
    (hrs : .clear ∉ rs) : u.performAll rs = (rs.map Request.refusal, u) := by
  induction rs with
  | nil => rfl
  | cons r rs ih =>
    obtain ⟨hr, hrs⟩ := not_or.mp (mt List.mem_cons.mpr hrs)
    rw [performAll, u.perform_of_built hbuilt (Ne.symm hr)]
    simp only [ih hrs, List.map_cons]

/-! ### What is recorded -/

/-- **What a unit holds can be read off what was said** since it was cleared last: the sources that
were added, in order, and whether they were built. Their names are different. -/
structure Records (options : BuildOptions) (log : List Exchange) (u : BuildUnit) : Prop where
  options : u.options = options
  distinct : u.names.Nodup
  sources : u.sources = (Exchange.sinceClear log).filterMap Exchange.source?
  isBuilt : u.isBuilt = (Exchange.sinceClear log).any Exchange.isOutput

theorem records_new (options : BuildOptions) : Records options [] (.new options) :=
  ⟨rfl, List.nodup_nil, rfl, rfl⟩

section Records

variable {options : BuildOptions} {log : List Exchange} {u v : BuildUnit}

/-- Something more is said. -/
theorem Records.append (h : Records options log u) {x : Exchange} (hx : x.request ≠ .clear)
    (hoptions : v.options = u.options) (hdistinct : v.names.Nodup)
    (hsources : v.sources = u.sources ++ x.source?.toList)
    (hbuilt : v.isBuilt = (u.isBuilt || x.isOutput)) : Records options (log ++ [x]) v := by
  have hsince : Exchange.sinceClear (log ++ [x]) = Exchange.sinceClear log ++ [x] :=
    List.rtakeWhile_concat_pos _ _ _ (bne_iff_ne.mpr hx)
  refine ⟨hoptions.trans h.options, hdistinct, ?_, ?_⟩
  · rw [hsince, List.filterMap_append, ← h.sources, hsources]
    cases hsource : x.source? <;> simp [hsource]
  · rw [hsince, List.any_append, ← h.isBuilt, hbuilt, List.any_cons, List.any_nil, Bool.or_false]

/-- Clearing makes a fresh start. -/
theorem Records.clear (h : Records options log u) : Records options (log ++ [.clear]) u.clear := by
  have hsince : Exchange.sinceClear (log ++ [.clear]) = [] :=
    List.rtakeWhile_concat_neg _ _ _ (by simp [Exchange.request])
  exact ⟨h.options, List.nodup_nil, by rw [hsince]; rfl, by rw [hsince]; rfl⟩

/-- What is said next is recorded as well. -/
theorem Records.perform (h : Records options log u) (r : Request) :
    Records options (log ++ [(u.perform r).1]) (u.perform r).2 := by
  -- An answer that neither adds a source nor builds leaves the unit as it was.
  have hkeeps : ∀ x : Exchange, x.request ≠ .clear → x.source? = none → x.isOutput = false →
      Records options (log ++ [x]) u := by
    intro x hx hsource houtput
    refine h.append hx rfl h.distinct ?_ ?_
    · rw [hsource, Option.toList_none, List.append_nil]
    · rw [houtput, Bool.or_false]
  by_cases hclear : r = .clear
  · rw [hclear]
    exact h.clear
  cases hbuilt : u.isBuilt with
  | true =>
    rw [u.perform_of_built hbuilt hclear]
    cases r with
    | add name source => exact hkeeps _ hclear rfl rfl
    | build => exact hkeeps _ hclear rfl rfl
    | clear => exact absurd rfl hclear
  | false =>
    cases r with
    | clear => exact absurd rfl hclear
    | add name source =>
      rw [u.perform_add hbuilt]
      split
      · exact hkeeps _ hclear rfl rfl
      · next hnew =>
        refine h.append hclear rfl ?_ rfl (Bool.or_false _).symm
        rw [names, extended, List.map_append]
        exact List.Nodup.append h.distinct (List.nodup_singleton name)
          (List.disjoint_singleton.mpr hnew)
    | build =>
      rw [u.perform_build hbuilt]
      split
      · exact hkeeps _ hclear rfl rfl
      · refine h.append hclear rfl h.distinct (List.append_nil _).symm ?_
        rw [hbuilt]
        rfl

/-- Whatever is asked, what is said is recorded. -/
theorem Records.performAll (h : Records options log u) (rs : List Request) :
    Records options (log ++ (u.performAll rs).1) (u.performAll rs).2 := by
  induction rs generalizing log u with
  | nil =>
    rw [BuildUnit.performAll, List.append_nil]
    exact h
  | cons r rs ih =>
    have hrest := ih (h.perform r)
    rw [List.append_assoc] at hrest
    exact hrest

end Records

/-! ### The life of a unit -/

/-- **How a unit is and answers**, when `log` was said of it since it was new.
* `answered`: the requests were answered one after the other.
* `records`: it holds the sources that were added since it was cleared last, in order, under
  different names, and knows whether they were built.
* `fault`: a request that ends with a fault changes nothing.
* `add`, `build`: as long as it is not built, a source is added unless its name is known, and the
  sources are built if there are some.
* `retry`: after a build that failed, a source may be added and the build repeated.
* `blocked`: once it is built, everything is refused until it is cleared.
* `cleared`: clearing makes it new. -/
structure Lifecycle (options : BuildOptions) (requests : List Request) (log : List Exchange)
    (u : BuildUnit) : Prop where
  answered : log.map Exchange.request = requests
  records : Records options log u
  fault : ∀ r, (u.perform r).1.isFault → (u.perform r).2 = u
  add : u.isBuilt = false → ∀ name source, u.perform (.add name source) =
    if name ∈ u.names then (.add name source (.error (.duplicateSource name)), u)
    else (.add name source (.ok ()), u.extended name source)
  build : u.isBuilt = false → u.perform .build =
    if u.sources = [] then (.build (.error .noSources), u) else (.build u.output, u.settled)
  retry : u.isBuilt = false → ∀ fault, (u.perform .build).1 = .build (.error fault) →
    ∀ name source, name ∉ u.names → u.performAll [.build, .add name source, .build] =
      ([.build (.error fault), .add name source (.ok ()),
        .build (u.extended name source).output], (u.extended name source).settled)
  blocked : u.isBuilt → ∀ rs, .clear ∉ rs → u.performAll rs = (rs.map Request.refusal, u)
  cleared : u.perform .clear = (.clear, .new options)

/-- A build that failed may be repeated after a source was added. -/
theorem performAll_retry {u : BuildUnit} (hbuilt : u.isBuilt = false) {fault : BuildFault}
    (hfault : (u.perform .build).1 = .build (.error fault)) {name : String} (source : String)
    (hnew : name ∉ u.names) : u.performAll [.build, .add name source, .build] =
      ([.build (.error fault), .add name source (.ok ()),
        .build (u.extended name source).output], (u.extended name source).settled) := by
  have hfirst : u.perform .build = (.build (.error fault), u) :=
    Prod.ext hfault (u.perform_of_isFault .build (by rw [hfault]; rfl))
  have hadd := u.perform_add hbuilt name source
  have hbuild := (u.extended name source).perform_build hbuilt
  have hsources : (u.extended name source).sources ≠ [] :=
    List.append_ne_nil_of_right_ne_nil _ (List.cons_ne_nil _ _)
  rw [if_neg hnew] at hadd
  rw [if_neg hsources] at hbuild
  simp only [performAll, hfirst, hadd, hbuild]

/-- **The life of a unit**, over all requests that may be made. -/
theorem lifecycle (options : BuildOptions) (requests : List Request) :
    Lifecycle options requests ((new options).performAll requests).1
      ((new options).performAll requests).2 := by
  have hrecords := (records_new options).performAll requests
  rw [List.nil_append] at hrecords
  generalize hu : ((new options).performAll requests).2 = u at hrecords
  exact {
    answered := requests_performAll _ _
    records := hrecords
    fault := u.perform_of_isFault
    add := u.perform_add
    build := u.perform_build
    retry := fun hbuilt _ hfault _ source hnew => performAll_retry hbuilt hfault source hnew
    blocked := u.performAll_of_built
    cleared := by rw [u.perform_clear, hrecords.options] }

end JavaGraft.BuildUnit
