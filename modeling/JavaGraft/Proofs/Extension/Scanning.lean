import JavaGraft.Proofs.Extension.Candidates

/-!
# Scanning with frames

The candidates of a type are defined by saying for every tree what its own candidates are. Here
they are reported instead, by a scanner that goes through the whole type, other types in it
included, and keeps a stack of *frames*: the type itself, and on top of it every member type, local
class, anonymous class and body of a constant that it is in. It reports what fills a slot as long
as there is one frame only.

Under a second frame the scanner changes nothing (`JavaGraft.Scanner.Quiet`), and in the own code
it reports the candidates as they are defined (`JavaGraft.Scanner.Reports`). So in the end it has
reported the candidates, each at its member, and the stack is empty again
(`JavaGraft.TypeDecl.scan_exact`).
-/

namespace JavaGraft

/-! ### The scanner -/

/-- What may lie around code. -/
inductive Frame where
  | scannedType | memberType | localType | anonymousClass | constantBody
deriving DecidableEq, Repr

/-- The state of a scanner: the frames around the place that it has come to, the innermost first,
the member of the scanned type there, and what it has reported. -/
structure Scanner where
  file : Nat
  owner : TypeHash
  frames : List Frame
  member : Option Member
  found : List CallSite

/-- A step of a scanner. -/
abbrev Scan := StateM Scanner

namespace Scanner

/-- A scanner that has not started. -/
def fresh (file : Nat) (owner : TypeHash) : Scanner := ⟨file, owner, [], none, []⟩

/-- Whether the code that the scanner has come to belongs to the scanned type itself. -/
def inOwnCode (s : Scanner) : Bool := s.frames.length == 1

/-- Scans under one more frame. -/
def within (frame : Frame) (scan : Scan Unit) : Scan Unit := do
  modify fun s => { s with frames := frame :: s.frames }
  scan
  modify fun s => { s with frames := s.frames.tail }

/-- Scans a member. It is remembered if it is one of the scanned type itself. -/
def atMember (m : Member) (scan : Scan Unit) : Scan Unit := do
  if (← get).inOwnCode then
    let outer := (← get).member
    modify fun s => { s with member := some m }
    scan
    modify fun s => { s with member := outer }
  else scan

/-- Reports the call that fills a slot, if one does. -/
def slot (e : Expr) : Scan Unit :=
  match e.unparenthesized.asCall? with
  | some call => modify fun s => { s with found := s.found ++ [⟨call, s.file, s.owner, s.member⟩] }
  | none => return

/-- Reports what fills slots, in the own code. -/
def slots (es : List Expr) : Scan Unit := do
  if (← get).inOwnCode then es.forM slot

end Scanner

open Scanner

mutual

/-- Scans an expression. -/
def Expr.scan : Expr → Scan Unit
  | .literal .. | .name _ | .this _ | .super _ | .classLit .. => return
  | .field e _ _ | .unary _ e _ | .update e _ _ | .paren e _ | .methodRef e _ _ | .cast _ e _
  | .instanceOf e _ _ _ | .lambda _ e _ => e.scan
  | .call _ f as _ => do
    f.scan
    Expr.allScan as
  | .new _ as _ => Expr.allScan as
  | .newAnonymous _ as ms _ => do
    Expr.allScan as
    within .anonymousClass (Member.allScan ms)
  | .newArray _ ds _ => Expr.allScan ds
  | .newArrayOf _ ds es _ _ => do
    Expr.allScan ds
    Expr.allScan es
  | .arrayInit es _ => Expr.allScan es
  | .index a b _ | .binary a _ b _ | .assign a _ b _ => do
    a.scan
    b.scan
  | .conditional e a b _ => do
    e.scan
    a.scan
    b.scan
  | .blockLambda _ b _ => b.scan

/-- Scans expressions. -/
def Expr.allScan : List Expr → Scan Unit
  | [] => return
  | e :: es => do
    e.scan
    Expr.allScan es

/-- Scans a block. -/
def Block.scan : Block → Scan Unit
  | ⟨ss, _⟩ => Stmt.allScan ss

/-- Scans a statement, what fills its slots first. -/
def Stmt.scan : Stmt → Scan Unit
  | .block b => b.scan
  | .localVar _ _ vs _ => do
    slots (vs.filterMap VarDeclarator.init)
    VarDeclarator.allScan vs
  | .localType d => within .localType d.walk
  | .breakTo .. | .continueTo .. | .empty _ | .ret none _ => return
  | .expr e _ | .throwing e _ | .ret (some e) _ | .assertion e none _ => do
    slots [e]
    e.scan
  | .ifThen e a _ | .whileLoop e a _ | .forEach _ _ _ e a _ => do
    slots [e]
    e.scan
    a.scan
  | .ifElse e a b _ => do
    slots [e]
    e.scan
    a.scan
    b.scan
  | .doLoop a e _ => do
    slots [e]
    a.scan
    e.scan
  | .forLoop i none us a _ => do
    Stmt.allScan i
    slots us
    Expr.allScan us
    a.scan
  | .forLoop i (some e) us a _ => do
    Stmt.allScan i
    slots (e :: us)
    e.scan
    Expr.allScan us
    a.scan
  | .tryCatch rs b cs none _ => do
    Stmt.allScan rs
    b.scan
    CatchClause.allScan cs
  | .tryCatch rs b cs (some f) _ => do
    Stmt.allScan rs
    b.scan
    CatchClause.allScan cs
    f.scan
  | .switch e cs _ => do
    slots [e]
    e.scan
    SwitchCase.allScan cs
  | .synchronized e b _ => do
    slots [e]
    e.scan
    b.scan
  | .labeled _ a _ => a.scan
  | .assertion e (some m) _ => do
    slots [e, m]
    e.scan
    m.scan

/-- Scans statements. -/
def Stmt.allScan : List Stmt → Scan Unit
  | [] => return
  | s :: ss => do
    s.scan
    Stmt.allScan ss

/-- Scans the initial values of variables. -/
def VarDeclarator.allScan : List VarDeclarator → Scan Unit
  | [] => return
  | ⟨_, _, none, _⟩ :: vs => VarDeclarator.allScan vs
  | ⟨_, _, some e, _⟩ :: vs => do
    e.scan
    VarDeclarator.allScan vs

/-- Scans the initial values of fields, each of which is a slot. -/
def VarDeclarator.fieldScan : List VarDeclarator → Scan Unit
  | [] => return
  | ⟨_, _, none, _⟩ :: vs => VarDeclarator.fieldScan vs
  | ⟨_, _, some e, _⟩ :: vs => do
    slots [e]
    e.scan
    VarDeclarator.fieldScan vs

/-- Scans handlers. -/
def CatchClause.allScan : List CatchClause → Scan Unit
  | [] => return
  | ⟨_, _, _, b, _⟩ :: cs => do
    b.scan
    CatchClause.allScan cs

/-- Scans the groups of a `switch`. -/
def SwitchCase.allScan : List SwitchCase → Scan Unit
  | [] => return
  | ⟨ls, ss, _⟩ :: cs => do
    Expr.allScan ls
    Stmt.allScan ss
    SwitchCase.allScan cs

/-- Goes through the annotations, the constants and the members of a type. -/
def TypeDecl.walk : TypeDecl → Scan Unit
  | ⟨⟨_, as, _⟩, _, _, _, _, _, cs, ms, _⟩ => do
    Annot.allScan as
    EnumConstant.allScan cs
    Member.allScan ms

/-- Scans annotations. -/
def Annot.allScan : List Annot → Scan Unit
  | [] => return
  | ⟨_, as, _⟩ :: rest => do
    AnnotArg.allScan as
    Annot.allScan rest

/-- Scans the arguments of an annotation. -/
def AnnotArg.allScan : List AnnotArg → Scan Unit
  | [] => return
  | ⟨_, v, _⟩ :: as => do
    v.scan
    AnnotArg.allScan as

/-- Scans the value of an element. -/
def Element.scan : Element → Scan Unit
  | .expr e => e.scan
  | .array vs _ => Element.allScan vs
  | .annot ⟨_, as, _⟩ => AnnotArg.allScan as

/-- Scans values. -/
def Element.allScan : List Element → Scan Unit
  | [] => return
  | v :: vs => do
    v.scan
    Element.allScan vs

/-- Scans constants. -/
def EnumConstant.allScan : List EnumConstant → Scan Unit
  | [] => return
  | .plain _ _ es _ :: cs => do
    Expr.allScan es
    EnumConstant.allScan cs
  | .withBody _ _ es ms _ :: cs => do
    Expr.allScan es
    within .constantBody (Member.allScan ms)
    EnumConstant.allScan cs

/-- Goes through a member. -/
def Member.walk : Member → Scan Unit
  | .field _ _ vs _ => VarDeclarator.fieldScan vs
  | .method _ _ _ _ _ _ _ none _ => return
  | .method _ _ _ _ _ _ _ (some b) _ | .constructor _ _ _ _ _ b _ | .initializer _ b _ => b.scan
  | .type d => within .memberType d.walk

/-- Scans members. -/
def Member.allScan : List Member → Scan Unit
  | [] => return
  | m :: ms => do
    atMember m m.walk
    Member.allScan ms

end

/-- **Scans a type.** -/
def TypeDecl.scan (d : TypeDecl) (file : Nat) (owner : TypeHash) : Scanner :=
  ((within .scannedType d.walk).run (.fresh file owner)).2

/-! ### What is reported -/

namespace Scanner

/-- The scanner with more candidates. -/
def adding (s : Scanner) (sites : List CallSite) : Scanner := { s with found := s.found ++ sites }

theorem adding_adding (s : Scanner) (xs ys : List CallSite) :
    (s.adding xs).adding ys = s.adding (xs ++ ys) := by
  simp [adding]

/-- The scanner after it has been told of calls, which it reports in the own code only. -/
def told (s : Scanner) (calls : List Call) : Scanner :=
  if s.inOwnCode then s.adding (calls.map fun c => ⟨c, s.file, s.owner, s.member⟩) else s

@[simp] theorem told_nil (s : Scanner) : s.told [] = s := by
  simp [told, adding]

theorem frames_told (s : Scanner) (calls : List Call) : (s.told calls).frames = s.frames := by
  rw [told]
  split <;> rfl

theorem told_told (s : Scanner) (xs ys : List Call) : (s.told xs).told ys = s.told (xs ++ ys) := by
  by_cases h : s.inOwnCode = true
  · simp only [inOwnCode] at h
    simp [told, adding, inOwnCode, h]
  · simp [told, h]

/-- Under two frames nothing belongs to the scanned type. -/
theorem told_of_frames {s : Scanner} (h : 2 ≤ s.frames.length) (calls : List Call) :
    s.told calls = s := by
  have hown : s.inOwnCode = false := by simp [inOwnCode]; omega
  simp [told, hown]

variable {x y : Scan Unit} {calls calls' : List Call}

/-- **A step that reports calls** in the own code, and nothing elsewhere. -/
def Reports (x : Scan Unit) (calls : List Call) : Prop :=
  ∀ s, s.frames ≠ [] → x.run s = ((), s.told calls)

/-- **A step that changes nothing under two frames.** -/
def Quiet (x : Scan Unit) : Prop := ∀ s, 2 ≤ s.frames.length → x.run s = ((), s)

theorem Reports.quiet (h : Reports x calls) : Quiet x := by
  intro s hs
  rw [h s (List.ne_nil_of_length_pos (by omega)), told_of_frames hs]

theorem Quiet.pure : Quiet (Pure.pure ()) := fun _ _ => rfl

theorem Quiet.bind (hx : Quiet x) (hy : Quiet y) : Quiet (x >>= fun _ => y) := by
  intro s hs
  change y.run (x.run s).2 = _
  rw [hx s hs, hy s hs]

namespace Reports

theorem pure : Reports (Pure.pure ()) [] := fun s _ => by rw [told_nil]; rfl

theorem bind (hx : Reports x calls) (hy : Reports y calls') :
    Reports (x >>= fun _ => y) (calls ++ calls') := by
  intro s hs
  change y.run (x.run s).2 = _
  have hframes : (s.told calls).frames ≠ [] := by rwa [frames_told]
  rw [hx s hs, hy _ hframes, told_told]

/-- Under one more frame there are two of them. -/
theorem within (frame : Frame) (hx : Quiet x) : Reports (Scanner.within frame x) [] := by
  intro s hs
  have hpush : 2 ≤ (frame :: s.frames).length := by
    have := List.length_pos_iff.mpr hs
    simp only [List.length_cons]
    omega
  have hrun := hx { s with frames := frame :: s.frames } hpush
  change ((), { (x.run { s with frames := frame :: s.frames }).2 with
    frames := (x.run { s with frames := frame :: s.frames }).2.frames.tail }) = _
  rw [hrun, told_nil]
  rfl

/-- In the own code, what fills a slot is reported. -/
theorem run_slot {s : Scanner} (h : s.inOwnCode = true) (e : Expr) :
    (Scanner.slot e).run s = ((), s.told e.slot) := by
  rw [Scanner.slot, Expr.slot]
  cases e.unparenthesized.asCall? with
  | none => rw [Option.toList_none, told_nil]; rfl
  | some call => rw [told, if_pos h]; rfl

theorem run_forM_slot (es : List Expr) {s : Scanner} (h : s.inOwnCode = true) :
    (es.forM Scanner.slot).run s = ((), s.told (es.flatMap Expr.slot)) := by
  induction es generalizing s with
  | nil => rw [List.flatMap_nil, told_nil]; rfl
  | cons e es ih =>
    have hstep : (s.told e.slot).inOwnCode = true := by rwa [inOwnCode, frames_told]
    change (es.forM Scanner.slot).run ((Scanner.slot e).run s).2 = _
    rw [run_slot h, ih hstep, told_told, List.flatMap_cons]

theorem slots (es : List Expr) : Reports (Scanner.slots es) (es.flatMap Expr.slot) := by
  intro s _
  change (if s.inOwnCode then es.forM Scanner.slot else Pure.pure () : Scan Unit).run s = _
  by_cases hown : s.inOwnCode = true
  · rw [if_pos hown, run_forM_slot es hown]
  · rw [if_neg hown, told, if_neg hown]
    rfl

theorem slot (e : Expr) : Reports (Scanner.slots [e]) e.slot := by
  simpa using slots [e]

end Reports

/-- A member of another type is not remembered. -/
theorem Quiet.atMember (m : Member) (hx : Quiet x) : Quiet (Scanner.atMember m x) := by
  intro s hs
  have hown : s.inOwnCode = false := by simp [inOwnCode]; omega
  have hrun : (Scanner.atMember m x).run s = x.run s := by
    change (if s.inOwnCode then _ else x : Scan Unit).run s = _
    rw [hown]
    rfl
  rw [hrun, hx s hs]

end Scanner

/-! ### What trees report -/

open Scanner

theorem VarDeclarator.slots_filterMap (vs : List VarDeclarator) :
    (vs.filterMap VarDeclarator.init).flatMap Expr.slot = VarDeclarator.slots vs := by
  induction vs with
  | nil => rfl
  | cons v vs ih =>
    obtain ⟨n, dims, e, s⟩ := v
    cases e <;> simp_all [VarDeclarator.slots]

mutual

theorem Expr.scan_reports : ∀ e : Expr, Reports e.scan e.sites
  | .literal .. | .name _ | .this _ | .super _ | .classLit .. => .pure
  | .field e _ _ | .unary _ e _ | .update e _ _ | .paren e _ | .methodRef e _ _ | .cast _ e _
  | .instanceOf e _ _ _ | .lambda _ e _ => e.scan_reports
  | .call _ f as _ => f.scan_reports.bind (Expr.allScan_reports as)
  | .new _ as _ | .newArray _ as _ | .arrayInit as _ => Expr.allScan_reports as
  | .newAnonymous _ as ms _ => by
    have h := (Expr.allScan_reports as).bind (.within .anonymousClass (Member.allScan_quiet ms))
    rwa [List.append_nil] at h
  | .newArrayOf _ ds es _ _ => (Expr.allScan_reports ds).bind (Expr.allScan_reports es)
  | .index a b _ | .binary a _ b _ | .assign a _ b _ => a.scan_reports.bind b.scan_reports
  | .conditional e a b _ => by
    rw [Expr.sites, List.append_assoc]
    exact e.scan_reports.bind (a.scan_reports.bind b.scan_reports)
  | .blockLambda _ b _ => b.scan_reports

theorem Expr.allScan_reports : ∀ es : List Expr, Reports (Expr.allScan es) (Expr.allSites es)
  | [] => .pure
  | e :: es => e.scan_reports.bind (Expr.allScan_reports es)

theorem Block.scan_reports : ∀ b : Block, Reports b.scan b.sites
  | ⟨ss, _⟩ => Stmt.allScan_reports ss

theorem Stmt.scan_reports : ∀ s : Stmt, Reports s.scan s.sites
  | .block b => b.scan_reports
  | .localVar _ _ vs _ => by
    rw [Stmt.sites, ← VarDeclarator.slots_filterMap]
    exact (Reports.slots _).bind (VarDeclarator.allScan_reports vs)
  | .localType d => .within .localType d.walk_quiet
  | .breakTo .. | .continueTo .. | .empty _ | .ret none _ => .pure
  | .expr e _ | .throwing e _ | .ret (some e) _ | .assertion e none _ =>
    (Reports.slot e).bind e.scan_reports
  | .ifThen e a _ | .whileLoop e a _ | .forEach _ _ _ e a _ => by
    rw [Stmt.sites, List.append_assoc]
    exact (Reports.slot e).bind (e.scan_reports.bind a.scan_reports)
  | .ifElse e a b _ => by
    rw [Stmt.sites, List.append_assoc, List.append_assoc]
    exact (Reports.slot e).bind (e.scan_reports.bind (a.scan_reports.bind b.scan_reports))
  | .doLoop a e _ => by
    rw [Stmt.sites, List.append_assoc]
    exact (Reports.slot e).bind (a.scan_reports.bind e.scan_reports)
  | .forLoop i none us a _ => by
    simp only [Stmt.sites, List.append_assoc]
    refine (Stmt.allScan_reports i).bind ((Reports.slots us).bind ?_)
    exact (Expr.allScan_reports us).bind a.scan_reports
  | .forLoop i (some e) us a _ => by
    rw [Stmt.sites, show Stmt.allSites i ++ e.slot ++ us.flatMap Expr.slot ++ e.sites
      ++ Expr.allSites us ++ a.sites = Stmt.allSites i ++ ((e :: us).flatMap Expr.slot
      ++ (e.sites ++ (Expr.allSites us ++ a.sites))) from by simp]
    refine (Stmt.allScan_reports i).bind ((Reports.slots (e :: us)).bind ?_)
    exact e.scan_reports.bind ((Expr.allScan_reports us).bind a.scan_reports)
  | .tryCatch rs b cs none _ => by
    rw [Stmt.sites, List.append_assoc]
    exact (Stmt.allScan_reports rs).bind (b.scan_reports.bind (CatchClause.allScan_reports cs))
  | .tryCatch rs b cs (some f) _ => by
    simp only [Stmt.sites, List.append_assoc]
    refine (Stmt.allScan_reports rs).bind (b.scan_reports.bind ?_)
    exact (CatchClause.allScan_reports cs).bind f.scan_reports
  | .switch e cs _ => by
    rw [Stmt.sites, List.append_assoc]
    exact (Reports.slot e).bind (e.scan_reports.bind (SwitchCase.allScan_reports cs))
  | .synchronized e b _ => by
    rw [Stmt.sites, List.append_assoc]
    exact (Reports.slot e).bind (e.scan_reports.bind b.scan_reports)
  | .labeled _ a _ => a.scan_reports
  | .assertion e (some m) _ => by
    rw [Stmt.sites, show e.slot ++ m.slot ++ e.sites ++ m.sites
      = [e, m].flatMap Expr.slot ++ (e.sites ++ m.sites) from by simp]
    exact (Reports.slots [e, m]).bind (e.scan_reports.bind m.scan_reports)

theorem Stmt.allScan_reports : ∀ ss : List Stmt, Reports (Stmt.allScan ss) (Stmt.allSites ss)
  | [] => .pure
  | s :: ss => s.scan_reports.bind (Stmt.allScan_reports ss)

theorem VarDeclarator.allScan_reports : ∀ vs : List VarDeclarator,
    Reports (VarDeclarator.allScan vs) (VarDeclarator.sites vs)
  | [] => .pure
  | ⟨_, _, none, _⟩ :: vs => VarDeclarator.allScan_reports vs
  | ⟨_, _, some e, _⟩ :: vs => e.scan_reports.bind (VarDeclarator.allScan_reports vs)

theorem VarDeclarator.fieldScan_reports : ∀ vs : List VarDeclarator,
    Reports (VarDeclarator.fieldScan vs)
      (vs.flatMap fun v => (v.init.map fun e => e.slot ++ e.sites).getD [])
  | [] => .pure
  | ⟨_, _, none, _⟩ :: vs => VarDeclarator.fieldScan_reports vs
  | ⟨_, _, some e, _⟩ :: vs => by
    rw [List.flatMap_cons, Option.map_some, Option.getD_some, List.append_assoc]
    exact (Reports.slot e).bind (e.scan_reports.bind (VarDeclarator.fieldScan_reports vs))

theorem CatchClause.allScan_reports : ∀ cs : List CatchClause,
    Reports (CatchClause.allScan cs) (CatchClause.sites cs)
  | [] => .pure
  | ⟨_, _, _, b, _⟩ :: cs => b.scan_reports.bind (CatchClause.allScan_reports cs)

theorem SwitchCase.allScan_reports : ∀ cs : List SwitchCase,
    Reports (SwitchCase.allScan cs) (SwitchCase.sites cs)
  | [] => .pure
  | ⟨ls, ss, _⟩ :: cs => by
    rw [SwitchCase.sites, List.append_assoc]
    refine (Expr.allScan_reports ls).bind ?_
    exact (Stmt.allScan_reports ss).bind (SwitchCase.allScan_reports cs)

theorem TypeDecl.walk_quiet : ∀ d : TypeDecl, Quiet d.walk
  | ⟨⟨_, as, _⟩, _, _, _, _, _, cs, ms, _⟩ => by
    refine (Annot.allScan_reports as).quiet.bind ?_
    exact (EnumConstant.allScan_reports cs).quiet.bind (Member.allScan_quiet ms)

theorem Annot.allScan_reports : ∀ as : List Annot,
    Reports (Annot.allScan as) (as.flatMap fun a => AnnotArg.sites a.args)
  | [] => .pure
  | ⟨_, as, _⟩ :: rest => by
    rw [List.flatMap_cons]
    exact (AnnotArg.allScan_reports as).bind (Annot.allScan_reports rest)

theorem AnnotArg.allScan_reports : ∀ as : List AnnotArg,
    Reports (AnnotArg.allScan as) (AnnotArg.sites as)
  | [] => .pure
  | ⟨_, v, _⟩ :: as => v.scan_reports.bind (AnnotArg.allScan_reports as)

theorem Element.scan_reports : ∀ v : Element, Reports v.scan v.sites
  | .expr e => e.scan_reports
  | .array vs _ => Element.allScan_reports vs
  | .annot ⟨_, as, _⟩ => AnnotArg.allScan_reports as

theorem Element.allScan_reports : ∀ vs : List Element,
    Reports (Element.allScan vs) (Element.allSites vs)
  | [] => .pure
  | v :: vs => v.scan_reports.bind (Element.allScan_reports vs)

theorem EnumConstant.allScan_reports : ∀ cs : List EnumConstant,
    Reports (EnumConstant.allScan cs) (cs.flatMap fun c => Expr.allSites c.args)
  | [] => .pure
  | .plain _ _ es _ :: cs => by
    rw [List.flatMap_cons]
    exact (Expr.allScan_reports es).bind (EnumConstant.allScan_reports cs)
  | .withBody _ _ es ms _ :: cs => by
    rw [List.flatMap_cons]
    refine (Expr.allScan_reports es).bind ?_
    exact (Reports.within .constantBody (Member.allScan_quiet ms)).bind
      (EnumConstant.allScan_reports cs)

theorem Member.walk_reports : ∀ m : Member, Reports m.walk m.sites
  | .field _ _ vs _ => VarDeclarator.fieldScan_reports vs
  | .method _ _ _ _ _ _ _ none _ => .pure
  | .method _ _ _ _ _ _ _ (some b) _ | .constructor _ _ _ _ _ b _ | .initializer _ b _ =>
    b.scan_reports
  | .type d => .within .memberType d.walk_quiet

theorem Member.allScan_quiet : ∀ ms : List Member, Quiet (Member.allScan ms)
  | [] => .pure
  | m :: ms => (m.walk_reports.quiet.atMember m).bind (Member.allScan_quiet ms)

end

/-! ### The whole scan -/

/-- In the scanned type a member reports its candidates as standing in it. -/
theorem Scanner.run_atMember {s : Scanner} (h : s.inOwnCode = true) (m : Member) :
    (atMember m m.walk).run s
      = ((), s.adding (m.sites.map fun c => ⟨c, s.file, s.owner, some m⟩)) := by
  have hframes : s.frames ≠ [] := by
    rintro hnil
    simp [inOwnCode, hnil] at h
  have hinside : ({ s with member := some m } : Scanner).inOwnCode = true := h
  have hwalk := m.walk_reports { s with member := some m } hframes
  rw [told, if_pos hinside] at hwalk
  change (if s.inOwnCode then (do
      let outer := (← get).member
      modify fun s => { s with member := some m }
      m.walk
      modify fun s => { s with member := outer }) else m.walk : Scan Unit).run s = _
  rw [if_pos h]
  change ((), { (m.walk.run { s with member := some m }).2 with member := s.member }) = _
  rw [hwalk]
  rfl

/-- **The members of the scanned type** report one after the other. -/
theorem Scanner.run_members (ms : List Member) {s : Scanner} (h : s.inOwnCode = true) :
    (Member.allScan ms).run s = ((), s.adding (ms.flatMap fun m =>
      m.sites.map fun c => ⟨c, s.file, s.owner, some m⟩)) := by
  induction ms generalizing s with
  | nil => rw [List.flatMap_nil, adding, List.append_nil]; rfl
  | cons m ms ih =>
    let first := m.sites.map fun c => (⟨c, s.file, s.owner, some m⟩ : CallSite)
    have hstep : (s.adding first).inOwnCode = true := h
    change (Member.allScan ms).run ((atMember m m.walk).run s).2 = _
    rw [run_atMember h m, ih hstep, List.flatMap_cons, ← adding_adding]
    rfl

namespace TypeDecl

variable (d : TypeDecl) (file : Nat) (owner : TypeHash)

/-- Going through the scanned type reports its candidates. -/
theorem run_walk {s : Scanner} (h : s.inOwnCode = true) (hmember : s.member = none) :
    d.walk.run s = ((), s.adding (d.callSites s.file s.owner)) := by
  obtain ⟨⟨flags, as, mspan⟩, kind, name, tps, sup, is, cs, ms, span⟩ := d
  have hframes : s.frames ≠ [] := by
    rintro hnil
    simp [inOwnCode, hnil] at h
  have houtside := (Annot.allScan_reports as).bind (EnumConstant.allScan_reports cs) s hframes
  rw [told, if_pos h, hmember] at houtside
  -- Annotations and constants first: they stand in no member.
  change (Member.allScan ms).run
    ((Annot.allScan as >>= fun _ => EnumConstant.allScan cs : Scan Unit).run s).2 = _
  rw [houtside]
  refine (run_members ms (s := s.adding _) h).trans ?_
  rw [adding_adding]
  rfl

/-- **A scan reports the candidates** and leaves the scanner as it was otherwise. -/
theorem scan_eq :
    d.scan file owner = (Scanner.fresh file owner).adding (d.callSites file owner) := by
  have hwalk := d.run_walk (s := { Scanner.fresh file owner with frames := [.scannedType] }) rfl rfl
  change { (d.walk.run { Scanner.fresh file owner with frames := [.scannedType] }).2 with
    frames :=
      (d.walk.run { Scanner.fresh file owner with frames := [.scannedType] }).2.frames.tail } = _
  rw [hwalk]
  rfl

theorem found_scan : (d.scan file owner).found = d.callSites file owner := by
  rw [scan_eq]
  rfl

/-- **What a scan reports.** Of the calls in a member those are reported that fill a slot of the own
code, each of them once and at this member; the others that are reported stand in the annotations
and constants of the type. No call of code that belongs to another type is reported, however deep it
stands, and in the end the scanner is in no frame. -/
theorem scan_exact :
    (d.scan file owner).frames = [] ∧
      (d.scan file owner).found
        = (d.outsideSites.map fun c => ⟨c, file, owner, none⟩)
          ++ (d.members.flatMap fun m => m.sites.map fun c => ⟨c, file, owner, some m⟩) ∧
      d.outsideSites.Perm (Place.slots (d.outsideCalls .inside)) ∧
      (∀ m : Member, m.sites.Perm (Place.slots (m.calls .inside))) ∧
      (d.callIds.Nodup → ((d.scan file owner).found.map fun s => s.call.id).Nodup ∧
        ∀ s ∈ (d.scan file owner).found, ∀ x ∈ d.calls .inside, x.1 ≠ .slot →
          s.call.id ≠ x.2.id) := by
  refine ⟨by rw [scan_eq]; rfl, found_scan .., d.outsideSites_perm, Member.sites_perm, fun hd => ?_⟩
  rw [found_scan]
  exact ⟨nodup_callSites hd, fun s hs x hx hslot => not_candidate hd hx hslot hs⟩

/-- The call `a()`, numbered. -/
def plainCall (id : Nat) : Call := ⟨id, .name ⟨"a", .absent⟩, [], .absent⟩

/-- A class with an initializer that makes the call, and more members. -/
def calling (id : Nat) (members : List Member) : TypeDecl :=
  ⟨⟨.none, [], .absent⟩, .classType, ⟨"T", .absent⟩, [], none, [], [],
    .initializer false ⟨[.expr (.call id (plainCall id).callee [] .absent) .absent], .absent⟩
      .absent :: members, .absent⟩

/-- A call in a member class is not reported. -/
theorem scan_exact_calling :
    ∀ s ∈ ((calling 0 [.type (calling 1 [])]).scan 0 .object).found, s.call.id ≠ 1 :=
  fun s hs => ((scan_exact (calling 0 [.type (calling 1 [])]) 0 .object).2.2.2.2 (by decide)).2
    s hs (.foreign, plainCall 1) (List.mem_cons_of_mem _ (List.mem_singleton_self _)) nofun

end TypeDecl

end JavaGraft
