import JavaGraft.Extension.CallSite
import JavaGraft.Proofs.Tree.Calls
import Mathlib.Data.List.Nodup
import Mathlib.Tactic.Tauto

/-!
# The candidates are the calls in slots

The candidates of code are found by a walk of its own (`JavaGraft.Stmt.sites`), which lists the
slots of a statement before what is inside the statement. The listing of all calls goes from left to
right and marks those that fill slots. The two walks meet the same calls, each as often as the
other.

Most statements start with their only slot, so that the walks also meet the calls in the same order.
They need not where code stands in front of a slot: the body of a `do` in front of its condition,
and any of several expressions of one statement in front of those behind it. If there is a candidate
in such code, the call that fills the slot is listed ahead of it. Code in which this happens nowhere
is *straight* (`JavaGraft.TypeDecl.Straight`).

So the candidates are a permutation of the calls in slots, which is none exactly in straight code,
and in which a call never comes behind what is inside it (`JavaGraft.Reorders`).
-/

namespace JavaGraft

/-! ### Straight code -/

/-- Expressions whose slots are reported together: behind one with candidates inside, no slot is
filled by a call. -/
def Expr.Apart (es : List Expr) : Prop := es.Pairwise fun e e' => e.sites = [] ∨ e'.slot = []

mutual

/-- No slot is reported ahead of a candidate that stands before it, inside an expression. -/
def Expr.Straight : Expr → Prop
  | .literal .. | .name _ | .this _ | .super _ | .classLit .. => True
  | .field e _ _ | .unary _ e _ | .update e _ _ | .paren e _ | .methodRef e _ _ | .cast _ e _
  | .instanceOf e _ _ _ | .lambda _ e _ => e.Straight
  | .call _ f as _ => f.Straight ∧ Expr.AllStraight as
  | .new _ as _ | .newAnonymous _ as _ _ => Expr.AllStraight as
  | .newArray _ ds _ => Expr.AllStraight ds
  | .newArrayOf _ ds es _ _ => Expr.AllStraight ds ∧ Expr.AllStraight es
  | .arrayInit es _ => Expr.AllStraight es
  | .index a b _ | .binary a _ b _ | .assign a _ b _ => a.Straight ∧ b.Straight
  | .conditional e a b _ => e.Straight ∧ a.Straight ∧ b.Straight
  | .blockLambda _ b _ => b.Straight

/-- The same for expressions. -/
def Expr.AllStraight : List Expr → Prop
  | [] => True
  | e :: es => e.Straight ∧ Expr.AllStraight es

/-- The same for a block. -/
def Block.Straight : Block → Prop
  | ⟨ss, _⟩ => Stmt.AllStraight ss

/-- The same for a statement, with its own slots. -/
def Stmt.Straight : Stmt → Prop
  | .block b => b.Straight
  | .localVar _ _ vs _ =>
    Expr.Apart (vs.filterMap VarDeclarator.init) ∧ VarDeclarator.AllStraight vs
  | .localType _ | .breakTo .. | .continueTo .. | .empty _ => True
  | .expr e _ | .throwing e _ => e.Straight
  | .ifThen e a _ | .whileLoop e a _ => e.Straight ∧ a.Straight
  | .ifElse e a b _ => e.Straight ∧ a.Straight ∧ b.Straight
  | .doLoop a e _ => (a.sites = [] ∨ e.slot = []) ∧ a.Straight ∧ e.Straight
  | .forLoop i none us a _ =>
    Stmt.AllStraight i ∧ (Expr.Apart us ∧ Expr.AllStraight us) ∧ a.Straight
  | .forLoop i (some e) us a _ =>
    Stmt.AllStraight i ∧ (Expr.Apart (e :: us) ∧ e.Straight ∧ Expr.AllStraight us) ∧ a.Straight
  | .forEach _ _ _ e a _ => e.Straight ∧ a.Straight
  | .ret none _ => True
  | .ret (some e) _ => e.Straight
  | .tryCatch rs b cs none _ =>
    Stmt.AllStraight rs ∧ b.Straight ∧ CatchClause.AllStraight cs
  | .tryCatch rs b cs (some f) _ =>
    Stmt.AllStraight rs ∧ b.Straight ∧ CatchClause.AllStraight cs ∧ f.Straight
  | .switch e cs _ => e.Straight ∧ SwitchCase.AllStraight cs
  | .synchronized e b _ => e.Straight ∧ b.Straight
  | .labeled _ a _ => a.Straight
  | .assertion e none _ => e.Straight
  | .assertion e (some m) _ => Expr.Apart [e, m] ∧ e.Straight ∧ m.Straight

/-- The same for statements. -/
def Stmt.AllStraight : List Stmt → Prop
  | [] => True
  | s :: ss => s.Straight ∧ Stmt.AllStraight ss

/-- The same for the initial values of variables. -/
def VarDeclarator.AllStraight : List VarDeclarator → Prop
  | [] => True
  | ⟨_, _, none, _⟩ :: vs => VarDeclarator.AllStraight vs
  | ⟨_, _, some e, _⟩ :: vs => e.Straight ∧ VarDeclarator.AllStraight vs

/-- The same for handlers. -/
def CatchClause.AllStraight : List CatchClause → Prop
  | [] => True
  | ⟨_, _, _, b, _⟩ :: cs => b.Straight ∧ CatchClause.AllStraight cs

/-- The same for the groups of a `switch`. -/
def SwitchCase.AllStraight : List SwitchCase → Prop
  | [] => True
  | ⟨ls, ss, _⟩ :: cs => Expr.AllStraight ls ∧ Stmt.AllStraight ss ∧ SwitchCase.AllStraight cs

end

mutual

/-- The same for the value of an element. -/
def Element.Straight : Element → Prop
  | .expr e => e.Straight
  | .array es _ => Element.AllStraight es
  | .annot ⟨_, as, _⟩ => AnnotArg.AllStraight as

/-- The same for several values. -/
def Element.AllStraight : List Element → Prop
  | [] => True
  | e :: es => e.Straight ∧ Element.AllStraight es

/-- The same for the arguments of an annotation. -/
def AnnotArg.AllStraight : List AnnotArg → Prop
  | [] => True
  | ⟨_, v, _⟩ :: as => v.Straight ∧ AnnotArg.AllStraight as

end

/-- The same for a member; a member type is not asked. The variables of a field are slots one
after the other. -/
def Member.Straight : Member → Prop
  | .field _ _ vs _ => VarDeclarator.AllStraight vs
  | .method _ _ _ _ _ _ _ body _ => ∀ b ∈ body, b.Straight
  | .constructor _ _ _ _ _ body _ => body.Straight
  | .initializer _ body _ => body.Straight
  | .type _ => True

/-- **Straight code of a type**: nowhere in it a slot is reported ahead of a candidate that stands
before it. -/
def TypeDecl.Straight (d : TypeDecl) : Prop :=
  ((∀ a ∈ d.modifiers.annots, AnnotArg.AllStraight a.args) ∧
    ∀ c ∈ d.constants, Expr.AllStraight c.args) ∧ ∀ m ∈ d.members, m.Straight

/-! ### Two orders of the same calls -/

/-- The candidates inside a call. -/
def Call.sites (c : Call) : List Call := c.callee.sites ++ Expr.allSites c.args

/-- The candidates inside an expression are those inside the call that fills its slot. -/
theorem Expr.sites_of_mem_slot {c : Call} :
    ∀ {e : Expr}, c ∈ e.slot → e.slot = [c] ∧ e.sites = c.sites
  | .paren e _, hc => sites_of_mem_slot (e := e) hc
  | .call .., hc => by
    obtain rfl := List.mem_singleton.mp hc
    exact ⟨rfl, rfl⟩
  | .literal .., hc | .name _, hc | .this _, hc | .super _, hc | .classLit .., hc | .field .., hc
  | .unary .., hc | .update .., hc | .methodRef .., hc | .cast .., hc | .instanceOf .., hc
  | .lambda .., hc | .new .., hc | .newAnonymous .., hc | .newArray .., hc | .newArrayOf .., hc
  | .arrayInit .., hc | .index .., hc | .binary .., hc | .assign .., hc | .conditional .., hc
  | .blockLambda .., hc => (List.not_mem_nil hc).elim

/-- The calls in slots, as they are met and from left to right. It is the same order exactly if
something is the case, unless some call is there twice; but a call is always met ahead of the
candidates inside it. -/
structure Reorders (met ordered : List Call) (P : Prop) : Prop where
  perm : met.Perm ordered
  nested : ∀ c ∈ met, (c :: c.sites).Sublist met
  iff : ordered.Nodup → (met = ordered ↔ P)

namespace Reorders

variable {xs ys xs' ys' zs : List Call} {P Q : Prop}

theorem nil : Reorders [] [] True := ⟨.refl _, nofun, fun _ => by simp⟩

theorem congr (h : Reorders xs ys P) (hPQ : P ↔ Q) : Reorders xs ys Q :=
  ⟨h.perm, h.nested, fun hys => (h.iff hys).trans hPQ⟩

/-- One part behind the other in both orders. -/
theorem append (h : Reorders xs ys P) (h' : Reorders xs' ys' Q) :
    Reorders (xs ++ xs') (ys ++ ys') (P ∧ Q) where
  perm := h.perm.append h'.perm
  nested := by
    intro c hc
    rcases List.mem_append.mp hc with hc | hc
    · exact (h.nested c hc).trans (List.sublist_append_left _ _)
    · exact (h'.nested c hc).trans (List.sublist_append_right _ _)
  iff := by
    intro hnodup
    have hparts := List.nodup_append.mp hnodup
    rw [← h.iff hparts.1, ← h'.iff hparts.2.1]
    exact ⟨fun heq => List.append_inj heq h.perm.length_eq, fun heq => by rw [heq.1, heq.2]⟩

/-- What fills a slot comes first in both orders. -/
theorem slot {e : Expr} (h : Reorders xs ys P) (hxs : e.sites.Sublist xs) :
    Reorders (e.slot ++ xs) (e.slot ++ ys) P where
  perm := h.perm.append_left _
  nested := by
    intro c hc
    rcases List.mem_append.mp hc with hc | hc
    · obtain ⟨heq, hsites⟩ := Expr.sites_of_mem_slot hc
      rw [heq, ← hsites]
      exact hxs.cons_cons c
    · exact (h.nested c hc).trans (List.sublist_append_right _ _)
  iff := by
    intro hnodup
    rw [List.append_cancel_left_eq]
    exact h.iff (List.nodup_append.mp hnodup).2.1

/-- **A part before which something is drawn that stands behind it.** The orders can agree only if
there is nothing to be drawn, or nothing before which it could be. -/
theorem drawn (h : Reorders xs ys P) (h' : Reorders (zs ++ xs') ys' Q) :
    Reorders (zs ++ (xs ++ xs')) (ys ++ ys') ((xs = [] ∨ zs = []) ∧ P ∧ Q) := by
  have hperm : (zs ++ (xs ++ xs')).Perm (xs ++ (zs ++ xs')) := by
    rw [← List.append_assoc, ← List.append_assoc]
    exact List.perm_append_comm.append_right xs'
  have htarget : (zs ++ (xs ++ xs')).Perm (ys ++ ys') := hperm.trans (h.perm.append h'.perm)
  have hinto : (zs ++ xs').Sublist (zs ++ (xs ++ xs')) :=
    (List.Sublist.refl zs).append (List.sublist_append_right xs xs')
  refine ⟨htarget, fun c hc => ?_, fun hnodup => ?_⟩
  · rcases List.mem_append.mp (hperm.mem_iff.mp hc) with hc | hc
    · exact (h.nested c hc).trans
        ((List.sublist_append_left _ _).trans (List.sublist_append_right _ _))
    · exact (h'.nested c hc).trans hinto
  have hagree : xs ++ (zs ++ xs') = ys ++ ys' ↔ P ∧ Q := (h.append h').iff hnodup
  refine ⟨fun heq => ?_, fun ⟨hempty, hPQ⟩ => ?_⟩
  · -- the two lists would start with a call of each, but no call is in both
    have hempty : xs = [] ∨ zs = [] := by
      cases hxs : xs with
      | nil => exact .inl rfl
      | cons x xs₁ =>
        cases hzs : zs with
        | nil => exact .inr rfl
        | cons z zs₁ =>
          obtain ⟨y, ys₁, hys⟩ : ∃ y ys₁, ys = y :: ys₁ :=
            List.exists_cons_of_ne_nil fun hys => by
              have hlength := h.perm.length_eq
              rw [hxs, hys] at hlength
              cases hlength
          rw [hzs, hys] at heq
          have hz : z ∈ xs := h.perm.mem_iff.mpr (by
            rw [hys, List.head_eq_of_cons_eq heq]
            exact List.mem_cons_self)
          have hdisjoint := List.disjoint_of_nodup_append (htarget.nodup_iff.mpr hnodup)
          exact (hdisjoint (by rw [hzs]; exact List.mem_cons_self)
            (List.mem_append_left _ hz)).elim
    refine ⟨hempty, hagree.mp ?_⟩
    rcases hempty with rfl | rfl <;> simpa using heq
  · have heq := hagree.mpr hPQ
    rcases hempty with rfl | rfl <;> simpa using heq

/-- Parts one behind the other. -/
theorem flatMap {α : Type} {f g : α → List Call} {P : α → Prop} :
    ∀ as : List α, (∀ a ∈ as, Reorders (f a) (g a) (P a)) →
      Reorders (as.flatMap f) (as.flatMap g) (∀ a ∈ as, P a)
  | [], _ => nil.congr (by simp)
  | a :: as, h =>
    ((h a List.mem_cons_self).append
      (flatMap as fun a ha => h a (List.mem_cons_of_mem _ ha))).congr (by simp)

end Reorders

/-! ### Candidates and calls in slots -/

/-- In a slot, the call that fills it comes on top of those inside. -/
theorem Expr.slots_slot :
    ∀ e : Expr, Place.slots (e.calls .slot) = e.slot ++ Place.slots (e.calls .inside)
  | .paren e _ => by
    rw [Expr.calls, Expr.calls, e.slots_slot]
    rfl
  | .call .. => rfl
  | .literal .. | .name _ | .this _ | .super _ | .classLit .. | .field .. | .unary .. | .update ..
  | .methodRef .. | .cast .. | .instanceOf .. | .lambda .. | .new .. | .newAnonymous ..
  | .newArray .. | .newArrayOf .. | .arrayInit .. | .index .. | .binary .. | .assign ..
  | .conditional .. | .blockLambda .. => rfl

/-- An expression in a slot. -/
theorem Expr.reorders_slot {e : Expr} {P : Prop}
    (h : Reorders e.sites (Place.slots (e.calls .inside)) P) :
    Reorders (e.slot ++ e.sites) (Place.slots (e.calls .slot)) P := by
  rw [e.slots_slot]
  exact h.slot (.refl _)

/-- The first of several expressions whose slots are reported together. -/
theorem Expr.reorders_cons {e : Expr} {es : List Expr} {inside ys : List Call} {P Q : Prop}
    (h : Reorders e.sites (Place.slots (e.calls .inside)) P)
    (h' : Reorders (es.flatMap Expr.slot ++ inside) ys (Expr.Apart es ∧ Q)) :
    Reorders (e.slot ++ (es.flatMap Expr.slot ++ (e.sites ++ inside)))
      (Place.slots (e.calls .slot) ++ ys) (Expr.Apart (e :: es) ∧ P ∧ Q) := by
  have hinto : e.sites.Sublist (es.flatMap Expr.slot ++ (e.sites ++ inside)) :=
    (List.sublist_append_left _ _).trans (List.sublist_append_right _ _)
  rw [e.slots_slot, List.append_assoc]
  refine ((h.drawn h').slot hinto).congr ?_
  have hslots : (e.sites = [] ∨ es.flatMap Expr.slot = []) ↔
      ∀ e' ∈ es, e.sites = [] ∨ e'.slot = [] := by
    rw [List.flatMap_eq_nil_iff]
    by_cases he : e.sites = [] <;> simp [he]
  have hapart : Expr.Apart (e :: es) ↔
      (∀ e' ∈ es, e.sites = [] ∨ e'.slot = []) ∧ Expr.Apart es := List.pairwise_cons
  rw [hapart, hslots]
  tauto

theorem VarDeclarator.slots_eq (vs : List VarDeclarator) :
    VarDeclarator.slots vs = (vs.filterMap VarDeclarator.init).flatMap Expr.slot := by
  induction vs with
  | nil => rfl
  | cons v vs ih =>
    rw [VarDeclarator.slots] at ih ⊢
    cases hinit : v.init <;> simp [hinit, ih]

mutual

theorem Expr.reorders :
    ∀ e : Expr, Reorders e.sites (Place.slots (e.calls .inside)) e.Straight
  | .literal .. | .name _ | .this _ | .super _ | .classLit .. => .nil
  | .field e _ _ | .unary _ e _ | .update e _ _ | .paren e _ | .methodRef e _ _ | .cast _ e _
  | .instanceOf e _ _ _ | .lambda _ e _ => e.reorders
  | .call _ f as _ => by
    simpa [Expr.sites, Expr.calls, Expr.Straight] using f.reorders.append (Expr.allReorders as)
  | .new _ as _ | .newArray _ as _ | .arrayInit as _ => Expr.allReorders as
  | .newAnonymous _ as ms _ => by
    simpa [Expr.sites, Expr.calls, Expr.Straight] using Expr.allReorders as
  | .newArrayOf _ ds es _ _ => by
    simpa [Expr.sites, Expr.calls, Expr.Straight] using
      (Expr.allReorders ds).append (Expr.allReorders es)
  | .index a b _ | .binary a _ b _ | .assign a _ b _ => by
    simpa [Expr.sites, Expr.calls, Expr.Straight] using a.reorders.append b.reorders
  | .conditional e a b _ => by
    simpa [Expr.sites, Expr.calls, Expr.Straight] using
      e.reorders.append (a.reorders.append b.reorders)
  | .blockLambda _ b _ => b.reorders

theorem Expr.allReorders : ∀ es : List Expr,
    Reorders (Expr.allSites es) (Place.slots (Expr.allCalls .inside es)) (Expr.AllStraight es)
  | [] => .nil
  | e :: es => by
    simpa [Expr.allSites, Expr.allCalls, Expr.AllStraight] using
      e.reorders.append (Expr.allReorders es)

/-- Expressions whose slots are reported together. -/
theorem Expr.allReorders_slots : ∀ es : List Expr,
    Reorders (es.flatMap Expr.slot ++ Expr.allSites es) (Place.slots (Expr.allCalls .slot es))
      (Expr.Apart es ∧ Expr.AllStraight es)
  | [] => (Reorders.nil).congr (by simp [Expr.Apart, Expr.AllStraight])
  | e :: es => by
    simpa [Expr.allSites, Expr.allCalls, Expr.AllStraight] using
      Expr.reorders_cons e.reorders (Expr.allReorders_slots es)

theorem Block.reorders :
    ∀ b : Block, Reorders b.sites (Place.slots (b.calls .inside)) b.Straight
  | ⟨ss, _⟩ => Stmt.allReorders ss

theorem Stmt.reorders :
    ∀ s : Stmt, Reorders s.sites (Place.slots (s.calls .inside)) s.Straight
  | .block b => b.reorders
  | .localVar m _ vs _ => by
    simpa [Stmt.sites, Stmt.calls, Stmt.Straight] using VarDeclarator.reorders_slots vs
  | .localType d => by
    simpa [Stmt.sites, Stmt.calls, Stmt.Straight] using Reorders.nil
  | .breakTo .. | .continueTo .. | .empty _ | .ret none _ => .nil
  | .expr e _ | .throwing e _ | .ret (some e) _ => Expr.reorders_slot e.reorders
  | .ifThen e a _ | .whileLoop e a _ => by
    simpa [Stmt.sites, Stmt.calls, Stmt.Straight] using
      (Expr.reorders_slot e.reorders).append a.reorders
  | .ifElse e a b _ => by
    simpa [Stmt.sites, Stmt.calls, Stmt.Straight] using
      (Expr.reorders_slot e.reorders).append (a.reorders.append b.reorders)
  | .doLoop a e _ => by
    simpa [Stmt.sites, Stmt.calls, Stmt.Straight] using
      a.reorders.drawn (Expr.reorders_slot e.reorders)
  | .forLoop i none us a _ => by
    simpa [Stmt.sites, Stmt.calls, Stmt.Straight, Expr.optionCalls] using
      (Stmt.allReorders i).append ((Expr.allReorders_slots us).append a.reorders)
  | .forLoop i (some e) us a _ => by
    simpa [Stmt.sites, Stmt.calls, Stmt.Straight, Expr.optionCalls] using
      (Stmt.allReorders i).append
        ((Expr.reorders_cons e.reorders (Expr.allReorders_slots us)).append a.reorders)
  | .forEach m _ _ e a _ => by
    simpa [Stmt.sites, Stmt.calls, Stmt.Straight] using
      (Expr.reorders_slot e.reorders).append a.reorders
  | .tryCatch rs b cs none _ => by
    simpa [Stmt.sites, Stmt.calls, Stmt.Straight, Block.optionCalls] using
      (Stmt.allReorders rs).append (b.reorders.append (CatchClause.allReorders cs))
  | .tryCatch rs b cs (some f) _ => by
    simpa [Stmt.sites, Stmt.calls, Stmt.Straight, Block.optionCalls] using
      (Stmt.allReorders rs).append
        (b.reorders.append ((CatchClause.allReorders cs).append f.reorders))
  | .switch e cs _ => by
    simpa [Stmt.sites, Stmt.calls, Stmt.Straight] using
      (Expr.reorders_slot e.reorders).append (SwitchCase.allReorders cs)
  | .synchronized e b _ => by
    simpa [Stmt.sites, Stmt.calls, Stmt.Straight] using
      (Expr.reorders_slot e.reorders).append b.reorders
  | .labeled _ a _ => a.reorders
  | .assertion e none _ => by
    simpa [Stmt.sites, Stmt.calls, Stmt.Straight, Expr.optionCalls] using
      Expr.reorders_slot e.reorders
  | .assertion e (some m) _ => by
    have hm : Reorders ([m].flatMap Expr.slot ++ m.sites) (Place.slots (m.calls .slot))
        (Expr.Apart [m] ∧ m.Straight) := by
      simpa [Expr.Apart] using Expr.reorders_slot m.reorders
    simpa [Stmt.sites, Stmt.calls, Stmt.Straight, Expr.optionCalls] using
      Expr.reorders_cons e.reorders hm

theorem Stmt.allReorders : ∀ ss : List Stmt,
    Reorders (Stmt.allSites ss) (Place.slots (Stmt.allCalls .inside ss)) (Stmt.AllStraight ss)
  | [] => .nil
  | s :: ss => by
    simpa [Stmt.allSites, Stmt.allCalls, Stmt.AllStraight] using
      s.reorders.append (Stmt.allReorders ss)

/-- The initial values of local variables, whose slots are reported together. -/
theorem VarDeclarator.reorders_slots : ∀ vs : List VarDeclarator,
    Reorders (VarDeclarator.slots vs ++ VarDeclarator.sites vs)
      (Place.slots (VarDeclarator.allCalls .slot vs))
      (Expr.Apart (vs.filterMap VarDeclarator.init) ∧ VarDeclarator.AllStraight vs)
  | [] => (Reorders.nil).congr (by simp [Expr.Apart, VarDeclarator.AllStraight])
  | ⟨_, _, none, _⟩ :: vs => by
    simpa [VarDeclarator.slots, VarDeclarator.sites, VarDeclarator.allCalls, Expr.optionCalls,
      VarDeclarator.AllStraight] using VarDeclarator.reorders_slots vs
  | ⟨_, _, some e, _⟩ :: vs => by
    have hvs := VarDeclarator.reorders_slots vs
    rw [VarDeclarator.slots_eq] at hvs ⊢
    simpa [VarDeclarator.sites, VarDeclarator.allCalls, Expr.optionCalls,
      VarDeclarator.AllStraight] using Expr.reorders_cons e.reorders hvs

theorem CatchClause.allReorders : ∀ cs : List CatchClause,
    Reorders (CatchClause.sites cs) (Place.slots (CatchClause.allCalls .inside cs))
      (CatchClause.AllStraight cs)
  | [] => .nil
  | ⟨m, _, _, b, _⟩ :: cs => by
    simpa [CatchClause.sites, CatchClause.allCalls, CatchClause.AllStraight] using
      b.reorders.append (CatchClause.allReorders cs)

theorem SwitchCase.allReorders : ∀ cs : List SwitchCase,
    Reorders (SwitchCase.sites cs) (Place.slots (SwitchCase.allCalls .inside cs))
      (SwitchCase.AllStraight cs)
  | [] => .nil
  | ⟨ls, ss, _⟩ :: cs => by
    simpa [SwitchCase.sites, SwitchCase.allCalls, SwitchCase.AllStraight] using
      (Expr.allReorders ls).append ((Stmt.allReorders ss).append (SwitchCase.allReorders cs))

end

mutual

theorem Element.reorders :
    ∀ v : Element, Reorders v.sites (Place.slots (v.calls .inside)) v.Straight
  | .expr e => e.reorders
  | .array vs _ => Element.allReorders vs
  | .annot ⟨_, as, _⟩ => AnnotArg.allReorders as

theorem Element.allReorders : ∀ vs : List Element,
    Reorders (Element.allSites vs) (Place.slots (Element.allCalls .inside vs))
      (Element.AllStraight vs)
  | [] => .nil
  | v :: vs => by
    simpa [Element.allSites, Element.allCalls, Element.AllStraight] using
      v.reorders.append (Element.allReorders vs)

theorem AnnotArg.allReorders : ∀ as : List AnnotArg,
    Reorders (AnnotArg.sites as) (Place.slots (AnnotArg.allCalls .inside as))
      (AnnotArg.AllStraight as)
  | [] => .nil
  | ⟨_, v, _⟩ :: as => by
    simpa [AnnotArg.sites, AnnotArg.allCalls, AnnotArg.AllStraight] using
      v.reorders.append (AnnotArg.allReorders as)

end

/-- The initial values of fields, which are slots one after the other. -/
theorem VarDeclarator.reorders_fields : ∀ vs : List VarDeclarator,
    Reorders (vs.flatMap fun v => (v.init.map fun e => e.slot ++ e.sites).getD [])
      (Place.slots (VarDeclarator.allCalls .slot vs)) (VarDeclarator.AllStraight vs)
  | [] => .nil
  | ⟨_, _, none, _⟩ :: vs => VarDeclarator.reorders_fields vs
  | ⟨_, _, some e, _⟩ :: vs => by
    simpa [VarDeclarator.allCalls, Expr.optionCalls, VarDeclarator.AllStraight] using
      (Expr.reorders_slot e.reorders).append (VarDeclarator.reorders_fields vs)

theorem Member.reorders (m : Member) :
    Reorders m.sites (Place.slots (m.calls .inside)) m.Straight := by
  cases m with
  | field m t vs s =>
    simpa [Member.sites, Member.calls, Member.Straight] using VarDeclarator.reorders_fields vs
  | method m tps t n ps ts d b s =>
    cases b with
    | none =>
      simpa [Member.sites, Member.calls, Member.Straight, Block.optionCalls] using Reorders.nil
    | some b =>
      simpa [Member.sites, Member.calls, Member.Straight, Block.optionCalls] using b.reorders
  | constructor m tps n ps ts b s =>
    simpa [Member.sites, Member.calls, Member.Straight] using b.reorders
  | initializer x b s => exact b.reorders
  | type d => simpa [Member.sites, Member.calls, Member.Straight] using Reorders.nil

end JavaGraft
