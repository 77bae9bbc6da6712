import JavaGraft.Ast.Outline
import JavaGraft.Proofs.Tree.Inside
import Mathlib.Data.List.Nodup

/-!
# Every node once

A walk through a tree is complete if it meets everything there is, and this needs a description of
what there is that does not come from the walk. Here it is given one node at a time: a node has the
nodes that a walk goes on to (`JavaGraft.Node.children`), and those that no walk ever goes into
(`JavaGraft.Node.passed`): the annotations of members, parameters, variables and constants, and the
default values of annotation elements. A place in a tree is then a *path*, which tells at each step
which node of those below comes next.

A tree may hold the same node in two places, so a list of the nodes that are met does not show
whether one of them was met twice. Paths do. That a walk meets every statement and every expression
exactly once is therefore said by a list of different paths, one for each of those
(`JavaGraft.Node.Lists`), and the nodes that they lead to are met in the order of that list
(`JavaGraft.SourceUnit.met`).
-/

namespace JavaGraft

/-! ### Nodes -/

/-- What statements and expressions stand in or below, and these themselves. -/
inductive Node where
  | typeDecl (decl : TypeDecl)
  | annot (annot : Annot)
  | element (value : Element)
  | constant (constant : EnumConstant)
  | member (member : Member)
  | block (block : Block)
  | stmt (stmt : Stmt)
  | expr (expr : Expr)

namespace Node

/-- Statements and expressions. -/
def isCode : Node → Bool
  | stmt _ | expr _ => true
  | _ => false

/-- The initial values of variables. -/
def ofVars (vs : List VarDeclarator) : List Node := vs.flatMap fun v => v.init.toList.map expr

/-- The nodes directly below a node that a walk goes on to. -/
def children : Node → List Node
  | typeDecl d =>
    d.modifiers.annots.map annot ++ (d.constants.map constant ++ d.members.map member)
  | annot a => a.args.map fun arg => element arg.value
  | element (.expr e) => [expr e]
  | element (.array vs _) => vs.map element
  | element (.annot a) => [annot a]
  | constant (.plain _ _ es _) => es.map expr
  | constant (.withBody _ _ es ms _) => es.map expr ++ ms.map member
  | member (.field _ _ vs _) => ofVars vs
  | member (.method _ _ _ _ _ _ _ b _) => b.toList.map block
  | member (.constructor _ _ _ _ _ b _) | member (.initializer _ b _) => [block b]
  | member (.type d) => [typeDecl d]
  | block b => b.stmts.map stmt
  | stmt (.block b) => [block b]
  | stmt (.localVar _ _ vs _) => ofVars vs
  | stmt (.localType d) => [typeDecl d]
  | stmt (.expr e _) | stmt (.throwing e _) => [expr e]
  | stmt (.ifThen e a _) | stmt (.whileLoop e a _) => [expr e, stmt a]
  | stmt (.ifElse e a b _) => [expr e, stmt a, stmt b]
  | stmt (.doLoop a e _) => [stmt a, expr e]
  | stmt (.forLoop i e us a _) =>
    i.map stmt ++ (e.toList.map expr ++ (us.map expr ++ [stmt a]))
  | stmt (.forEach _ _ _ e a _) => [expr e, stmt a]
  | stmt (.ret e _) => e.toList.map expr
  | stmt (.breakTo ..) | stmt (.continueTo ..) | stmt (.empty _) => []
  | stmt (.tryCatch rs b cs f _) =>
    rs.map stmt ++ block b :: (cs.map (fun c => block c.body) ++ f.toList.map block)
  | stmt (.switch e cs _) =>
    expr e :: cs.flatMap fun c => c.labels.map expr ++ c.body.map stmt
  | stmt (.synchronized e b _) => [expr e, block b]
  | stmt (.labeled _ a _) => [stmt a]
  | stmt (.assertion e m _) => expr e :: m.toList.map expr
  | expr (.literal ..) | expr (.name _) | expr (.this _) | expr (.super _)
  | expr (.classLit ..) => []
  | expr (.field e _ _) | expr (.unary _ e _) | expr (.update e _ _) | expr (.paren e _)
  | expr (.methodRef e _ _) | expr (.instanceOf e _ _ _) | expr (.cast _ e _)
  | expr (.lambda _ e _) => [expr e]
  | expr (.blockLambda _ b _) => [block b]
  | expr (.call _ f as _) => expr f :: as.map expr
  | expr (.new _ as _) | expr (.newArray _ as _) | expr (.arrayInit as _) => as.map expr
  | expr (.newAnonymous _ as ms _) => as.map expr ++ ms.map member
  | expr (.newArrayOf _ ds es _ _) => ds.map expr ++ es.map expr
  | expr (.index a b _) | expr (.binary a _ b _) | expr (.assign a _ b _) => [expr a, expr b]
  | expr (.conditional c a b _) => [expr c, expr a, expr b]

/-- The annotations that modifiers contain. -/
def ofModifiers (m : Modifiers) : List Node := m.annots.map annot

/-- The nodes directly below a node that no walk goes into: its annotations, unless it is a type,
and default values. -/
def passed : Node → List Node
  | constant (.plain as _ _ _) | constant (.withBody as _ _ _ _) => as.map annot
  | member (.field m _ _ _) => ofModifiers m
  | member (.method m _ _ _ ps _ v _ _) =>
    ofModifiers m ++ (ps.flatMap (fun p => ofModifiers p.modifiers) ++ v.toList.map element)
  | member (.constructor m _ _ ps _ _ _) =>
    ofModifiers m ++ ps.flatMap fun p => ofModifiers p.modifiers
  | stmt (.localVar m _ _ _) | stmt (.forEach m _ _ _ _ _) => ofModifiers m
  | stmt (.tryCatch _ _ cs _ _) => cs.flatMap fun c => ofModifiers c.modifiers
  | _ => []

/-- All nodes directly below a node. -/
def parts (n : Node) : List Node := n.children ++ n.passed

variable {below : Node → List Node} {ns ns' found found' : List Node} {n : Node}

/-- The node that a path leads to, which starts with one of the given nodes and goes from each node
to one of those below it. -/
def reached (below : Node → List Node) (ns : List Node) : List Nat → Option Node
  | [] => none
  | [i] => ns[i]?
  | i :: j :: path => ns[i]?.bind fun n => reached below (below n) (j :: path)

/-! ### Lists of all nodes -/

/-- **Statements and expressions are listed without omission or repetition**: there is one path to
each of those listed, and there are no other paths to any. -/
def Lists (below : Node → List Node) (ns found : List Node) : Prop :=
  ∃ paths : List (List Nat), paths.Nodup ∧
    (∀ path, path ∈ paths ↔ ∃ n, reached below ns path = some n ∧ n.isCode) ∧
    paths.map (reached below ns) = found.map some

/-- A path that is led past some nodes in front. -/
def shifted (k : Nat) : List Nat → List Nat
  | [] => []
  | i :: path => (k + i) :: path

theorem shifted_injective (k : Nat) : Function.Injective (shifted k) := by
  intro p q h
  match p, q with
  | [], [] => rfl
  | i :: p, j :: q => simpa [shifted] using h

theorem reached_shifted (path : List Nat) :
    reached below (ns ++ ns') (shifted ns.length path) = reached below ns' path := by
  rcases path with _ | ⟨i, _ | ⟨j, path⟩⟩ <;>
    simp [shifted, reached, List.getElem?_append_right]

theorem reached_shifted_self (path : List Nat) :
    reached below ns (shifted ns.length path) = none := by
  rcases path with _ | ⟨i, _ | ⟨j, path⟩⟩ <;> simp [shifted, reached]

/-- The paths to nodes and to what is below them, and to further nodes behind these. -/
theorem reached_append {path : List Nat} {x : Node} :
    reached below (ns ++ ns') path = some x ↔ reached below ns path = some x ∨
      ∃ p, path = shifted ns.length p ∧ reached below ns' p = some x := by
  by_cases hpath : ∃ p, path = shifted ns.length p
  · obtain ⟨p, rfl⟩ := hpath
    simp [reached_shifted, reached_shifted_self, (shifted_injective _).eq_iff]
  · have hfirst : reached below (ns ++ ns') path = reached below ns path := by
      cases path with
      | nil => rfl
      | cons i path =>
        have hi : i < ns.length := by
          by_contra hi
          obtain ⟨k, rfl⟩ := Nat.exists_eq_add_of_le (Nat.le_of_not_lt hi)
          exact hpath ⟨k :: path, rfl⟩
        cases path <;> simp [reached, List.getElem?_append_left hi]
    rw [hfirst]
    exact (or_iff_left fun ⟨p, hp, _⟩ => hpath ⟨p, hp⟩).symm

/-- The paths to a single node and to what is below it. -/
theorem reached_singleton {path : List Nat} {x : Node} : reached below [n] path = some x ↔
    (path = [0] ∧ n = x) ∨ ∃ p, path = 0 :: p ∧ reached below (below n) p = some x := by
  rcases path with _ | ⟨_ | i, _ | ⟨j, path⟩⟩ <;> simp [reached]

namespace Lists

theorem nil : Lists below [] [] := by
  refine ⟨[], .nil, fun path => ⟨nofun, ?_⟩, rfl⟩
  rintro ⟨n, hn, -⟩
  rcases path with _ | ⟨i, _ | ⟨j, path⟩⟩ <;> cases hn

theorem append (h : Lists below ns found) (h' : Lists below ns' found') :
    Lists below (ns ++ ns') (found ++ found') := by
  obtain ⟨paths, hnodup, hpaths, hfound⟩ := h
  obtain ⟨paths', hnodup', hpaths', hfound'⟩ := h'
  refine ⟨paths ++ paths'.map (shifted ns.length), ?_, fun path => ?_, ?_⟩
  · -- no path to a node of the first ones leads past them
    refine hnodup.append (hnodup'.map (shifted_injective _)) fun path hpath hpath' => ?_
    obtain ⟨x, hx, -⟩ := (hpaths path).mp hpath
    obtain ⟨p, -, rfl⟩ := List.mem_map.mp hpath'
    rw [reached_shifted_self] at hx
    cases hx
  · simp only [List.mem_append, List.mem_map, hpaths, hpaths', reached_append]
    grind
  · rw [List.map_append, List.map_append, ← hfound, ← hfound', List.map_map]
    refine congrArg₂ (· ++ ·) (List.map_congr_left fun path hpath => ?_)
      (List.map_congr_left fun path _ => reached_shifted path)
    obtain ⟨x, hx, -⟩ := (hpaths path).mp hpath
    rw [hx]
    exact reached_append.mpr (.inl hx)

/-- A node in front of those below it, if it is a statement or an expression itself. -/
theorem node (h : Lists below (below n) found) :
    Lists below [n] ([n].filter isCode ++ found) := by
  obtain ⟨paths, hnodup, hpaths, hfound⟩ := h
  have hbelow : (paths.map (0 :: ·)).map (reached below [n]) = found.map some := by
    rw [List.map_map, ← hfound]
    refine List.map_congr_left fun path hpath => ?_
    obtain ⟨x, hx, -⟩ := (hpaths path).mp hpath
    exact (reached_singleton.mpr (.inr ⟨path, rfl, hx⟩)).trans hx.symm
  have hnodup' : (paths.map (0 :: ·)).Nodup := hnodup.map fun p q h => (List.cons.inj h).2
  cases hn : n.isCode with
  | false =>
    refine ⟨paths.map (0 :: ·), hnodup', fun path => ?_, by simpa [hn] using hbelow⟩
    simp only [List.mem_map, hpaths, reached_singleton]
    grind
  | true =>
    refine ⟨[0] :: paths.map (0 :: ·), hnodup'.cons fun h => ?_, fun path => ?_, ?_⟩
    · obtain ⟨p, hp, hp'⟩ := List.mem_map.mp h
      obtain ⟨x, hx, -⟩ := (hpaths p).mp hp
      rw [(List.cons.inj hp').2] at hx
      cases hx
    · simp only [List.mem_cons, List.mem_map, hpaths, reached_singleton]
      grind
    · rw [List.map_cons, hbelow, List.filter_cons_of_pos hn]
      rfl

end Lists

end Node

/-! ### The nodes of an outline -/

/-- The statement or expression at a node of an outline, if there is one. -/
def Label.code? : Label → Option Node
  | .stmt s => some (.stmt s)
  | .expr e => some (.expr e)
  | _ => none

/-- The statements and expressions of outlines, from top to bottom and left to right. -/
def Outline.allCode (os : List Outline) : List Node := (allLabels os).filterMap Label.code?

/-- **Outlines meet what there is** of statements and expressions from some nodes on. -/
def Outline.Meets (ns : List Node) (os : List Outline) : Prop :=
  Node.Lists Node.children ns (allCode os)

namespace Outline.Meets

variable {ns ns' : List Node} {n : Node} {os os' parts : List Outline} {l : Label}

theorem nil : Meets [] [] := by
  rw [Meets, allCode, allLabels_nil, List.filterMap_nil]
  exact .nil

theorem append (h : Meets ns os) (h' : Meets ns' os') : Meets (ns ++ ns') (os ++ os') := by
  rw [Meets, allCode, allLabels_append, List.filterMap_append]
  exact Node.Lists.append h h'

/-- The outlines of one node, and those of the others. -/
theorem join (h : Meets [n] os) (h' : Meets ns os') : Meets (n :: ns) (os ++ os') :=
  h.append h'

/-- The outline of one node, and those of the others. -/
theorem cons {o : Outline} (h : Meets [n] [o]) (h' : Meets ns os) :
    Meets (n :: ns) (o :: os) :=
  h.append h'

/-- A node of the outline that is no statement and no expression. -/
theorem label (hl : l.code? = none) (h : Meets ns parts) : Meets ns [.node l parts] := by
  rw [Meets, allCode, allLabels_node, allLabels_nil, List.append_nil, List.filterMap_cons, hl]
  exact h

/-- A node of the tree that is no statement and no expression. -/
theorem through (hn : n.isCode = false) (h : Meets n.children os) : Meets [n] os := by
  have hnode := Node.Lists.node h
  rwa [List.filter_cons_of_neg (by simp [hn])] at hnode

/-- A statement or an expression with what is below it. -/
theorem code (hl : l.code? = some n) (hn : n.isCode) (h : Meets n.children parts) :
    Meets [n] [.node l parts] := by
  have hnode := Node.Lists.node h
  rw [List.filter_cons_of_pos hn] at hnode
  rw [Meets, allCode, allLabels_node, allLabels_nil, List.append_nil, List.filterMap_cons, hl]
  exact hnode

theorem stmt {s : Stmt} (h : Meets (Node.stmt s).children parts) :
    Meets [.stmt s] [.node (.stmt s) parts] := code rfl rfl h

theorem expr {e : Expr} (h : Meets (Node.expr e).children parts) :
    Meets [.expr e] [.node (.expr e) parts] := code rfl rfl h

/-- A type as written has no statements and no expressions. -/
theorem typed {t : TypeExpr} (h : Meets ns os) : Meets ns (t.outline :: os) :=
  (label (l := .type t) rfl nil).append h

theorem types {α : Type} (f : α → TypeExpr) (as : List α) (h : Meets ns os) :
    Meets ns (as.map (fun a => (f a).outline) ++ os) := by
  induction as with
  | nil => exact h
  | cons a as ih => exact typed ih

end Outline.Meets

open Outline.Meets

mutual

theorem Expr.met : ∀ e : Expr, Outline.Meets [.expr e] [.node (.expr e) e.parts]
  | .literal .. | .name _ | .this _ | .super _ => expr nil
  | .field e _ _ | .methodRef e _ _ | .unary _ e _ | .update e _ _ | .paren e _ => expr e.met
  | .call _ f as _ => expr (label rfl (cons f.met (Expr.allMet as)))
  | .new _ as _ => expr (label rfl (typed (Expr.allMet as)))
  | .newAnonymous _ as ms _ =>
    expr (label rfl (typed (append (Expr.allMet as) (label rfl (Member.allMet ms)))))
  | .newArray _ ds _ => expr (typed (Expr.allMet ds))
  | .newArrayOf _ ds es _ _ => expr (typed (append (Expr.allMet ds) (Expr.allMet es)))
  | .arrayInit es _ => expr (Expr.allMet es)
  | .index a b _ | .binary a _ b _ | .assign a _ b _ => expr (cons a.met b.met)
  | .instanceOf e _ _ _ => expr (cons e.met (typed nil))
  | .conditional e a b _ => expr (cons e.met (cons a.met b.met))
  | .cast _ e _ => expr (typed e.met)
  | .classLit _ _ => expr (typed nil)
  | .lambda _ e _ => expr (label rfl e.met)
  | .blockLambda _ b _ => expr (label rfl (label rfl b.met))

theorem Expr.allMet : ∀ es : List Expr,
    Outline.Meets (es.map .expr) (Expr.outlines es)
  | [] => nil
  | e :: es => cons e.met (Expr.allMet es)

theorem Block.met : ∀ b : Block, Outline.Meets [.block b] b.parts
  | ⟨ss, _⟩ => through rfl (Stmt.allMet ss)

theorem Stmt.met : ∀ s : Stmt, Outline.Meets [.stmt s] [.node (.stmt s) s.parts]
  | .block b => stmt (label rfl b.met)
  | .localVar _ _ vs _ => stmt (typed (VarDeclarator.allMet vs))
  | .localType d => stmt d.met
  | .expr e _ | .throwing e _ | .ret (some e) _ => stmt e.met
  | .ifThen e a _ | .whileLoop e a _ => stmt (cons e.met a.met)
  | .ifElse e a b _ => stmt (cons e.met (cons a.met b.met))
  | .doLoop a e _ => stmt (cons a.met e.met)
  | .forLoop i none us a _ => by
    refine stmt ?_
    simpa [Stmt.parts, Node.children] using
      append (Stmt.allMet i) (append (Expr.allMet us) a.met)
  | .forLoop i (some e) us a _ => by
    refine stmt ?_
    simpa [Stmt.parts, Node.children] using
      append (Stmt.allMet i) (cons e.met (append (Expr.allMet us) a.met))
  | .forEach _ _ _ e a _ => stmt (typed (cons e.met a.met))
  | .ret none _ | .breakTo .. | .continueTo .. | .empty _ => stmt nil
  | .tryCatch rs b cs none _ => by
    refine stmt ?_
    simpa [Stmt.parts, Node.children] using
      append (Stmt.allMet rs) (cons (label (l := .block b) rfl b.met)
        (CatchClause.allMet cs))
  | .tryCatch rs b cs (some f) _ => by
    refine stmt ?_
    simpa [Stmt.parts, Node.children] using
      append (Stmt.allMet rs) (cons (label (l := .block b) rfl b.met)
        (append (CatchClause.allMet cs) (label (l := .block f) rfl f.met)))
  | .switch e cs _ => stmt (cons e.met (SwitchCase.allMet cs))
  | .synchronized e b _ => stmt (cons e.met (label rfl b.met))
  | .labeled _ a _ => stmt a.met
  | .assertion e none _ => stmt (cons e.met nil)
  | .assertion e (some m) _ => stmt (cons e.met m.met)

theorem Stmt.allMet : ∀ ss : List Stmt,
    Outline.Meets (ss.map .stmt) (Stmt.outlines ss)
  | [] => nil
  | s :: ss => cons s.met (Stmt.allMet ss)

theorem VarDeclarator.allMet : ∀ vs : List VarDeclarator,
    Outline.Meets (Node.ofVars vs) (VarDeclarator.parts vs)
  | [] => nil
  | ⟨_, _, none, _⟩ :: vs => VarDeclarator.allMet vs
  | ⟨_, _, some e, _⟩ :: vs => cons e.met (VarDeclarator.allMet vs)

theorem CatchClause.allMet : ∀ cs : List CatchClause,
    Outline.Meets (cs.map fun c => .block c.body) (CatchClause.parts cs)
  | [] => nil
  | ⟨_, ts, _, b, _⟩ :: cs =>
    types id ts (cons (label rfl b.met) (CatchClause.allMet cs))

theorem SwitchCase.allMet : ∀ cs : List SwitchCase,
    Outline.Meets (cs.flatMap fun c => c.labels.map .expr ++ c.body.map .stmt)
      (SwitchCase.parts cs)
  | [] => nil
  | ⟨ls, ss, _⟩ :: cs =>
    append (append (Expr.allMet ls) (Stmt.allMet ss)) (SwitchCase.allMet cs)

theorem AnnotArg.allMet : ∀ as : List AnnotArg,
    Outline.Meets (as.map fun arg => .element arg.value) (AnnotArg.parts as)
  | [] => nil
  | ⟨_, v, _⟩ :: as => join v.met (AnnotArg.allMet as)

theorem Element.met : ∀ v : Element, Outline.Meets [.element v] v.parts
  | .expr e => through rfl e.met
  | .array vs _ => through rfl (Element.allMet vs)
  | .annot ⟨_, as, _⟩ => through rfl (label rfl (through rfl (AnnotArg.allMet as)))

theorem Element.allMet : ∀ vs : List Element,
    Outline.Meets (vs.map .element) (Element.allParts vs)
  | [] => nil
  | v :: vs => join v.met (Element.allMet vs)

theorem Annot.allMet : ∀ as : List Annot,
    Outline.Meets (as.map .annot) (Annot.outlines as)
  | [] => nil
  | ⟨_, as, _⟩ :: rest =>
    cons (label rfl (through rfl (AnnotArg.allMet as))) (Annot.allMet rest)

theorem TypeDecl.met : ∀ d : TypeDecl,
    Outline.Meets [.typeDecl d] [.node (.typeDecl d) d.parts]
  | ⟨⟨_, as, _⟩, _, _, _, sup, is, cs, ms, _⟩ => by
    have hbody : Outline.Meets (ms.map .member) [.node (.body ms) (Member.outlines ms)] :=
      label rfl (Member.allMet ms)
    refine label rfl (through rfl ?_)
    simpa [TypeDecl.parts, Node.children] using append (Annot.allMet as)
      (types id (sup.toList ++ is) (append (EnumConstant.allMet cs) hbody))

theorem EnumConstant.allMet : ∀ cs : List EnumConstant,
    Outline.Meets (cs.map .constant) (EnumConstant.outlines cs)
  | [] => nil
  | .plain _ _ es _ :: cs =>
    cons (label rfl (through rfl (Expr.allMet es))) (EnumConstant.allMet cs)
  | .withBody _ _ es ms _ :: cs =>
    cons (label rfl (through rfl (append (Expr.allMet es)
      (label rfl (Member.allMet ms))))) (EnumConstant.allMet cs)

theorem Member.met : ∀ m : Member, Outline.Meets [.member m] [.node (.member m) m.parts]
  | .field _ _ vs _ => label rfl (through rfl (label rfl (typed (VarDeclarator.allMet vs))))
  | .method _ _ _ _ ps _ _ none _ =>
    label rfl (through rfl (label rfl (typed (types Param.type ps nil))))
  | .method _ _ _ _ ps _ _ (some b) _ =>
    label rfl (through rfl (label rfl (typed (types Param.type ps (label rfl b.met)))))
  | .constructor _ _ _ ps _ b _ =>
    label rfl (through rfl (label rfl (types Param.type ps (label rfl b.met))))
  | .initializer _ b _ => label rfl (through rfl b.met)
  | .type d => label rfl (through rfl d.met)

theorem Member.allMet : ∀ ms : List Member,
    Outline.Meets (ms.map .member) (Member.outlines ms)
  | [] => nil
  | m :: ms => cons m.met (Member.allMet ms)

end

/-- **The outlines of a source file meet all statements and expressions**, except those that no walk
goes into. -/
theorem SourceUnit.met (u : SourceUnit) :
    Outline.Meets (u.types.map .typeDecl) u.outlines := by
  rw [SourceUnit.outlines]
  induction u.types with
  | nil => exact nil
  | cons d ds ih => exact cons d.met ih

end JavaGraft
