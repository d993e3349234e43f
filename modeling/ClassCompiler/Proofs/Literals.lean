import ClassCompiler.Assembly.StringPool
import ClassCompiler.Proofs.ExprParts
import ClassCompiler.Proofs.TreeOrder

/-!
# String literals

The literals of a program are collected on a walk over the whole tree. Each node of the tree is
given with its children, so the place of a literal is a path from the root, and the order of the
walk is the order of the paths.

Results:
1. `Node.lists_nodes`: the nodes of a tree are listed in tree order.
2. `StringPool.exists_firsts`: a pool has the first occurrence of each string.
3. `StringPool.index?_foldl_insert`: the number of a string never changes.
4. `literals_by_first_occurrence`: the literals of a program, and the numbers that a pool gives.
-/

namespace ClassCompiler

open TreeOrder

/-! ## The nodes of a tree by their children -/

namespace Node

/-- The nodes that a node is made of, in the order of the text. -/
def children : Node → List Node
  | program p => p.classes.map .cls
  | cls c => c.features.map .feature
  | feature (.field f) => f.init.toList.map .expr
  | feature (.method m) => m.params.map .param ++ m.body.map .stmt
  | param _ => []
  | stmt (.decl _ _ init _) => init.toList.map .expr
  | stmt (.expr e _) => [.expr e]
  | stmt (.ifElse cond thenBranch elseBranch _) =>
    .expr cond :: .stmt thenBranch :: elseBranch.toList.map .stmt
  | stmt (.whileLoop cond body _) => [.expr cond, .stmt body]
  | stmt (.forLoop init cond update body _) =>
    (init.toList ++ cond.toList ++ update.toList).map .expr ++ [.stmt body]
  | stmt (.breakLoop _) => []
  | stmt (.block stmts _) => stmts.map .stmt
  | stmt (.ret value _) => value.toList.map .expr
  | expr e => e.parts.map .expr

/-- A node and all that it contains. -/
def nodes : Node → List Node
  | program p => p.nodes
  | cls c => c.nodes
  | feature f => f.nodes
  | param p => [.param p]
  | stmt s => s.nodes
  | expr e => ofExpr e

theorem ofExpr?_eq_flatMap (o : Option Expr) : ofExpr? o = (o.toList.map .expr).flatMap nodes := by
  cases o with
  | none => rfl
  | some e => exact (List.append_nil _).symm

theorem stmtNodes?_eq_flatMap (o : Option Stmt) :
    Stmt.nodes? o = (o.toList.map .stmt).flatMap nodes := by
  cases o with
  | none => rfl
  | some s => exact (List.append_nil _).symm

theorem stmtNodesAll_eq_flatMap (ss : List Stmt) :
    Stmt.nodesAll ss = (ss.map .stmt).flatMap nodes := by
  induction ss with
  | nil => rfl
  | cons s ss ih => rw [Stmt.nodesAll, ih, List.map_cons, List.flatMap_cons, nodes]

theorem nodes_eq (n : Node) : n.nodes = n :: n.children.flatMap nodes := by
  cases n with
  | program p => simp [nodes, Program.nodes, children, List.flatMap_map]
  | cls c => simp [nodes, ClassDecl.nodes, children, List.flatMap_map]
  | feature f =>
    cases f with
    | field f => simp [nodes, Feature.nodes, children, ofExpr?_eq_flatMap]
    | method m =>
      have hparams : (m.params.map Node.param).flatMap nodes = m.params.map .param := by
        rw [List.flatMap_map, List.map_eq_flatMap]
        rfl
      simp only [nodes, Feature.nodes, Method.nodes, children, List.flatMap_append, hparams,
        stmtNodesAll_eq_flatMap]
  | param p => rfl
  | stmt s =>
    cases s <;>
      simp [nodes, Stmt.nodes, children, ofExpr?_eq_flatMap, stmtNodes?_eq_flatMap,
        stmtNodesAll_eq_flatMap]
  | expr e =>
    simp only [nodes, ofExpr, children, List.flatMap_map]
    rw [e.nodes_eq, List.map_cons, List.map_flatMap]

theorem lists_of_children {n : Node} (h : ∀ c ∈ n.children, Lists children c c.nodes) :
    Lists children n n.nodes := by
  rw [nodes_eq]
  exact Lists.node h

theorem lists_expr (e : Expr) : Lists children (.expr e) (nodes (.expr e)) := by
  induction e using Expr.parts_induction with
  | step e ih =>
    refine lists_of_children fun c hc => ?_
    obtain ⟨part, hpart, rfl⟩ := List.mem_map.mp hc
    exact ih part hpart

/-- A statement contains expressions, and statements that are listed. -/
theorem lists_stmt_of {s : Stmt}
    (h : ∀ part, .stmt part ∈ children (.stmt s) → Lists children (.stmt part) part.nodes) :
    Lists children (.stmt s) s.nodes := by
  refine lists_of_children (n := .stmt s) fun c hc => ?_
  cases c with
  | expr e => exact lists_expr e
  | stmt part => exact h part hc
  | program | cls | feature | param => cases s <;> simp [children] at hc

theorem lists_stmt (s : Stmt) : Lists children (.stmt s) (nodes (.stmt s)) := by
  induction s using Stmt.induction with
  | decl | expr | breakLoop | ret =>
    exact lists_stmt_of fun part hpart => by simp [children] at hpart
  | ifElse cond thenBranch elseBranch span iht ihe =>
    refine lists_stmt_of fun part hpart => ?_
    have hcases : part = thenBranch ∨ elseBranch = some part := by
      simpa [children, eq_comm] using hpart
    rcases hcases with rfl | helse
    · exact iht
    · exact ihe part helse
  | whileLoop cond body span ih | forLoop init cond update body span ih =>
    refine lists_stmt_of fun part hpart => ?_
    obtain rfl : part = body := by simpa [children] using hpart
    exact ih
  | block stmts span ih =>
    refine lists_stmt_of fun part hpart => ih part ?_
    simpa [children] using hpart

/-- The nodes of a tree are listed from left to right, each before what it contains. -/
theorem lists_nodes (n : Node) : Lists children n n.nodes := by
  have hfeature (f : Feature) : Lists children (.feature f) (nodes (.feature f)) := by
    refine lists_of_children fun c hc => ?_
    cases c with
    | expr e => exact lists_expr e
    | stmt s => exact lists_stmt s
    | param p => exact lists_of_children fun _ hc => absurd hc List.not_mem_nil
    | program | cls | feature => cases f <;> simp [children] at hc
  have hcls (c : ClassDecl) : Lists children (.cls c) (nodes (.cls c)) := by
    refine lists_of_children fun n hn => ?_
    obtain ⟨f, -, rfl⟩ := List.mem_map.mp hn
    exact hfeature f
  cases n with
  | program p =>
    refine lists_of_children fun n hn => ?_
    obtain ⟨c, -, rfl⟩ := List.mem_map.mp hn
    exact hcls c
  | cls c => exact hcls c
  | feature f => exact hfeature f
  | param p => exact lists_of_children fun _ hc => absurd hc List.not_mem_nil
  | stmt s => exact lists_stmt s
  | expr e => exact lists_expr e

end Node

namespace Assembly

/-! ## Pools -/

namespace StringPool

theorem insert_of_mem {p : StringPool} {s : String} (h : s ∈ p.strings) : p.insert s = p :=
  if_pos (List.contains_iff_mem.mpr h)

theorem strings_insert_of_not_mem {p : StringPool} {s : String} (h : s ∉ p.strings) :
    (p.insert s).strings = p.strings ++ [s] := by
  rw [insert, if_neg (by simpa using h)]

theorem nodup_insert {p : StringPool} (h : p.strings.Nodup) (s : String) :
    (p.insert s).strings.Nodup := by
  by_cases hs : s ∈ p.strings
  · rwa [insert_of_mem hs]
  · rw [strings_insert_of_not_mem hs]
    exact List.concat_eq_append ▸ h.concat hs

theorem ofList_concat (strings : List String) (s : String) :
    ofList (strings ++ [s]) = (ofList strings).insert s :=
  List.foldl_append

theorem nodup_ofList (strings : List String) : (ofList strings).strings.Nodup := by
  induction strings using List.reverseRecOn with
  | nil => exact List.nodup_nil
  | append_singleton strings s ih =>
    rw [ofList_concat]
    exact nodup_insert ih s

theorem index?_eq_none {p : StringPool} {s : String} : p.index? s = none ↔ s ∉ p.strings := by
  rw [index?, List.findIdx?_eq_none_iff]
  constructor
  · intro h hs
    simpa using h s hs
  · rintro h x hx
    exact beq_false_of_ne (ne_of_mem_of_not_mem hx h)

/-- A string is found where it stands. -/
theorem getElem?_of_index? {p : StringPool} {s : String} {i : Nat} (h : p.index? s = some i) :
    p.strings[i]? = some s := by
  obtain ⟨hlt, heq, -⟩ := List.findIdx?_eq_some_iff_getElem.mp h
  rw [List.getElem?_eq_getElem hlt, beq_iff_eq.mp heq]

/-- Adding a string gives it its number. -/
theorem index?_insert_self (p : StringPool) (s : String) :
    (p.insert s).index? s = some (p.numberFor s) := by
  cases hi : p.index? s with
  | some i =>
    have hmem : s ∈ p.strings := List.mem_of_getElem? (getElem?_of_index? hi)
    rw [insert_of_mem hmem, numberFor, hi, Option.getD_some]
  | none =>
    have hnew := index?_eq_none.mp hi
    rw [numberFor, hi, Option.getD_none, index?, strings_insert_of_not_mem hnew,
      List.findIdx?_append]
    change p.strings.findIdx? (· == s) = none at hi
    simp [hi, size]

/-- Adding a string leaves the numbers of the others. -/
theorem index?_insert {p : StringPool} {s : String} {i : Nat} (h : p.index? s = some i)
    (s' : String) : (p.insert s').index? s = some i := by
  by_cases hs' : s' ∈ p.strings
  · rwa [insert_of_mem hs']
  · rw [index?, strings_insert_of_not_mem hs', List.findIdx?_append]
    change p.strings.findIdx? (· == s) = some i at h
    rw [h, Option.some_or]

theorem index?_foldl_insert {p : StringPool} {s : String} {i : Nat} (h : p.index? s = some i)
    (after : List String) : (after.foldl insert p).index? s = some i := by
  induction after generalizing p with
  | nil => exact h
  | cons s' after ih => exact ih (index?_insert h s')

/-- Of strings that stand at different places in order, a pool has the first occurrence of each. -/
theorem exists_firsts {places : List (List Nat × String)} (hsorted : places.Pairwise (·.1 < ·.1)) :
    ∃ firsts : List (List Nat × String), firsts.Sublist places ∧
      firsts.map (·.2) = (ofList (places.map (·.2))).strings ∧
      ∀ x ∈ places, ∃ first ∈ firsts, first.2 = x.2 ∧ (first.1 = x.1 ∨ first.1 < x.1) := by
  induction places using List.reverseRecOn with
  | nil => exact ⟨[], .refl _, rfl, fun _ hx => absurd hx List.not_mem_nil⟩
  | append_singleton places last ih =>
    obtain ⟨hplaces, -, hlast⟩ := List.pairwise_append.mp hsorted
    obtain ⟨firsts, hsub, hmap, hfirst⟩ := ih hplaces
    rw [List.map_append, List.map_singleton, ofList_concat]
    by_cases hold : last.2 ∈ (ofList (places.map (·.2))).strings
    · rw [insert_of_mem hold]
      refine ⟨firsts, hsub.trans (List.sublist_append_left _ _), hmap, fun x hx => ?_⟩
      rcases List.mem_append.mp hx with hx | hx
      · exact hfirst x hx
      · -- what is in the pool stands at an earlier place
        obtain rfl := List.mem_singleton.mp hx
        rw [← hmap] at hold
        obtain ⟨first, hmem, heq⟩ := List.mem_map.mp hold
        exact ⟨first, hmem, heq, .inr (hlast first (hsub.subset hmem) x List.mem_cons_self)⟩
    · rw [strings_insert_of_not_mem hold]
      refine ⟨firsts ++ [last], hsub.append (.refl _), ?_, fun x hx => ?_⟩
      · rw [List.map_append, hmap, List.map_singleton]
      · rcases List.mem_append.mp hx with hx | hx
        · obtain ⟨first, hmem, hplace⟩ := hfirst x hx
          exact ⟨first, List.mem_append_left _ hmem, hplace⟩
        · obtain rfl := List.mem_singleton.mp hx
          exact ⟨x, List.mem_append_right _ List.mem_cons_self, rfl, .inl rfl⟩

end StringPool

/-! ## The literals of a program -/

/-- The value of the literal that a path from the program leads to, if it leads to one. -/
def literalAt? (p : Program) (path : List Nat) : Option String :=
  (at? Node.children (.program p) path).bind fun n => n.expr?.bind literal?

/-- The literals of a program with their paths, in order. -/
theorem exists_places (p : Program) :
    ∃ places : List (List Nat × String), places.Pairwise (·.1 < ·.1) ∧
      (∀ path value, (path, value) ∈ places ↔ literalAt? p path = some value) ∧
      places.map (·.2) = p.exprs.filterMap literal? := by
  obtain ⟨listing, hlisting, hnodes⟩ := Node.lists_nodes (.program p)
  let place (x : List Nat × Node) : Option (List Nat × String) :=
    (x.2.expr?.bind literal?).map (x.1, ·)
  have hplace {x : List Nat × Node} {y : List Nat × String} :
      place x = some y ↔ x.1 = y.1 ∧ x.2.expr?.bind literal? = some y.2 := by
    obtain ⟨path, value⟩ := y
    simp only [place, Option.map_eq_some_iff, Prod.mk.injEq]
    constructor
    · rintro ⟨value, hvalue, rfl, rfl⟩
      exact ⟨rfl, hvalue⟩
    · rintro ⟨rfl, hvalue⟩
      exact ⟨value, hvalue, rfl, rfl⟩
  refine ⟨listing.filterMap place, ?_, fun path value => ?_, ?_⟩
  · refine List.pairwise_filterMap.mpr (hlisting.sorted.imp fun hlt y hy y' hy' => ?_)
    rw [← (hplace.mp hy).1, ← (hplace.mp hy').1]
    exact hlt
  · rw [List.mem_filterMap, literalAt?, Option.bind_eq_some_iff]
    constructor
    · rintro ⟨⟨path', n⟩, hmem, hn⟩
      obtain ⟨rfl, hvalue⟩ := hplace.mp hn
      exact ⟨n, (hlisting.mem_iff path' n).mp hmem, hvalue⟩
    · rintro ⟨n, hat, hvalue⟩
      exact ⟨(path, n), (hlisting.mem_iff path n).mpr hat, hplace.mpr ⟨rfl, hvalue⟩⟩
  · change listing.map (·.2) = p.nodes at hnodes
    rw [Program.exprs, ← hnodes, List.filterMap_map, List.filterMap_filterMap,
      List.map_filterMap]
    refine List.filterMap_congr fun x _ => ?_
    simp only [place, Function.comp_apply, Option.map_map]
    exact Option.map_id'

/-- The pool of a program has the values of its string literals, each once. There are paths to
literals, one for each number, of which each leads to the first literal of its value and which come
in the order of the tree; every literal has the value of one of them. In whatever state a pool is,
the number that it gives to a string is the one that the string has from then on. -/
theorem literals_by_first_occurrence :
    (∀ p : Program, (literals p).strings.Nodup ∧
      ∃ firsts : List (List Nat), firsts.Pairwise (· < ·) ∧
        firsts.map (literalAt? p) = (literals p).strings.map some ∧
        ∀ path value, literalAt? p path = some value →
          ∃ first ∈ firsts, literalAt? p first = some value ∧ (first = path ∨ first < path)) ∧
    ∀ (pool : StringPool) (before : List String) (s : String) (after : List String),
      let reached := before.foldl StringPool.insert pool
      let later := after.foldl StringPool.insert (reached.insert s)
      later.index? s = some (reached.numberFor s) ∧
        later.strings[reached.numberFor s]? = some s := by
  constructor
  · intro p
    refine ⟨StringPool.nodup_ofList _, ?_⟩
    obtain ⟨places, hsorted, hmem, hvalues⟩ := exists_places p
    obtain ⟨firsts, hsub, hmap, hfirst⟩ := StringPool.exists_firsts hsorted
    have hat : ∀ x ∈ firsts, literalAt? p x.1 = some x.2 := fun x hx =>
      (hmem x.1 x.2).mp (hsub.subset hx)
    refine ⟨firsts.map (·.1), (hsorted.sublist hsub).map _ fun _ _ hlt => hlt, ?_, ?_⟩
    · rw [literals, ← hvalues, ← hmap, List.map_map, List.map_map]
      exact List.map_congr_left hat
    · intro path value hvalue
      obtain ⟨first, hin, heq, hbefore⟩ := hfirst (path, value) ((hmem path value).mpr hvalue)
      exact ⟨first.1, List.mem_map_of_mem hin, (hat first hin).trans (congrArg some heq), hbefore⟩
  · intro pool before s after reached later
    have hindex : later.index? s = some (reached.numberFor s) :=
      StringPool.index?_foldl_insert (StringPool.index?_insert_self reached s) after
    exact ⟨hindex, StringPool.getElem?_of_index? hindex⟩

/-- Literals in all parts of a loop, on both sides of an assignment, in branches, and in a class
that is not registered. -/
def scattered : Program :=
  let text (value : String) : Expr := .stringLit value {}
  { classes :=
      [{ name := "Main"
         features :=
           [.field { name := "title", typeName := "String", init := some (text "b") },
             .method { name := "main", returnName := "void"
                       body :=
                         [.forLoop (some (text "i")) (some (text "c")) (some (text "b"))
                             (.expr (.arrayAssign none "a" (text "x") (text "v") {}) {}) {},
                           .ifElse (text "c") (.ret (some (text "t")) {})
                             (some (.ret (some (text "e")) {})) {}] }] },
        { name := "String"
          features :=
            [.method { name := "m", returnName := "void"
                       body := [
                         .expr (.dispatch (some (text "r")) "m" [text "x", text "y"] {}) {}] }] }] }

theorem literals_by_first_occurrence_scattered :
    (literals scattered).strings = ["b", "i", "c", "x", "v", "t", "e", "r", "y"] ∧
      literalAt? scattered [1, 0, 0, 0, 1] = some "x" ∧
      (∃ first, literalAt? scattered first = some "x" ∧
        (first = [1, 0, 0, 0, 1] ∨ first < [1, 0, 0, 0, 1])) ∧
      (((({} : StringPool).insert "b").insert "a").insert "b").index? "a" = some 1 := by
  obtain ⟨hprogram, hpool⟩ := literals_by_first_occurrence
  obtain ⟨-, firsts, -, -, hfirsts⟩ := hprogram scattered
  have hsecond : literalAt? scattered [1, 0, 0, 0, 1] = some "x" := by decide
  obtain ⟨first, -, hfirst, hbefore⟩ := hfirsts [1, 0, 0, 0, 1] "x" hsecond
  exact ⟨by decide, hsecond, ⟨first, hfirst, hbefore⟩, (hpool {} ["b"] "a" ["b"]).1⟩

end Assembly

end ClassCompiler
