import ClassCompiler.Proofs.NamedValues
import ClassCompiler.Proofs.ProgramTrees
import ClassCompiler.Proofs.TreeParsing
import ClassCompiler.Proofs.TreeReading
import ClassCompiler.Syntax.Text

/-!
# Dumping and loading programs

The dump of a program is loaded as the program itself, with all its places and types, unless it takes
more levels to read than there are. Nodes are read field by field; the levels that the fields take add
up to those of the tree, so it is known for every program whether its dump can be loaded.

Results:
1. `Node.finds_fields`, `Expr.finds_fields`: nodes end with fields that are read before the others.
2. `Expr.reads`, `Stmt.reads`, `Program.reads`: each kind of node, from the nodes inside it.
3. `Program.dump_loads_back`: the round trip.
-/

namespace ClassCompiler

open ClassCompiler.Tree (Fields Finds Reader Reading Reads fieldsReadLevels)

/-! ## Reading nodes -/

theorem Position.reads (p : Position) (n : Nat) : Reads Position.ofTree? n p.toTree p :=
  .below (Reader.finds_fields (by rfl) (by decide) (by decide) n) fun _ =>
    .and_then (Fields.finds_getD rfl 0 (.word p.byte)) <|
    .and_then (Fields.finds_need rfl (.word p.line)) <|
    .and_then (Fields.finds_need rfl (.word p.col)) <| .pure p _

theorem Span.reads (s : Span) (n : Nat) : Reads Span.ofTree? n s.toTree s :=
  .below (Reader.finds_fields (by rfl) (by decide) (by decide) n) fun _ =>
    .and_then (Fields.finds_need rfl (s.first.reads _)) <|
    .and_then (Fields.finds_need rfl (s.last.reads _)) <| .pure s _

theorem Ty.reads_within (t : Ty) {fuel n : Nat} (hfuel : n < fuel) :
    Reads (Ty.ofTreeWithin? fuel) n t.toTree t := by
  induction t generalizing fuel n with
  | cls name =>
    refine .of_fuel (fun fuel n hfuel => ?_) hfuel
    exact .below (Tree.finds_down 2 n) fun _ => .and_then (Reads.text name) <| .pure _ _
  | array elem ih =>
    refine .of_fuel (fun fuel n hfuel => ?_) hfuel
    refine .cast (.below (Tree.finds_down 2 n) fun _ => .and_then (ih (by omega)) <| .pure _ _) ?_
    simp [toTree, Tree.readLevels, Tree.itemsReadLevels]
  | int | boolean | void | null | untyped =>
    exact .of_fuel (fun fuel n hfuel => Reads.bareCase rfl) hfuel

theorem Ty.reads (t : Ty) (n : Nat) : Reads Ty.ofTree? n t.toTree t :=
  t.reads_within (Nat.lt_succ_self n)

theorem Qualifier.reads (q : Qualifier) (n : Nat) : Reads Qualifier.ofTree? n q.toTree q :=
  Reads.bareCase (by cases q <;> rfl)

theorem BinaryOp.reads (op : BinaryOp) (n : Nat) : Reads BinaryOp.ofTree? n (.word op.label) op :=
  Reads.bareCase (by cases op <;> rfl)

theorem UnaryOp.reads (op : UnaryOp) (n : Nat) : Reads UnaryOp.ofTree? n (.word op.label) op :=
  Reads.bareCase (by cases op <;> rfl)

section Fields

variable {α : Type} {name : String} {own : List String} {entries : List (String × Tree)} {n : Nat}

/-- The fields of a node are read after its span. -/
theorem Node.finds_fields {s : Span} {next : Fields × Span → Option α} {a : α}
    (hkeys : entries.map (·.1) = own) (hnodup : (own ++ ["span"]).Nodup)
    (hnext : Finds (next ({ reading := { levels := n - 2 }, entries := entries ++ s.fields }, s))
      (fieldsReadLevels entries) (n - 2) a) :
    Finds (Node.fields? name own { levels := n } (.record (some name) (entries ++ s.fields)) >>= next)
      (2 + fieldsReadLevels (entries ++ s.fields)) n a := by
  have hspan : (entries ++ s.fields).lookup "span" = some s.toTree :=
    lookup_append_of_nodup hkeys hnodup (by simp [Span.fields])
  refine Reader.finds_tail (by rw [List.map_append, hkeys]; rfl) hnodup (by simp) ?_ hnext
  exact .cast (Fields.finds_getD hspan _ (s.reads _)) (Nat.max_zero _).symm

/-- The fields of an expression are read after its type and its span. -/
theorem Expr.finds_fields {m : Mark} {next : Fields × Mark → Option α} {a : α}
    (hkeys : entries.map (·.1) = own) (hnodup : (own ++ ["ty", "span"]).Nodup)
    (hnext : Finds (next ({ reading := { levels := n - 2 }, entries := entries ++ m.fields }, m))
      (fieldsReadLevels entries) (n - 2) a) :
    Finds (Expr.fields? name own { levels := n } (.record (some name) (entries ++ m.fields)) >>= next)
      (2 + fieldsReadLevels (entries ++ m.fields)) n a := by
  have hty : (entries ++ m.fields).lookup "ty" = some (.ofOption Ty.toTree m.ty) :=
    lookup_append_of_nodup hkeys hnodup (by simp [Mark.fields])
  have hspan : (entries ++ m.fields).lookup "span" = some m.span.toTree :=
    lookup_append_of_nodup hkeys hnodup (by simp [Mark.fields, Span.fields])
  refine Reader.finds_tail (by rw [List.map_append, hkeys]; rfl) hnodup (by simp) ?_ hnext
  exact .and_then (Fields.finds_getD hty none (.option fun t _ _ => t.reads _)) <|
    .and_then (Fields.finds_getD hspan _ (m.span.reads _)) <| .pure m _

end Fields

namespace Expr

theorem reads_within (e : Expr) {fuel n : Nat} (hfuel : n < fuel) :
    Reads (ofTreeWithin? fuel) n e.toTree e := by
  -- The parts are four levels further down at least, so the fuel still exceeds the levels there.
  induction e using Expr.induction generalizing fuel n with
  | dispatch receiver method args m hreceiver hargs =>
    rw [toTree, optionToTree_eq, list_listToTrees]
    refine .of_fuel (fun fuel n hfuel => ?_) hfuel
    exact Reader.finds_case fun hn => finds_fields (by rfl) (by decide) <|
      .and_then (Fields.finds_getD rfl none (.option fun e he _ => hreceiver e he (by omega))) <|
      .and_then (Fields.finds_need rfl (.text method)) <|
      .and_then (Fields.finds_getD rfl [] (.list fun e he _ => hargs e he (by omega))) <| .pure _ _
  | new typeName m =>
    refine .of_fuel (fun fuel n hfuel => ?_) hfuel
    exact Reader.finds_case fun hn => finds_fields (by rfl) (by decide) <|
      .and_then (Fields.finds_need rfl (.text typeName)) <| .pure _ _
  | newArray elemName size m hsize =>
    refine .of_fuel (fun fuel n hfuel => ?_) hfuel
    exact Reader.finds_case fun hn => finds_fields (by rfl) (by decide) <|
      .and_then (Fields.finds_need rfl (.text elemName)) <|
      .and_then (Fields.finds_need rfl (hsize (by omega))) <| .pure _ _
  | instanceOf operand typeName m hoperand =>
    refine .of_fuel (fun fuel n hfuel => ?_) hfuel
    exact Reader.finds_case fun hn => finds_fields (by rfl) (by decide) <|
      .and_then (Fields.finds_need rfl (hoperand (by omega))) <|
      .and_then (Fields.finds_need rfl (.text typeName)) <| .pure _ _
  | cast typeName operand m hoperand =>
    refine .of_fuel (fun fuel n hfuel => ?_) hfuel
    exact Reader.finds_case fun hn => finds_fields (by rfl) (by decide) <|
      .and_then (Fields.finds_need rfl (.text typeName)) <|
      .and_then (Fields.finds_need rfl (hoperand (by omega))) <| .pure _ _
  | assign qualifier name value m hvalue =>
    refine .of_fuel (fun fuel n hfuel => ?_) hfuel
    exact Reader.finds_case fun hn => finds_fields (by rfl) (by decide) <|
      .and_then (Fields.finds_getD rfl none (.option fun q _ _ => q.reads _)) <|
      .and_then (Fields.finds_need rfl (.text name)) <|
      .and_then (Fields.finds_need rfl (hvalue (by omega))) <| .pure _ _
  | arrayAssign qualifier name index value m hindex hvalue =>
    refine .of_fuel (fun fuel n hfuel => ?_) hfuel
    exact Reader.finds_case fun hn => finds_fields (by rfl) (by decide) <|
      .and_then (Fields.finds_getD rfl none (.option fun q _ _ => q.reads _)) <|
      .and_then (Fields.finds_need rfl (.text name)) <|
      .and_then (Fields.finds_need rfl (hindex (by omega))) <|
      .and_then (Fields.finds_need rfl (hvalue (by omega))) <| .pure _ _
  | binary op lhs rhs m hlhs hrhs =>
    refine .of_fuel (fun fuel n hfuel => ?_) hfuel
    exact Reader.finds_case fun hn => finds_fields (by rfl) (by decide) <|
      .and_then (Fields.finds_need rfl (op.reads _)) <|
      .and_then (Fields.finds_need rfl (hlhs (by omega))) <|
      .and_then (Fields.finds_need rfl (hrhs (by omega))) <| .pure _ _
  | unary op after operand m hoperand =>
    refine .of_fuel (fun fuel n hfuel => ?_) hfuel
    exact Reader.finds_case fun hn => finds_fields (by rfl) (by decide) <|
      .and_then (Fields.finds_need rfl (op.reads _)) <|
      .and_then (Fields.finds_getD rfl false (.flag after)) <|
      .and_then (Fields.finds_need rfl (hoperand (by omega))) <| .pure _ _
  | var object name m hobject =>
    rw [toTree, optionToTree_eq]
    refine .of_fuel (fun fuel n hfuel => ?_) hfuel
    exact Reader.finds_case fun hn => finds_fields (by rfl) (by decide) <|
      .and_then (Fields.finds_getD rfl none (.option fun e he _ => hobject e he (by omega))) <|
      .and_then (Fields.finds_need rfl (.text name)) <| .pure _ _
  | arrayElem object name index m hobject hindex =>
    rw [toTree, optionToTree_eq]
    refine .of_fuel (fun fuel n hfuel => ?_) hfuel
    exact Reader.finds_case fun hn => finds_fields (by rfl) (by decide) <|
      .and_then (Fields.finds_getD rfl none (.option fun e he _ => hobject e he (by omega))) <|
      .and_then (Fields.finds_need rfl (.text name)) <|
      .and_then (Fields.finds_need rfl (hindex (by omega))) <| .pure _ _
  | intLit value m =>
    refine .of_fuel (fun fuel n hfuel => ?_) hfuel
    exact Reader.finds_case fun hn => finds_fields (by rfl) (by decide) <|
      .and_then (Fields.finds_need rfl (.int value)) <| .pure _ _
  | boolLit value m =>
    refine .of_fuel (fun fuel n hfuel => ?_) hfuel
    exact Reader.finds_case fun hn => finds_fields (by rfl) (by decide) <|
      .and_then (Fields.finds_need rfl (.flag value)) <| .pure _ _
  | stringLit value m =>
    refine .of_fuel (fun fuel n hfuel => ?_) hfuel
    exact Reader.finds_case fun hn => finds_fields (by rfl) (by decide) <|
      .and_then (Fields.finds_need rfl (.text value)) <| .pure _ _

theorem reads (e : Expr) (n : Nat) : Reads ofTree? n e.toTree e := e.reads_within (Nat.lt_succ_self n)

end Expr

namespace Stmt

theorem reads_within (s : Stmt) {fuel n : Nat} (hfuel : n < fuel) :
    Reads (ofTreeWithin? fuel) n s.toTree s := by
  induction s using Stmt.induction generalizing fuel n with
  | decl name typeName init span =>
    refine .of_fuel (fun fuel n hfuel => ?_) hfuel
    exact Reader.finds_case fun hn => Node.finds_fields (by rfl) (by decide) <|
      .and_then (Fields.finds_need rfl (.text name)) <|
      .and_then (Fields.finds_need rfl (.text typeName)) <|
      .and_then (Fields.finds_getD rfl none (.option fun e _ _ => e.reads _)) <| .pure _ _
  | expr e span =>
    refine .of_fuel (fun fuel n hfuel => ?_) hfuel
    exact Reader.finds_case fun hn => Node.finds_fields (by rfl) (by decide) <|
      .and_then (Fields.finds_need rfl (e.reads _)) <| .pure _ _
  | ifElse cond thenBranch elseBranch span hthen helse =>
    rw [toTree, optionToTree_eq]
    refine .of_fuel (fun fuel n hfuel => ?_) hfuel
    exact Reader.finds_case fun hn => Node.finds_fields (by rfl) (by decide) <|
      .and_then (Fields.finds_need rfl (cond.reads _)) <|
      .and_then (Fields.finds_need rfl (hthen (by omega))) <|
      .and_then (Fields.finds_getD rfl none (.option fun s hs _ => helse s hs (by omega))) <| .pure _ _
  | whileLoop cond body span hbody =>
    refine .of_fuel (fun fuel n hfuel => ?_) hfuel
    exact Reader.finds_case fun hn => Node.finds_fields (by rfl) (by decide) <|
      .and_then (Fields.finds_need rfl (cond.reads _)) <|
      .and_then (Fields.finds_need rfl (hbody (by omega))) <| .pure _ _
  | forLoop init cond update body span hbody =>
    refine .of_fuel (fun fuel n hfuel => ?_) hfuel
    exact Reader.finds_case fun hn => Node.finds_fields (by rfl) (by decide) <|
      .and_then (Fields.finds_getD rfl none (.option fun e _ _ => e.reads _)) <|
      .and_then (Fields.finds_getD rfl none (.option fun e _ _ => e.reads _)) <|
      .and_then (Fields.finds_getD rfl none (.option fun e _ _ => e.reads _)) <|
      .and_then (Fields.finds_need rfl (hbody (by omega))) <| .pure _ _
  | breakLoop span =>
    rw [toTree, ← List.nil_append span.fields]
    refine .of_fuel (fun fuel n hfuel => ?_) hfuel
    exact Reader.finds_case fun hn => Node.finds_fields (by rfl) (by decide) <| .pure _ _
  | block stmts span hstmts =>
    rw [toTree, list_listToTrees]
    refine .of_fuel (fun fuel n hfuel => ?_) hfuel
    exact Reader.finds_case fun hn => Node.finds_fields (by rfl) (by decide) <|
      .and_then (Fields.finds_getD rfl [] (.list fun s hs _ => hstmts s hs (by omega))) <| .pure _ _
  | ret value span =>
    refine .of_fuel (fun fuel n hfuel => ?_) hfuel
    exact Reader.finds_case fun hn => Node.finds_fields (by rfl) (by decide) <|
      .and_then (Fields.finds_getD rfl none (.option fun e _ _ => e.reads _)) <| .pure _ _

theorem reads (s : Stmt) (n : Nat) : Reads ofTree? n s.toTree s := s.reads_within (Nat.lt_succ_self n)

end Stmt

theorem Param.reads (p : Param) (n : Nat) : Reads Param.ofTree? n p.toTree p :=
  Node.finds_fields (by rfl) (by decide) <|
    .and_then (Fields.finds_need rfl (.text p.name)) <|
    .and_then (Fields.finds_need rfl (.text p.typeName)) <| .pure p _

theorem Feature.reads (f : Feature) (n : Nat) : Reads Feature.ofTree? n f.toTree f := by
  cases f with
  | field f =>
    exact Reader.finds_case fun hn => Node.finds_fields (by rfl) (by decide) <|
      .and_then (Fields.finds_need rfl (.text f.name)) <|
      .and_then (Fields.finds_need rfl (.text f.typeName)) <|
      .and_then (Fields.finds_getD rfl none (.option fun e _ _ => e.reads _)) <| .pure _ _
  | method m =>
    rw [toTree, Stmt.list_listToTrees]
    exact Reader.finds_case fun hn => Node.finds_fields (by rfl) (by decide) <|
      .and_then (Fields.finds_need rfl (.text m.name)) <|
      .and_then (Fields.finds_need rfl (.text m.returnName)) <|
      .and_then (Fields.finds_getD rfl [] (.list fun p _ _ => p.reads _)) <|
      .and_then (Fields.finds_getD rfl [] (.list fun s _ _ => s.reads _)) <| .pure _ _

theorem ClassDecl.reads (c : ClassDecl) (n : Nat) : Reads ClassDecl.ofTree? n c.toTree c :=
  Node.finds_fields (by rfl) (by decide) <|
    .and_then (Fields.finds_need rfl (.text c.name)) <|
    .and_then (Fields.finds_getD rfl none (.option fun s _ _ => .text s)) <|
    .and_then (Fields.finds_getD rfl [] (.list fun f _ _ => f.reads _)) <|
    .and_then (Fields.finds_getD rfl none (.option fun s _ _ => .text s)) <| .pure c _

/-- A program is read back from its tree if the levels are enough for the tree. -/
theorem Program.reads (p : Program) (n : Nat) : Reads Program.ofTree? n p.toTree p :=
  Node.finds_fields (by rfl) (by decide) <|
    .and_then (Fields.finds_need rfl (.list fun c _ _ => c.reads _)) <| .pure p _

/-! ## Round trip -/

namespace Program

theorem dump_ron_iff (p : Program) (text : String) :
    p.dump .ron = .ok text ↔
      p.toTree.depth ≤ Tree.maxDepth ∧ text = Tree.Layout.ron.render 0 p.toTree ++ "\n" := by
  by_cases h : p.toTree.depth ≤ Tree.maxDepth
  · simp [dump, h, eq_comm]
  · simp [dump, h]

theorem load?_render (p : Program) (h : p.toTree.depth ≤ Tree.maxDepth) :
    load? (Tree.Layout.ron.render 0 p.toTree ++ "\n") =
      if p.toTree.readLevels ≤ Tree.maxDepth then some p else none := by
  rw [load?, Tree.parse?_render p.written h]
  exact p.reads Tree.maxDepth

/-- A program whose tree can be read with the levels there are is dumped, and its dump is loaded as
the program itself. If the tree takes more levels and is dumped nevertheless, the dump is not loaded
at all. -/
theorem dump_loads_back (p : Program) :
    (p.toTree.readLevels ≤ Tree.maxDepth → ∃ text, p.dump .ron = .ok text ∧ load? text = some p) ∧
    ∀ text, p.dump .ron = .ok text →
      load? text = if p.toTree.readLevels ≤ Tree.maxDepth then some p else none := by
  have hload : ∀ text, p.dump .ron = .ok text →
      load? text = if p.toTree.readLevels ≤ Tree.maxDepth then some p else none := by
    intro text htext
    obtain ⟨hdepth, rfl⟩ := (p.dump_ron_iff text).mp htext
    exact p.load?_render hdepth
  refine ⟨fun hlevels => ?_, hload⟩
  have hdepth := Nat.le_trans p.written.depth_le_readLevels hlevels
  have hdump := (p.dump_ron_iff _).mpr ⟨hdepth, rfl⟩
  exact ⟨_, hdump, by rw [hload _ hdump, if_pos hlevels]⟩

/-- A type of arrays in arrays, so many deep. -/
def nestedArrays : Nat → Ty
  | 0 => .cls "Node"
  | depth + 1 => .array (nestedArrays depth)

/-- A mark with a type of arrays and the last place that can be written. -/
def thornyMark (depth : Nat) : Mark :=
  { ty := some (nestedArrays depth)
    span := { last := { byte := 18446744073709551615, line := 1, col := 0 } } }

/-- A class with names, literals and a type that are awkward to write. -/
def thornyClass (depth : Nat) : ClassDecl :=
  { name := "Some\"\\'\n"
    file := some "\x00/\u200b.btm"
    features :=
      [.field { name := "None", typeName := "int" },
        .method { name := "é", returnName := "void", params := [{ name := "n", typeName := "int[]" }],
                  body := [.breakLoop {}, .ret (some (.binary .lessThan
                    (.intLit (-2147483648) (thornyMark depth))
                    (.stringLit "\t\r" {}) (thornyMark 0))) {}] }] }

/-- The tree of the second program is shallow enough to be written but not to be read. -/
theorem dump_loads_back_thornyClass :
    (∃ text, dump .ron { classes := [thornyClass 49] } = .ok text ∧
      load? text = some { classes := [thornyClass 49] }) ∧
    ∃ text, dump .ron { classes := [thornyClass 50] } = .ok text ∧ load? text = none := by
  constructor
  · exact (dump_loads_back _).1 (by decide +kernel)
  · have hdump := (dump_ron_iff { classes := [thornyClass 50] } _).mpr ⟨by decide +kernel, rfl⟩
    refine ⟨_, hdump, ?_⟩
    rw [(dump_loads_back _).2 _ hdump]
    exact if_neg (by decide +kernel)

end Program

end ClassCompiler
