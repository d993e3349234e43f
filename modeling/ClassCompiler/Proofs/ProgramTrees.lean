import ClassCompiler.Proofs.TreeInduction
import ClassCompiler.Proofs.TreeTokens
import ClassCompiler.Syntax.ToTree

/-!
# Trees of programs

Every tree that a program is dumped as is a written one: its numbers fit, its records and cases have
plain names that stand for nothing else, and no record is without fields.

Results:
1. `Written.ofCase`, `Written.ofFields`: nodes with fields.
2. `Expr.written`, `Stmt.written`, `Program.written`: each kind of node, from the nodes inside it.
-/

namespace ClassCompiler

open ClassCompiler.Tree (Written)

namespace Tree

/-- Fields whose keys are names and whose values are written trees. -/
def WrittenFields (fields : List (String × Tree)) : Prop :=
  ∀ f ∈ fields, Token.isName f.1 = true ∧ Written f.2

theorem WrittenFields.nil : WrittenFields [] := by simp [WrittenFields]

theorem WrittenFields.cons {key : String} {t : Tree} {fields : List (String × Tree)}
    (hkey : Token.isName key = true) (h : Written t) (hfields : WrittenFields fields) :
    WrittenFields ((key, t) :: fields) :=
  List.forall_mem_cons.mpr ⟨⟨hkey, h⟩, hfields⟩

namespace Written

theorem ofUInt64 (w : UInt64) : Written (.ofUInt64 w) := .number (by simpa [Number.fits] using w.toNat_lt)

theorem ofInt32 (i : Int32) : Written (.ofInt32 i) := by
  have hlow : -2147483648 ≤ i.toInt := i.minValue_le_toInt
  have hhigh : i.toInt ≤ 2147483647 := i.toInt_le
  rw [Tree.ofInt32]
  split
  · refine .number (decide_eq_true ?_)
    change _ ≤ 9223372036854775808
    omega
  · refine .number (decide_eq_true ?_)
    change _ < 18446744073709551616
    omega

theorem option {α : Type} {write : α → Tree} {o : Option α} (h : ∀ a, o = some a → Written (write a)) :
    Written (.ofOption write o) := by
  cases o with
  | none => exact .absent
  | some a => exact .present (h a rfl)

theorem ofList {α : Type} {write : α → Tree} {xs : List α} (h : ∀ a ∈ xs, Written (write a)) :
    Written (.ofList write xs) := by
  refine .list fun t ht => ?_
  obtain ⟨a, ha, rfl⟩ := List.mem_map.mp ht
  exact h a ha

theorem ofFields {name : String} {f : String × Tree} {fields : List (String × Tree)}
    (hname : isCaseName name = true) (h : WrittenFields (f :: fields)) :
    Written (.record (some name) (f :: fields)) :=
  .record hname (List.cons_ne_nil _ _) (fun g hg => (h g hg).1) fun g hg => (h g hg).2

theorem ofCase {case name : String} {f : String × Tree} {fields : List (String × Tree)}
    (hnames : (isCaseName case && isCaseName name) = true) (h : WrittenFields (f :: fields)) :
    Written (.ofCase case name (f :: fields)) := by
  rw [Bool.and_eq_true] at hnames
  exact .case hnames.1 (.ofFields hnames.2 h)

end Written

end Tree

/-! ## Nodes -/

theorem Position.written (p : Position) : Written p.toTree :=
  .ofFields rfl <| .cons rfl (.ofUInt64 p.byte) <| .cons rfl (.ofUInt64 p.line) <|
    .cons rfl (.ofUInt64 p.col) .nil

theorem Span.written (s : Span) : Written s.toTree :=
  .ofFields rfl <| .cons rfl s.first.written <| .cons rfl s.last.written .nil

theorem Span.writtenFields (s : Span) : Tree.WrittenFields s.fields := .cons rfl s.written .nil

theorem Ty.written (t : Ty) : Written t.toTree := by
  induction t with
  | cls name => exact .case rfl (.text name)
  | array elem ih => exact .case rfl ih
  | int | boolean | void | null | untyped => exact .word rfl

theorem Mark.written (m : Mark) : Tree.WrittenFields m.fields :=
  .cons rfl (.option fun t _ => t.written) m.span.writtenFields

theorem Qualifier.written (q : Qualifier) : Written q.toTree := by
  cases q <;> exact .word rfl

theorem BinaryOp.written (op : BinaryOp) : Written (.word op.label) := by
  cases op <;> exact .word rfl

theorem UnaryOp.written (op : UnaryOp) : Written (.word op.label) := by
  cases op <;> exact .word rfl

namespace Expr

theorem optionToTree_eq (o : Option Expr) : optionToTree o = .ofOption toTree o := by
  cases o <;> rfl

theorem list_listToTrees (es : List Expr) : .list (listToTrees es) = Tree.ofList toTree es := by
  rw [Tree.ofList]
  congr 1
  induction es with
  | nil => rfl
  | cons e es ih => rw [listToTrees, ih, List.map_cons]

theorem written (e : Expr) : Written e.toTree := by
  induction e using Expr.induction with
  | dispatch receiver method args m hreceiver hargs =>
    rw [toTree, optionToTree_eq, list_listToTrees]
    exact .ofCase rfl <| .cons rfl (.option hreceiver) <| .cons rfl (.text method) <|
      .cons rfl (.ofList hargs) <| m.written
  | new typeName m =>
    exact .ofCase rfl <| .cons rfl (.text typeName) <| m.written
  | newArray elemName size m hsize =>
    exact .ofCase rfl <| .cons rfl (.text elemName) <| .cons rfl hsize <| m.written
  | instanceOf operand typeName m hoperand =>
    exact .ofCase rfl <| .cons rfl hoperand <| .cons rfl (.text typeName) <| m.written
  | cast typeName operand m hoperand =>
    exact .ofCase rfl <| .cons rfl (.text typeName) <| .cons rfl hoperand <| m.written
  | assign qualifier name value m hvalue =>
    exact .ofCase rfl <| .cons rfl (.option fun q _ => q.written) <| .cons rfl (.text name) <|
      .cons rfl hvalue <| m.written
  | arrayAssign qualifier name index value m hindex hvalue =>
    exact .ofCase rfl <| .cons rfl (.option fun q _ => q.written) <| .cons rfl (.text name) <|
      .cons rfl hindex <| .cons rfl hvalue <| m.written
  | binary op lhs rhs m hlhs hrhs =>
    exact .ofCase rfl <| .cons rfl op.written <| .cons rfl hlhs <| .cons rfl hrhs <| m.written
  | unary op after operand m hoperand =>
    exact .ofCase rfl <| .cons rfl op.written <| .cons rfl (.flag after) <| .cons rfl hoperand <|
      m.written
  | var object name m hobject =>
    rw [toTree, optionToTree_eq]
    exact .ofCase rfl <| .cons rfl (.option hobject) <| .cons rfl (.text name) <| m.written
  | arrayElem object name index m hobject hindex =>
    rw [toTree, optionToTree_eq]
    exact .ofCase rfl <| .cons rfl (.option hobject) <| .cons rfl (.text name) <|
      .cons rfl hindex <| m.written
  | intLit value m =>
    exact .ofCase rfl <| .cons rfl (.ofInt32 value) <| m.written
  | boolLit value m =>
    exact .ofCase rfl <| .cons rfl (.flag value) <| m.written
  | stringLit value m =>
    exact .ofCase rfl <| .cons rfl (.text value) <| m.written

end Expr

namespace Stmt

theorem optionToTree_eq (o : Option Stmt) : optionToTree o = .ofOption toTree o := by
  cases o <;> rfl

theorem list_listToTrees (ss : List Stmt) : .list (listToTrees ss) = Tree.ofList toTree ss := by
  rw [Tree.ofList]
  congr 1
  induction ss with
  | nil => rfl
  | cons s ss ih => rw [listToTrees, ih, List.map_cons]

theorem written (s : Stmt) : Written s.toTree := by
  induction s using Stmt.induction with
  | decl name typeName init span =>
    exact .ofCase rfl <| .cons rfl (.text name) <| .cons rfl (.text typeName) <|
      .cons rfl (.option fun e _ => e.written) <| span.writtenFields
  | expr e span =>
    exact .ofCase rfl <| .cons rfl e.written <| span.writtenFields
  | ifElse cond thenBranch elseBranch span hthen helse =>
    rw [toTree, optionToTree_eq]
    exact .ofCase rfl <| .cons rfl cond.written <| .cons rfl hthen <| .cons rfl (.option helse) <|
      span.writtenFields
  | whileLoop cond body span hbody =>
    exact .ofCase rfl <| .cons rfl cond.written <| .cons rfl hbody <| span.writtenFields
  | forLoop init cond update body span hbody =>
    exact .ofCase rfl <| .cons rfl (.option fun e _ => e.written) <|
      .cons rfl (.option fun e _ => e.written) <| .cons rfl (.option fun e _ => e.written) <|
      .cons rfl hbody <| span.writtenFields
  | breakLoop span =>
    exact .ofCase rfl <| span.writtenFields
  | block stmts span hstmts =>
    rw [toTree, list_listToTrees]
    exact .ofCase rfl <| .cons rfl (.ofList hstmts) <| span.writtenFields
  | ret value span =>
    exact .ofCase rfl <| .cons rfl (.option fun e _ => e.written) <| span.writtenFields

end Stmt

theorem Param.written (p : Param) : Written p.toTree :=
  .ofFields rfl <| .cons rfl (.text p.name) <| .cons rfl (.text p.typeName) p.span.writtenFields

theorem Feature.written (f : Feature) : Written f.toTree := by
  cases f with
  | field f =>
    exact .ofCase rfl <| .cons rfl (.text f.name) <| .cons rfl (.text f.typeName) <|
      .cons rfl (.option fun e _ => e.written) f.span.writtenFields
  | method m =>
    rw [toTree, Stmt.list_listToTrees]
    exact .ofCase rfl <| .cons rfl (.text m.name) <| .cons rfl (.text m.returnName) <|
      .cons rfl (.ofList fun p _ => p.written) <|
      .cons rfl (.ofList fun s _ => s.written) m.span.writtenFields

theorem ClassDecl.written (c : ClassDecl) : Written c.toTree :=
  .ofFields rfl <| .cons rfl (.text c.name) <| .cons rfl (.option fun s _ => .text s) <|
    .cons rfl (.ofList fun f _ => f.written) <|
    .cons rfl (.option fun s _ => .text s) c.span.writtenFields

theorem Program.written (p : Program) : Written p.toTree :=
  .ofFields rfl <| .cons rfl (.ofList fun c _ => c.written) p.span.writtenFields

end ClassCompiler
