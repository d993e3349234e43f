import ClassCompiler.Syntax

/-!
# Induction on trees

Expressions hold optional expressions and lists of them, statements likewise. The principles here
give one hypothesis for each part of a tree, whatever way the tree holds it.

Results:
1. `Expr.induction`: a property of all expressions.
2. `Stmt.induction`: a property of all statements.
-/

namespace ClassCompiler

/-- To prove a property of every expression, prove it of each shape from its parts. -/
@[elab_as_elim]
theorem Expr.induction {motive : Expr → Prop}
    (dispatch : ∀ receiver method args mark, (∀ e, receiver = some e → motive e) →
      (∀ e ∈ args, motive e) → motive (.dispatch receiver method args mark))
    (new : ∀ typeName mark, motive (.new typeName mark))
    (newArray : ∀ elemName size mark, motive size → motive (.newArray elemName size mark))
    (instanceOf : ∀ operand typeName mark, motive operand →
      motive (.instanceOf operand typeName mark))
    (cast : ∀ typeName operand mark, motive operand → motive (.cast typeName operand mark))
    (assign : ∀ qualifier name value mark, motive value →
      motive (.assign qualifier name value mark))
    (arrayAssign : ∀ qualifier name index value mark, motive index → motive value →
      motive (.arrayAssign qualifier name index value mark))
    (binary : ∀ op lhs rhs mark, motive lhs → motive rhs → motive (.binary op lhs rhs mark))
    (unary : ∀ op after operand mark, motive operand → motive (.unary op after operand mark))
    (var : ∀ object name mark, (∀ e, object = some e → motive e) →
      motive (.var object name mark))
    (arrayElem : ∀ object name index mark, (∀ e, object = some e → motive e) → motive index →
      motive (.arrayElem object name index mark))
    (intLit : ∀ value mark, motive (.intLit value mark))
    (boolLit : ∀ value mark, motive (.boolLit value mark))
    (stringLit : ∀ value mark, motive (.stringLit value mark))
    (e : Expr) : motive e := by
  refine @Expr.rec motive (fun o => ∀ e, o = some e → motive e) (fun es => ∀ e ∈ es, motive e)
    ?_ new newArray instanceOf cast assign arrayAssign binary unary ?_ ?_ intLit boolLit stringLit
    ?_ ?_ ?_ ?_ e
  · exact fun receiver method args mark hr ha => dispatch receiver method args mark hr ha
  · exact fun object name mark ho => var object name mark ho
  · exact fun object name index mark ho hi => arrayElem object name index mark ho hi
  · exact fun e he => nomatch he
  · exact fun e he e' heq => Option.some.inj heq ▸ he
  · exact fun e he => absurd he List.not_mem_nil
  · intro e es he hes e' hmem
    rcases List.mem_cons.mp hmem with rfl | hmem
    · exact he
    · exact hes e' hmem

/-- To prove a property of every statement, prove it of each shape from the statements in it. -/
@[elab_as_elim]
theorem Stmt.induction {motive : Stmt → Prop}
    (decl : ∀ name typeName init span, motive (.decl name typeName init span))
    (expr : ∀ e span, motive (.expr e span))
    (ifElse : ∀ cond thenBranch elseBranch span, motive thenBranch →
      (∀ s, elseBranch = some s → motive s) → motive (.ifElse cond thenBranch elseBranch span))
    (whileLoop : ∀ cond body span, motive body → motive (.whileLoop cond body span))
    (forLoop : ∀ init cond update body span, motive body →
      motive (.forLoop init cond update body span))
    (breakLoop : ∀ span, motive (.breakLoop span))
    (block : ∀ stmts span, (∀ s ∈ stmts, motive s) → motive (.block stmts span))
    (ret : ∀ value span, motive (.ret value span))
    (s : Stmt) : motive s := by
  refine @Stmt.rec motive (fun o => ∀ s, o = some s → motive s) (fun ss => ∀ s ∈ ss, motive s)
    decl expr ?_ whileLoop forLoop breakLoop ?_ ret
    ?_ ?_ ?_ ?_ s
  · exact fun cond t e span ht he => ifElse cond t e span ht he
  · exact fun stmts span hs => block stmts span hs
  · exact fun s hs => nomatch hs
  · exact fun s hs s' heq => Option.some.inj heq ▸ hs
  · exact fun s hs => absurd hs List.not_mem_nil
  · intro s ss hs hss s' hmem
    rcases List.mem_cons.mp hmem with rfl | hmem
    · exact hs
    · exact hss s' hmem

end ClassCompiler
