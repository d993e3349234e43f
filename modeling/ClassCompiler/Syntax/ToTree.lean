import ClassCompiler.Syntax
import ClassCompiler.Tree

/-!
# Programs as value trees

Every node is a record whose fields come in a fixed order, with the span last and, for expressions,
the type just before it. Nodes of several kinds are cases that hold the record of their kind.
-/

namespace ClassCompiler

def Position.toTree (p : Position) : Tree :=
  .record (some "Position") [("byte", .ofUInt64 p.byte), ("line", .ofUInt64 p.line), ("col", .ofUInt64 p.col)]

def Span.toTree (s : Span) : Tree :=
  .record (some "Span") [("start", s.first.toTree), ("end", s.last.toTree)]

def Ty.label : Ty → String
  | .int => "Int"
  | .boolean => "Boolean"
  | .void => "Void"
  | .null => "Null"
  | .untyped => "Untyped"
  | .cls _ => "Class"
  | .array _ => "Array"

def Ty.toTree : Ty → Tree
  | .cls name => .tuple (some "Class") [.text name]
  | .array elem => .tuple (some "Array") [elem.toTree]
  | t => .word t.label

def Qualifier.label : Qualifier → String
  | .this => "This"
  | .super => "Super"

def BinaryOp.label : BinaryOp → String
  | .add => "Add"
  | .subtract => "Subtract"
  | .multiply => "Multiply"
  | .divide => "Divide"
  | .modulus => "Modulus"
  | .lessThan => "LessThan"
  | .greaterThan => "GreaterThan"
  | .lessEquals => "LessEquals"
  | .greaterEquals => "GreaterEquals"
  | .equals => "Equals"
  | .notEquals => "NotEquals"
  | .and => "And"
  | .or => "Or"

def UnaryOp.label : UnaryOp → String
  | .negate => "Negate"
  | .not => "Not"
  | .increment => "Increment"
  | .decrement => "Decrement"

def Qualifier.toTree (q : Qualifier) : Tree := .word q.label

/-- The field that every node ends with. -/
def Span.fields (s : Span) : List (String × Tree) := [("span", s.toTree)]

/-- The fields that every expression ends with. -/
def Mark.fields (m : Mark) : List (String × Tree) := ("ty", .ofOption Ty.toTree m.ty) :: m.span.fields

namespace Expr

mutual

def toTree : Expr → Tree
  | .dispatch receiver method args m =>
    .ofCase "Dispatch" "DispatchExpr"
      ([("receiver", optionToTree receiver), ("method", .text method), ("args", .list (listToTrees args))]
        ++ m.fields)
  | .new typeName m => .ofCase "New" "NewExpr" ([("ty_name", .text typeName)] ++ m.fields)
  | .newArray elemName size m =>
    .ofCase "NewArray" "NewArrayExpr"
      ([("elem_ty_name", .text elemName), ("size", size.toTree)] ++ m.fields)
  | .instanceOf operand typeName m =>
    .ofCase "Instanceof" "InstanceofExpr"
      ([("expr", operand.toTree), ("ty_name", .text typeName)] ++ m.fields)
  | .cast typeName operand m =>
    .ofCase "Cast" "CastExpr" ([("ty_name", .text typeName), ("expr", operand.toTree)] ++ m.fields)
  | .assign qualifier name value m =>
    .ofCase "Assign" "AssignExpr"
      ([("qualifier", .ofOption Qualifier.toTree qualifier), ("name", .text name), ("expr", value.toTree)]
        ++ m.fields)
  | .arrayAssign qualifier name index value m =>
    .ofCase "ArrayAssign" "ArrayAssignExpr"
      ([("qualifier", .ofOption Qualifier.toTree qualifier), ("name", .text name), ("index", index.toTree),
        ("expr", value.toTree)] ++ m.fields)
  | .binary op lhs rhs m =>
    .ofCase "BinOp" "BinOpExpr"
      ([("op", .word op.label), ("lhs", lhs.toTree), ("rhs", rhs.toTree)] ++ m.fields)
  | .unary op after operand m =>
    .ofCase "UnOp" "UnOpExpr"
      ([("op", .word op.label), ("postfix", .flag after), ("expr", operand.toTree)] ++ m.fields)
  | .var object name m =>
    .ofCase "Var" "VarExpr" ([("object", optionToTree object), ("name", .text name)] ++ m.fields)
  | .arrayElem object name index m =>
    .ofCase "ArrayElem" "ArrayElemExpr"
      ([("object", optionToTree object), ("name", .text name), ("index", index.toTree)] ++ m.fields)
  | .intLit value m => .ofCase "Int" "IntLit" ([("value", .ofInt32 value)] ++ m.fields)
  | .boolLit value m => .ofCase "Bool" "BoolLit" ([("value", .flag value)] ++ m.fields)
  | .stringLit value m => .ofCase "String" "StringLit" ([("value", .text value)] ++ m.fields)

def optionToTree : Option Expr → Tree
  | none => .absent
  | some e => .present e.toTree

def listToTrees : List Expr → List Tree
  | [] => []
  | e :: es => e.toTree :: listToTrees es

end

end Expr

namespace Stmt

mutual

def toTree : Stmt → Tree
  | .decl name typeName init s =>
    .ofCase "Decl" "DeclStmt"
      ([("name", .text name), ("ty", .text typeName), ("init", .ofOption Expr.toTree init)] ++ s.fields)
  | .expr e s => .ofCase "Expr" "ExprStmt" ([("expr", e.toTree)] ++ s.fields)
  | .ifElse cond thenBranch elseBranch s =>
    .ofCase "If" "IfStmt"
      ([("cond", cond.toTree), ("then_stmt", thenBranch.toTree), ("else_stmt", optionToTree elseBranch)]
        ++ s.fields)
  | .whileLoop cond body s =>
    .ofCase "While" "WhileStmt" ([("cond", cond.toTree), ("body", body.toTree)] ++ s.fields)
  | .forLoop init cond update body s =>
    .ofCase "For" "ForStmt"
      ([("init", .ofOption Expr.toTree init), ("cond", .ofOption Expr.toTree cond),
        ("update", .ofOption Expr.toTree update), ("body", body.toTree)] ++ s.fields)
  | .breakLoop s => .ofCase "Break" "BreakStmt" s.fields
  | .block stmts s => .ofCase "Block" "BlockStmt" ([("stmts", .list (listToTrees stmts))] ++ s.fields)
  | .ret value s =>
    .ofCase "Return" "ReturnStmt" ([("expr", .ofOption Expr.toTree value)] ++ s.fields)

def optionToTree : Option Stmt → Tree
  | none => .absent
  | some s => .present s.toTree

def listToTrees : List Stmt → List Tree
  | [] => []
  | s :: ss => s.toTree :: listToTrees ss

end

end Stmt

def Param.toTree (p : Param) : Tree :=
  .record (some "Formal") ([("name", .text p.name), ("ty", .text p.typeName)] ++ p.span.fields)

def Feature.toTree : Feature → Tree
  | .field f =>
    .ofCase "Field" "Field"
      ([("name", .text f.name), ("ty", .text f.typeName), ("init", .ofOption Expr.toTree f.init)]
        ++ f.span.fields)
  | .method m =>
    .ofCase "Method" "Method"
      ([("name", .text m.name), ("return_ty", .text m.returnName),
        ("params", .ofList Param.toTree m.params), ("body", .list (Stmt.listToTrees m.body))]
        ++ m.span.fields)

def ClassDecl.toTree (c : ClassDecl) : Tree :=
  .record (some "Class")
    ([("name", .text c.name), ("parent", .ofOption .text c.parent),
      ("features", .ofList Feature.toTree c.features), ("file", .ofOption .text c.file)]
      ++ c.span.fields)

def Program.toTree (p : Program) : Tree :=
  .record (some "Program") ([("classes", .ofList ClassDecl.toTree p.classes)] ++ p.span.fields)

end ClassCompiler
