import ClassCompiler.Syntax.ToTree
import ClassCompiler.Tree.Reading

/-!
# Programs from value trees

The fields of a node may come in any order. Spans, types, lists and optional parts may be missing:
they are then default spans, no types, empty lists and no parts. Every type, expression or statement
inside another one takes levels, so that the levels left are fuel enough for reading it.
-/

namespace ClassCompiler

open ClassCompiler.Tree (Fields Reader Reading)

def Position.ofTree? : Reader Position := fun r t => do
  let fs ← Reader.fields "Position" ["byte", "line", "col"] r t
  some {
    byte := ← fs.getD? "byte" 0 .word
    line := ← fs.need? "line" .word
    col := ← fs.need? "col" .word }

def Span.ofTree? : Reader Span := fun r t => do
  let fs ← Reader.fields "Span" ["start", "end"] r t
  some {
    first := ← fs.need? "start" Position.ofTree?
    last := ← fs.need? "end" Position.ofTree? }

/-- The span of a node. -/
def Span.ofFields? (fs : Fields) : Option Span := fs.getD? "span" {} Span.ofTree?

/-- Types without a type in them, apart from classes. -/
def Ty.bare : List Ty := [.int, .boolean, .void, .null, .untyped]

/-- Reads a type in which fewer types than the fuel are nested. -/
def Ty.ofTreeWithin? : (fuel : Nat) → Reader Ty
  | 0, _, _ => none
  | fuel + 1, r, t =>
    match t with
    | .tuple (some "Class") [t] => do some (.cls (← Reader.text (← r.down? 2) t))
    | .tuple (some "Array") [t] => do some (.array (← Ty.ofTreeWithin? fuel (← r.down? 2) t))
    | t => Reader.bareCase Ty.label Ty.bare r t

/-- Reads a type. -/
def Ty.ofTree? : Reader Ty := fun r t => Ty.ofTreeWithin? (r.levels + 1) r t

def Qualifier.ofTree? : Reader Qualifier := .bareCase Qualifier.label [.this, .super]

def BinaryOp.ofTree? : Reader BinaryOp :=
  .bareCase BinaryOp.label
    [.add, .subtract, .multiply, .divide, .modulus, .lessThan, .greaterThan, .lessEquals,
      .greaterEquals, .equals, .notEquals, .and, .or]

def UnaryOp.ofTree? : Reader UnaryOp :=
  .bareCase UnaryOp.label [.negate, .not, .increment, .decrement]

/-- The fields that every expression ends with. -/
def Mark.ofFields? (fs : Fields) : Option Mark := do
  some { ty := ← fs.option? "ty" Ty.ofTree?, span := ← Span.ofFields? fs }

/-- The fields and the mark of an expression whose own fields are given. -/
def Expr.fields? (name : String) (own : List String) : Reader (Fields × Mark) := fun r t => do
  let fs ← Reader.fields name (own ++ ["ty", "span"]) r t
  some (fs, ← Mark.ofFields? fs)

/-- The fields and the span of a node whose own fields are given. -/
def Node.fields? (name : String) (own : List String) : Reader (Fields × Span) := fun r t => do
  let fs ← Reader.fields name (own ++ ["span"]) r t
  some (fs, ← Span.ofFields? fs)

/-- Reads an expression in which fewer expressions than the fuel are nested. -/
def Expr.ofTreeWithin? : (fuel : Nat) → Reader Expr
  | 0, _, _ => none
  | fuel + 1, r, t => do
    let (case, r, t) ← Reader.recordCase r t
    let sub := Expr.ofTreeWithin? fuel
    match case with
    | "Dispatch" =>
      let (fs, m) ← fields? "DispatchExpr" ["receiver", "method", "args"] r t
      some (.dispatch (← fs.option? "receiver" sub) (← fs.need? "method" .text)
        (← fs.list? "args" sub) m)
    | "New" =>
      let (fs, m) ← fields? "NewExpr" ["ty_name"] r t
      some (.new (← fs.need? "ty_name" .text) m)
    | "NewArray" =>
      let (fs, m) ← fields? "NewArrayExpr" ["elem_ty_name", "size"] r t
      some (.newArray (← fs.need? "elem_ty_name" .text) (← fs.need? "size" sub) m)
    | "Instanceof" =>
      let (fs, m) ← fields? "InstanceofExpr" ["expr", "ty_name"] r t
      some (.instanceOf (← fs.need? "expr" sub) (← fs.need? "ty_name" .text) m)
    | "Cast" =>
      let (fs, m) ← fields? "CastExpr" ["ty_name", "expr"] r t
      some (.cast (← fs.need? "ty_name" .text) (← fs.need? "expr" sub) m)
    | "Assign" =>
      let (fs, m) ← fields? "AssignExpr" ["qualifier", "name", "expr"] r t
      some (.assign (← fs.option? "qualifier" Qualifier.ofTree?) (← fs.need? "name" .text)
        (← fs.need? "expr" sub) m)
    | "ArrayAssign" =>
      let (fs, m) ← fields? "ArrayAssignExpr" ["qualifier", "name", "index", "expr"] r t
      some (.arrayAssign (← fs.option? "qualifier" Qualifier.ofTree?) (← fs.need? "name" .text)
        (← fs.need? "index" sub) (← fs.need? "expr" sub) m)
    | "BinOp" =>
      let (fs, m) ← fields? "BinOpExpr" ["op", "lhs", "rhs"] r t
      some (.binary (← fs.need? "op" BinaryOp.ofTree?) (← fs.need? "lhs" sub)
        (← fs.need? "rhs" sub) m)
    | "UnOp" =>
      let (fs, m) ← fields? "UnOpExpr" ["op", "postfix", "expr"] r t
      some (.unary (← fs.need? "op" UnaryOp.ofTree?) (← fs.getD? "postfix" false .flag)
        (← fs.need? "expr" sub) m)
    | "Var" =>
      let (fs, m) ← fields? "VarExpr" ["object", "name"] r t
      some (.var (← fs.option? "object" sub) (← fs.need? "name" .text) m)
    | "ArrayElem" =>
      let (fs, m) ← fields? "ArrayElemExpr" ["object", "name", "index"] r t
      some (.arrayElem (← fs.option? "object" sub) (← fs.need? "name" .text)
        (← fs.need? "index" sub) m)
    | "Int" =>
      let (fs, m) ← fields? "IntLit" ["value"] r t
      some (.intLit (← fs.need? "value" .int) m)
    | "Bool" =>
      let (fs, m) ← fields? "BoolLit" ["value"] r t
      some (.boolLit (← fs.need? "value" .flag) m)
    | "String" =>
      let (fs, m) ← fields? "StringLit" ["value"] r t
      some (.stringLit (← fs.need? "value" .text) m)
    | _ => none

/-- Reads an expression. -/
def Expr.ofTree? : Reader Expr := fun r t => Expr.ofTreeWithin? (r.levels + 1) r t

/-- Reads a statement in which fewer statements than the fuel are nested. -/
def Stmt.ofTreeWithin? : (fuel : Nat) → Reader Stmt
  | 0, _, _ => none
  | fuel + 1, r, t => do
    let (case, r, t) ← Reader.recordCase r t
    let sub := Stmt.ofTreeWithin? fuel
    let expr := Expr.ofTree?
    match case with
    | "Decl" =>
      let (fs, s) ← Node.fields? "DeclStmt" ["name", "ty", "init"] r t
      some (.decl (← fs.need? "name" .text) (← fs.need? "ty" .text)
        (← fs.option? "init" expr) s)
    | "Expr" =>
      let (fs, s) ← Node.fields? "ExprStmt" ["expr"] r t
      some (.expr (← fs.need? "expr" expr) s)
    | "If" =>
      let (fs, s) ← Node.fields? "IfStmt" ["cond", "then_stmt", "else_stmt"] r t
      some (.ifElse (← fs.need? "cond" expr) (← fs.need? "then_stmt" sub)
        (← fs.option? "else_stmt" sub) s)
    | "While" =>
      let (fs, s) ← Node.fields? "WhileStmt" ["cond", "body"] r t
      some (.whileLoop (← fs.need? "cond" expr) (← fs.need? "body" sub) s)
    | "For" =>
      let (fs, s) ← Node.fields? "ForStmt" ["init", "cond", "update", "body"] r t
      some (.forLoop (← fs.option? "init" expr) (← fs.option? "cond" expr)
        (← fs.option? "update" expr) (← fs.need? "body" sub) s)
    | "Break" =>
      let (_, s) ← Node.fields? "BreakStmt" [] r t
      some (.breakLoop s)
    | "Block" =>
      let (fs, s) ← Node.fields? "BlockStmt" ["stmts"] r t
      some (.block (← fs.list? "stmts" sub) s)
    | "Return" =>
      let (fs, s) ← Node.fields? "ReturnStmt" ["expr"] r t
      some (.ret (← fs.option? "expr" expr) s)
    | _ => none

/-- Reads a statement. -/
def Stmt.ofTree? : Reader Stmt := fun r t => Stmt.ofTreeWithin? (r.levels + 1) r t

def Param.ofTree? : Reader Param := fun r t => do
  let (fs, span) ← Node.fields? "Formal" ["name", "ty"] r t
  some { name := ← fs.need? "name" .text, typeName := ← fs.need? "ty" .text, span }

def Feature.ofTree? : Reader Feature := fun r t => do
  let (case, r, t) ← Reader.recordCase r t
  match case with
  | "Field" =>
    let (fs, span) ← Node.fields? "Field" ["name", "ty", "init"] r t
    some (.field {
      name := ← fs.need? "name" .text, typeName := ← fs.need? "ty" .text
      init := ← fs.option? "init" Expr.ofTree?, span })
  | "Method" =>
    let (fs, span) ← Node.fields? "Method" ["name", "return_ty", "params", "body"] r t
    some (.method {
      name := ← fs.need? "name" .text, returnName := ← fs.need? "return_ty" .text
      params := ← fs.list? "params" Param.ofTree?, body := ← fs.list? "body" Stmt.ofTree?
      span })
  | _ => none

def ClassDecl.ofTree? : Reader ClassDecl := fun r t => do
  let (fs, span) ← Node.fields? "Class" ["name", "parent", "features", "file"] r t
  some {
    name := ← fs.need? "name" .text, parent := ← fs.option? "parent" .text
    features := ← fs.list? "features" Feature.ofTree?
    file := ← fs.option? "file" .text, span }

def Program.ofTree? : Reader Program := fun r t => do
  let (fs, span) ← Node.fields? "Program" ["classes"] r t
  some { classes := ← fs.need? "classes" (.list ClassDecl.ofTree?), span }

end ClassCompiler
