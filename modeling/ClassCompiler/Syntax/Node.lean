import ClassCompiler.Syntax

/-!
# The nodes of a tree in order

A tree as the list of its nodes, from left to right, each before what it contains. What only looks
at a tree without changing it is a function of this list.
-/

namespace ClassCompiler

mutual

/-- An expression and all its parts. -/
def Expr.nodes : Expr → List Expr
  | e@(.dispatch receiver _ args _) => e :: (Expr.nodes? receiver ++ Expr.nodesAll args)
  | e@(.new _ _) => [e]
  | e@(.newArray _ size _) => e :: size.nodes
  | e@(.instanceOf operand _ _) => e :: operand.nodes
  | e@(.cast _ operand _) => e :: operand.nodes
  | e@(.assign _ _ value _) => e :: value.nodes
  | e@(.arrayAssign _ _ index value _) => e :: (index.nodes ++ value.nodes)
  | e@(.binary _ lhs rhs _) => e :: (lhs.nodes ++ rhs.nodes)
  | e@(.unary _ _ operand _) => e :: operand.nodes
  | e@(.var object _ _) => e :: Expr.nodes? object
  | e@(.arrayElem object _ index _) => e :: (Expr.nodes? object ++ index.nodes)
  | e@(.intLit _ _) => [e]
  | e@(.boolLit _ _) => [e]
  | e@(.stringLit _ _) => [e]

def Expr.nodes? : Option Expr → List Expr
  | none => []
  | some e => e.nodes

def Expr.nodesAll : List Expr → List Expr
  | [] => []
  | e :: es => e.nodes ++ Expr.nodesAll es

end

/-- A node of a tree. -/
inductive Node where
  | program (program : Program)
  | cls (cls : ClassDecl)
  | feature (feature : Feature)
  | param (param : Param)
  | stmt (stmt : Stmt)
  | expr (expr : Expr)

/-- The nodes of an optional expression. -/
def Node.ofExpr? (e : Option Expr) : List Node := (Expr.nodes? e).map .expr

def Node.ofExpr (e : Expr) : List Node := e.nodes.map .expr

mutual

def Stmt.nodes : Stmt → List Node
  | s@(.decl _ _ init _) => .stmt s :: Node.ofExpr? init
  | s@(.expr e _) => .stmt s :: Node.ofExpr e
  | s@(.ifElse cond t e _) => .stmt s :: (Node.ofExpr cond ++ t.nodes ++ Stmt.nodes? e)
  | s@(.whileLoop cond body _) => .stmt s :: (Node.ofExpr cond ++ body.nodes)
  | s@(.forLoop init cond update body _) =>
    .stmt s :: (Node.ofExpr? init ++ Node.ofExpr? cond ++ Node.ofExpr? update ++ body.nodes)
  | s@(.breakLoop _) => [.stmt s]
  | s@(.block stmts _) => .stmt s :: Stmt.nodesAll stmts
  | s@(.ret value _) => .stmt s :: Node.ofExpr? value

def Stmt.nodes? : Option Stmt → List Node
  | none => []
  | some s => s.nodes

def Stmt.nodesAll : List Stmt → List Node
  | [] => []
  | s :: ss => s.nodes ++ Stmt.nodesAll ss

end

/-- The nodes inside a method. -/
def Method.nodes (m : Method) : List Node := m.params.map .param ++ Stmt.nodesAll m.body

def Feature.nodes : Feature → List Node
  | f@(.field d) => .feature f :: Node.ofExpr? d.init
  | f@(.method m) => .feature f :: m.nodes

def ClassDecl.nodes (c : ClassDecl) : List Node := .cls c :: c.features.flatMap Feature.nodes

def Program.nodes (p : Program) : List Node := .program p :: p.classes.flatMap ClassDecl.nodes

namespace Node

def expr? : Node → Option Expr
  | expr e => some e
  | _ => none

def span : Node → Span
  | program p => p.span
  | cls c => c.span
  | feature f => f.span
  | param p => p.span
  | stmt s => s.span
  | expr e => e.span

/-- The name of a node in a listing of spans: features go by their own names. -/
def label : Node → String
  | program _ => "program"
  | cls _ => "class"
  | feature f => f.name
  | param _ => "formal"
  | stmt _ => "stmt"
  | expr _ => "expr"

end Node

/-! ## Steps of a walk -/

def Expr.step : Expr → String
  | dispatch _ method _ _ => "dispatch " ++ method
  | new typeName _ => "new " ++ typeName
  | newArray elemName _ _ => "new_array " ++ elemName
  | instanceOf _ typeName _ => "instanceof " ++ typeName
  | cast typeName _ _ => "cast " ++ typeName
  | assign _ name _ _ => "assign " ++ name
  | arrayAssign _ name _ _ _ => "array_assign " ++ name
  | binary op _ _ _ => "bin_op " ++ op.symbol
  | unary op _ _ _ => "un_op " ++ op.symbol
  | var _ name _ => "var " ++ name
  | arrayElem _ name _ _ => "array_elem " ++ name
  | intLit value _ => "int_lit " ++ toString value.toInt
  | boolLit value _ => "bool_lit " ++ toString value
  | stringLit value _ => "string_lit " ++ value

def Stmt.step : Stmt → String
  | decl name _ _ _ => "decl " ++ name
  | expr _ _ => "expr_stmt"
  | ifElse _ _ _ _ => "if"
  | whileLoop _ _ _ => "while"
  | forLoop _ _ _ _ _ => "for"
  | breakLoop _ => "break"
  | block _ _ => "block"
  | ret _ _ => "return"

/-- The steps that a walk takes at a node: first into its category, then into its kind. -/
def Node.steps : Node → List String
  | program _ => ["program"]
  | cls c => ["class " ++ c.name]
  | feature (.field f) => ["feature", "field " ++ f.name]
  | feature (.method m) => ["feature", "method " ++ m.name]
  | param p => ["formal " ++ p.name]
  | stmt s => ["stmt", s.step]
  | expr e => ["expr", e.step]

namespace Program

/-- The steps of a walk over the whole program. -/
def walk (p : Program) : List String := p.nodes.flatMap Node.steps

/-- The expressions of a program in order. -/
def exprs (p : Program) : List Expr := p.nodes.filterMap Node.expr?

/-- The types noted on the expressions of a program, in order. -/
def notes (p : Program) : List (Option Ty) := p.exprs.map Expr.ty?

end Program

end ClassCompiler
