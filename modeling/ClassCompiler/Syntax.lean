import ClassCompiler.Position
import ClassCompiler.Ty

/-!
# Program trees

The tree of a program as the parser hands it over. Types are still texts in declarations; every
expression has room for the type that checking finds for it.
-/

namespace ClassCompiler

/-- Restricts a name to the fields of the current class or of its parent. -/
inductive Qualifier where
  | this
  | super
deriving DecidableEq

def Qualifier.text : Qualifier → String
  | .this => "this"
  | .super => "super"

inductive BinaryOp where
  | add | subtract | multiply | divide | modulus
  | lessThan | greaterThan | lessEquals | greaterEquals
  | equals | notEquals
  | and | or
deriving DecidableEq

def BinaryOp.symbol : BinaryOp → String
  | .add => "+"
  | .subtract => "-"
  | .multiply => "*"
  | .divide => "/"
  | .modulus => "%"
  | .lessThan => "<"
  | .greaterThan => ">"
  | .lessEquals => "<="
  | .greaterEquals => ">="
  | .equals => "=="
  | .notEquals => "!="
  | .and => "&&"
  | .or => "||"

inductive UnaryOp where
  | negate | not | increment | decrement
deriving DecidableEq

def UnaryOp.symbol : UnaryOp → String
  | .negate => "-"
  | .not => "!"
  | .increment => "++"
  | .decrement => "--"

/-- What an expression carries besides its own shape: the type found for it, if any, and its place
in the source. -/
structure Mark where
  ty : Option Ty := none
  span : Span := {}
deriving DecidableEq

inductive Expr where
  /-- A call; without a receiver it goes to `this`. -/
  | dispatch (receiver : Option Expr) (method : String) (args : List Expr) (mark : Mark)
  | new (typeName : String) (mark : Mark)
  | newArray (elemName : String) (size : Expr) (mark : Mark)
  | instanceOf (operand : Expr) (typeName : String) (mark : Mark)
  | cast (typeName : String) (operand : Expr) (mark : Mark)
  | assign (qualifier : Option Qualifier) (name : String) (value : Expr) (mark : Mark)
  | arrayAssign (qualifier : Option Qualifier) (name : String) (index value : Expr) (mark : Mark)
  | binary (op : BinaryOp) (lhs rhs : Expr) (mark : Mark)
  /-- The flag `after` tells `x++` from `++x`. -/
  | unary (op : UnaryOp) (after : Bool) (operand : Expr) (mark : Mark)
  /-- A name, or a field of an object. -/
  | var (object : Option Expr) (name : String) (mark : Mark)
  | arrayElem (object : Option Expr) (name : String) (index : Expr) (mark : Mark)
  | intLit (value : Int32) (mark : Mark)
  | boolLit (value : Bool) (mark : Mark)
  | stringLit (value : String) (mark : Mark)

inductive Stmt where
  | decl (name typeName : String) (init : Option Expr) (span : Span)
  | expr (expr : Expr) (span : Span)
  | ifElse (cond : Expr) (thenBranch : Stmt) (elseBranch : Option Stmt) (span : Span)
  | whileLoop (cond : Expr) (body : Stmt) (span : Span)
  | forLoop (init cond update : Option Expr) (body : Stmt) (span : Span)
  | breakLoop (span : Span)
  | block (stmts : List Stmt) (span : Span)
  | ret (value : Option Expr) (span : Span)

structure Param where
  name : String
  typeName : String
  span : Span := {}
deriving DecidableEq

structure Field where
  name : String
  typeName : String
  init : Option Expr := none
  span : Span := {}

structure Method where
  name : String
  returnName : String
  params : List Param := []
  body : List Stmt := []
  span : Span := {}

inductive Feature where
  | field (field : Field)
  | method (method : Method)

/-- The declaration of a class. Without a parent it extends `Object`. -/
structure ClassDecl where
  name : String
  parent : Option String := none
  features : List Feature := []
  file : Option String := none
  span : Span := {}

structure Program where
  classes : List ClassDecl := []
  span : Span := {}

namespace Expr

def mark : Expr → Mark
  | dispatch _ _ _ m | new _ m | newArray _ _ m | instanceOf _ _ m | cast _ _ m | assign _ _ _ m
  | arrayAssign _ _ _ _ m | binary _ _ _ m | unary _ _ _ m | var _ _ m | arrayElem _ _ _ m
  | intLit _ m | boolLit _ m | stringLit _ m => m

def span (e : Expr) : Span := e.mark.span

/-- The type noted on an expression. -/
def ty? (e : Expr) : Option Ty := e.mark.ty

end Expr

def Stmt.span : Stmt → Span
  | decl _ _ _ s | expr _ s | ifElse _ _ _ s | whileLoop _ _ s | forLoop _ _ _ _ s | breakLoop s
  | block _ s | ret _ s => s

namespace Feature

def name : Feature → String
  | field f => f.name
  | method m => m.name

def span : Feature → Span
  | field f => f.span
  | method m => m.span

end Feature

/-- The methods a class declares, in order. -/
def ClassDecl.methods (c : ClassDecl) : List Method :=
  c.features.filterMap fun
    | .method m => some m
    | .field _ => none

end ClassCompiler
