import ClassCompiler.Syntax

/-!
# Type notes on a tree

Setting and clearing the types noted on the expressions of a tree. Nothing else of the tree changes.
-/

namespace ClassCompiler

mutual

/-- Notes `f e` on every expression `e` of a tree. -/
def Expr.mapTy (f : Expr → Option Ty) : Expr → Expr
  | e@(.dispatch r m args k) =>
    .dispatch (Expr.mapTy? f r) m (Expr.mapTyAll f args) { k with ty := f e }
  | e@(.new n k) => .new n { k with ty := f e }
  | e@(.newArray n size k) => .newArray n (size.mapTy f) { k with ty := f e }
  | e@(.instanceOf o n k) => .instanceOf (o.mapTy f) n { k with ty := f e }
  | e@(.cast n o k) => .cast n (o.mapTy f) { k with ty := f e }
  | e@(.assign q n v k) => .assign q n (v.mapTy f) { k with ty := f e }
  | e@(.arrayAssign q n i v k) => .arrayAssign q n (i.mapTy f) (v.mapTy f) { k with ty := f e }
  | e@(.binary op l r k) => .binary op (l.mapTy f) (r.mapTy f) { k with ty := f e }
  | e@(.unary op a o k) => .unary op a (o.mapTy f) { k with ty := f e }
  | e@(.var o n k) => .var (Expr.mapTy? f o) n { k with ty := f e }
  | e@(.arrayElem o n i k) => .arrayElem (Expr.mapTy? f o) n (i.mapTy f) { k with ty := f e }
  | e@(.intLit v k) => .intLit v { k with ty := f e }
  | e@(.boolLit v k) => .boolLit v { k with ty := f e }
  | e@(.stringLit v k) => .stringLit v { k with ty := f e }

def Expr.mapTy? (f : Expr → Option Ty) : Option Expr → Option Expr
  | none => none
  | some e => some (e.mapTy f)

def Expr.mapTyAll (f : Expr → Option Ty) : List Expr → List Expr
  | [] => []
  | e :: es => e.mapTy f :: Expr.mapTyAll f es

end

/-- Clears the notes of an expression and all its parts. -/
def Expr.erase (e : Expr) : Expr := e.mapTy fun _ => none

mutual

def Stmt.erase : Stmt → Stmt
  | .decl name typeName init span => .decl name typeName (init.map Expr.erase) span
  | .expr e span => .expr e.erase span
  | .ifElse cond t e span => .ifElse cond.erase t.erase (Stmt.erase? e) span
  | .whileLoop cond body span => .whileLoop cond.erase body.erase span
  | .forLoop init cond update body span =>
    .forLoop (init.map Expr.erase) (cond.map Expr.erase) (update.map Expr.erase) body.erase span
  | .breakLoop span => .breakLoop span
  | .block stmts span => .block (Stmt.eraseAll stmts) span
  | .ret value span => .ret (value.map Expr.erase) span

def Stmt.erase? : Option Stmt → Option Stmt
  | none => none
  | some s => some s.erase

def Stmt.eraseAll : List Stmt → List Stmt
  | [] => []
  | s :: ss => s.erase :: Stmt.eraseAll ss

end

def Feature.erase : Feature → Feature
  | .field f => .field { f with init := f.init.map Expr.erase }
  | .method m => .method { m with body := Stmt.eraseAll m.body }

def ClassDecl.erase (c : ClassDecl) : ClassDecl := { c with features := c.features.map Feature.erase }

/-- The program without any type noted on it. -/
def Program.erase (p : Program) : Program := { p with classes := p.classes.map ClassDecl.erase }

end ClassCompiler
