import Mathlib.Data.List.Forall2
import Mathlib.Data.Option.Basic
import Mathlib.Logic.Relation
import ClassCompiler.Builtin
import ClassCompiler.Scope
import ClassCompiler.Syntax.Node
import ClassCompiler.Ty

/-!
# The type system

The rules that a program has to follow, read off its declarations alone: there is no class table
here, and there are no unknown types. A judgement relates a tree to the tree with every expression's
type noted on it.

Judgements:
1. `Names`, `Sub`: the meaning of type names, and subtyping.
2. `Typed`, `StmtTyped`: expressions and statements.
3. `FeatureTyped`, `ClassTyped`: members and classes.
-/

namespace ClassCompiler

/-- The fields a class declares, in order. -/
def ClassDecl.fields (c : ClassDecl) : List Field :=
  c.features.filterMap fun
    | .field f => some f
    | .method _ => none

namespace Rules

/-! ## Types -/

/-- A type that is known. -/
inductive KnownTy where
  | int
  | boolean
  | void
  | null
  | cls (name : String)
  | array (elem : KnownTy)
deriving DecidableEq

namespace KnownTy

def toTy : KnownTy → Ty
  | int => .int
  | boolean => .boolean
  | void => .void
  | null => .null
  | cls name => .cls name
  | array elem => .array elem.toTy

theorem toTy_injective {σ τ : KnownTy} (h : σ.toTy = τ.toTy) : σ = τ := by
  induction σ generalizing τ with
  | array elem ih =>
    cases τ with
    | array elem' => rw [ih (Ty.array.inj h)]
    | _ => exact nomatch h
  | cls name =>
    cases τ with
    | cls name' => rw [Ty.cls.inj h]
    | _ => exact nomatch h
  | _ =>
    cases τ with
    | int | boolean | void | null => first | rfl | exact nomatch h
    | _ => exact nomatch h

theorem toTy_inj {σ τ : KnownTy} : σ.toTy = τ.toTy ↔ σ = τ := ⟨toTy_injective, congrArg toTy⟩

theorem toTy_ne_untyped (τ : KnownTy) : τ.toTy ≠ .untyped := by
  cases τ <;> exact nofun

end KnownTy

/-- The mark of an expression of the given type. -/
def note (m : Mark) (τ : KnownTy) : Mark := { m with ty := some τ.toTy }

/-! ## Classes -/

/-- There is a class of that name. -/
def IsClass (P : List ClassDecl) (name : String) : Prop := ∃ c ∈ P, c.name = name

/-- The first class extends the second. Every class but the root extends one. -/
inductive Extends (P : List ClassDecl) : String → String → Prop
  | declared {c : ClassDecl} {parent : String} :
      c ∈ P → c.parent = some parent → Extends P c.name parent
  | root {c : ClassDecl} :
      c ∈ P → c.parent = none → c.name ≠ objectName → Extends P c.name objectName

def Subclass (P : List ClassDecl) : String → String → Prop := Relation.ReflTransGen (Extends P)

/-- `Inherits P own name cls a`: looking for the name of `a` from the class upwards, one meets `a`
first. -/
inductive Inherits {α : Type} (P : List ClassDecl) (own : ClassDecl → List α) (name : α → String) :
    String → α → Prop
  | own {c : ClassDecl} {a : α} : c ∈ P → a ∈ own c → Inherits P own name c.name a
  | parent {c : ClassDecl} {parent : String} {a : α} :
      c ∈ P → (∀ b ∈ own c, name b ≠ name a) → Extends P c.name parent →
      Inherits P own name parent a → Inherits P own name c.name a

/-- The nearest field of its name. -/
def HasField (P : List ClassDecl) : String → Field → Prop :=
  Inherits P ClassDecl.fields Field.name

/-- The nearest method of its name. -/
def HasMethod (P : List ClassDecl) : String → Method → Prop :=
  Inherits P ClassDecl.methods Method.name

/-! ## Type names and subtyping -/

/-- The type of a name that is not an array. -/
inductive NamesElem (P : List ClassDecl) : TypeName → KnownTy → Prop
  | int : NamesElem P .int .int
  | boolean : NamesElem P .boolean .boolean
  | void : NamesElem P .void .void
  | cls {name : String} : IsClass P name → NamesElem P (.named name) (.cls name)

/-- The type that a text stands for. There are no arrays of arrays and none of `void`. -/
inductive Names (P : List ClassDecl) (text : String) : KnownTy → Prop
  | simple {τ : KnownTy} : NamesElem P (TypeName.parse text) τ → Names P text τ
  | array {elem : String} {τ : KnownTy} :
      TypeName.parse text = .array elem → NamesElem P (TypeName.parse elem) τ → τ ≠ .void →
      Names P text (.array τ)

inductive Sub (P : List ClassDecl) : KnownTy → KnownTy → Prop
  | refl (τ : KnownTy) : Sub P τ τ
  | nullCls (name : String) : Sub P .null (.cls name)
  | nullArray (τ : KnownTy) : Sub P .null (.array τ)
  | cls {a b : String} : Subclass P a b → Sub P (.cls a) (.cls b)
  | arrayObject (τ : KnownTy) : Sub P (.array τ) (.cls objectName)
  | array {a b : String} : Subclass P a b → Sub P (.array (.cls a)) (.array (.cls b))

/-- Parameters that take arguments of exactly their own type. -/
def Exact (τ : KnownTy) : Prop := τ = .int ∨ τ = .boolean ∨ τ = .cls stringName

/-- An argument of the first type fits a parameter of the second. -/
inductive ArgFits (P : List ClassDecl) : KnownTy → KnownTy → Prop
  | exact {τ : KnownTy} : Exact τ → ArgFits P τ τ
  | sub {σ τ : KnownTy} : ¬ Exact τ → Sub P σ τ → ArgFits P σ τ

/-! ## Names -/

/-- The local that a name stands for: the innermost one. -/
def visible? (Γ : List (Frame KnownTy)) (name : String) : Option KnownTy :=
  Γ.findSome? (·.lookup name)

/-- An unqualified name in a class: `null`, else a local, else `this`, `super` or a field. -/
inductive NameTyped (P : List ClassDecl) (cls : String) (Γ : List (Frame KnownTy)) :
    String → KnownTy → Prop
  | null : NameTyped P cls Γ "null" .null
  | localVar {name : String} {τ : KnownTy} :
      name ≠ "null" → visible? Γ name = some τ → NameTyped P cls Γ name τ
  | this : visible? Γ "this" = none → NameTyped P cls Γ "this" (.cls cls)
  | super {parent : String} :
      visible? Γ "super" = none → Extends P cls parent → NameTyped P cls Γ "super" (.cls parent)
  | field {f : Field} {τ : KnownTy} :
      f.name ≠ "null" → visible? Γ f.name = none → HasField P cls f → Names P f.typeName τ →
      NameTyped P cls Γ f.name τ

/-- A field of a value. Arrays have a length. -/
inductive MemberTyped (P : List ClassDecl) : KnownTy → String → KnownTy → Prop
  | length (τ : KnownTy) : MemberTyped P (.array τ) "length" .int
  | field {c : String} {f : Field} {τ : KnownTy} :
      HasField P c f → Names P f.typeName τ → MemberTyped P (.cls c) f.name τ

/-- The target of an assignment. -/
inductive TargetTyped (P : List ClassDecl) (cls : String) (Γ : List (Frame KnownTy)) :
    Option Qualifier → String → KnownTy → Prop
  | plain {name : String} {τ : KnownTy} :
      isReserved name = false → NameTyped P cls Γ name τ → TargetTyped P cls Γ none name τ
  | this {name : String} {τ : KnownTy} :
      MemberTyped P (.cls cls) name τ → TargetTyped P cls Γ (some .this) name τ
  | super {parent name : String} {τ : KnownTy} :
      Extends P cls parent → MemberTyped P (.cls parent) name τ →
      TargetTyped P cls Γ (some .super) name τ

/-- The class whose methods can be called on a value. Arrays are objects. -/
inductive Receives : KnownTy → String → Prop
  | cls (name : String) : Receives (.cls name) name
  | array (τ : KnownTy) : Receives (.array τ) objectName

/-! ## Expressions -/

/-- The operand types and the result type of a binary operation. -/
inductive BinaryRule (P : List ClassDecl) : BinaryOp → KnownTy → KnownTy → KnownTy → Prop
  | arithmetic {op : BinaryOp} :
      op ∈ [.add, .subtract, .multiply, .divide, .modulus] → BinaryRule P op .int .int .int
  | relational {op : BinaryOp} :
      op ∈ [.lessThan, .greaterThan, .lessEquals, .greaterEquals] →
      BinaryRule P op .int .int .boolean
  | equality {op : BinaryOp} {σ τ : KnownTy} :
      op ∈ [.equals, .notEquals] → Sub P σ τ ∨ Sub P τ σ → BinaryRule P op σ τ .boolean
  | logical {op : BinaryOp} :
      op ∈ [.and, .or] → BinaryRule P op .boolean .boolean .boolean

/-- The type of a unary operation and of its operand. -/
inductive UnaryRule : UnaryOp → KnownTy → Prop
  | number {op : UnaryOp} : op ∈ [.negate, .increment, .decrement] → UnaryRule op .int
  | not : UnaryRule .not .boolean

mutual

/-- `Typed P cls Γ e τ e'`: in the class `cls`, with the locals of `Γ`, the expression `e` has the
type `τ`, and `e'` is `e` with all types noted. -/
inductive Typed (P : List ClassDecl) (cls : String) (Γ : List (Frame KnownTy)) :
    Expr → KnownTy → Expr → Prop
  | call {receiver receiver' : Expr} {σ : KnownTy} {owner : String} {m : Method}
      {args args' : List Expr} {τ : KnownTy} {mark : Mark} :
      Typed P cls Γ receiver σ receiver' → Receives σ owner → HasMethod P owner m →
      ArgsTyped P cls Γ args m.params args' → Names P m.returnName τ →
      Typed P cls Γ (.dispatch (some receiver) m.name args mark) τ
        (.dispatch (some receiver') m.name args' (note mark τ))
  | callThis {m : Method} {args args' : List Expr} {τ : KnownTy} {mark : Mark} :
      HasMethod P cls m → ArgsTyped P cls Γ args m.params args' → Names P m.returnName τ →
      Typed P cls Γ (.dispatch none m.name args mark) τ
        (.dispatch none m.name args' (note mark τ))
  | new {typeName name : String} {mark : Mark} :
      Names P typeName (.cls name) →
      Typed P cls Γ (.new typeName mark) (.cls name) (.new typeName (note mark (.cls name)))
  | newArray {elemName : String} {size size' : Expr} {τ : KnownTy} {mark : Mark} :
      Typed P cls Γ size .int size' → Names P elemName τ → τ ≠ .void → (∀ σ, τ ≠ .array σ) →
      Typed P cls Γ (.newArray elemName size mark) (.array τ)
        (.newArray elemName size' (note mark (.array τ)))
  | instanceOf {operand operand' : Expr} {typeName : String} {σ τ : KnownTy} {mark : Mark} :
      Typed P cls Γ operand σ operand' → Names P typeName τ → Sub P τ σ →
      Typed P cls Γ (.instanceOf operand typeName mark) .boolean
        (.instanceOf operand' typeName (note mark .boolean))
  | cast {operand operand' : Expr} {typeName : String} {σ τ : KnownTy} {mark : Mark} :
      Typed P cls Γ operand σ operand' → Names P typeName τ → Sub P σ τ ∨ Sub P τ σ →
      Typed P cls Γ (.cast typeName operand mark) τ (.cast typeName operand' (note mark τ))
  | assign {qualifier : Option Qualifier} {name : String} {value value' : Expr} {σ τ : KnownTy}
      {mark : Mark} :
      Typed P cls Γ value σ value' → TargetTyped P cls Γ qualifier name τ → Sub P σ τ →
      Typed P cls Γ (.assign qualifier name value mark) τ
        (.assign qualifier name value' (note mark τ))
  | arrayAssign {qualifier : Option Qualifier} {name : String} {index index' value value' : Expr}
      {σ τ : KnownTy} {mark : Mark} :
      Typed P cls Γ index .int index' → Typed P cls Γ value σ value' →
      TargetTyped P cls Γ qualifier name (.array τ) → Sub P σ τ →
      Typed P cls Γ (.arrayAssign qualifier name index value mark) τ
        (.arrayAssign qualifier name index' value' (note mark τ))
  | binary {op : BinaryOp} {lhs lhs' rhs rhs' : Expr} {σ τ ρ : KnownTy} {mark : Mark} :
      Typed P cls Γ lhs σ lhs' → Typed P cls Γ rhs τ rhs' → BinaryRule P op σ τ ρ →
      Typed P cls Γ (.binary op lhs rhs mark) ρ (.binary op lhs' rhs' (note mark ρ))
  | unary {op : UnaryOp} {after : Bool} {operand operand' : Expr} {τ : KnownTy} {mark : Mark} :
      Typed P cls Γ operand τ operand' → UnaryRule op τ →
      Typed P cls Γ (.unary op after operand mark) τ (.unary op after operand' (note mark τ))
  | var {name : String} {τ : KnownTy} {mark : Mark} :
      NameTyped P cls Γ name τ →
      Typed P cls Γ (.var none name mark) τ (.var none name (note mark τ))
  | member {object object' : Expr} {name : String} {σ τ : KnownTy} {mark : Mark} :
      Typed P cls Γ object σ object' → MemberTyped P σ name τ →
      Typed P cls Γ (.var (some object) name mark) τ (.var (some object') name (note mark τ))
  | varElem {name : String} {index index' : Expr} {τ : KnownTy} {mark : Mark} :
      NameTyped P cls Γ name (.array τ) → Typed P cls Γ index .int index' →
      Typed P cls Γ (.arrayElem none name index mark) τ
        (.arrayElem none name index' (note mark τ))
  | memberElem {object object' : Expr} {name : String} {index index' : Expr} {σ τ : KnownTy}
      {mark : Mark} :
      Typed P cls Γ object σ object' → MemberTyped P σ name (.array τ) →
      Typed P cls Γ index .int index' →
      Typed P cls Γ (.arrayElem (some object) name index mark) τ
        (.arrayElem (some object') name index' (note mark τ))
  | intLit {value : Int32} {mark : Mark} :
      Typed P cls Γ (.intLit value mark) .int (.intLit value (note mark .int))
  | boolLit {value : Bool} {mark : Mark} :
      Typed P cls Γ (.boolLit value mark) .boolean (.boolLit value (note mark .boolean))
  | stringLit {value : String} {mark : Mark} :
      Typed P cls Γ (.stringLit value mark) (.cls stringName)
        (.stringLit value (note mark (.cls stringName)))

/-- One argument for each parameter, and each fits. -/
inductive ArgsTyped (P : List ClassDecl) (cls : String) (Γ : List (Frame KnownTy)) :
    List Expr → List Param → List Expr → Prop
  | nil : ArgsTyped P cls Γ [] [] []
  | cons {arg arg' : Expr} {args args' : List Expr} {p : Param} {params : List Param}
      {σ τ : KnownTy} :
      Typed P cls Γ arg σ arg' → Names P p.typeName τ → ArgFits P σ τ →
      ArgsTyped P cls Γ args params args' →
      ArgsTyped P cls Γ (arg :: args) (p :: params) (arg' :: args')

end

/-- The expression has a type. -/
def HasSomeType (P : List ClassDecl) (cls : String) (Γ : List (Frame KnownTy)) (e e' : Expr) :
    Prop :=
  ∃ σ, Typed P cls Γ e σ e'

/-- The value of the expression can stand where `τ` is expected. -/
def Fits (P : List ClassDecl) (cls : String) (Γ : List (Frame KnownTy)) (τ : KnownTy)
    (e e' : Expr) : Prop :=
  ∃ σ, Typed P cls Γ e σ e' ∧ Sub P σ τ

/-! ## Statements -/

mutual

/-- `StmtTyped P cls ρ inLoop Γ s Γ' s'`: in a method that returns `ρ`, with the locals of `Γ`, the
statement is legal, the locals after it are those of `Γ'`, and `s'` is `s` with all types noted. -/
inductive StmtTyped (P : List ClassDecl) (cls : String) (ρ : KnownTy) :
    (inLoop : Bool) → List (Frame KnownTy) → Stmt → List (Frame KnownTy) → Stmt → Prop
  | decl {inLoop : Bool} {frame : Frame KnownTy} {Γ : List (Frame KnownTy)}
      {name typeName : String} {init init' : Option Expr} {τ : KnownTy} {span : Span} :
      Names P typeName τ → τ ≠ .void → Option.Rel (Fits P cls (frame :: Γ) τ) init init' →
      isReserved name = false → frame.lookup name = none →
      StmtTyped P cls ρ inLoop (frame :: Γ) (.decl name typeName init span)
        ((frame ++ [(name, τ)]) :: Γ) (.decl name typeName init' span)
  | expr {inLoop : Bool} {Γ : List (Frame KnownTy)} {e e' : Expr} {span : Span} :
      HasSomeType P cls Γ e e' → StmtTyped P cls ρ inLoop Γ (.expr e span) Γ (.expr e' span)
  | ifThen {inLoop : Bool} {Γ Δ : List (Frame KnownTy)} {cond cond' : Expr} {t t' : Stmt}
      {span : Span} :
      Typed P cls Γ cond .boolean cond' → StmtTyped P cls ρ inLoop ([] :: Γ) t Δ t' →
      StmtTyped P cls ρ inLoop Γ (.ifElse cond t none span) Γ (.ifElse cond' t' none span)
  | ifElse {inLoop : Bool} {Γ Δ Δ' : List (Frame KnownTy)} {cond cond' : Expr}
      {t t' e e' : Stmt} {span : Span} :
      Typed P cls Γ cond .boolean cond' → StmtTyped P cls ρ inLoop ([] :: Γ) t Δ t' →
      StmtTyped P cls ρ inLoop ([] :: Γ) e Δ' e' →
      StmtTyped P cls ρ inLoop Γ (.ifElse cond t (some e) span) Γ
        (.ifElse cond' t' (some e') span)
  | whileLoop {inLoop : Bool} {Γ Δ : List (Frame KnownTy)} {cond cond' : Expr} {body body' : Stmt}
      {span : Span} :
      Typed P cls Γ cond .boolean cond' → StmtTyped P cls ρ true ([] :: Γ) body Δ body' →
      StmtTyped P cls ρ inLoop Γ (.whileLoop cond body span) Γ (.whileLoop cond' body' span)
  | forLoop {inLoop : Bool} {Γ Δ : List (Frame KnownTy)}
      {init init' cond cond' update update' : Option Expr} {body body' : Stmt} {span : Span} :
      Option.Rel (HasSomeType P cls Γ) init init' →
      Option.Rel (Typed P cls Γ · .boolean ·) cond cond' →
      Option.Rel (HasSomeType P cls Γ) update update' →
      StmtTyped P cls ρ true ([] :: Γ) body Δ body' →
      StmtTyped P cls ρ inLoop Γ (.forLoop init cond update body span) Γ
        (.forLoop init' cond' update' body' span)
  | breakLoop {Γ : List (Frame KnownTy)} {span : Span} :
      StmtTyped P cls ρ true Γ (.breakLoop span) Γ (.breakLoop span)
  | block {inLoop : Bool} {Γ Δ : List (Frame KnownTy)} {stmts stmts' : List Stmt} {span : Span} :
      StmtsTyped P cls ρ inLoop ([] :: Γ) stmts Δ stmts' →
      StmtTyped P cls ρ inLoop Γ (.block stmts span) Γ (.block stmts' span)
  | retVoid {inLoop : Bool} {Γ : List (Frame KnownTy)} {span : Span} :
      ρ = .void → StmtTyped P cls ρ inLoop Γ (.ret none span) Γ (.ret none span)
  | ret {inLoop : Bool} {Γ : List (Frame KnownTy)} {e e' : Expr} {span : Span} :
      ρ ≠ .void → Fits P cls Γ ρ e e' →
      StmtTyped P cls ρ inLoop Γ (.ret (some e) span) Γ (.ret (some e') span)

/-- Statements one after the other; each sees what those before it declared. -/
inductive StmtsTyped (P : List ClassDecl) (cls : String) (ρ : KnownTy) :
    (inLoop : Bool) → List (Frame KnownTy) → List Stmt → List (Frame KnownTy) → List Stmt → Prop
  | nil {inLoop : Bool} {Γ : List (Frame KnownTy)} : StmtsTyped P cls ρ inLoop Γ [] Γ []
  | cons {inLoop : Bool} {Γ Γ' Γ'' : List (Frame KnownTy)} {s s' : Stmt} {ss ss' : List Stmt} :
      StmtTyped P cls ρ inLoop Γ s Γ' s' → StmtsTyped P cls ρ inLoop Γ' ss Γ'' ss' →
      StmtsTyped P cls ρ inLoop Γ (s :: ss) Γ'' (s' :: ss')

end

/-! ## Members and classes -/

/-- The parameters of a method extend a frame. -/
inductive ParamsTyped (P : List ClassDecl) : Frame KnownTy → List Param → Frame KnownTy → Prop
  | nil {frame : Frame KnownTy} : ParamsTyped P frame [] frame
  | cons {frame frame' : Frame KnownTy} {p : Param} {params : List Param} {τ : KnownTy} :
      Names P p.typeName τ → τ ≠ .void → isReserved p.name = false → frame.lookup p.name = none →
      ParamsTyped P (frame ++ [(p.name, τ)]) params frame' →
      ParamsTyped P frame (p :: params) frame'

/-- Two texts stand for the same type. -/
def SameType (P : List ClassDecl) (a b : String) : Prop := ∃ τ, Names P a τ ∧ Names P b τ

/-- Two methods take the same types and return the same type. -/
def SameSignature (P : List ClassDecl) (m inherited : Method) : Prop :=
  SameType P m.returnName inherited.returnName ∧
    List.Forall₂ (fun p q : Param => SameType P p.typeName q.typeName) m.params inherited.params

/-- A member of a class is legal. A method has the signature of the one it overrides; its
parameters and the outermost statements of its body share a frame. -/
inductive FeatureTyped (P : List ClassDecl) (cls : String) : Feature → Feature → Prop
  | field {f : Field} {τ : KnownTy} {init' : Option Expr} :
      Names P f.typeName τ → τ ≠ .void → Option.Rel (Fits P cls [] τ) f.init init' →
      FeatureTyped P cls (.field f) (.field { f with init := init' })
  | method {m : Method} {ρ : KnownTy} {frame : Frame KnownTy} {Γ : List (Frame KnownTy)}
      {body' : List Stmt} :
      Names P m.returnName ρ →
      (∀ parent inherited, Extends P cls parent → HasMethod P parent inherited →
        inherited.name = m.name → SameSignature P m inherited) →
      ParamsTyped P [] m.params frame → StmtsTyped P cls ρ false [frame] m.body Γ body' →
      FeatureTyped P cls (.method m) (.method { m with body := body' })

/-- A class is legal if all its members are. -/
inductive ClassTyped (P : List ClassDecl) (c : ClassDecl) : ClassDecl → Prop
  | members {features' : List Feature} :
      List.Forall₂ (FeatureTyped P c.name) c.features features' →
      ClassTyped P c { c with features := features' }

end Rules

end ClassCompiler
