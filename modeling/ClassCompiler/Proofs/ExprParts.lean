import ClassCompiler.Proofs.Rechecking

/-!
# Expressions by their parts

Every expression has parts, which are expressions again. The faults of an expression are those of
its parts, from left to right, and then its own. So whatever is to be said of the faults of all
expressions need only be said of the faults that one expression adds.

Results:
1. `Expr.parts_induction`: a property of all expressions, from the parts to the whole.
2. `Expr.nodes_eq`, `Typing.faults_eq`: the nodes and the faults of an expression by its parts.
3. `Typing.exists_node_of_mem_faults`: every fault is added by one of the nodes.
-/

namespace ClassCompiler

open Typing

namespace Expr

/-- The expressions that an expression is made of, from left to right. -/
def parts : Expr → List Expr
  | .dispatch receiver _ args _ => receiver.toList ++ args
  | .newArray _ size _ => [size]
  | .instanceOf operand _ _ => [operand]
  | .cast _ operand _ => [operand]
  | .assign _ _ value _ => [value]
  | .arrayAssign _ _ index value _ => [index, value]
  | .binary _ lhs rhs _ => [lhs, rhs]
  | .unary _ _ operand _ => [operand]
  | .var object _ _ => object.toList
  | .arrayElem object _ index _ => object.toList ++ [index]
  | .new _ _ | .intLit _ _ | .boolLit _ _ | .stringLit _ _ => []

/-- To prove a property of every expression, prove it of an expression whose parts have it. -/
@[elab_as_elim]
theorem parts_induction {motive : Expr → Prop}
    (step : ∀ e, (∀ part ∈ e.parts, motive part) → motive e) (e : Expr) : motive e := by
  have hoption (o : Option Expr) (ih : ∀ e, o = some e → motive e) :
      ∀ part ∈ o.toList, motive part :=
    fun part hpart => ih part (Option.mem_toList.mp hpart)
  induction e using Expr.induction with
  | dispatch receiver method args mark ihr iha =>
    exact step _ (List.forall_mem_append.mpr ⟨hoption receiver ihr, iha⟩)
  | newArray elemName size mark ih => exact step _ (List.forall_mem_singleton.mpr ih)
  | instanceOf operand typeName mark ih => exact step _ (List.forall_mem_singleton.mpr ih)
  | cast typeName operand mark ih => exact step _ (List.forall_mem_singleton.mpr ih)
  | assign qualifier name value mark ih => exact step _ (List.forall_mem_singleton.mpr ih)
  | arrayAssign qualifier name index value mark ihi ihv =>
    exact step _ (List.forall_mem_cons.mpr ⟨ihi, List.forall_mem_singleton.mpr ihv⟩)
  | binary op lhs rhs mark ihl ihr =>
    exact step _ (List.forall_mem_cons.mpr ⟨ihl, List.forall_mem_singleton.mpr ihr⟩)
  | unary op after operand mark ih => exact step _ (List.forall_mem_singleton.mpr ih)
  | var object name mark ih => exact step _ (hoption object ih)
  | arrayElem object name index mark iho ihi =>
    have hindex := List.forall_mem_singleton.mpr ihi
    exact step _ (List.forall_mem_append.mpr ⟨hoption object iho, hindex⟩)
  | new | intLit | boolLit | stringLit => exact step _ fun _ hpart => absurd hpart List.not_mem_nil

theorem nodes?_eq_flatMap (o : Option Expr) : nodes? o = o.toList.flatMap nodes := by
  cases o with
  | none => rfl
  | some e => exact (List.append_nil e.nodes).symm

theorem nodes_eq (e : Expr) : e.nodes = e :: e.parts.flatMap nodes := by
  cases e <;> simp [nodes, parts, nodes?_eq_flatMap, nodesAll_eq_flatMap]

end Expr

namespace Typing

variable (env : Env)

/-- What an expression adds to the faults of its parts. -/
def ownFaults : Expr → List Fault
  | .dispatch receiver method args mark =>
    callFaults env.table mark.span method (args.map (typed env))
      (callee env.table ((typeOf? env receiver).getD (.cls env.cls)) method)
  | .new typeName mark => faultsOf mark.span (newTy env.table typeName)
  | .newArray elemName size mark =>
    valueFaults env size .int ++ faultsOf mark.span (newArrayTy env.table elemName)
  | .instanceOf operand typeName mark =>
    instanceOfFaults env.table mark.span (typeOf env operand) (namedTy env.table typeName)
  | .cast typeName operand mark =>
    castFaults env.table mark.span (typeOf env operand) (namedTy env.table typeName)
  | .assign qualifier name value mark =>
    let target := env.targetTy qualifier name
    faultsOf mark.span target ++ valueFaults env value (tyOf target)
  | .arrayAssign qualifier name index value mark =>
    let target := env.targetTy qualifier name
    let elem := elemTy name (tyOf target)
    valueFaults env index .int ++ faultsOf mark.span target ++ faultsOf mark.span elem
      ++ valueFaults env value (tyOf elem)
  | .binary op lhs rhs mark =>
    binaryFaults env.table mark.span op (typeOf env lhs) (typeOf env rhs)
  | .unary op _ operand mark => unaryFaults mark.span op (typeOf env operand)
  | .var object name mark => faultsOf mark.span (env.refTy (typeOf? env object) name)
  | .arrayElem object name index mark =>
    let array := env.refTy (typeOf? env object) name
    valueFaults env index .int ++ faultsOf mark.span array
      ++ faultsOf mark.span (elemTy name (tyOf array))
  | .intLit _ _ | .boolLit _ _ | .stringLit _ _ => []

theorem faults?_eq_flatMap (o : Option Expr) : faults? env o = o.toList.flatMap (faults env) := by
  cases o with
  | none => rfl
  | some e => exact (List.append_nil (faults env e)).symm

theorem faults_eq (e : Expr) : faults env e = e.parts.flatMap (faults env) ++ ownFaults env e := by
  cases e <;> simp [faults, Expr.parts, ownFaults, faults?_eq_flatMap, faultsAll_eq_flatMap]

/-- Every fault of an expression is one that a node of it adds. -/
theorem exists_node_of_mem_faults {e : Expr} {f : Fault} (hf : f ∈ faults env e) :
    ∃ node ∈ e.nodes, f ∈ ownFaults env node := by
  induction e using Expr.parts_induction with
  | step e ih =>
    rw [faults_eq] at hf
    rcases List.mem_append.mp hf with hf | hf
    · obtain ⟨part, hpart, hf⟩ := List.mem_flatMap.mp hf
      obtain ⟨node, hnode, hf⟩ := ih part hpart hf
      refine ⟨node, ?_, hf⟩
      rw [Expr.nodes_eq]
      exact List.mem_cons_of_mem _ (List.mem_flatMap.mpr ⟨part, hpart, hnode⟩)
    · refine ⟨e, ?_, hf⟩
      rw [Expr.nodes_eq]
      exact List.mem_cons_self

end Typing

end ClassCompiler
