import ClassCompiler.Proofs.ExprParts

/-!
# Faults that one construct alone can have

Two problems belong to one construct each: a `break` without a loop, and a call on a value without
methods. The problems of a name belong to what declares it. No look-up and no comparison of types
ends in one of them.

Results:
1. `Typing.common_targetTy` and the like: look-ups and rules report other problems.
2. `Typing.uncommon_of_mem_faults`, `Typing.peculiar_of_mem_faults`: a fault of an expression that
   is none of theirs is that of a call in it.
-/

namespace ClassCompiler

/-- The problem is that of a `break`, or that of the receiver of a call. -/
def Problem.isPeculiar : Problem → Bool
  | .breakOutsideLoop | .invalidReceiver _ _ => true
  | _ => false

/-- The problem is that of a name which is declared. -/
def Problem.isNaming : Problem → Bool
  | .reservedName _ _ | .duplicateName _ _ _ => true
  | _ => false

/-- The problem is one that look-ups and rules of types have. -/
def Problem.isCommon (p : Problem) : Bool := !p.isPeculiar && !p.isNaming

theorem Problem.isCommon_iff {p : Problem} :
    p.isCommon = true ↔ p.isPeculiar = false ∧ p.isNaming = false := by
  rw [Problem.isCommon, Bool.and_eq_true, Bool.not_eq_true', Bool.not_eq_true']

namespace Typing

/-- No fault is peculiar to a construct. -/
def Ordinary (fs : List Fault) : Prop := ∀ f ∈ fs, f.problem.isPeculiar = false

/-- All faults are those of look-ups and rules. -/
def Common (fs : List Fault) : Prop := ∀ f ∈ fs, f.problem.isCommon = true

theorem ordinary_nil : Ordinary [] := fun _ hf => absurd hf List.not_mem_nil

theorem ordinary_append {fs gs : List Fault} : Ordinary (fs ++ gs) ↔ Ordinary fs ∧ Ordinary gs := by
  simp only [Ordinary, List.mem_append, or_imp, forall_and]

theorem ordinary_singleton {f : Fault} (h : f.problem.isPeculiar = false) : Ordinary [f] :=
  List.forall_mem_singleton.mpr h

theorem common_nil : Common [] := fun _ hf => absurd hf List.not_mem_nil

theorem common_append {fs gs : List Fault} : Common (fs ++ gs) ↔ Common fs ∧ Common gs := by
  simp only [Common, List.mem_append, or_imp, forall_and]

theorem common_singleton {f : Fault} (h : f.problem.isCommon = true) : Common [f] :=
  List.forall_mem_singleton.mpr h

theorem common_ite {c : Prop} [Decidable c] {f : Fault} (h : f.problem.isCommon = true) :
    Common (if c then [] else [f]) := by
  split
  · exact common_nil
  · exact common_singleton h

theorem Common.ordinary {fs : List Fault} (h : Common fs) : Ordinary fs :=
  fun f hf => (Problem.isCommon_iff.mp (h f hf)).1

/-! ## Look-ups -/

section

variable (t : ClassTable) (span : Span)

theorem common_memberTy (object : Ty) (name : String) :
    Common (faultsOf span (memberTy t object name)) := by
  unfold memberTy
  split
  · exact common_nil
  · split
    · exact common_nil
    · exact common_singleton rfl
  · split
    · exact common_nil
    · exact common_singleton rfl
  · exact common_singleton rfl

theorem common_elemTy (name : String) (ty : Ty) : Common (faultsOf span (elemTy name ty)) := by
  cases ty with
  | array elem => exact common_nil
  | untyped => exact common_nil
  | int | boolean | void | null | cls => exact common_singleton rfl

theorem common_newTy (typeName : String) : Common (faultsOf span (newTy t typeName)) := by
  unfold newTy
  split
  · exact common_nil
  · exact common_singleton rfl

theorem common_newArrayTy (elemName : String) :
    Common (faultsOf span (newArrayTy t elemName)) := by
  unfold newArrayTy
  split
  · exact common_singleton rfl
  · exact common_singleton rfl
  · exact common_singleton rfl
  · exact common_nil

theorem common_declaredTy (kind : NameKind) (name typeName : String) :
    Common (faultsOf span (declaredTy t kind name typeName)) := by
  unfold declaredTy
  split
  · exact common_singleton rfl
  · split
    · exact common_singleton rfl
    · exact common_nil

variable (env : Env)

theorem common_nameTy (name : String) : Common (faultsOf span (env.nameTy name)) := by
  unfold Env.nameTy
  split
  · exact common_nil
  · split
    · exact common_nil
    · split
      · exact common_nil
      · exact common_singleton rfl

theorem common_targetTy (qualifier : Option Qualifier) (name : String) :
    Common (faultsOf span (env.targetTy qualifier name)) := by
  unfold Env.targetTy
  split
  · split
    · exact common_singleton rfl
    · exact common_nameTy span env name
  · exact common_memberTy _ _ _ _
  · split
    · exact common_memberTy _ _ _ _
    · exact common_nil

theorem common_refTy (object : Option Ty) (name : String) :
    Common (faultsOf span (env.refTy object name)) := by
  cases object with
  | some ty => exact common_memberTy env.table span ty name
  | none => exact common_nameTy span env name

end

/-! ## Rules -/

section

variable (t : ClassTable) (span : Span)

theorem common_argFaults (method : String) (index : Nat) (args : List (Ty × Span))
    (params : List ParamType) : Common (argFaults t method index args params) := by
  induction args generalizing index params with
  | nil => exact common_nil
  | cons arg args ih =>
    cases params with
    | nil => exact common_nil
    | cons p params =>
      simp only [argFaults]
      split
      · exact ih _ params
      · exact List.forall_mem_cons.mpr ⟨rfl, ih _ params⟩

/-- A call that leads nowhere reports why; any other call reports its arguments. -/
theorem uncommon_of_mem_callFaults {receiver : Ty} {method : String} {args : List (Ty × Span)}
    {f : Fault} (hf : f ∈ callFaults t span method args (callee t receiver method))
    (huncommon : f.problem.isCommon = false) :
    f = ⟨.invalidReceiver receiver method, span⟩ ∧ receiver ≠ .untyped ∧
      receiverClass? t receiver = none := by
  unfold callee at hf
  split at hf
  · exact absurd hf List.not_mem_nil
  · next hknown =>
    split at hf
    · next hnone => exact ⟨List.mem_singleton.mp hf, hknown, hnone⟩
    · split at hf
      · cases List.mem_singleton.mp hf
        cases huncommon
      · next b _ =>
        have hcommon : Common (callFaults t span method args (.method b)) :=
          common_append.mpr ⟨common_ite rfl, common_argFaults t method 0 args b.params⟩
        cases (hcommon f hf).symm.trans huncommon

theorem common_namedTy (typeName : String) {check : Ty → List Fault}
    (hcheck : ∀ ty, Common (check ty)) :
    Common (match namedTy t typeName with
      | .error problem => [⟨problem, span⟩]
      | .ok ty => check ty) := by
  unfold namedTy
  cases t.resolve? typeName with
  | none => exact common_singleton rfl
  | some ty => exact hcheck ty

end

section

variable (env : Env)

theorem common_valueFaults (e : Expr) (expected : Ty) :
    Common (valueFaults env e expected) := common_ite rfl

/-- Of all nodes only calls add other faults. -/
theorem uncommon_of_mem_ownFaults {e : Expr} {f : Fault} (hf : f ∈ ownFaults env e)
    (huncommon : f.problem.isCommon = false) :
    ∃ receiver method args mark, e = .dispatch receiver method args mark ∧
      let ty := (typeOf? env receiver).getD (.cls env.cls)
      f = ⟨.invalidReceiver ty method, mark.span⟩ ∧ ty ≠ .untyped ∧
        receiverClass? env.table ty = none := by
  have hother (h : Common (ownFaults env e)) : False := by
    cases (h f hf).symm.trans huncommon
  cases e with
  | dispatch receiver method args mark =>
    exact ⟨receiver, method, args, mark, rfl, uncommon_of_mem_callFaults _ _ hf huncommon⟩
  | new typeName mark => exact (hother (common_newTy _ _ _)).elim
  | newArray elemName size mark =>
    exact (hother (common_append.mpr
      ⟨common_valueFaults env _ _, common_newArrayTy _ _ _⟩)).elim
  | instanceOf operand typeName mark =>
    exact (hother (common_namedTy _ _ _ fun _ => common_ite rfl)).elim
  | cast typeName operand mark =>
    exact (hother (common_namedTy _ _ _ fun _ => common_ite rfl)).elim
  | assign qualifier name value mark =>
    exact (hother (common_append.mpr
      ⟨common_targetTy _ env _ _, common_valueFaults env _ _⟩)).elim
  | arrayAssign qualifier name index value mark =>
    refine (hother ?_).elim
    simp only [ownFaults, common_append]
    exact ⟨⟨⟨common_valueFaults env _ _, common_targetTy _ env _ _⟩, common_elemTy _ _ _⟩,
      common_valueFaults env _ _⟩
  | binary op lhs rhs mark => exact (hother (common_ite rfl)).elim
  | unary op after operand mark => exact (hother (common_ite rfl)).elim
  | var object name mark => exact (hother (common_refTy _ env _ _)).elim
  | arrayElem object name index mark =>
    refine (hother ?_).elim
    simp only [ownFaults, common_append]
    exact ⟨⟨common_valueFaults env _ _, common_refTy _ env _ _⟩, common_elemTy _ _ _⟩
  | intLit | boolLit | stringLit => exact (hother common_nil).elim

theorem uncommon_of_mem_faults {e : Expr} {f : Fault} (hf : f ∈ faults env e)
    (huncommon : f.problem.isCommon = false) :
    ∃ receiver method args mark, .dispatch receiver method args mark ∈ e.nodes ∧
      let ty := (typeOf? env receiver).getD (.cls env.cls)
      f = ⟨.invalidReceiver ty method, mark.span⟩ ∧ ty ≠ .untyped ∧
        receiverClass? env.table ty = none := by
  obtain ⟨node, hnode, hf⟩ := exists_node_of_mem_faults env hf
  obtain ⟨receiver, method, args, mark, rfl, hcall⟩ := uncommon_of_mem_ownFaults env hf huncommon
  exact ⟨receiver, method, args, mark, hnode, hcall⟩

theorem peculiar_of_mem_faults {e : Expr} {f : Fault} (hf : f ∈ faults env e)
    (hpeculiar : f.problem.isPeculiar = true) :
    ∃ receiver method args mark, .dispatch receiver method args mark ∈ e.nodes ∧
      let ty := (typeOf? env receiver).getD (.cls env.cls)
      f = ⟨.invalidReceiver ty method, mark.span⟩ ∧ ty ≠ .untyped ∧
        receiverClass? env.table ty = none :=
  uncommon_of_mem_faults env hf (by rw [Problem.isCommon, hpeculiar]; rfl)

/-- No expression declares a name. -/
theorem isNaming_of_mem_faults {e : Expr} {f : Fault} (hf : f ∈ faults env e) :
    f.problem.isNaming = false := by
  cases hnaming : f.problem.isNaming with
  | false => rfl
  | true =>
    have huncommon : f.problem.isCommon = false := by
      rw [Problem.isCommon, hnaming]
      exact Bool.and_false _
    obtain ⟨receiver, method, args, mark, -, rfl, -⟩ := uncommon_of_mem_faults env hf huncommon
    cases hnaming

/-! ## Declarations -/

theorem ordinary_bindLocal (file : Option String) (kind : NameKind) (name : String) (l : Local)
    (locals : Scope Local) : Ordinary (bindLocal file kind name l locals).2 := by
  unfold bindLocal
  split
  · exact ordinary_singleton rfl
  · split
    · exact ordinary_nil
    · exact ordinary_singleton rfl

theorem common_returnFaults (span : Span) (ty : Ty) (o : Option Expr) :
    Common (returnFaults env span ty o) := by
  cases o with
  | none => exact common_ite rfl
  | some e =>
    simp only [returnFaults]
    split
    · exact common_nil
    · split
      · exact common_singleton rfl
      · exact common_valueFaults env e ty

theorem ordinary_bindParams (h : Home) (locals : Scope Local) (ps : List Param) :
    Ordinary (bindParams h locals ps).2 := by
  induction ps generalizing locals with
  | nil => exact ordinary_nil
  | cons p ps ih =>
    simp only [bindParams, ordinary_append]
    exact ⟨⟨(common_declaredTy _ _ _ _ _).ordinary, ordinary_bindLocal _ _ _ _ _⟩, ih _⟩

theorem common_overrideFaults (h : Home) (m : Method) : Common (overrideFaults h m) := by
  unfold overrideFaults
  split
  · exact common_nil
  · split
    · exact common_ite rfl
    · exact common_nil

end

end Typing

end ClassCompiler
