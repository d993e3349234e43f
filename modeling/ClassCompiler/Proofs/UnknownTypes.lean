import ClassCompiler.Proofs.ExprParts
import ClassCompiler.Proofs.RejectedTypes

/-!
# Unknown types cause no faults

The type of a local variable may be unknown, because its declaration was rejected. Then the checks
of the body have less to go by. Here two checks of the same tree are compared, one of them with the
types of some locals made unknown: it reports no fault that the other one does not report, and what
it notes on an expression is either the same or nothing known.

Results:
1. `Typing.VagueLookup`: look-ups find the same or the unknown type.
2. `Typing.typeOf_vague`, `Typing.fewer_faults`: the type and the faults of an expression.
3. `Typing.vague_checkStmt`: a statement, with the locals that it leaves behind.
4. `unknown_locals_cause_no_faults`: both, for every place in a program.
-/

namespace ClassCompiler

open Typing

/-- The first type is the second one, or unknown. -/
def Ty.Vague (a b : Ty) : Prop := a = b ∨ a = .untyped

theorem Ty.Vague.refl (a : Ty) : a.Vague a := .inl rfl

/-- Which alternative of the problems a fault has, and where. -/
def Fault.kind (f : Fault) : Nat × Span := (f.problem.ctorIdx, f.span)

namespace Typing

/-! ## Fewer faults -/

/-- The first faults are some of the second, in the same order, as far as their kinds tell. -/
def FewerFaults (fs' fs : List Fault) : Prop := (fs'.map Fault.kind).Sublist (fs.map Fault.kind)

namespace FewerFaults

theorem refl (fs : List Fault) : FewerFaults fs fs := List.Sublist.refl _

theorem nil (fs : List Fault) : FewerFaults [] fs := List.nil_sublist _

theorem append {fs' fs gs' gs : List Fault} (hf : FewerFaults fs' fs) (hg : FewerFaults gs' gs) :
    FewerFaults (fs' ++ gs') (fs ++ gs) := by
  unfold FewerFaults
  rw [List.map_append, List.map_append]
  exact List.Sublist.append hf hg

theorem flatMap {α : Type} {as : List α} {f' f : α → List Fault}
    (h : ∀ a ∈ as, FewerFaults (f' a) (f a)) : FewerFaults (as.flatMap f') (as.flatMap f) := by
  induction as with
  | nil => exact refl []
  | cons a as ih =>
    rw [List.flatMap_cons, List.flatMap_cons]
    exact append (h a List.mem_cons_self) (ih fun a ha => h a (List.mem_cons_of_mem _ ha))

/-- A rule that is kept more often reports less. -/
theorem ite {c' c : Prop} [Decidable c'] [Decidable c] (h : c → c') {f' f : Fault}
    (hkind : f'.kind = f.kind) :
    FewerFaults (if c' then [] else [f']) (if c then [] else [f]) := by
  by_cases hc' : c'
  · rw [if_pos hc']
    exact nil _
  · rw [if_neg hc', if_neg (mt h hc')]
    unfold FewerFaults
    rw [List.map_singleton, List.map_singleton, hkind]

end FewerFaults

/-! ## Look-ups -/

/-- The first look-up goes like the second, or it finds the unknown type. -/
def VagueLookup (r' r : Except Problem Ty) : Prop := r' = r ∨ r' = .ok .untyped

namespace VagueLookup

variable {r' r : Except Problem Ty}

theorem tyOf (h : VagueLookup r' r) : (Typing.tyOf r').Vague (Typing.tyOf r) := by
  rcases h with rfl | rfl
  · exact .refl _
  · exact .inr rfl

theorem fewer (h : VagueLookup r' r) (span : Span) :
    FewerFaults (faultsOf span r') (faultsOf span r) := by
  rcases h with rfl | rfl
  · exact .refl _
  · exact .nil _

end VagueLookup

theorem vague_memberTy (t : ClassTable) {a b : Ty} (h : a.Vague b) (name : String) :
    VagueLookup (memberTy t a name) (memberTy t b name) := by
  rcases h with rfl | rfl
  · exact .inl rfl
  · exact .inr rfl

theorem vague_elemTy (name : String) {a b : Ty} (h : a.Vague b) :
    VagueLookup (elemTy name a) (elemTy name b) := by
  rcases h with rfl | rfl
  · exact .inl rfl
  · exact .inr rfl

theorem callee_of_vague (t : ClassTable) {a b : Ty} (h : a.Vague b) (method : String) :
    callee t a method = callee t b method ∨ callee t a method = .unknown := by
  rcases h with rfl | rfl
  · exact .inl rfl
  · exact .inr rfl

/-! ## Locals -/

/-- The same local, or one that differs from it in that its type is unknown. -/
structure VagueLocal (l' l : Local) : Prop where
  span_eq : l'.span = l.span
  ty : l'.ty.Vague l.ty

/-- The same names in the same order. -/
def VagueFrame : Frame Local → Frame Local → Prop :=
  List.Forall₂ fun b' b => b'.1 = b.1 ∧ VagueLocal b'.2 b.2

/-- The same frames with the same names in them; the types of some locals are unknown in the first
scope. -/
structure VagueLocals (s' s : Scope Local) : Prop where
  base : VagueFrame s'.base s.base
  inner : List.Forall₂ VagueFrame s'.inner s.inner

theorem VagueLocal.refl (l : Local) : VagueLocal l l := ⟨rfl, .refl _⟩

theorem rel_cases {α β : Type} {r : α → β → Prop} {a : Option α} {b : Option β}
    (h : Option.Rel r a b) : a = none ∧ b = none ∨ ∃ x y, a = some x ∧ b = some y ∧ r x y := by
  cases h with
  | none => exact .inl ⟨rfl, rfl⟩
  | some hr => exact .inr ⟨_, _, rfl, rfl, hr⟩

theorem VagueFrame.lookup {frame' frame : Frame Local} (h : VagueFrame frame' frame)
    (name : String) : Option.Rel VagueLocal (frame'.lookup name) (frame.lookup name) := by
  induction h with
  | nil => exact .none
  | @cons b' b frame' frame hb _ ih =>
    rw [List.lookup_cons, List.lookup_cons, hb.1]
    cases name == b.1 with
    | true => exact .some hb.2
    | false => exact ih

namespace VagueLocals

variable {s' s : Scope Local} (h : VagueLocals s' s)
include h

theorem lookup? (name : String) : Option.Rel VagueLocal (s'.lookup? name) (s.lookup? name) := by
  rw [Scope.lookup?_eq, Scope.lookup?_eq]
  have hbase := h.base.lookup name
  have hinner := h.inner
  generalize s'.inner = inner', s.inner = inner at hinner
  induction hinner with
  | nil => exact hbase
  | cons hframe _ ih =>
    rw [List.findSome?_cons, List.findSome?_cons]
    rcases rel_cases (hframe.lookup name) with ⟨hl', hl⟩ | ⟨l', l, hl', hl, hvague⟩
    · rw [hl', hl]
      exact ih
    · rw [hl', hl]
      exact .some hvague

theorem peek? (name : String) : Option.Rel VagueLocal (s'.peek? name) (s.peek? name) := by
  obtain ⟨base', inner'⟩ := s'
  obtain ⟨base, inner⟩ := s
  cases (h.inner : List.Forall₂ VagueFrame inner' inner) with
  | nil => exact h.base.lookup name
  | cons hframe _ => exact hframe.lookup name

theorem enter : VagueLocals s'.enter s.enter := ⟨h.base, .cons .nil h.inner⟩

theorem exit : VagueLocals s'.exit s.exit := by
  obtain ⟨base', inner'⟩ := s'
  obtain ⟨base, inner⟩ := s
  cases (h.inner : List.Forall₂ VagueFrame inner' inner) with
  | nil => exact ⟨h.base, .nil⟩
  | cons _ hrest => exact ⟨h.base, hrest⟩

theorem add? (name : String) (l : Local) :
    Option.Rel VagueLocals (s'.add? name l) (s.add? name l) := by
  have hlast {frame' frame : Frame Local} (hframe : VagueFrame frame' frame) :
      VagueFrame (frame' ++ [(name, l)]) (frame ++ [(name, l)]) :=
    List.rel_append hframe (.cons ⟨rfl, .refl l⟩ .nil)
  unfold Scope.add?
  rcases rel_cases (h.peek? name) with ⟨hl', hl⟩ | ⟨l', l, hl', hl, _⟩
  · rw [hl', hl]
    obtain ⟨base', inner'⟩ := s'
    obtain ⟨base, inner⟩ := s
    cases (h.inner : List.Forall₂ VagueFrame inner' inner) with
    | nil => exact .some ⟨hlast h.base, .nil⟩
    | cons hframe hrest => exact .some ⟨h.base, .cons (hlast hframe) hrest⟩
  · rw [hl', hl]
    exact .none

/-- A declaration goes the same way in both scopes. -/
theorem bindLocal (file : Option String) (kind : NameKind) (name : String) (l : Local) :
    VagueLocals (bindLocal file kind name l s').1 (bindLocal file kind name l s).1 ∧
      (bindLocal file kind name l s').2 = (bindLocal file kind name l s).2 := by
  have hprevious : ((s'.peek? name).map (·.span)).getD {} =
      ((s.peek? name).map (·.span)).getD {} := by
    rcases rel_cases (h.peek? name) with ⟨hl', hl⟩ | ⟨l', l, hl', hl, hvague⟩
    · rw [hl', hl]
    · rw [hl', hl]
      exact hvague.span_eq
  unfold Typing.bindLocal
  cases isReserved name with
  | true => exact ⟨h, rfl⟩
  | false =>
    rcases rel_cases (h.add? name l) with ⟨hadd', hadd⟩ | ⟨_, _, hadd', hadd, hvague⟩
    · simp only [hadd', hadd, hprevious]
      exact ⟨h, rfl⟩
    · simp only [hadd', hadd]
      exact ⟨hvague, rfl⟩

end VagueLocals

/-! ## Types of expressions -/

section

variable {t : ClassTable} {cls : String} {s' s : Scope Local} (h : VagueLocals s' s)
include h

theorem vague_nameTy (name : String) :
    VagueLookup (Env.nameTy ⟨t, cls, s'⟩ name) (Env.nameTy ⟨t, cls, s⟩ name) := by
  unfold Env.nameTy
  by_cases hnull : name = "null"
  · rw [if_pos hnull, if_pos hnull]
    exact .inl rfl
  · rw [if_neg hnull, if_neg hnull]
    rcases rel_cases (h.lookup? name) with ⟨hl', hl⟩ | ⟨l', l, hl', hl, hvague⟩
    · simp only [hl', hl]
      exact .inl rfl
    · simp only [hl', hl]
      exact hvague.ty.imp (congrArg Except.ok) (congrArg Except.ok)

theorem vague_targetTy (qualifier : Option Qualifier) (name : String) :
    VagueLookup (Env.targetTy ⟨t, cls, s'⟩ qualifier name)
      (Env.targetTy ⟨t, cls, s⟩ qualifier name) := by
  rcases qualifier with _ | _ | _
  · rw [Env.targetTy, Env.targetTy]
    cases isReserved name with
    | true => exact .inl rfl
    | false => exact vague_nameTy h name
  · exact .inl rfl
  · exact .inl rfl

theorem vague_refTy {object' object : Option Ty} (ho : Option.Rel Ty.Vague object' object)
    (name : String) :
    VagueLookup (Env.refTy ⟨t, cls, s'⟩ object' name) (Env.refTy ⟨t, cls, s⟩ object name) := by
  cases ho with
  | none => exact vague_nameTy h name
  | some hty => exact vague_memberTy t hty name

omit h in
theorem vague_typeOf? {o : Option Expr}
    (ih : ∀ e, o = some e → (typeOf ⟨t, cls, s'⟩ e).Vague (typeOf ⟨t, cls, s⟩ e)) :
    Option.Rel Ty.Vague (typeOf? ⟨t, cls, s'⟩ o) (typeOf? ⟨t, cls, s⟩ o) := by
  cases o with
  | none => exact .none
  | some e => exact .some (ih e rfl)

omit h in
theorem vague_getD {o' o : Option Ty} (ho : Option.Rel Ty.Vague o' o) (default : Ty) :
    (o'.getD default).Vague (o.getD default) := by
  cases ho with
  | none => exact .refl _
  | some hty => exact hty

theorem typeOf_vague (e : Expr) : (typeOf ⟨t, cls, s'⟩ e).Vague (typeOf ⟨t, cls, s⟩ e) := by
  -- most types are fixed by the shape alone
  induction e using Expr.induction with
  | dispatch receiver method args mark ihr _ =>
    have hreceiver := vague_getD (vague_typeOf? ihr) (.cls cls)
    rw [typeOf, typeOf]
    rcases callee_of_vague t hreceiver method with heq | heq
    · exact .inl (congrArg (callTy t) heq)
    · exact .inr (congrArg (callTy t) heq)
  | assign qualifier name value mark _ => exact (vague_targetTy h qualifier name).tyOf
  | arrayAssign qualifier name index value mark _ _ =>
    exact (vague_elemTy name (vague_targetTy h qualifier name).tyOf).tyOf
  | var object name mark ih => exact (vague_refTy h (vague_typeOf? ih) name).tyOf
  | arrayElem object name index mark iho _ =>
    exact (vague_elemTy name (vague_refTy h (vague_typeOf? iho) name).tyOf).tyOf
  | new | newArray | instanceOf | cast | binary | unary => exact .refl _
  | intLit | boolLit | stringLit => exact .refl _

end

/-! ## Rules -/

section

variable (t : ClassTable)

theorem untyped_isSubtype (ty : Ty) : t.isSubtype .untyped ty = true := by
  cases ty <;> simp [ClassTable.isSubtype]

variable {a' a b' b : Ty} (ha : a'.Vague a) (hb : b'.Vague b)
include ha

theorem operandFits_of_vague {expected : Ty} (h : operandFits expected a = true) :
    operandFits expected a' = true := by
  rcases ha with rfl | rfl
  · exact h
  · simp [operandFits, Ty.isUntyped]

theorem argMatches_of_vague {param : Ty} (h : argMatches t a param = true) :
    argMatches t a' param = true := by
  rcases ha with rfl | rfl
  · exact h
  · simp [argMatches, Ty.isUntyped]

theorem fewer_unaryFaults (span : Span) (op : UnaryOp) :
    FewerFaults (unaryFaults span op a') (unaryFaults span op a) :=
  .ite (operandFits_of_vague ha) rfl

theorem fewer_instanceOfFaults (span : Span) (tested : Except Problem Ty) :
    FewerFaults (instanceOfFaults t span a' tested) (instanceOfFaults t span a tested) := by
  cases tested with
  | error problem => exact .refl _
  | ok ty =>
    refine .ite (fun h => ?_) rfl
    rcases ha with rfl | rfl
    · exact h
    · exact isSubtype_untyped t ty

theorem fewer_castFaults (span : Span) (target : Except Problem Ty) :
    FewerFaults (castFaults t span a' target) (castFaults t span a target) := by
  cases target with
  | error problem => exact .refl _
  | ok ty =>
    refine .ite (fun h => ?_) rfl
    rcases ha with rfl | rfl
    · exact h
    · rw [untyped_isSubtype, Bool.true_or]

include hb

theorem isSubtype_of_vague (h : t.isSubtype a b = true) : t.isSubtype a' b' = true := by
  rcases ha with rfl | rfl
  · rcases hb with rfl | rfl
    · exact h
    · exact isSubtype_untyped t a'
  · exact untyped_isSubtype t b'

theorem fewer_conformFaults (span : Span) :
    FewerFaults (conformFaults t span a' b') (conformFaults t span a b) :=
  .ite (isSubtype_of_vague t ha hb) rfl

theorem operandsFit_of_vague {op : BinaryOp} (h : operandsFit t op a b = true) :
    operandsFit t op a' b' = true := by
  unfold operandsFit at h ⊢
  cases hop : op.operandTy? with
  | some expected =>
    simp only [hop] at h ⊢
    obtain ⟨hl, hr⟩ := Bool.and_eq_true_iff.mp h
    exact Bool.and_eq_true_iff.mpr ⟨operandFits_of_vague ha hl, operandFits_of_vague hb hr⟩
  | none =>
    simp only [hop] at h ⊢
    refine Bool.or_eq_true_iff.mpr ((Bool.or_eq_true_iff.mp h).imp ?_ ?_)
    · exact isSubtype_of_vague t ha hb
    · exact isSubtype_of_vague t hb ha

theorem fewer_binaryFaults (span : Span) (op : BinaryOp) :
    FewerFaults (binaryFaults t span op a' b') (binaryFaults t span op a b) :=
  .ite (operandsFit_of_vague t ha hb) rfl

end

/-- Arguments at the same places. -/
def VagueArgs : List (Ty × Span) → List (Ty × Span) → Prop :=
  List.Forall₂ fun arg' arg => arg'.1.Vague arg.1 ∧ arg'.2 = arg.2

theorem argFaults_cons (t : ClassTable) (method : String) (index : Nat) (arg : Ty × Span)
    (args : List (Ty × Span)) (p : ParamType) (params : List ParamType) :
    argFaults t method index (arg :: args) (p :: params) =
      (let param := (t.resolve? p.typeName).getD .untyped
        if argMatches t arg.1 param then []
        else [⟨.argMismatch method index param arg.1 param.mustEqual, arg.2⟩]) ++
        argFaults t method (index + 1) args params := by
  simp only [argFaults]
  split <;> rfl

theorem fewer_argFaults (t : ClassTable) (method : String) (index : Nat)
    {args' args : List (Ty × Span)} (h : VagueArgs args' args) (params : List ParamType) :
    FewerFaults (argFaults t method index args' params) (argFaults t method index args params) := by
  induction h generalizing index params with
  | nil => exact .refl _
  | @cons arg' arg args' args harg _ ih =>
    cases params with
    | nil => exact .refl _
    | cons p params =>
      rw [argFaults_cons, argFaults_cons]
      refine .append (.ite (argMatches_of_vague t harg.1) ?_) (ih (index + 1) params)
      exact congrArg (Prod.mk _) harg.2

theorem fewer_callFaults (t : ClassTable) (span : Span) {receiver' receiver : Ty}
    (hr : receiver'.Vague receiver) (method : String) {args' args : List (Ty × Span)}
    (ha : VagueArgs args' args) :
    FewerFaults (callFaults t span method args' (callee t receiver' method))
      (callFaults t span method args (callee t receiver method)) := by
  rcases callee_of_vague t hr method with heq | heq
  · rw [heq]
    cases callee t receiver method with
    | unknown => exact .refl _
    | missing problem fallback => exact .refl _
    | method b =>
      rw [callFaults, callFaults, List.Forall₂.length_eq ha]
      exact .append (.refl _) (fewer_argFaults t method 0 ha b.params)
  · rw [heq]
    exact .nil _

/-! ## Faults of expressions -/

section

variable {t : ClassTable} {cls : String} {s' s : Scope Local} (h : VagueLocals s' s)
include h

theorem fewer_valueFaults (e : Expr) {ty' ty : Ty} (hty : ty'.Vague ty) :
    FewerFaults (valueFaults ⟨t, cls, s'⟩ e ty') (valueFaults ⟨t, cls, s⟩ e ty) :=
  fewer_conformFaults t (typeOf_vague h e) hty e.span

theorem vagueArgs (es : List Expr) :
    VagueArgs (es.map (typed ⟨t, cls, s'⟩)) (es.map (typed ⟨t, cls, s⟩)) := by
  induction es with
  | nil => exact .nil
  | cons e es ih => exact .cons ⟨typeOf_vague h e, rfl⟩ ih

theorem fewer_ownFaults (e : Expr) :
    FewerFaults (ownFaults ⟨t, cls, s'⟩ e) (ownFaults ⟨t, cls, s⟩ e) := by
  have hpart (o : Option Expr) :
      Option.Rel Ty.Vague (typeOf? ⟨t, cls, s'⟩ o) (typeOf? ⟨t, cls, s⟩ o) :=
    vague_typeOf? fun e _ => typeOf_vague h e
  have htarget (qualifier : Option Qualifier) (name : String) :
      VagueLookup (Env.targetTy ⟨t, cls, s'⟩ qualifier name)
        (Env.targetTy ⟨t, cls, s⟩ qualifier name) := vague_targetTy h qualifier name
  cases e with
  | dispatch receiver method args mark =>
    exact fewer_callFaults t mark.span (vague_getD (hpart receiver) _) method (vagueArgs h args)
  | newArray elemName size mark =>
    exact .append (fewer_valueFaults h size (.refl _)) (.refl _)
  | instanceOf operand typeName mark =>
    exact fewer_instanceOfFaults t (typeOf_vague h operand) mark.span _
  | cast typeName operand mark => exact fewer_castFaults t (typeOf_vague h operand) mark.span _
  | assign qualifier name value mark =>
    have hty := (htarget qualifier name).tyOf
    exact .append ((htarget qualifier name).fewer mark.span) (fewer_valueFaults h value hty)
  | arrayAssign qualifier name index value mark =>
    have helem := vague_elemTy name (htarget qualifier name).tyOf
    refine .append (.append (.append ?_ ?_) (helem.fewer mark.span)) ?_
    · exact fewer_valueFaults h index (.refl _)
    · exact (htarget qualifier name).fewer mark.span
    · exact fewer_valueFaults h value helem.tyOf
  | binary op lhs rhs mark =>
    exact fewer_binaryFaults t (typeOf_vague h lhs) (typeOf_vague h rhs) mark.span op
  | unary op after operand mark => exact fewer_unaryFaults (typeOf_vague h operand) mark.span op
  | var object name mark => exact (vague_refTy h (hpart object) name).fewer mark.span
  | arrayElem object name index mark =>
    have harray : VagueLookup (Env.refTy ⟨t, cls, s'⟩ (typeOf? ⟨t, cls, s'⟩ object) name)
        (Env.refTy ⟨t, cls, s⟩ (typeOf? ⟨t, cls, s⟩ object) name) :=
      vague_refTy h (hpart object) name
    refine .append (.append ?_ (harray.fewer mark.span)) ?_
    · exact fewer_valueFaults h index (.refl _)
    · exact (vague_elemTy name harray.tyOf).fewer mark.span
  | new | intLit | boolLit | stringLit => exact .refl _

theorem fewer_faults (e : Expr) :
    FewerFaults (faults ⟨t, cls, s'⟩ e) (faults ⟨t, cls, s⟩ e) := by
  induction e using Expr.parts_induction with
  | step e ih =>
    rw [faults_eq, faults_eq]
    exact .append (.flatMap ih) (fewer_ownFaults h e)

theorem fewer_faults? (o : Option Expr) :
    FewerFaults (faults? ⟨t, cls, s'⟩ o) (faults? ⟨t, cls, s⟩ o) := by
  cases o with
  | none => exact .refl _
  | some e => exact fewer_faults h e

theorem fewer_initFaults (ty : Ty) (o : Option Expr) :
    FewerFaults (initFaults ⟨t, cls, s'⟩ ty o) (initFaults ⟨t, cls, s⟩ ty o) := by
  cases o with
  | none => exact .refl _
  | some e => exact .append (fewer_faults h e) (fewer_valueFaults h e (.refl ty))

theorem fewer_condFaults (e : Expr) :
    FewerFaults (condFaults ⟨t, cls, s'⟩ e) (condFaults ⟨t, cls, s⟩ e) :=
  .append (fewer_faults h e) (fewer_valueFaults h e (.refl _))

theorem fewer_condFaults? (o : Option Expr) :
    FewerFaults (condFaults? ⟨t, cls, s'⟩ o) (condFaults? ⟨t, cls, s⟩ o) := by
  cases o with
  | none => exact .refl _
  | some e => exact fewer_condFaults h e

theorem fewer_returnFaults (span : Span) (ty : Ty) (o : Option Expr) :
    FewerFaults (returnFaults ⟨t, cls, s'⟩ span ty o) (returnFaults ⟨t, cls, s⟩ span ty o) := by
  cases o with
  | none => exact .refl _
  | some e =>
    by_cases hunknown : ty = .untyped
    · simp only [returnFaults, if_pos hunknown]
      exact .refl _
    by_cases hvoid : ty = .void
    · simp only [returnFaults, if_neg hunknown, if_pos hvoid]
      exact .refl _
    simp only [returnFaults, if_neg hunknown, if_neg hvoid]
    exact fewer_valueFaults h e (.refl ty)

end

/-! ## Notes -/

end Typing

/-- The types noted on the expressions among the nodes. -/
def Node.notes (nodes : List Node) : List (Option Ty) := (nodes.filterMap Node.expr?).map Expr.ty?

namespace Typing

/-- Node by node the same note, or the note that nothing is known. -/
def VagueNotes (nodes' nodes : List Node) : Prop :=
  List.Forall₂ (fun note' note => note' = note ∨ note' = some .untyped)
    (Node.notes nodes') (Node.notes nodes)

namespace VagueNotes

theorem nil : VagueNotes [] [] := List.Forall₂.nil

theorem append {ns' ns ms' ms : List Node} (hn : VagueNotes ns' ns) (hm : VagueNotes ms' ms) :
    VagueNotes (ns' ++ ms') (ns ++ ms) := by
  unfold VagueNotes Node.notes
  rw [List.filterMap_append, List.filterMap_append, List.map_append, List.map_append]
  exact List.rel_append hn hm

/-- Statements have no notes of their own. -/
theorem stmt {r' r : Stmt} {ns' ns : List Node} (h : VagueNotes ns' ns) :
    VagueNotes (.stmt r' :: ns') (.stmt r :: ns) := h

end VagueNotes

section

variable {t : ClassTable} {cls : String} {s' s : Scope Local} (h : VagueLocals s' s)
include h

omit h in
theorem notes_annotate (env : Env) (e : Expr) :
    Node.notes (Node.ofExpr (annotate env e)) = e.nodes.map fun part => some (typeOf env part) := by
  have hexprs (es : List Expr) : (es.map Node.expr).filterMap Node.expr? = es := by
    induction es with
    | nil => rfl
    | cons e es ih => exact congrArg (e :: ·) ih
  rw [Node.notes, Node.ofExpr, hexprs, annotate, Expr.nodes_mapTy, List.map_map]
  exact List.map_congr_left fun part _ => Expr.ty?_mapTy _ part

theorem vagueNotes_ofExpr (e : Expr) :
    VagueNotes (Node.ofExpr (annotate ⟨t, cls, s'⟩ e)) (Node.ofExpr (annotate ⟨t, cls, s⟩ e)) := by
  unfold VagueNotes
  rw [notes_annotate, notes_annotate, List.forall₂_map_left_iff, List.forall₂_map_right_iff,
    List.forall₂_same]
  exact fun part _ => (typeOf_vague h part).imp (congrArg some) (congrArg some)

theorem vagueNotes_ofExpr? (o : Option Expr) :
    VagueNotes (Node.ofExpr? (o.map (annotate ⟨t, cls, s'⟩)))
      (Node.ofExpr? (o.map (annotate ⟨t, cls, s⟩))) := by
  cases o with
  | none => exact .nil
  | some e => exact vagueNotes_ofExpr h e

end

/-! ## Statements -/

/-- What the checks of the same piece of a body come to. -/
structure VagueCheck {α : Type} (nodes : α → List Node) (c' c : Checked α) : Prop where
  notes : VagueNotes (nodes c'.tree) (nodes c.tree)
  locals : VagueLocals c'.locals c.locals
  faults : FewerFaults c'.faults c.faults

section

variable (b : Body)

theorem vague_checkStmts {ss : List Stmt}
    (ih : ∀ r ∈ ss, ∀ loops s' s, VagueLocals s' s →
      VagueCheck Stmt.nodes (checkStmt b loops s' r) (checkStmt b loops s r))
    (loops : Nat) {s' s : Scope Local} (h : VagueLocals s' s) :
    VagueCheck Stmt.nodesAll (checkStmts b loops s' ss) (checkStmts b loops s ss) := by
  induction ss generalizing s' s with
  | nil => exact ⟨.nil, h, .refl _⟩
  | cons r ss ihss =>
    have hfirst := ih r List.mem_cons_self loops s' s h
    have hrest := ihss (fun r hr => ih r (List.mem_cons_of_mem _ hr)) hfirst.locals
    exact ⟨.append hfirst.notes hrest.notes, hrest.locals, .append hfirst.faults hrest.faults⟩

theorem vague_checkStmt (r : Stmt) :
    ∀ loops s' s, VagueLocals s' s →
      VagueCheck Stmt.nodes (checkStmt b loops s' r) (checkStmt b loops s r) := by
  induction r using Stmt.induction with
  | decl name typeName init span =>
    intro loops s' s h
    -- the declared type does not come from the locals
    have hbound := h.bindLocal b.file .localVar name
      ⟨tyOf (declaredTy b.table .localVar name typeName), span⟩
    refine ⟨.stmt (vagueNotes_ofExpr? h init), hbound.1, ?_⟩
    refine .append (.append (.refl _) (fewer_initFaults h _ init)) ?_
    rw [hbound.2]
    exact .refl _
  | expr e span =>
    intro loops s' s h
    exact ⟨.stmt (vagueNotes_ofExpr h e), h, fewer_faults h e⟩
  | ifElse cond thenBranch elseBranch span iht ihe =>
    intro loops s' s h
    have hthen := iht loops _ _ h.enter
    have helse : VagueCheck Stmt.nodes?
        (checkBranch b loops (checkStmt b loops s'.enter thenBranch).leave.locals elseBranch)
        (checkBranch b loops (checkStmt b loops s.enter thenBranch).leave.locals elseBranch) := by
      cases elseBranch with
      | none => exact ⟨.nil, hthen.locals.exit, .refl _⟩
      | some r =>
        have hbranch := ihe r rfl loops _ _ hthen.locals.exit.enter
        exact ⟨hbranch.notes, hbranch.locals.exit, hbranch.faults⟩
    refine ⟨.stmt (.append (.append (vagueNotes_ofExpr h cond) hthen.notes) helse.notes),
      helse.locals, ?_⟩
    exact .append (.append (fewer_condFaults h cond) hthen.faults) helse.faults
  | whileLoop cond body span ih =>
    intro loops s' s h
    have hbody := ih (loops + 1) _ _ h.enter
    exact ⟨.stmt (.append (vagueNotes_ofExpr h cond) hbody.notes), hbody.locals.exit,
      .append (fewer_condFaults h cond) hbody.faults⟩
  | forLoop init cond update body span ih =>
    intro loops s' s h
    have hbody := ih (loops + 1) _ _ h.enter
    refine ⟨.stmt (.append (.append (.append ?_ ?_) ?_) hbody.notes), hbody.locals.exit, ?_⟩
    · exact vagueNotes_ofExpr? h init
    · exact vagueNotes_ofExpr? h cond
    · exact vagueNotes_ofExpr? h update
    · exact .append (.append (.append (fewer_faults? h init) (fewer_condFaults? h cond))
        (fewer_faults? h update)) hbody.faults
  | breakLoop span =>
    intro loops s' s h
    exact ⟨.stmt .nil, h, .refl _⟩
  | block stmts span ih =>
    intro loops s' s h
    have hstmts := vague_checkStmts b ih loops h.enter
    exact ⟨.stmt hstmts.notes, hstmts.locals.exit, hstmts.faults⟩
  | ret value span =>
    intro loops s' s h
    exact ⟨.stmt (vagueNotes_ofExpr? h value), h,
      .append (fewer_faults? h value) (fewer_returnFaults h span b.returnTy value)⟩

end

end Typing

/-- Let two scopes have the same frames with the same locals in them, where the types of some locals
are unknown in the first scope. Any expression, and any statement in any method and inside any
number of loops, is checked in both. Then the kinds and places of the faults in the first scope are
some of those in the second, in the same order. Nothing but the notes on the trees differs, and an
expression has the same note on both, or the unknown type on the first. -/
theorem unknown_locals_cause_no_faults (b : Body) (loops : Nat) (s' s : Scope Local)
    (h : VagueLocals s' s) :
    (∀ e : Expr,
      let tree' := annotate (b.env s') e
      let tree := annotate (b.env s) e
      FewerFaults (faults (b.env s') e) (faults (b.env s) e) ∧
        tree'.erase = tree.erase ∧ VagueNotes (Node.ofExpr tree') (Node.ofExpr tree)) ∧
      ∀ r : Stmt,
        let c' := checkStmt b loops s' r
        let c := checkStmt b loops s r
        FewerFaults c'.faults c.faults ∧
          c'.tree.erase = c.tree.erase ∧ VagueNotes c'.tree.nodes c.tree.nodes ∧
          VagueLocals c'.locals c.locals := by
  refine ⟨fun e => ⟨fewer_faults h e, ?_, vagueNotes_ofExpr h e⟩, fun r => ?_⟩
  · rw [erase_annotate, erase_annotate]
  · have hcheck := vague_checkStmt b r loops s' s h
    refine ⟨hcheck.faults, ?_, hcheck.notes, hcheck.locals⟩
    rw [erase_checkStmt, erase_checkStmt]

/-- Two boolean locals, and the same with the type of the first unknown. -/
def flags (first : Ty) : Scope Local :=
  { inner := [[("p", ⟨first, {}⟩), ("q", ⟨.boolean, {}⟩)]] }

/-- A sum of the two, and a call on the first. -/
def flagUses : Stmt :=
  .block [.expr (.binary .add (.var none "p" {}) (.var none "q" {}) {}) {},
    .expr (.dispatch (some (.var none "p" {})) "toString" [] {}) {}] {}

/-- With the type of `p` unknown the call is not reported any more. The sum still is, for the sake
of `q`, and what the report says of `p` has changed. -/
theorem unknown_locals_cause_no_faults_flags :
    let table := (Members.bind [] (Hierarchy.build []).1).1
    let b : Body := { table, cls := "Object", file := none, returnTy := .void }
    VagueLocals (flags .untyped) (flags .boolean) ∧
      (checkStmt b 0 (flags .boolean) flagUses).faults =
        [⟨.badOperands .add .boolean .boolean, {}⟩, ⟨.invalidReceiver .boolean "toString", {}⟩] ∧
      (checkStmt b 0 (flags .untyped) flagUses).faults =
        [⟨.badOperands .add .untyped .boolean, {}⟩] ∧
      FewerFaults (checkStmt b 0 (flags .untyped) flagUses).faults
        (checkStmt b 0 (flags .boolean) flagUses).faults := by
  intro table b
  have h : VagueLocals (flags .untyped) (flags .boolean) :=
    ⟨.nil, .cons (.cons ⟨rfl, rfl, .inr rfl⟩ (.cons ⟨rfl, .refl _⟩ .nil)) .nil⟩
  exact ⟨h, by decide, by decide, ((unknown_locals_cause_no_faults b 0 _ _ h).2 flagUses).1⟩

end ClassCompiler
