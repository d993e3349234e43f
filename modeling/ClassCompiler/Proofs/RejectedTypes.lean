import ClassCompiler.Proofs.OverrideReports

/-!
# Declarations with a rejected type

The type of a field or a parameter is rejected if its name has no meaning, or if it is `void`. The
declaration is reported, and then it should not be the cause of further reports. Every use looks at
the name of the type again, so what a use sees depends on why the type was rejected.

Results:
1. `Typing.declaredTy_eq_error`: the two reasons.
2. `IsBoundField.refTy`, `IsBoundField.targetTy`: whoever refers to a field sees the unknown type
   for a name without a meaning, and the type `void` for `void`.
3. `Typing.tyOf_elemTy_rejected`: as an array the field has elements of the unknown type.
4. `Typing.argIndex_mem_argFaults`: which arguments of a call are reported.
5. `rejected_type_uses`: all this for the whole analysis of any program.
6. `void_members_cascade`: a field and a parameter of type `void` that are reported more than once.
-/

namespace ClassCompiler

open Typing

namespace Typing

/-! ## Rejected types -/

/-- What uses of a declaration see after its type was rejected. -/
def rejectedTy : Problem → Ty
  | .illegalVoid _ _ => .void
  | _ => .untyped

section

variable {t : ClassTable} {kind : NameKind} {name typeName : String} {problem : Problem}

theorem declaredTy_eq_error :
    declaredTy t kind name typeName = .error problem ↔
      t.resolve? typeName = none ∧ problem = .unknownType typeName ∨
        t.resolve? typeName = some .void ∧ kind ≠ .method ∧ problem = .illegalVoid kind name := by
  unfold declaredTy
  cases hty : t.resolve? typeName with
  | none => simp [eq_comm]
  | some ty =>
    by_cases hvoid : ty = .void ∧ kind ≠ .method
    · simp [hvoid, eq_comm]
    · simp only [if_neg hvoid, reduceCtorEq, false_and, Option.some.injEq, false_or, false_iff]
      exact fun ⟨hty, hkind, _⟩ => hvoid ⟨hty, hkind⟩

/-- A use resolves the name once more. -/
theorem resolve?_of_rejected (h : declaredTy t kind name typeName = .error problem) :
    (t.resolve? typeName).getD .untyped = rejectedTy problem := by
  rcases declaredTy_eq_error.mp h with ⟨hty, rfl⟩ | ⟨hty, _, rfl⟩
  · rw [hty]
    rfl
  · rw [hty]
    rfl

end

/-! ## Arguments -/

end Typing

/-- The position of the argument that a report is about. -/
def Problem.argIndex? : Problem → Option Nat
  | .argMismatch _ index _ _ _ => some index
  | _ => none

namespace Typing

section

variable {t : ClassTable} {method : String}

theorem le_of_mem_argFaults {index : Nat} {args : List (Ty × Span)} {params : List ParamType}
    {f : Fault} (hf : f ∈ argFaults t method index args params) {k : Nat}
    (hk : f.problem.argIndex? = some k) : index ≤ k := by
  induction args generalizing index params with
  | nil => exact absurd hf List.not_mem_nil
  | cons arg args ih =>
    cases params with
    | nil => exact absurd hf List.not_mem_nil
    | cons param params =>
      simp only [argFaults] at hf
      split at hf
      · exact Nat.le_of_succ_le (ih hf)
      · rcases List.mem_cons.mp hf with rfl | hf
        · exact (Option.some.inj hk).le
        · exact Nat.le_of_succ_le (ih hf)

/-- An argument is reported if it does not match its parameter. -/
theorem argIndex_mem_argFaults {index k : Nat} {args : List (Ty × Span)} {params : List ParamType}
    {arg : Ty × Span} {param : ParamType} (harg : args[k]? = some arg)
    (hparam : params[k]? = some param) :
    (∃ f ∈ argFaults t method index args params, f.problem.argIndex? = some (index + k)) ↔
      argMatches t arg.1 ((t.resolve? param.typeName).getD .untyped) = false := by
  induction args generalizing index k params with
  | nil => cases harg
  | cons first args ih =>
    cases params with
    | nil => cases hparam
    | cons p params =>
      simp only [argFaults]
      cases k with
      | zero =>
        cases harg
        cases hparam
        -- the later arguments have later positions
        have hlater : ¬ ∃ f ∈ argFaults t method (index + 1) args params,
            f.problem.argIndex? = some index := by
          rintro ⟨f, hf, hindex⟩
          exact absurd (le_of_mem_argFaults hf hindex) (by omega)
        split
        · next hmatches => simpa [hmatches] using hlater
        · next hfails => simp [hfails, Problem.argIndex?]
      | succ k =>
        have hrest : (∃ f ∈ argFaults t method (index + 1) args params,
            f.problem.argIndex? = some (index + 1 + k)) ↔ _ := ih harg hparam
        rw [show index + 1 + k = index + (k + 1) by omega] at hrest
        split
        · exact hrest
        · rw [← hrest, List.exists_mem_cons_iff]
          simp [Problem.argIndex?]

theorem argMatches_rejected {arg : Ty} {problem : Problem} :
    argMatches t arg (rejectedTy problem) = false ↔
      rejectedTy problem = .void ∧ arg ≠ .void ∧ arg ≠ .untyped := by
  have hcases : rejectedTy problem = .void ∨ rejectedTy problem = .untyped := by
    cases problem <;> simp [rejectedTy]
  rcases hcases with hty | hty
  · rw [hty]
    cases arg <;> simp [argMatches, Ty.isUntyped, Ty.mustEqual, ClassTable.isSubtype]
  · rw [hty]
    simp [argMatches, Ty.isUntyped]

/-- Neither kind of rejected type has known elements. -/
theorem tyOf_elemTy_rejected (name : String) (problem : Problem) :
    tyOf (elemTy name (rejectedTy problem)) = .untyped := by
  cases problem <;> rfl

end

/-- The position of an argument never comes from the number of arguments. -/
theorem argIndex_mem_callFaults {t : ClassTable} {span : Span} {method : String}
    {args : List (Ty × Span)} {b : MethodBinding} {k : Nat} :
    (∃ f ∈ callFaults t span method args (.method b), f.problem.argIndex? = some k) ↔
      ∃ f ∈ argFaults t method 0 args b.params, f.problem.argIndex? = some k := by
  simp only [callFaults, List.mem_append, or_and_right, exists_or]
  refine or_iff_right ?_
  rintro ⟨f, hf, hindex⟩
  unfold countFaults at hf
  split at hf
  · exact absurd hf List.not_mem_nil
  · cases List.mem_singleton.mp hf
    cases hindex

/-- A call leads to what the class of its receiver finds. -/
theorem callee_of_lookup {t : ClassTable} {receiver : Ty} {cls definer method : String}
    {b : MethodBinding} (hcls : receiverClass? t receiver = some cls)
    (hb : t.lookupMethod? cls method = some (definer, b)) :
    callee t receiver method = .method b := by
  have hknown : receiver ≠ .untyped := by
    rintro rfl
    cases hcls
  simp only [callee, if_neg hknown, hcls, hb]

/-! ## Reports on declarations -/

theorem isSubtype_untyped (t : ClassTable) (ty : Ty) : t.isSubtype ty .untyped = true := by
  cases ty <;> simp [ClassTable.isSubtype]

/-- Nothing is wrong with the value of a field of an unknown type but what is wrong in itself. -/
theorem faults_field_of_rejected {h : Home} {f : Field} {problem : Problem}
    (hrejected : declaredTy h.table .field f.name f.typeName = .error problem) :
    (checkFeature h (.field f)).2 =
      ⟨problem, f.span⟩ ::
        faults? { table := h.table, cls := h.cls, locals := {} } f.init := by
  simp only [checkFeature, checkField, hrejected, faultsOf, tyOf, List.cons_append, List.nil_append]
  cases f.init with
  | none => rfl
  | some e => simp [initFaults, faults?, valueFaults, conformFaults, isSubtype_untyped]

theorem mem_bindParams_of_rejected {h : Home} {ps : List Param} {q : Param} (hq : q ∈ ps)
    {problem : Problem} (hrejected : declaredTy h.table .param q.name q.typeName = .error problem)
    (locals : Scope Local) : ⟨problem, q.span⟩ ∈ (bindParams h locals ps).2 := by
  induction ps generalizing locals with
  | nil => exact absurd hq List.not_mem_nil
  | cons p ps ih =>
    simp only [bindParams, List.mem_append]
    rcases List.mem_cons.mp hq with rfl | hq
    · rw [hrejected]
      exact .inl (.inl List.mem_cons_self)
    · exact .inr (ih hq _)

theorem mem_checkFeature_of_rejected {h : Home} {m : Method} {q : Param} (hq : q ∈ m.params)
    {problem : Problem}
    (hrejected : declaredTy h.table .param q.name q.typeName = .error problem) :
    ⟨problem, q.span⟩ ∈ (checkFeature h (.method m)).2 := by
  simp only [checkFeature, checkMethod, List.mem_append]
  exact .inl (.inr (mem_bindParams_of_rejected hq hrejected _))

end Typing

/-! ## Members -/

namespace ClassTable

variable {t : ClassTable} (hnodup : t.names.Nodup) {cls name definer : String}
include hnodup

/-- What a look-up finds is bound in the class that it names. -/
theorem exists_entry_of_lookupField? {b : FieldBinding}
    (h : t.lookupField? cls name = some (definer, b)) :
    ∃ e, t.find? definer = some e ∧ e.fields.lookup? name = some b := by
  obtain ⟨e, he, hfound⟩ := List.exists_of_findSome?_eq_some h
  obtain ⟨b', hb', heq⟩ := Option.map_eq_some_iff.mp hfound
  obtain ⟨rfl, rfl⟩ := Prod.mk.inj heq
  exact ⟨e, find?_of_mem hnodup (mem_of_mem_chain he), (Option.filter_eq_some_iff.mp hb').1⟩

theorem exists_entry_of_lookupMethod? {b : MethodBinding}
    (h : t.lookupMethod? cls name = some (definer, b)) :
    ∃ e, t.find? definer = some e ∧ e.methods.lookup? name = some b := by
  obtain ⟨e, he, hfound⟩ := List.exists_of_findSome?_eq_some h
  obtain ⟨b', hb', heq⟩ := Option.map_eq_some_iff.mp hfound
  obtain ⟨rfl, rfl⟩ := Prod.mk.inj heq
  exact ⟨e, find?_of_mem hnodup (mem_of_mem_chain he), hb'⟩

end ClassTable

/-- The field is the one that was kept under its name in the entry of the class. -/
def IsBoundField (t : ClassTable) (c : ClassDecl) (f : Field) : Prop :=
  ∃ e, t.find? c.name = some e ∧ e.fields.lookup? f.name = some (Members.fieldBinding e c f)

/-- The method is the one that was kept under its name in the entry of the class. -/
def IsBoundMethod (t : ClassTable) (c : ClassDecl) (m : Method) : Prop :=
  ∃ e, t.find? c.name = some e ∧ e.methods.lookup? m.name = some (Members.methodBinding e c m)

instance (t : ClassTable) (c : ClassDecl) (f : Field) : Decidable (IsBoundField t c f) :=
  decidable_of_iff ((t.find? c.name).any fun e =>
    e.fields.lookup? f.name = some (Members.fieldBinding e c f))
    (by simp only [Option.any_eq_true, decide_eq_true_eq, IsBoundField])

instance (t : ClassTable) (c : ClassDecl) (m : Method) : Decidable (IsBoundMethod t c m) :=
  decidable_of_iff ((t.find? c.name).any fun e =>
    e.methods.lookup? m.name = some (Members.methodBinding e c m))
    (by simp only [Option.any_eq_true, decide_eq_true_eq, IsBoundMethod])

/-- A name refers to the field of a class: it stands alone and no local variable hides the field, or
it is a member of a value, and in the class of the value the field is found. -/
def Typing.Env.RefersTo (env : Env) (object : Option Ty) (name definer : String) : Prop :=
  match object with
  | none => env.locals.lookup? name = none ∧
      ∃ b, env.table.lookupField? env.cls name = some (definer, b)
  | some ty => ∃ cls b, ty = .cls cls ∧ env.table.lookupField? cls name = some (definer, b)

/-- The object whose member an assignment changes. -/
def Typing.Env.targetObject (env : Env) : Option Qualifier → Option Ty
  | none => none
  | some .this => some (.cls env.cls)
  | some .super => some (((env.table.parent? env.cls).map .cls).getD .untyped)

namespace IsBoundField

variable {t : ClassTable} {c : ClassDecl} {f : Field} (h : IsBoundField t c f)
include h

theorem lookupField?_own (hrooted : Rooted t) :
    ∃ b, t.lookupField? c.name f.name = some (c.name, b) := by
  obtain ⟨e, he, hb⟩ := h
  have hname := ClassTable.name_of_find? he
  refine ⟨Members.fieldBinding e c f, ?_⟩
  unfold ClassTable.lookupField?
  rw [hrooted.findSome?_ancestors he, hb]
  simp [hname]

section

variable (hnodup : t.names.Nodup)
include hnodup

theorem fieldTy? {cls : String} {b : FieldBinding}
    (hb : t.lookupField? cls f.name = some (c.name, b)) :
    b.role = .declared ∧ Typing.fieldTy? t cls f.name =
      some ((t.resolve? f.typeName).getD .untyped) := by
  obtain ⟨e, he, hbound⟩ := h
  obtain ⟨e', he', hfound⟩ := ClassTable.exists_entry_of_lookupField? hnodup hb
  cases he.symm.trans he'
  cases hbound.symm.trans hfound
  refine ⟨rfl, ?_⟩
  rw [Typing.fieldTy?, hb]
  rfl

theorem memberTy {cls : String} {b : FieldBinding}
    (hb : t.lookupField? cls f.name = some (c.name, b)) :
    Typing.memberTy t (.cls cls) f.name = .ok ((t.resolve? f.typeName).getD .untyped) := by
  obtain ⟨hrole, hty⟩ := h.fieldTy? hnodup hb
  simp only [Typing.memberTy, hb, Option.any_some, hrole, decide_true, if_true, hty,
    Option.getD_some]

variable {env : Env} (htable : env.table = t) (hres : isReserved f.name = false)
include htable hres

theorem nameTy (hlocal : env.locals.lookup? f.name = none) {b : FieldBinding}
    (hb : t.lookupField? env.cls f.name = some (c.name, b)) :
    env.nameTy f.name = .ok ((t.resolve? f.typeName).getD .untyped) := by
  have hnull : f.name ≠ "null" := by
    rintro hnull
    rw [hnull] at hres
    cases hres
  simp only [Env.nameTy, if_neg hnull, hlocal, htable, (h.fieldTy? hnodup hb).2]

/-- Whoever refers to the field sees what its type name stands for. -/
theorem refTy {object : Option Ty} (hrefers : env.RefersTo object f.name c.name) :
    env.refTy object f.name = .ok ((t.resolve? f.typeName).getD .untyped) := by
  unfold Env.RefersTo at hrefers
  cases object with
  | none =>
    obtain ⟨hlocal, b, hb⟩ := hrefers
    exact h.nameTy hnodup htable hres hlocal (htable ▸ hb)
  | some ty =>
    obtain ⟨cls, b, rfl, hb⟩ := hrefers
    rw [Env.refTy, htable]
    exact h.memberTy hnodup (htable ▸ hb)

theorem targetTy {qualifier : Option Qualifier}
    (hrefers : env.RefersTo (env.targetObject qualifier) f.name c.name) :
    env.targetTy qualifier f.name = .ok ((t.resolve? f.typeName).getD .untyped) := by
  have hty := h.refTy hnodup htable hres hrefers
  rcases qualifier with _ | _ | _
  · rw [Env.targetTy, if_neg (by simp [hres])]
    exact hty
  · exact hty
  · rw [Env.targetTy]
    cases hparent : env.table.parent? env.cls with
    | some parent =>
      rw [Env.targetObject, hparent] at hty
      exact hty
    | none =>
      -- above the root there is no field to refer to
      obtain ⟨cls, b, hcls, _⟩ := hrefers
      rw [hparent] at hcls
      cases hcls

end

end IsBoundField

theorem IsBoundMethod.lookupMethod?_own {t : ClassTable} {c : ClassDecl} {m : Method}
    (h : IsBoundMethod t c m) (hrooted : Rooted t) :
    ∃ b, t.lookupMethod? c.name m.name = some (c.name, b) := by
  obtain ⟨e, he, hb⟩ := h
  refine ⟨Members.methodBinding e c m, ?_⟩
  rw [hrooted.lookupMethod?_eq he, hb, ClassTable.name_of_find? he]
  rfl

/-- A call of the method reports the argument for a rejected parameter only if the parameter is
`void` and the argument has another type. -/
theorem IsBoundMethod.argIndex_mem_callFaults {t : ClassTable} {c : ClassDecl} {m : Method}
    (h : IsBoundMethod t c m) (hnodup : t.names.Nodup) {k : Nat} {q : Param}
    (hq : m.params[k]? = some q) {problem : Problem}
    (hrejected : declaredTy t .param q.name q.typeName = .error problem) {receiver : Ty}
    {cls : String} {b : MethodBinding} (hcls : receiverClass? t receiver = some cls)
    (hb : t.lookupMethod? cls m.name = some (c.name, b)) {args : List (Ty × Span)}
    {arg : Ty × Span} (harg : args[k]? = some arg) (span : Span) :
    (∃ f ∈ callFaults t span m.name args (callee t receiver m.name),
        f.problem.argIndex? = some k) ↔
      rejectedTy problem = .void ∧ arg.1 ≠ .void ∧ arg.1 ≠ .untyped := by
  obtain ⟨e, he, hbound⟩ := h
  obtain ⟨e', he', hfound⟩ := ClassTable.exists_entry_of_lookupMethod? hnodup hb
  cases he.symm.trans he'
  cases hbound.symm.trans hfound
  have hparam : (Members.methodBinding e c m).params[k]? = some ⟨q.name, q.typeName⟩ := by
    simp [Members.methodBinding, hq]
  have hargs : (∃ f ∈ argFaults t m.name 0 args (Members.methodBinding e c m).params,
      f.problem.argIndex? = some (0 + k)) ↔ _ := Typing.argIndex_mem_argFaults harg hparam
  rw [Nat.zero_add, resolve?_of_rejected hrejected, argMatches_rejected] at hargs
  rw [callee_of_lookup hcls hb, Typing.argIndex_mem_callFaults, hargs]

/-! ## The whole analysis -/

section

variable {p : Program} {c : ClassDecl}

/-- A fault of a member of a definition is reported. -/
theorem mem_diagnostics_of_definition {index : Nat}
    (hdef : (c, index) ∈ Hierarchy.definitions p.classes) {f : Feature} (hf : f ∈ c.features)
    {fault : Fault}
    (hfault : fault ∈ (checkFeature
      (homeOf (Members.bind p.classes (Hierarchy.build p.classes).1).1 c) f).2) :
    fault.diagnostic c.file ∈ (Analysis.run none p).diagnostics := by
  have hc := (Hierarchy.mem_definitions.mp hdef).1
  rw [Analysis.diagnostics_run_none]
  refine List.mem_append_left _ (List.mem_append_right _ ?_)
  exact mem_diagnostics_checkClasses hc ((isChecked_iff hc).mpr hdef) hf hfault

/-- A field that was bound has no reserved name. -/
theorem IsBoundField.not_reserved {f : Field}
    (h : IsBoundField (Members.bind p.classes (Hierarchy.build p.classes).1).1 c f) :
    isReserved f.name = false := by
  obtain ⟨e, he, hb⟩ := h
  have hmem := ClassTable.mem_of_find? he
  obtain ⟨d, hentry⟩ := isEntryOf_of_mem hmem
  obtain ⟨fields, methods, hframed⟩ := (hasFrames_bind p.classes).framed e hmem
  rw [hframed.fields_eq, Scope.lookup?_single] at hb
  have hin : (f.name, Members.fieldBinding e c f) ∈ e.fields.toList := by
    rw [hframed.fields_eq]
    exact List.mem_flatten.mpr ⟨_, List.mem_cons_of_mem _ List.mem_cons_self, mem_of_lookup hb⟩
  obtain ⟨f', _, hres, heq⟩ := hentry.bound.fields _ hin rfl
  exact (Prod.mk.inj heq).1 ▸ hres

end

/-- Let a field or a parameter of a class that is checked have a rejected type, and let its class
keep the field, or the method of the parameter. The declaration is reported, and the value of the
field is not compared with the type. Wherever in the program a name refers to the field it has the
type `void` if that is what was written, and no known type otherwise. Where the name stands for an
array, its elements have no known type; that it is no array is reported if the type written is `void`,
and nothing else that depends on the field. An argument for the parameter is reported only if the
type written is `void` and the argument has a known type other than it. -/
theorem rejected_type_uses (p : Program) :
    let t := (Members.bind p.classes (Hierarchy.build p.classes).1).1
    let diagnostics := (Analysis.run none p).diagnostics
    ∀ c index, (c, index) ∈ Hierarchy.definitions p.classes →
      (∀ f problem, .field f ∈ c.features → IsBoundField t c f →
        declaredTy t .field f.name f.typeName = .error problem →
          Fault.diagnostic c.file ⟨problem, f.span⟩ ∈ diagnostics ∧
          (checkFeature (homeOf t c) (.field f)).2 = ⟨problem, f.span⟩ ::
            faults? { table := t, cls := c.name, locals := {} } f.init ∧
          (∃ b, t.lookupField? c.name f.name = some (c.name, b)) ∧
          ∀ env : Env, env.table = t →
            (∀ object mark, env.RefersTo (typeOf? env object) f.name c.name →
              typeOf env (.var object f.name mark) = rejectedTy problem) ∧
            (∀ qualifier value mark, env.RefersTo (env.targetObject qualifier) f.name c.name →
              typeOf env (.assign qualifier f.name value mark) = rejectedTy problem) ∧
            (∀ object index mark, env.RefersTo (typeOf? env object) f.name c.name →
              typeOf env (.arrayElem object f.name index mark) = .untyped ∧
              faults env (.arrayElem object f.name index mark) =
                faults? env object ++ faults env index ++ valueFaults env index .int ++
                  faultsOf mark.span (elemTy f.name (rejectedTy problem))) ∧
            (∀ qualifier index value mark,
              env.RefersTo (env.targetObject qualifier) f.name c.name →
              typeOf env (.arrayAssign qualifier f.name index value mark) = .untyped ∧
              faults env (.arrayAssign qualifier f.name index value mark) =
                faults env index ++ faults env value ++ valueFaults env index .int ++
                  faultsOf mark.span (elemTy f.name (rejectedTy problem)))) ∧
      (∀ m k q problem, .method m ∈ c.features → IsBoundMethod t c m → m.params[k]? = some q →
        declaredTy t .param q.name q.typeName = .error problem →
          Fault.diagnostic c.file ⟨problem, q.span⟩ ∈ diagnostics ∧
          (∃ b, t.lookupMethod? c.name m.name = some (c.name, b)) ∧
          ∀ receiver cls b, receiverClass? t receiver = some cls →
            t.lookupMethod? cls m.name = some (c.name, b) →
            ∀ args arg span, args[k]? = some arg →
              ((∃ fault ∈ callFaults t span m.name args (callee t receiver m.name),
                  fault.problem.argIndex? = some k) ↔
                rejectedTy problem = .void ∧ arg.1 ≠ .void ∧ arg.1 ≠ .untyped)) := by
  intro t diagnostics c index hdef
  have hrooted : Rooted t := Members.rooted_bind p.classes (rooted_build p.classes)
  refine ⟨fun f problem hf hbound hrejected => ?_, fun m k q problem hm hbound hq hrejected => ?_⟩
  · have hfaults := faults_field_of_rejected (h := homeOf t c) hrejected
    have hres := hbound.not_reserved
    have href {env : Env} (htable : env.table = t) {object : Option Ty}
        (hrefers : env.RefersTo object f.name c.name) :
        env.refTy object f.name = .ok (rejectedTy problem) := by
      rw [hbound.refTy hrooted.nodup htable hres hrefers, resolve?_of_rejected hrejected]
    have htarget {env : Env} (htable : env.table = t) {qualifier : Option Qualifier}
        (hrefers : env.RefersTo (env.targetObject qualifier) f.name c.name) :
        env.targetTy qualifier f.name = .ok (rejectedTy problem) := by
      rw [hbound.targetTy hrooted.nodup htable hres hrefers, resolve?_of_rejected hrejected]
    refine ⟨?_, hfaults, hbound.lookupField?_own hrooted, fun env htable =>
      ⟨fun object mark hrefers => ?_, fun qualifier value mark hrefers => ?_,
        fun object index mark hrefers => ⟨?_, ?_⟩,
        fun qualifier index value mark hrefers => ⟨?_, ?_⟩⟩⟩
    · refine mem_diagnostics_of_definition hdef hf ?_
      rw [hfaults]
      exact List.mem_cons_self
    · rw [typeOf, href htable hrefers, tyOf]
    · rw [typeOf, htarget htable hrefers, tyOf]
    · rw [typeOf, href htable hrefers]
      exact tyOf_elemTy_rejected f.name problem
    · rw [faults, href htable hrefers, faultsOf, List.append_nil]
      rfl
    · rw [typeOf, htarget htable hrefers]
      exact tyOf_elemTy_rejected f.name problem
    · -- The value stands where no type is known, so it is not compared with one.
      have hvalue : valueFaults env value .untyped = [] := by
        rw [valueFaults, conformFaults, if_pos (isSubtype_untyped _ _)]
      have hty : tyOf (.ok (rejectedTy problem)) = rejectedTy problem := rfl
      rw [faults, htarget htable hrefers, faultsOf, List.append_nil, hty, tyOf_elemTy_rejected,
        hvalue, List.append_nil]
  · refine ⟨?_, hbound.lookupMethod?_own hrooted,
      fun receiver cls b hcls hb args arg span harg => ?_⟩
    · have hfault := mem_checkFeature_of_rejected (h := homeOf t c) (List.mem_of_getElem? hq)
        hrejected
      exact mem_diagnostics_of_definition hdef hm hfault
    · exact hbound.argIndex_mem_callFaults hrooted.nodup hq hrejected hcls hb harg span

/-- A field and a parameter whose types have no meaning, and a class that inherits both. -/
def strayTypes : Program where
  classes := [
    { name := "Main"
      features := [.field { name := "x", typeName := "Missing" }, Builtin.method "main" "void",
        Builtin.method "take" "void" [("y", "Missing[]")]] },
    { name := "Sub", parent := some "Main" }]

theorem rejected_type_uses_strayTypes :
    let t := (Members.bind strayTypes.classes (Hierarchy.build strayTypes.classes).1).1
    let env : Env := { table := t, cls := "Sub", locals := {} }
    typeOf env (.var none "x" {}) = .untyped ∧
      faults env (.arrayAssign none "x" (.intLit 0 {}) (.stringLit "y" {}) {}) = [] ∧
      ¬ ∃ fault ∈ callFaults t {} "take" [(.int, {})] (callee t (.cls "Sub") "take"),
        fault.problem.argIndex? = some 0 := by
  intro t env
  obtain ⟨hfield, hparam⟩ := rejected_type_uses strayTypes strayTypes.classes[0] 0
    (Hierarchy.mem_definitions.mpr ⟨rfl, by decide⟩)
  obtain ⟨_, _, _, huses⟩ := hfield { name := "x", typeName := "Missing" } (.unknownType "Missing")
    List.mem_cons_self (by decide) (by decide)
  obtain ⟨_, _, hcalls⟩ := hparam _ 0 { name := "y", typeName := "Missing[]" }
    (.unknownType "Missing[]") (List.mem_cons_of_mem _ (List.mem_cons_of_mem _ List.mem_cons_self))
    (by decide) rfl (by decide)
  have hrefers : env.RefersTo none "x" "Main" :=
    ⟨rfl, ⟨"Missing", .declared, .source none {}⟩, by decide⟩
  obtain ⟨href, _, _, harray⟩ := huses env rfl
  refine ⟨href none {} hrefers, (harray none _ _ {} hrefers).2.trans (by decide), ?_⟩
  rw [hcalls (.cls "Sub") "Sub" ⟨"void", [⟨"y", "Missing[]"⟩], .source none {}⟩ (by decide)
    (by decide) [(.int, {})] (.int, {}) {} rfl]
  decide

/-- A field and a parameter of type `void`. The field is returned where a number is expected, and a
number is passed for the parameter. -/
def voidMembers : Program where
  classes := [
    { name := "Main"
      features := [.field { name := "x", typeName := "void" }, Builtin.method "main" "void",
        Builtin.method "take" "void" [("y", "void")],
        .method { name := "give", returnName := "int"
                  body := [.expr (.dispatch none "take" [.intLit 1 {}] {}) {},
                    .ret (some (.var none "x" {})) {}] }] }]

/-- A rejected `void` is no unknown type to its uses, and they are reported once more. -/
theorem void_members_cascade :
    let t := (Members.bind voidMembers.classes (Hierarchy.build voidMembers.classes).1).1
    declaredTy t .field "x" "void" = .error (.illegalVoid .field "x") ∧
      typeOf { table := t, cls := "Main", locals := {} } (.var none "x" {}) = .void ∧
      (Analysis.run none voidMembers).diagnostics.map (·.cause) =
        [some (.fault ⟨.illegalVoid .field "x", {}⟩), some (.fault ⟨.illegalVoid .param "y", {}⟩),
          some (.fault ⟨.argMismatch "take" 0 .void .int false, {}⟩),
          some (.fault ⟨.mismatch .int .void, {}⟩)] := by
  decide

end ClassCompiler
