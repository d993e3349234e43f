import ClassCompiler.Proofs.Linkage
import ClassCompiler.Proofs.PeculiarFaults
import ClassCompiler.Proofs.RejectedTypes
import ClassCompiler.Proofs.Restoring

/-!
# Noted types are proper types

Types come from many places: names of types, the pseudo-fields `this` and `super`, fields and
methods of other classes, elements of arrays, and what a failed look-up falls back to. None of them
gives a type that no declaration could name, such as an array of arrays or a class that does not
exist, except for the types of `null` and of what is not known.

Results:
1. `Typing.grounded_bind`: in a table that was built and bound, whatever names a class names one of
   the table.
2. `Typing.isProper_typeOf`: at a place whose locals have proper types, so has every expression.
3. `Typing.proper_checkStmt`: a check keeps the types of locals proper, notes proper types, and
   finds no receiver without methods but numbers, booleans, `void` and `null`.
4. `noted_types_proper`: so it is for every program.
-/

namespace ClassCompiler

namespace Ty

/-- The type is one that arrays are made of: a primitive, or a class of the table. -/
inductive IsElem (t : ClassTable) : Ty → Prop where
  | int : IsElem t .int
  | boolean : IsElem t .boolean
  | cls {name : String} (h : name ∈ t.names) : IsElem t (.cls name)

/-- The type makes sense over the table. -/
inductive IsProper (t : ClassTable) : Ty → Prop where
  | elem {ty : Ty} (h : IsElem t ty) : IsProper t ty
  | array {ty : Ty} (h : IsElem t ty) : IsProper t (.array ty)
  | void : IsProper t .void
  | null : IsProper t .null
  | untyped : IsProper t .untyped

/-- The types that have no methods. -/
def plain : List Ty := [.int, .boolean, .void, .null]

end Ty

namespace ClassTable

variable {t : ClassTable}

theorem resolveElem?_cases {name : TypeName} {ty : Ty} (h : t.resolveElem? name = some ty) :
    ty = .void ∨ ty.IsElem t := by
  cases name with
  | int =>
    cases h
    exact .inr .int
  | boolean =>
    cases h
    exact .inr .boolean
  | void =>
    cases h
    exact .inl rfl
  | named name =>
    obtain ⟨hcontains, heq⟩ := Option.ite_none_right_eq_some.mp h
    cases heq
    exact .inr (.cls (contains_iff.mp hcontains))
  | array elem => cases h

/-- A type name stands for `void`, for a type that arrays are made of, or for an array of such. -/
theorem resolve?_cases {typeName : String} {ty : Ty} (h : t.resolve? typeName = some ty) :
    ty = .void ∨ ty.IsElem t ∨ ∃ elem, ty = .array elem ∧ elem.IsElem t := by
  unfold resolve? at h
  split at h
  · obtain ⟨elem, hfilter, rfl⟩ := Option.map_eq_some_iff.mp h
    obtain ⟨helem, hvoid⟩ := Option.filter_eq_some_iff.mp hfilter
    have hne : elem ≠ .void := of_decide_eq_true hvoid
    exact .inr (.inr ⟨elem, rfl, (resolveElem?_cases helem).resolve_left hne⟩)
  · exact (resolveElem?_cases h).imp_right .inl

theorem isProper_of_resolve? {typeName : String} {ty : Ty} (h : t.resolve? typeName = some ty) :
    ty.IsProper t := by
  obtain rfl | helem | ⟨elem, rfl, helem⟩ := resolve?_cases h
  · exact .void
  · exact .elem helem
  · exact .array helem

theorem isProper_resolve? (t : ClassTable) (typeName : String) :
    ((t.resolve? typeName).getD .untyped).IsProper t := by
  cases h : t.resolve? typeName with
  | none => exact .untyped
  | some ty => exact isProper_of_resolve? h

end ClassTable

namespace Scope

variable {α : Type} {name : String} {value : α}

theorem mem_toList_of_lookup? {s : Scope α} (h : s.lookup? name = some value) :
    (name, value) ∈ s.toList := by
  rw [lookup?_eq, Option.or_eq_some_iff] at h
  rcases h with hinner | ⟨-, hbase⟩
  · obtain ⟨frame, hframe, hlookup⟩ := List.exists_of_findSome?_eq_some hinner
    have hmem : frame ∈ s.frames := List.mem_cons_of_mem _ (List.mem_reverse.mpr hframe)
    exact List.mem_flatten.mpr ⟨frame, hmem, mem_of_lookup hlookup⟩
  · exact List.mem_flatten.mpr ⟨s.base, List.mem_cons_self, mem_of_lookup hbase⟩

end Scope

namespace Typing

/-! ## Look-ups -/

/-- Whatever names a class in the table without being a declared type names one of its classes. -/
structure Grounded (t : ClassTable) : Prop where
  nodup : t.names.Nodup
  object_mem : objectName ∈ t.names
  string_mem : stringName ∈ t.names
  pseudo_mem : ∀ e ∈ t.entries, ∀ name b, e.fields.lookup? name = some b → b.role ≠ .declared →
    b.typeName = "" ∨ b.typeName ∈ t.names

theorem grounded_bind (classes : List ClassDecl) :
    Grounded (Members.bind classes (Hierarchy.build classes).1).1 := by
  have hrooted := Members.rooted_bind classes (rooted_build classes)
  refine ⟨hrooted.nodup, hrooted.root_mem, Assembly.builtinNames_subset classes (by decide), ?_⟩
  intro e he name b hlookup hrole
  obtain ⟨fields, methods, hframed⟩ := (hasFrames_bind classes).framed e he
  rw [hframed.fields_eq, Scope.lookup?_single] at hlookup
  have hmem := (List.mem_append.mp (mem_of_lookup hlookup)).resolve_right
    fun hfield => hrole (hframed.role_eq _ hfield)
  simp only [Members.pseudoFrame, List.mem_cons, Prod.mk.injEq, List.not_mem_nil, or_false] at hmem
  rcases hmem with ⟨-, rfl⟩ | ⟨-, rfl⟩
  · exact .inr (List.mem_map_of_mem he)
  · cases hparent : e.parent with
    | none => exact .inl rfl
    | some parent =>
      have hlink : (Members.bind classes (Hierarchy.build classes).1).1.parent? e.name =
          some parent := by
        rw [ClassTable.parent?, ClassTable.find?_of_mem hrooted.nodup he]
        exact hparent
      exact .inr (hrooted.closed e.name (List.mem_map_of_mem he) parent hlink)

section

variable {t : ClassTable} (h : Grounded t)
include h

theorem isProper_object : Ty.object.IsProper t := .elem (.cls h.object_mem)

theorem isProper_string : Ty.string.IsProper t := .elem (.cls h.string_mem)

theorem isProper_fieldTy? {cls name : String} {ty : Ty} (hty : fieldTy? t cls name = some ty) :
    ty.IsProper t := by
  obtain ⟨⟨definer, b⟩, hlookup, rfl⟩ := Option.map_eq_some_iff.mp hty
  obtain ⟨e, he, hfield⟩ := ClassTable.exists_entry_of_lookupField? h.nodup hlookup
  have hpseudo (hrole : b.role ≠ .declared) :
      (if b.typeName = "" then Ty.untyped else .cls b.typeName).IsProper t := by
    split
    · exact .untyped
    · next hname =>
      have hmem := h.pseudo_mem e (ClassTable.mem_of_find? he) name b hfield hrole
      exact .elem (.cls (hmem.resolve_left hname))
  cases hrole : b.role with
  | declared => simpa only [hrole] using ClassTable.isProper_resolve? t b.typeName
  | this => simpa only [hrole] using hpseudo (by rw [hrole]; decide)
  | super => simpa only [hrole] using hpseudo (by rw [hrole]; decide)

theorem isProper_memberTy (object : Ty) (name : String) :
    (tyOf (memberTy t object name)).IsProper t := by
  unfold memberTy
  split
  · exact .untyped
  · split
    · exact .elem .int
    · exact .untyped
  · next cls =>
    split
    · cases hty : fieldTy? t cls name with
      | none => exact .untyped
      | some ty => exact isProper_fieldTy? h hty
    · exact .untyped
  · exact .untyped

theorem isProper_callTy (receiver : Ty) (method : String) :
    (callTy t (callee t receiver method)).IsProper t := by
  unfold callee
  split
  · exact .untyped
  · split
    · exact .untyped
    · split
      · exact isProper_object h
      · next b _ => exact ClassTable.isProper_resolve? t b.returnName

omit h in
theorem isProper_elemTy {ty : Ty} (hty : ty.IsProper t) (name : String) :
    (tyOf (elemTy name ty)).IsProper t := by
  cases hty with
  | array helem => exact .elem helem
  | elem helem => cases helem <;> exact .untyped
  | void | null | untyped => exact .untyped

omit h in
theorem isProper_newArrayTy (elemName : String) : (tyOf (newArrayTy t elemName)).IsProper t := by
  unfold newArrayTy
  split
  · exact .untyped
  · exact .untyped
  · exact .untyped
  · next elem hvoid harray hresolve =>
    obtain rfl | helem | ⟨inner, rfl, -⟩ := ClassTable.resolve?_cases hresolve
    · exact absurd rfl hvoid
    · exact .array helem
    · exact absurd rfl (harray inner)

omit h in
theorem isProper_declaredTy (kind : NameKind) (name typeName : String) :
    (tyOf (declaredTy t kind name typeName)).IsProper t := by
  unfold declaredTy
  split
  · exact .untyped
  · next hresolve =>
    split
    · exact .untyped
    · exact ClassTable.isProper_of_resolve? hresolve

omit h in
theorem isProper_namedTy (typeName : String) : (tyOf (namedTy t typeName)).IsProper t := by
  unfold namedTy
  split
  · next hresolve => exact ClassTable.isProper_of_resolve? hresolve
  · exact .untyped

/-- A new object has the class that is named, or else the root class. -/
theorem isProper_new (typeName : String) :
    (match newTy t typeName with
      | .ok ty => ty
      | .error _ => Ty.object).IsProper t := by
  unfold newTy
  cases hresolve : t.resolve? typeName with
  | none => exact isProper_object h
  | some ty =>
    cases ty with
    | cls name => exact ClassTable.isProper_of_resolve? hresolve
    | int | boolean | void | null | array | untyped => exact isProper_object h

end

/-! ## Expressions -/

/-- All locals have proper types. -/
def ProperLocals (t : ClassTable) (s : Scope Local) : Prop := ∀ p ∈ s.toList, p.2.ty.IsProper t

/-- A place in a class of the table whose locals have proper types. -/
structure ProperEnv (env : Env) : Prop where
  grounded : Grounded env.table
  cls_mem : env.cls ∈ env.table.names
  locals : ProperLocals env.table env.locals

section

variable {env : Env} (h : ProperEnv env)
include h

theorem isProper_nameTy (name : String) : (tyOf (env.nameTy name)).IsProper env.table := by
  unfold Env.nameTy
  split
  · exact .null
  · split
    · next l hlocal => exact h.locals _ (Scope.mem_toList_of_lookup? hlocal)
    · split
      · next ty hfield => exact isProper_fieldTy? h.grounded hfield
      · exact .untyped

theorem isProper_targetTy (qualifier : Option Qualifier) (name : String) :
    (tyOf (env.targetTy qualifier name)).IsProper env.table := by
  unfold Env.targetTy
  split
  · split
    · exact .untyped
    · exact isProper_nameTy h name
  · exact isProper_memberTy h.grounded _ _
  · split
    · exact isProper_memberTy h.grounded _ _
    · exact .untyped

theorem isProper_refTy (object : Option Ty) (name : String) :
    (tyOf (env.refTy object name)).IsProper env.table := by
  cases object with
  | none => exact isProper_nameTy h name
  | some ty => exact isProper_memberTy h.grounded ty name

theorem isProper_typeOf (e : Expr) : (typeOf env e).IsProper env.table := by
  -- no induction: a look-up gives a proper type whatever the type of the part it starts from
  cases e with
  | dispatch receiver method args mark => exact isProper_callTy h.grounded _ _
  | new typeName mark => exact isProper_new h.grounded typeName
  | newArray elemName size mark => exact isProper_newArrayTy elemName
  | cast typeName operand mark => exact isProper_namedTy typeName
  | assign qualifier name value mark => exact isProper_targetTy h qualifier name
  | arrayAssign qualifier name index value mark =>
    exact isProper_elemTy (isProper_targetTy h qualifier name) name
  | var object name mark => exact isProper_refTy h _ name
  | arrayElem object name index mark => exact isProper_elemTy (isProper_refTy h _ name) name
  | binary op lhs rhs mark =>
    cases op <;> first | exact .elem .int | exact .elem .boolean
  | unary op after operand mark =>
    cases op <;> first | exact .elem .int | exact .elem .boolean
  | stringLit value mark => exact isProper_string h.grounded
  | intLit value mark => exact .elem .int
  | boolLit value mark => exact .elem .boolean
  | instanceOf operand typeName mark => exact .elem .boolean

omit h in
/-- Of the proper types all but the plain ones have methods, or are not known. -/
theorem mem_plain_of_receiverClass? {ty : Ty} (hty : ty.IsProper env.table) (hknown : ty ≠ .untyped)
    (hnone : receiverClass? env.table ty = none) : ty ∈ Ty.plain := by
  cases hty with
  | elem helem =>
    cases helem with
    | int | boolean => decide
    | cls hmem =>
      rw [receiverClass?, if_pos (ClassTable.contains_iff.mpr hmem)] at hnone
      cases hnone
  | array helem => cases hnone
  | void | null => decide
  | untyped => exact absurd rfl hknown

end

/-- Where the receiver of a call is reported as having no methods, it has a plain type. -/
def PlainReceivers (fs : List Fault) : Prop :=
  ∀ f ∈ fs, ∀ ty method, f.problem = .invalidReceiver ty method → ty ∈ Ty.plain

theorem plainReceivers_append {fs gs : List Fault} :
    PlainReceivers (fs ++ gs) ↔ PlainReceivers fs ∧ PlainReceivers gs := by
  simp only [PlainReceivers, List.mem_append, or_imp, forall_and]

theorem Ordinary.plainReceivers {fs : List Fault} (h : Ordinary fs) : PlainReceivers fs := by
  intro f hf ty method hproblem
  have hordinary := h f hf
  rw [hproblem] at hordinary
  cases hordinary

/-- The type of every expression is noted, and is proper. -/
def ProperNotes (t : ClassTable) (nodes : List Node) : Prop :=
  ∀ e, .expr e ∈ nodes → ∃ ty, e.ty? = some ty ∧ ty.IsProper t

section

variable {t : ClassTable}

theorem properNotes_nil : ProperNotes t [] := fun _ he => absurd he List.not_mem_nil

theorem properNotes_append {ns ms : List Node} :
    ProperNotes t (ns ++ ms) ↔ ProperNotes t ns ∧ ProperNotes t ms := by
  simp only [ProperNotes, List.mem_append, or_imp, forall_and]

/-- Statements have no notes of their own. -/
theorem properNotes_stmt {s : Stmt} {ns : List Node} (h : ProperNotes t ns) :
    ProperNotes t (.stmt s :: ns) := by
  intro e he
  rcases List.mem_cons.mp he with heq | he
  · cases heq
  · exact h e he

end

section

variable {env : Env} (h : ProperEnv env)
include h

theorem plainReceivers_faults (e : Expr) : PlainReceivers (faults env e) := by
  intro f hf ty method hproblem
  obtain ⟨receiver, _, args, mark, -, rfl, hknown, hnone⟩ :=
    peculiar_of_mem_faults env hf (by rw [hproblem]; rfl)
  have hproper : ((typeOf? env receiver).getD (.cls env.cls)).IsProper env.table := by
    cases receiver with
    | none => exact .elem (.cls h.cls_mem)
    | some receiver => exact isProper_typeOf h receiver
  cases hproblem
  exact mem_plain_of_receiverClass? hproper hknown hnone

theorem plainReceivers_faults? (o : Option Expr) : PlainReceivers (faults? env o) := by
  cases o with
  | none => exact ordinary_nil.plainReceivers
  | some e => exact plainReceivers_faults h e

theorem plainReceivers_initFaults (ty : Ty) (o : Option Expr) :
    PlainReceivers (initFaults env ty o) := by
  cases o with
  | none => exact ordinary_nil.plainReceivers
  | some e =>
    exact plainReceivers_append.mpr
      ⟨plainReceivers_faults h e, (common_valueFaults env e ty).ordinary.plainReceivers⟩

theorem plainReceivers_condFaults (e : Expr) : PlainReceivers (condFaults env e) :=
  plainReceivers_initFaults h .boolean (some e)

theorem plainReceivers_condFaults? (o : Option Expr) : PlainReceivers (condFaults? env o) := by
  cases o with
  | none => exact ordinary_nil.plainReceivers
  | some e => exact plainReceivers_condFaults h e

theorem properNotes_ofExpr (e : Expr) :
    ProperNotes env.table (Node.ofExpr (annotate env e)) := by
  intro note hnote
  obtain ⟨part, hpart, heq⟩ := List.mem_map.mp hnote
  cases heq
  rw [annotate, Expr.nodes_mapTy] at hpart
  obtain ⟨part, -, rfl⟩ := List.mem_map.mp hpart
  exact ⟨typeOf env part, Expr.ty?_mapTy _ part, isProper_typeOf h part⟩

theorem properNotes_ofExpr? (o : Option Expr) :
    ProperNotes env.table (Node.ofExpr? (o.map (annotate env))) := by
  cases o with
  | none => exact properNotes_nil
  | some e => exact properNotes_ofExpr h e

end

/-! ## Statements -/

namespace ProperLocals

variable {t : ClassTable} {s : Scope Local}

theorem enter (h : ProperLocals t s) : ProperLocals t s.enter := by
  have hsame : s.enter.toList = s.toList := by simp [Scope.toList, Scope.frames, Scope.enter]
  unfold ProperLocals
  rw [hsame]
  exact h

theorem exit (h : ProperLocals t s) : ProperLocals t s.exit := by
  intro p hp
  obtain ⟨frame, hframe, hp⟩ := List.mem_flatten.mp hp
  refine h p (List.mem_flatten.mpr ⟨frame, ?_, hp⟩)
  rcases List.mem_cons.mp hframe with rfl | hframe
  · exact List.mem_cons_self
  · exact List.mem_cons_of_mem _
      (List.mem_reverse.mpr (List.mem_of_mem_tail (List.mem_reverse.mp hframe)))

theorem bindLocal (h : ProperLocals t s) (file : Option String) (kind : NameKind) (name : String)
    {l : Local} (hl : l.ty.IsProper t) : ProperLocals t (bindLocal file kind name l s).1 := by
  rcases bindLocal_cases file kind name l s with heq | hadd
  · rw [heq]
    exact h
  · unfold ProperLocals
    rw [Scope.toList_add? hadd]
    exact List.forall_mem_append.mpr ⟨h, List.forall_mem_singleton.mpr hl⟩

end ProperLocals

/-- A check that notes proper types, leaves proper locals and reports plain receivers. -/
structure ProperCheck {α : Type} (t : ClassTable) (nodes : α → List Node) (c : Checked α) :
    Prop where
  notes : ProperNotes t (nodes c.tree)
  locals : ProperLocals t c.locals
  faults : PlainReceivers c.faults

theorem ProperCheck.leave {α : Type} {t : ClassTable} {nodes : α → List Node} {c : Checked α}
    (h : ProperCheck t nodes c) : ProperCheck t nodes c.leave :=
  ⟨h.notes, h.locals.exit, h.faults⟩

section

variable {b : Body}

theorem proper_checkStmts {loops : Nat} {ss : List Stmt}
    (ih : ∀ s ∈ ss, ∀ locals, ProperLocals b.table locals →
      ProperCheck b.table Stmt.nodes (checkStmt b loops locals s)) {locals : Scope Local}
    (h : ProperLocals b.table locals) :
    ProperCheck b.table Stmt.nodesAll (checkStmts b loops locals ss) := by
  induction ss generalizing locals with
  | nil => exact ⟨properNotes_nil, h, ordinary_nil.plainReceivers⟩
  | cons s ss ihss =>
    have hfirst := ih s List.mem_cons_self locals h
    have hrest := ihss (fun s hs => ih s (List.mem_cons_of_mem _ hs)) hfirst.locals
    exact ⟨properNotes_append.mpr ⟨hfirst.notes, hrest.notes⟩, hrest.locals,
      plainReceivers_append.mpr ⟨hfirst.faults, hrest.faults⟩⟩

variable (hgrounded : Grounded b.table) (hcls : b.cls ∈ b.table.names)
include hgrounded hcls

theorem proper_checkStmt (s : Stmt) : ∀ loops locals, ProperLocals b.table locals →
    ProperCheck b.table Stmt.nodes (checkStmt b loops locals s) := by
  have henv {locals : Scope Local} (h : ProperLocals b.table locals) : ProperEnv (b.env locals) :=
    ⟨hgrounded, hcls, h⟩
  induction s using Stmt.induction with
  | decl name typeName init span =>
    intro loops locals h
    refine ⟨properNotes_stmt (properNotes_ofExpr? (henv h) init), ?_, ?_⟩
    · exact h.bindLocal _ _ _ (isProper_declaredTy .localVar name typeName)
    · simp only [checkStmt, plainReceivers_append]
      exact ⟨⟨(common_declaredTy _ _ _ _ _).ordinary.plainReceivers,
        plainReceivers_initFaults (henv h) _ init⟩, (ordinary_bindLocal _ _ _ _ _).plainReceivers⟩
  | expr e span =>
    intro loops locals h
    exact ⟨properNotes_stmt (properNotes_ofExpr (henv h) e), h, plainReceivers_faults (henv h) e⟩
  | ifElse cond thenBranch elseBranch span iht ihe =>
    intro loops locals h
    have hthen := (iht loops locals.enter h.enter).leave
    have helse (locals : Scope Local) (h : ProperLocals b.table locals) :
        ProperCheck b.table Stmt.nodes? (checkBranch b loops locals elseBranch) := by
      cases elseBranch with
      | none => exact ⟨properNotes_nil, h, ordinary_nil.plainReceivers⟩
      | some s =>
        have hbranch := ihe s rfl loops locals.enter h.enter
        exact ⟨hbranch.notes, hbranch.leave.locals, hbranch.faults⟩
    have hbranch := helse _ hthen.locals
    refine ⟨properNotes_stmt ?_, hbranch.locals, ?_⟩
    · simp only [properNotes_append]
      exact ⟨⟨properNotes_ofExpr (henv h) cond, hthen.notes⟩, hbranch.notes⟩
    · simp only [checkStmt, plainReceivers_append]
      exact ⟨⟨plainReceivers_condFaults (henv h) cond, hthen.faults⟩, hbranch.faults⟩
  | whileLoop cond body span ih =>
    intro loops locals h
    have hbody := (ih (loops + 1) locals.enter h.enter).leave
    refine ⟨properNotes_stmt ?_, hbody.locals, ?_⟩
    · exact properNotes_append.mpr ⟨properNotes_ofExpr (henv h) cond, hbody.notes⟩
    · exact plainReceivers_append.mpr ⟨plainReceivers_condFaults (henv h) cond, hbody.faults⟩
  | forLoop init cond update body span ih =>
    intro loops locals h
    have hbody := (ih (loops + 1) locals.enter h.enter).leave
    have hnotes (o : Option Expr) := properNotes_ofExpr? (henv h) o
    have hparts (o : Option Expr) := plainReceivers_faults? (henv h) o
    refine ⟨properNotes_stmt ?_, hbody.locals, ?_⟩
    · simp only [properNotes_append]
      exact ⟨⟨⟨hnotes init, hnotes cond⟩, hnotes update⟩, hbody.notes⟩
    · simp only [checkStmt, plainReceivers_append]
      exact ⟨⟨⟨hparts init, plainReceivers_condFaults? (henv h) cond⟩, hparts update⟩,
        hbody.faults⟩
  | breakLoop span =>
    intro loops locals h
    refine ⟨properNotes_stmt properNotes_nil, h, fun f hf ty method hproblem => ?_⟩
    simp only [checkStmt] at hf
    split at hf
    · cases List.mem_singleton.mp hf
      cases hproblem
    · exact absurd hf List.not_mem_nil
  | block stmts span ih =>
    intro loops locals h
    have hstmts := (proper_checkStmts (fun s hs => ih s hs loops) h.enter).leave
    exact ⟨properNotes_stmt hstmts.notes, hstmts.locals, hstmts.faults⟩
  | ret value span =>
    intro loops locals h
    refine ⟨properNotes_stmt (properNotes_ofExpr? (henv h) value), h, ?_⟩
    exact plainReceivers_append.mpr
      ⟨plainReceivers_faults? (henv h) value, (common_returnFaults _ _ _ _).ordinary.plainReceivers⟩

end

/-! ## Classes -/

section

variable {h : Home}

theorem properLocals_bindParams {locals : Scope Local} (hlocals : ProperLocals h.table locals)
    (ps : List Param) : ProperLocals h.table (bindParams h locals ps).1 := by
  induction ps generalizing locals with
  | nil => exact hlocals
  | cons p ps ih =>
    exact ih (hlocals.bindLocal _ _ _ (isProper_declaredTy .param p.name p.typeName))

theorem properLocals_empty (t : ClassTable) : ProperLocals t {} :=
  fun _ hp => absurd hp List.not_mem_nil

variable (hgrounded : Grounded h.table) (hcls : h.cls ∈ h.table.names)
include hgrounded hcls

theorem proper_checkFeature (f : Feature) :
    ProperNotes h.table (checkFeature h f).1.nodes ∧ PlainReceivers (checkFeature h f).2 := by
  cases f with
  | field f =>
    have henv : ProperEnv { table := h.table, cls := h.cls, locals := {} } :=
      ⟨hgrounded, hcls, properLocals_empty h.table⟩
    refine ⟨fun e he => ?_, ?_⟩
    · rcases List.mem_cons.mp he with heq | he
      · cases heq
      · exact properNotes_ofExpr? henv f.init e he
    · exact plainReceivers_append.mpr
        ⟨(common_declaredTy _ _ _ _ _).ordinary.plainReceivers,
          plainReceivers_initFaults henv _ f.init⟩
  | method m =>
    let declared := declaredTy h.table .method m.name m.returnName
    let b : Body := { table := h.table, cls := h.cls, file := h.file, returnTy := tyOf declared }
    have hparams : ProperLocals b.table (bindParams h ({} : Scope Local).enter m.params).1 :=
      properLocals_bindParams (properLocals_empty h.table).enter m.params
    have hbody : ProperCheck b.table Stmt.nodesAll (checkStmts b 0 _ m.body) :=
      proper_checkStmts (fun s _ => proper_checkStmt hgrounded hcls s 0) hparams
    refine ⟨fun e he => ?_, ?_⟩
    · rcases List.mem_cons.mp he with heq | he
      · cases heq
      rcases List.mem_append.mp he with he | he
      · obtain ⟨_, _, heq⟩ := List.mem_map.mp he
        cases heq
      · exact hbody.notes e he
    · simp only [checkFeature, checkMethod, plainReceivers_append]
      exact ⟨⟨⟨(common_declaredTy _ _ _ _ _).ordinary.plainReceivers,
        (common_overrideFaults h m).ordinary.plainReceivers⟩,
        (ordinary_bindParams h _ m.params).plainReceivers⟩, hbody.faults⟩

end

section

variable {t : ClassTable}

theorem mem_names_of_isChecked {index : Nat} {c : ClassDecl} (hc : IsChecked t index c) :
    c.name ∈ t.names := by
  obtain ⟨e, he, -⟩ := isChecked_iff_find?.mp hc
  exact ClassTable.mem_names_of_find? he

variable (hgrounded : Grounded t)
include hgrounded

theorem proper_checkClass {index : Nat} {c : ClassDecl} (hc : IsChecked t index c) :
    ProperNotes t (checkClass t index c).1.nodes := by
  have hcls := mem_names_of_isChecked hc
  rw [checkClass_of_isChecked hc]
  intro e he
  rcases List.mem_cons.mp he with heq | he
  · cases heq
  obtain ⟨f', hf', he⟩ := List.mem_flatMap.mp he
  obtain ⟨f, -, rfl⟩ := List.mem_map.mp hf'
  exact (proper_checkFeature (h := homeOf t c) hgrounded hcls f).1 e he

theorem mem_plain_of_mem_checkClass {index : Nat} {c : ClassDecl} {d : Diagnostic}
    (hd : d ∈ (checkClass t index c).2) {ty : Ty} {method : String} {span : Span}
    (hcause : d.cause = some (.fault ⟨.invalidReceiver ty method, span⟩)) : ty ∈ Ty.plain := by
  by_cases hc : IsChecked t index c
  · have hcls := mem_names_of_isChecked hc
    rw [checkClass_of_isChecked hc] at hd
    obtain ⟨fault, hfault, rfl⟩ := List.mem_map.mp hd
    obtain ⟨f, -, hfault⟩ := List.mem_flatMap.mp hfault
    cases Cause.fault.inj (Option.some.inj hcause)
    exact (proper_checkFeature (h := homeOf t c) hgrounded hcls f).2 _ hfault ty method rfl
  · rw [checkClass_of_not_isChecked hc] at hd
    exact absurd hd List.not_mem_nil

end

end Typing

open Typing

/-- Once a check has come to its end, whatever is wrong with the program, every expression in a
class that was checked has a type noted on it that makes sense over the table of classes. So a
receiver without methods, where one is reported, is a number, a boolean, `void` or `null`. -/
theorem noted_types_proper (p : Program) (limit : Option Nat) (reported : Nat) :
    let t := (Members.bind p.classes (Hierarchy.build p.classes).1).1
    let run := checkClasses t limit reported 0 p.classes
    run.finished = true →
      (∀ i c, p.classes[i]? = some c → IsChecked t i c →
        ∃ c', run.classes[i]? = some c' ∧
          ∀ e, .expr e ∈ c'.nodes → ∃ ty, e.ty? = some ty ∧ ty.IsProper t) ∧
      ∀ d ∈ run.diagnostics, ∀ ty method span,
        d.cause = some (.fault ⟨.invalidReceiver ty method, span⟩) →
          ty ∈ [Ty.int, .boolean, .void, .null] := by
  intro t run hfinished
  have hgrounded : Grounded t := grounded_bind p.classes
  have hrun : run = checkClasses t none 0 0 p.classes := checkClasses_of_finished hfinished
  rw [hrun]
  refine ⟨fun i c hc hchecked => ⟨(checkClass t i c).1, ?_, ?_⟩, fun d hd ty method span => ?_⟩
  · rw [getElem?_checkClasses, hc, Option.map_some]
  · exact proper_checkClass hgrounded hchecked
  · rw [checkClasses_none] at hd
    obtain ⟨ci, -, hd⟩ := List.mem_flatMap.mp hd
    exact mem_plain_of_mem_checkClass hgrounded hd

/-- A class with an array of itself and a field of a class that there is not. Its method declares an
array of arrays, and calls methods of a number, of `null` and of the result of a `void` method. -/
def strangeReceivers : Program where
  classes := [
    { name := "Shelf"
      features := [
        .field { name := "shelves", typeName := "Shelf[]" },
        .field { name := "ghost", typeName := "Ghost" },
        .method {
          name := "fill", returnName := "void"
          body := [
            .decl "grid" "int[][]" none {},
            .expr (.dispatch (some (.arrayElem none "grid" (.intLit 0 {}) {})) "go" [] {}) {},
            .expr (.dispatch (some (.arrayElem none "shelves" (.intLit 0 {}) {})) "fill" [] {}) {},
            .expr (.dispatch (some (.var none "ghost" {})) "go" [] {}) {},
            .expr (.dispatch (some (.intLit 1 {})) "go" [] {}) {},
            .expr (.dispatch (some (.var none "null" {})) "go" [] {}) {},
            .expr (.dispatch (some (.dispatch none "fill" [] {})) "go" [] {}) {}] }] }]

/-- The types that there are not are reported where they are declared, and of the six calls the last
three are reported, for their receivers. -/
theorem noted_types_proper_strangeReceivers :
    let t := (Members.bind strangeReceivers.classes (Hierarchy.build strangeReceivers.classes).1).1
    let run := checkClasses t none 0 0 strangeReceivers.classes
    run.finished = true ∧
      run.diagnostics.map (·.cause) =
        [some (.fault ⟨.unknownType "Ghost", {}⟩), some (.fault ⟨.unknownType "int[][]", {}⟩),
          some (.fault ⟨.invalidReceiver .int "go", {}⟩),
          some (.fault ⟨.invalidReceiver .null "go", {}⟩),
          some (.fault ⟨.invalidReceiver .void "go", {}⟩)] ∧
      ∃ c', run.classes[0]? = some c' ∧
        ∀ e, .expr e ∈ c'.nodes → ∃ ty, e.ty? = some ty ∧ ty.IsProper t := by
  intro t run
  have hfinished : run.finished = true := by decide
  obtain ⟨hnotes, -⟩ := noted_types_proper strangeReceivers none 0 hfinished
  exact ⟨hfinished, by decide, hnotes 0 _ rfl (by unfold IsChecked; decide)⟩

end ClassCompiler
