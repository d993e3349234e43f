import ClassCompiler.Assembly.Render
import ClassCompiler.Proofs.PeculiarFaults
import ClassCompiler.Proofs.RejectedTypes
import ClassCompiler.Proofs.Restoring

/-!
# Every local variable has a place

The generator counts the places that a method needs by a walk over its nodes. The check binds the
names of the method frame by frame, and binds a name only if it is not reserved and the frame does
not have it yet. Both come to the same declarations: one that is counted is bound or reported.

Results:
1. `Assembly.localCount_eq`: the places are for the parameters, and the declarations at any depth.
2. `Typing.accounts_params`, `Typing.accounts_stmt`: each declaration is bound or reported.
3. `Typing.declarations_checkStmt`: checking a statement keeps its declarations.
4. `Typing.local_slots_agree`: the count agrees with the check, and in a program without errors all
   that is counted is bound.
-/

namespace ClassCompiler

/-! ## Declarations -/

mutual

/-- The declarations in a statement, at any depth, with their places in the source. -/
def Stmt.declarations : Stmt → List (String × Span)
  | .decl name _ _ span => [(name, span)]
  | .ifElse _ thenBranch elseBranch _ =>
    thenBranch.declarations ++ Stmt.declarations? elseBranch
  | .whileLoop _ body _ => body.declarations
  | .forLoop _ _ _ body _ => body.declarations
  | .block stmts _ => Stmt.declarationsAll stmts
  | .expr _ _ | .breakLoop _ | .ret _ _ => []

def Stmt.declarations? : Option Stmt → List (String × Span)
  | none => []
  | some s => s.declarations

def Stmt.declarationsAll : List Stmt → List (String × Span)
  | [] => []
  | s :: ss => s.declarations ++ Stmt.declarationsAll ss

end

/-- The parameters of a method and the declarations in its body. -/
def Method.declarations (m : Method) : List (String × Span) :=
  m.params.map (fun p => (p.name, p.span)) ++ Stmt.declarationsAll m.body

/-- The problem is that of the name of a parameter or a local variable. -/
def Problem.isLocalNaming : Problem → Bool
  | .reservedName kind _ | .duplicateName kind _ _ => kind = .param || kind = .localVar
  | _ => false

theorem Problem.isNaming_of_isLocalNaming {p : Problem} (h : p.isLocalNaming = true) :
    p.isNaming = true := by
  cases p with
  | reservedName kind name => rfl
  | duplicateName kind name previous => rfl
  | _ => cases h

namespace Assembly

theorem countP_ofExpr (e : Expr) : (Node.ofExpr e).countP bindsLocal = 0 := by
  rw [Node.ofExpr, List.countP_map]
  exact List.countP_eq_zero.mpr fun _ _ => Bool.false_ne_true

theorem countP_ofExpr? (o : Option Expr) : (Node.ofExpr? o).countP bindsLocal = 0 := by
  cases o with
  | none => rfl
  | some e => exact countP_ofExpr e

theorem countP_nodesAll {ss : List Stmt}
    (ih : ∀ s ∈ ss, s.nodes.countP bindsLocal = s.declarations.length) :
    (Stmt.nodesAll ss).countP bindsLocal = (Stmt.declarationsAll ss).length := by
  induction ss with
  | nil => rfl
  | cons s ss ihss =>
    rw [Stmt.nodesAll, Stmt.declarationsAll, List.countP_append, List.length_append,
      ih s List.mem_cons_self, ihss fun s hs => ih s (List.mem_cons_of_mem _ hs)]

theorem countP_nodes (s : Stmt) : s.nodes.countP bindsLocal = s.declarations.length := by
  induction s using Stmt.induction with
  | decl name typeName init span =>
    rw [Stmt.nodes, List.countP_cons, countP_ofExpr?]
    rfl
  | expr e span =>
    rw [Stmt.nodes, List.countP_cons, countP_ofExpr]
    rfl
  | ifElse cond thenBranch elseBranch span iht ihe =>
    have helse : (Stmt.nodes? elseBranch).countP bindsLocal =
        (Stmt.declarations? elseBranch).length := by
      cases elseBranch with
      | none => rfl
      | some s => exact ihe s rfl
    simp [Stmt.nodes, Stmt.declarations, bindsLocal, countP_ofExpr, iht, helse]
  | whileLoop cond body span ih =>
    simp [Stmt.nodes, Stmt.declarations, bindsLocal, countP_ofExpr, ih]
  | forLoop init cond update body span ih =>
    simp [Stmt.nodes, Stmt.declarations, bindsLocal, countP_ofExpr?, ih]
  | breakLoop span => rfl
  | block stmts span ih =>
    simp [Stmt.nodes, Stmt.declarations, bindsLocal, countP_nodesAll ih]
  | ret value span =>
    rw [Stmt.nodes, List.countP_cons, countP_ofExpr?]
    rfl

theorem localCount_eq (m : Method) :
    localCount m = m.params.length + (Stmt.declarationsAll m.body).length := by
  have hparams : (m.params.map Node.param).countP bindsLocal = m.params.length := by
    rw [List.countP_map, List.countP_eq_length]
    exact fun _ _ => rfl
  rw [localCount, Method.nodes, List.countP_append, hparams,
    countP_nodesAll fun s _ => countP_nodes s]

end Assembly

namespace Typing

/-! ## What is bound -/

/-- What the innermost frame has more than before. -/
def gained (before after : Scope Local) : List (String × Local) :=
  after.innermost.drop before.innermost.length

mutual

/-- The bindings that are made while a statement is checked, in order: those in the frames of its
parts, and whatever the frame that it is checked in has gained. -/
def bindings (b : Body) (loops : Nat) (locals : Scope Local) : Stmt → List (String × Local)
  | s@(.ifElse _ thenBranch elseBranch _) =>
    bindings b loops locals.enter thenBranch
      ++ bindings? b loops (checkStmt b loops locals.enter thenBranch).leave.locals elseBranch
      ++ gained locals (checkStmt b loops locals s).locals
  | s@(.whileLoop _ body _) =>
    bindings b (loops + 1) locals.enter body ++ gained locals (checkStmt b loops locals s).locals
  | s@(.forLoop _ _ _ body _) =>
    bindings b (loops + 1) locals.enter body ++ gained locals (checkStmt b loops locals s).locals
  | s@(.block stmts _) =>
    bindingsAll b loops locals.enter stmts ++ gained locals (checkStmt b loops locals s).locals
  | s => gained locals (checkStmt b loops locals s).locals

def bindings? (b : Body) (loops : Nat) (locals : Scope Local) :
    Option Stmt → List (String × Local)
  | none => []
  | some s => bindings b loops locals.enter s

def bindingsAll (b : Body) (loops : Nat) (locals : Scope Local) :
    List Stmt → List (String × Local)
  | [] => []
  | s :: ss =>
    bindings b loops locals s ++ bindingsAll b loops (checkStmt b loops locals s).locals ss

end

/-- The bindings that are made while a method is checked. -/
def methodBindings (h : Home) (m : Method) : List (String × Local) :=
  let returnTy := tyOf (declaredTy h.table .method m.name m.returnName)
  let locals : Scope Local := ({} : Scope Local).enter
  let params := bindParams h locals m.params
  gained locals params.1 ++ bindingsAll (Visit.bodyOf h returnTy) 0 params.1 m.body

theorem gained_self (locals : Scope Local) : gained locals locals = [] := List.drop_length

theorem gained_checkStmt (b : Body) (loops : Nat) (locals : Scope Local) {s : Stmt}
    (hs : s.isDecl = false) : gained locals (checkStmt b loops locals s).locals = [] := by
  rw [locals_checkStmt b loops locals hs, gained_self]

theorem gained_of_append {before after : Scope Local} {bound : List (String × Local)}
    (h : after.innermost = before.innermost ++ bound) : gained before after = bound := by
  rw [gained, h, List.drop_left]

/-! ## Bound or reported -/

/-- Of what is declared, some is bound, in order, and for the rest there is a fault each. -/
structure Accounts (bound : List (String × Local)) (fs : List Fault)
    (declared : List (String × Span)) : Prop where
  sublist : List.Sublist (bound.map fun x => (x.1, x.2.span)) declared
  count : bound.length + fs.countP (·.problem.isLocalNaming) = declared.length

namespace Accounts

variable {bound bound' : List (String × Local)} {fs fs' : List Fault}
  {declared declared' : List (String × Span)}

theorem append (h : Accounts bound fs declared) (h' : Accounts bound' fs' declared') :
    Accounts (bound ++ bound') (fs ++ fs') (declared ++ declared') where
  sublist := List.map_append ▸ h.sublist.append h'.sublist
  count := by
    have hcount := h.count
    have hcount' := h'.count
    simp only [List.length_append, List.countP_append]
    omega

/-- Where no name is declared, none is bound. -/
theorem empty (h : ∀ f ∈ fs, f.problem.isNaming = false) : Accounts [] fs [] where
  sublist := .refl []
  count := by
    rw [List.countP_eq_zero.mpr fun f hf hlocal => ?_]
    · rfl
    · cases (h f hf).symm.trans (Problem.isNaming_of_isLocalNaming hlocal)

theorem common (h : Common fs) : Accounts [] fs [] :=
  empty fun f hf => (Problem.isCommon_iff.mp (h f hf)).2

/-- With no name reported, all that is declared is bound. -/
theorem eq (h : Accounts bound fs declared) (hfs : fs = []) :
    bound.map (fun x => (x.1, x.2.span)) = declared := by
  apply h.sublist.eq_of_length
  have hcount := h.count
  rw [hfs, List.countP_nil, Nat.add_zero] at hcount
  rw [List.length_map, hcount]

end Accounts

/-- A name is bound in the innermost frame or reported. -/
theorem accounts_bindLocal {kind : NameKind} (hkind : kind = .param ∨ kind = .localVar)
    (file : Option String) (name : String) (l : Local) (locals : Scope Local) :
    let r := bindLocal file kind name l locals
    ∃ bound, r.1.innermost = locals.innermost ++ bound ∧ Accounts bound r.2 [(name, l.span)] := by
  have hreported {problem : Problem} (h : problem.isLocalNaming = true) :
      Accounts [] [⟨problem, l.span⟩] [(name, l.span)] :=
    ⟨List.nil_sublist _, by rw [List.countP_singleton, h]; rfl⟩
  have hlocal : (kind = .param || kind = .localVar) = true := by
    rcases hkind with rfl | rfl <;> rfl
  intro r
  unfold r bindLocal
  split
  · exact ⟨[], (List.append_nil _).symm, hreported hlocal⟩
  · cases hadd : locals.add? name l with
    | none => exact ⟨[], (List.append_nil _).symm, hreported hlocal⟩
    | some locals' =>
      exact ⟨[(name, l)], (Scope.sameBelow_add? hadd).2.2, .refl _, rfl⟩

theorem accounts_params (h : Home) (locals : Scope Local) (ps : List Param) :
    let r := bindParams h locals ps
    ∃ bound, r.1.innermost = locals.innermost ++ bound ∧
      Accounts bound r.2 (ps.map fun p => (p.name, p.span)) := by
  induction ps generalizing locals with
  | nil => exact ⟨[], (List.append_nil _).symm, .empty fun f hf => absurd hf List.not_mem_nil⟩
  | cons p ps ih =>
    let declared := declaredTy h.table .param p.name p.typeName
    obtain ⟨bound, hbound, haccounts⟩ :=
      accounts_bindLocal (.inl rfl) h.file p.name ⟨tyOf declared, p.span⟩ locals
    obtain ⟨rest, hrest, hothers⟩ :=
      ih (bindLocal h.file .param p.name ⟨tyOf declared, p.span⟩ locals).1
    refine ⟨bound ++ rest, ?_, ?_⟩
    · rw [bindParams, hrest, hbound, List.append_assoc]
    · exact ((Accounts.common (common_declaredTy _ _ _ _ _)).append haccounts).append hothers

section

variable (env : Env)

theorem accounts_faults (e : Expr) : Accounts [] (faults env e) [] :=
  .empty fun _ hf => isNaming_of_mem_faults env hf

theorem accounts_faults? (o : Option Expr) : Accounts [] (faults? env o) [] := by
  cases o with
  | none => exact .common common_nil
  | some e => exact accounts_faults env e

theorem accounts_value (e : Expr) (ty : Ty) :
    Accounts [] (faults env e ++ valueFaults env e ty) [] :=
  (accounts_faults env e).append (.common (common_valueFaults env e ty))

theorem accounts_initFaults (ty : Ty) (o : Option Expr) : Accounts [] (initFaults env ty o) [] := by
  cases o with
  | none => exact .common common_nil
  | some e => exact accounts_value env e ty

theorem accounts_condFaults? (o : Option Expr) : Accounts [] (condFaults? env o) [] := by
  cases o with
  | none => exact .common common_nil
  | some e => exact accounts_value env e .boolean

end

theorem accounts_stmts {b : Body} {ss : List Stmt}
    (ih : ∀ s ∈ ss, ∀ loops locals,
      Accounts (bindings b loops locals s) (checkStmt b loops locals s).faults s.declarations)
    (loops : Nat) (locals : Scope Local) :
    Accounts (bindingsAll b loops locals ss) (checkStmts b loops locals ss).faults
      (Stmt.declarationsAll ss) := by
  induction ss generalizing locals with
  | nil => exact .common common_nil
  | cons s ss ihss =>
    exact (ih s List.mem_cons_self loops locals).append
      (ihss (fun s hs => ih s (List.mem_cons_of_mem _ hs)) _)

/-- Each declaration in a statement is bound in its frame or reported. -/
theorem accounts_stmt (b : Body) (s : Stmt) : ∀ loops locals,
    Accounts (bindings b loops locals s) (checkStmt b loops locals s).faults s.declarations := by
  -- for all scopes at once, since parts are checked in frames of their own; the frame around a
  -- statement with parts gains nothing, also if a part is a declaration without a block
  induction s using Stmt.induction with
  | decl name typeName init span =>
    intro loops locals
    let declared := declaredTy b.table .localVar name typeName
    obtain ⟨bound, hbound, haccounts⟩ :=
      accounts_bindLocal (.inr rfl) b.file name ⟨tyOf declared, span⟩ locals
    have hgained : bindings b loops locals (.decl name typeName init span) = bound :=
      gained_of_append hbound
    rw [hgained]
    exact ((Accounts.common (common_declaredTy _ _ _ _ _)).append
      (accounts_initFaults _ _ init)).append haccounts
  | expr e span =>
    intro loops locals
    have hgained : bindings b loops locals (.expr e span) = [] := gained_self locals
    rw [hgained]
    exact accounts_faults _ e
  | ifElse cond thenBranch elseBranch span iht ihe =>
    intro loops locals
    have helse (locals : Scope Local) : Accounts (bindings? b loops locals elseBranch)
        (checkBranch b loops locals elseBranch).faults (Stmt.declarations? elseBranch) := by
      cases elseBranch with
      | none => exact .common common_nil
      | some s => exact ihe s rfl loops locals.enter
    rw [bindings, gained_checkStmt b loops locals rfl, List.append_nil]
    exact ((accounts_value _ cond .boolean).append (iht loops locals.enter)).append (helse _)
  | whileLoop cond body span ih =>
    intro loops locals
    rw [bindings, gained_checkStmt b loops locals rfl, List.append_nil]
    exact (accounts_value _ cond .boolean).append (ih (loops + 1) locals.enter)
  | forLoop init cond update body span ih =>
    intro loops locals
    rw [bindings, gained_checkStmt b loops locals rfl, List.append_nil]
    exact (((accounts_faults? _ init).append (accounts_condFaults? _ cond)).append
      (accounts_faults? _ update)).append (ih (loops + 1) locals.enter)
  | breakLoop span =>
    intro loops locals
    have hgained : bindings b loops locals (.breakLoop span) = [] := gained_self locals
    rw [hgained, checkStmt]
    refine .empty fun f hf => ?_
    split at hf
    · rw [List.mem_singleton.mp hf]
      rfl
    · exact absurd hf List.not_mem_nil
  | block stmts span ih =>
    intro loops locals
    rw [bindings, gained_checkStmt b loops locals rfl, List.append_nil]
    exact accounts_stmts ih loops locals.enter
  | ret value span =>
    intro loops locals
    have hgained : bindings b loops locals (.ret value span) = [] := gained_self locals
    rw [hgained]
    exact (accounts_faults? _ value).append (.common (common_returnFaults _ _ _ value))

/-- The outermost statements share the frame of the parameters, and may repeat their names. -/
theorem accounts_method (h : Home) (m : Method) :
    Accounts (methodBindings h m) (checkMethod h m).2 m.declarations := by
  obtain ⟨bound, hbound, hparams⟩ := accounts_params h ({} : Scope Local).enter m.params
  rw [methodBindings, gained_of_append hbound]
  have hhead : Accounts [] _ [] :=
    (Accounts.common (common_declaredTy h.table m.span .method m.name m.returnName)).append
      (.common (common_overrideFaults h m))
  exact (hhead.append hparams).append (accounts_stmts (fun s _ => accounts_stmt _ s) 0 _)

/-! ## The checked tree -/

theorem declarations_checkStmts {b : Body} {ss : List Stmt}
    (ih : ∀ s ∈ ss, ∀ loops locals,
      (checkStmt b loops locals s).tree.declarations = s.declarations)
    (loops : Nat) (locals : Scope Local) :
    Stmt.declarationsAll (checkStmts b loops locals ss).tree = Stmt.declarationsAll ss := by
  induction ss generalizing locals with
  | nil => rfl
  | cons s ss ihss =>
    rw [checkStmts, Stmt.declarationsAll, Stmt.declarationsAll, ih s List.mem_cons_self,
      ihss fun s hs => ih s (List.mem_cons_of_mem _ hs)]

/-- Checking a statement notes types on it and keeps its declarations. -/
theorem declarations_checkStmt (b : Body) (s : Stmt) : ∀ loops locals,
    (checkStmt b loops locals s).tree.declarations = s.declarations := by
  induction s using Stmt.induction with
  | decl | expr | breakLoop | ret => exact fun _ _ => rfl
  | ifElse cond thenBranch elseBranch span iht ihe =>
    intro loops locals
    have helse (locals : Scope Local) :
        Stmt.declarations? (checkBranch b loops locals elseBranch).tree =
          Stmt.declarations? elseBranch := by
      cases elseBranch with
      | none => rfl
      | some s => exact ihe s rfl loops locals.enter
    exact congrArg₂ (· ++ ·) (iht loops locals.enter) (helse _)
  | whileLoop cond body span ih => exact fun loops locals => ih (loops + 1) locals.enter
  | forLoop init cond update body span ih => exact fun loops locals => ih (loops + 1) locals.enter
  | block stmts span ih => exact fun loops locals => declarations_checkStmts ih loops locals.enter

theorem declarations_checkMethod (h : Home) (m : Method) :
    (checkMethod h m).1.declarations = m.declarations :=
  congrArg (m.params.map _ ++ ·)
    (declarations_checkStmts (fun s _ => declarations_checkStmt _ s) 0 _)

/-! ## Programs without errors -/

section

variable {p : Program} (hclean : hasErrors (Analysis.run none p).diagnostics = false)
include hclean

theorem not_reported (file : Option String) (f : Fault) :
    f.diagnostic file ∉ (Analysis.run none p).diagnostics := by
  intro hmem
  rw [hasErrors, List.any_eq_false] at hclean
  exact hclean _ hmem rfl

theorem exists_definition {c : ClassDecl} (hc : c ∈ p.classes) :
    ∃ index, (c, index) ∈ Hierarchy.definitions p.classes := by
  obtain ⟨index, hindex⟩ := List.getElem?_of_mem hc
  refine ⟨index, Hierarchy.mem_definitions.mpr ⟨hindex, ?_⟩⟩
  rw [Hierarchy.definitionReport?, Option.map_eq_none_iff, Option.eq_none_iff_forall_ne_some]
  intro problem hproblem
  have hreport : Fault.diagnostic c.file ⟨problem, c.span⟩ ∈
      reportsAt .definition (Analysis.run none p).diagnostics := by
    rw [Analysis.definition_reports, Hierarchy.diagnostics_register, List.mem_filterMap]
    exact ⟨(c, index), List.mem_zipIdx_iff_getElem?.mpr hindex,
      Option.map_eq_some_iff.mpr ⟨problem, hproblem, rfl⟩⟩
  exact not_reported hclean c.file _ (List.mem_filter.mp hreport).1

theorem faults_checkMethod {c : ClassDecl} (hc : c ∈ p.classes) {m : Method} (hm : m ∈ c.methods) :
    (checkMethod (homeOf (Members.bind p.classes (Hierarchy.build p.classes).1).1 c) m).2 = [] := by
  obtain ⟨index, hdef⟩ := exists_definition hclean hc
  refine List.eq_nil_iff_forall_not_mem.mpr fun fault hfault => ?_
  exact not_reported hclean c.file fault
    (mem_diagnostics_of_definition hdef (ClassDecl.mem_methods.mp hm) hfault)

end

/-- The places that are counted for a method are those that the check needs. They are for its
parameters and for the declarations in its body at any depth, before and after the check. Checking
the method binds some of these, in order, and reports each of the others as a parameter or local
variable whose name is reserved or declared already. In a program without errors all of them are
bound, each in a place of its own. -/
theorem local_slots_agree :
    (∀ (h : Home) (m : Method),
      Assembly.localCount m = m.params.length + (Stmt.declarationsAll m.body).length ∧
      Assembly.localCount (checkMethod h m).1 = Assembly.localCount m ∧
      Assembly.localCount m = (methodBindings h m).length +
        (checkMethod h m).2.countP (·.problem.isLocalNaming) ∧
      List.Sublist ((methodBindings h m).map fun x => (x.1, x.2.span)) m.declarations) ∧
    ∀ p : Program, hasErrors (Analysis.run none p).diagnostics = false →
      ∀ c ∈ p.classes, ∀ m ∈ c.methods,
        let h := homeOf (Members.bind p.classes (Hierarchy.build p.classes).1).1 c
        (methodBindings h m).map (fun x => (x.1, x.2.span)) = m.declarations ∧
        (methodBindings h m).length = Assembly.localCount m := by
  have hcount (m : Method) : Assembly.localCount m = m.declarations.length := by
    rw [Assembly.localCount_eq, Method.declarations, List.length_append, List.length_map]
  refine ⟨fun h m => ⟨Assembly.localCount_eq m, ?_, ?_, (accounts_method h m).sublist⟩, ?_⟩
  · rw [hcount, hcount, declarations_checkMethod]
  · rw [hcount, (accounts_method h m).count]
  · intro p hclean c hc m hm h
    have hbound := (accounts_method h m).eq (faults_checkMethod hclean hc hm)
    exact ⟨hbound, by rw [hcount, ← hbound, List.length_map]⟩

/-- A method with declarations in blocks, branches and loops, some of them without a block, and the
same names again in other frames. -/
def nested : Method where
  name := "nested"
  returnName := "void"
  params := [{ name := "n", typeName := "int" }]
  body := [
    .decl "x" "int" none { first := { line := 2 } },
    .ifElse (.boolLit true {}) (.decl "x" "boolean" none { first := { line := 3 } })
      (some (.decl "n" "int" none { first := { line := 4 } })) {},
    .whileLoop (.boolLit false {})
      (.block [
        .decl "y" "int" none { first := { line := 5 } },
        .forLoop none none none (.decl "y" "int" none { first := { line := 6 } }) {}] {}) {},
    .decl "y" "String" none { first := { line := 7 } }]

/-- A method with names that cannot be bound: a parameter declared twice and again in the body, and
two names that are reserved. -/
def unnamable : Method where
  name := "unnamable"
  returnName := "void"
  params := [{ name := "n", typeName := "int" }, { name := "n", typeName := "int" },
    { name := "super", typeName := "int" }]
  body := [
    .decl "n" "int" none { first := { line := 2 } },
    .block [
      .decl "n" "int" none { first := { line := 3 } },
      .whileLoop (.boolLit true {}) (.decl "this" "int" none { first := { line := 4 } }) {}] {}]

def nestedMain : ClassDecl where
  name := "Main"
  features := [.method { name := "main", returnName := "void" }, .method nested]

theorem local_slots_agree_nested :
    let p : Program := { classes := [nestedMain] }
    let h := homeOf (Members.bind p.classes (Hierarchy.build p.classes).1).1 nestedMain
    (Assembly.localCount unnamable = 6 ∧
      (methodBindings h unnamable).map (fun x => (x.1, x.2.span.first.line)) =
        [("n", 1), ("n", 3)] ∧
      Assembly.localCount unnamable = (methodBindings h unnamable).length +
        (checkMethod h unnamable).2.countP (·.problem.isLocalNaming)) ∧
    hasErrors (Analysis.run none p).diagnostics = false ∧
      (methodBindings h nested).map (fun x => (x.1, x.2.span)) = nested.declarations ∧
      nested.declarations.map (fun x => (x.1, x.2.first.line)) =
        [("n", 1), ("x", 2), ("x", 3), ("n", 4), ("y", 5), ("y", 6), ("y", 7)] ∧
      (methodBindings h nested).length = Assembly.localCount nested := by
  intro p h
  obtain ⟨hmethods, hprograms⟩ := local_slots_agree
  have hclean : hasErrors (Analysis.run none p).diagnostics = false := by decide
  have hmethod : nested ∈ nestedMain.methods := by simp [ClassDecl.methods, nestedMain]
  obtain ⟨-, -, hcount, -⟩ := hmethods h unnamable
  obtain ⟨hnames, hlength⟩ := hprograms p hclean nestedMain List.mem_cons_self nested hmethod
  exact ⟨⟨by decide, by decide, hcount⟩, hclean, hnames, by decide, hlength⟩

end Typing

end ClassCompiler
