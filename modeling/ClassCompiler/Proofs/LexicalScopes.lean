import ClassCompiler.Proofs.PeculiarFaults
import ClassCompiler.Proofs.Restoring

/-!
# Lexical scoping

A `break` is reported if no loop of its method is around it. The check counts loops on its way, so
this takes that the count is right wherever a `break` can stand.

Results:
1. `Typing.breaks_checkStmt`: outside of loops the stray breaks of a statement are reported, and
   inside a loop none is.
2. `scopes_and_loops_restored`: what the pass over a class leaves as it was, and what follows for
   `break`.
-/

namespace ClassCompiler

namespace Stmt

mutual

/-- The `break` statements in a statement that no loop in it is around, in the order of the text. -/
def strayBreaks : Stmt → List Span
  | .breakLoop span => [span]
  | .ifElse _ thenBranch elseBranch _ => strayBreaks thenBranch ++ strayBreaks? elseBranch
  | .block stmts _ => strayBreaksAll stmts
  | .whileLoop _ _ _ | .forLoop _ _ _ _ _ => []
  | .decl _ _ _ _ | .expr _ _ | .ret _ _ => []

def strayBreaks? : Option Stmt → List Span
  | none => []
  | some s => strayBreaks s

def strayBreaksAll : List Stmt → List Span
  | [] => []
  | s :: ss => strayBreaks s ++ strayBreaksAll ss

end

end Stmt

namespace Typing

/-- The places of the `break` statements among the faults. -/
def breaks (fs : List Fault) : List Span :=
  (fs.filter (·.problem = .breakOutsideLoop)).map (·.span)

theorem breaks_append (fs gs : List Fault) : breaks (fs ++ gs) = breaks fs ++ breaks gs := by
  rw [breaks, List.filter_append, List.map_append, breaks, breaks]

theorem breaks_eq_nil {fs : List Fault} (h : ∀ f ∈ fs, f.problem ≠ .breakOutsideLoop) :
    breaks fs = [] := by
  have hnone : fs.filter (·.problem = .breakOutsideLoop) = [] :=
    List.filter_eq_nil_iff.mpr fun f hf hbreak => h f hf (of_decide_eq_true hbreak)
  rw [breaks, hnone, List.map_nil]

theorem Ordinary.breaks_eq {fs : List Fault} (h : Ordinary fs) : breaks fs = [] := by
  refine breaks_eq_nil fun f hf hproblem => ?_
  have hordinary := h f hf
  rw [hproblem] at hordinary
  cases hordinary

section

variable (env : Env)

/-- A peculiar fault of an expression is that of a call. -/
theorem breaks_faults (e : Expr) : breaks (faults env e) = [] := by
  refine breaks_eq_nil fun f hf hproblem => ?_
  obtain ⟨receiver, method, args, mark, -, rfl, -⟩ :=
    peculiar_of_mem_faults env hf (by rw [hproblem]; rfl)
  cases hproblem

theorem breaks_faults? (o : Option Expr) : breaks (faults? env o) = [] := by
  cases o with
  | none => rfl
  | some e => exact breaks_faults env e

theorem breaks_initFaults (ty : Ty) (o : Option Expr) : breaks (initFaults env ty o) = [] := by
  cases o with
  | none => rfl
  | some e =>
    rw [initFaults, breaks_append, breaks_faults, (common_valueFaults env e ty).ordinary.breaks_eq,
      List.append_nil]

theorem breaks_condFaults (e : Expr) : breaks (condFaults env e) = [] :=
  breaks_initFaults env .boolean (some e)

theorem breaks_condFaults? (o : Option Expr) : breaks (condFaults? env o) = [] := by
  cases o with
  | none => rfl
  | some e => exact breaks_condFaults env e

end

section

variable (b : Body)

theorem breaks_checkStmts {loops : Nat} {ss : List Stmt}
    (ih : ∀ s ∈ ss, ∀ locals, breaks (checkStmt b loops locals s).faults =
      if loops = 0 then s.strayBreaks else []) (locals : Scope Local) :
    breaks (checkStmts b loops locals ss).faults =
      if loops = 0 then Stmt.strayBreaksAll ss else [] := by
  induction ss generalizing locals with
  | nil => exact (ite_self _).symm
  | cons s ss ihss =>
    rw [checkStmts, breaks_append, ih s List.mem_cons_self,
      ihss fun s hs => ih s (List.mem_cons_of_mem _ hs)]
    split <;> rfl

/-- Where no loop is around, the stray breaks of a statement are reported; inside a loop none is. -/
theorem breaks_checkStmt (s : Stmt) : ∀ loops locals,
    breaks (checkStmt b loops locals s).faults = if loops = 0 then s.strayBreaks else [] := by
  induction s using Stmt.induction with
  | decl name typeName init span =>
    intro loops locals
    simp only [checkStmt, breaks_append, breaks_initFaults, List.append_nil,
      (common_declaredTy b.table span .localVar name typeName).ordinary.breaks_eq,
      (ordinary_bindLocal b.file .localVar name _ locals).breaks_eq, Stmt.strayBreaks, ite_self]
  | expr e span =>
    intro loops locals
    simp only [checkStmt, breaks_faults, Stmt.strayBreaks, ite_self]
  | ifElse cond thenBranch elseBranch span iht ihe =>
    intro loops locals
    have helse (locals : Scope Local) : breaks (checkBranch b loops locals elseBranch).faults =
        if loops = 0 then Stmt.strayBreaks? elseBranch else [] := by
      cases elseBranch with
      | none => exact (ite_self _).symm
      | some s => exact ihe s rfl loops locals.enter
    simp only [checkStmt, Checked.leave, breaks_append, breaks_condFaults, iht, helse,
      Stmt.strayBreaks, List.nil_append]
    split <;> rfl
  | whileLoop cond body span ih =>
    intro loops locals
    -- the body is checked inside `loops + 1` loops, so nothing in it is stray
    simp only [checkStmt, Checked.leave, breaks_append, breaks_condFaults, ih, Stmt.strayBreaks,
      Nat.succ_ne_zero, if_false, ite_self, List.append_nil]
  | forLoop init cond update body span ih =>
    intro loops locals
    simp only [checkStmt, Checked.leave, breaks_append, breaks_faults?, breaks_condFaults?, ih,
      Stmt.strayBreaks, Nat.succ_ne_zero, if_false, ite_self, List.append_nil]
  | breakLoop span =>
    intro loops locals
    unfold checkStmt
    split <;> rfl
  | block stmts span ih =>
    intro loops locals
    exact breaks_checkStmts b (fun s hs => ih s hs loops) locals.enter
  | ret value span =>
    intro loops locals
    simp only [checkStmt, breaks_append, breaks_faults?, Stmt.strayBreaks, ite_self,
      (common_returnFaults _ span b.returnTy value).ordinary.breaks_eq, List.append_nil]

end

theorem breaks_checkMethod (h : Home) (m : Method) :
    breaks (checkMethod h m).2 = Stmt.strayBreaksAll m.body := by
  simp only [checkMethod, breaks_append, breaks_checkStmts _ fun s _ => breaks_checkStmt _ s 0,
    (common_declaredTy h.table m.span .method m.name m.returnName).ordinary.breaks_eq,
    (common_overrideFaults h m).ordinary.breaks_eq, (ordinary_bindParams h _ m.params).breaks_eq,
    List.nil_append, if_true]

end Typing

open Typing Typing.Visit

/-- Scopes and loops in the pass over the members of a class, which checks them as they are checked
one by one. In every state an expression leaves locals and method as they were. A statement comes to
its end, never taking off a loop that was not counted; it leaves the method with its count of loops
and all frames below the innermost one, and unless it is a declaration the innermost one too. A
declaration has its initial value checked before it adds at most one binding. No member finds a
local when it begins. So each stray `break` of a method is reported once, in the order of the text,
and no other. -/
theorem scopes_and_loops_restored (h : Home) :
    (∀ e v, visitExpr h e v = some (annotate (v.env h) e, v.report (faults (v.env h) e))) ∧
      (∀ s v, ∃ s' v', visitStmt h s v = some (s', v') ∧ v'.method = v.method ∧
        v'.locals.level = v.locals.level ∧
        v'.locals.frames.dropLast = v.locals.frames.dropLast ∧
        (s.isDecl = false → v'.locals = v.locals)) ∧
      (∀ name typeName init span v,
        let declared := declaredTy h.table .localVar name typeName
        let l : Local := ⟨tyOf declared, span⟩
        let bound := bindLocal h.file .localVar name l v.locals
        visitStmt h (.decl name typeName init span) v =
          some (.decl name typeName (init.map (annotate (v.env h))) span,
            { v with
              locals := bound.1
              reported := v.reported ++ (faultsOf span declared ++
                initFaults (v.env h) (tyOf declared) init ++ bound.2) }) ∧
          (bound.1 = v.locals ∨ v.locals.peek? name = none ∧
            bound.1.innermost = v.locals.innermost ++ [(name, l)])) ∧
      (∀ features, ∃ v, visitFeatures h features {} =
          some (features.map fun f => (checkFeature h f).1, v) ∧
        v.reported = (features.flatMap fun f => (checkFeature h f).2) ∧
        v.method = none ∧ ∀ name, v.locals.lookup? name = none) ∧
      (∀ returnTy loops locals s,
        let c := checkStmt (bodyOf h returnTy) loops locals s
        c.locals.level = locals.level ∧ c.locals.frames.dropLast = locals.frames.dropLast ∧
          (s.isDecl = false → c.locals = locals)) ∧
      ∀ m, breaks (checkMethod h m).2 = Stmt.strayBreaksAll m.body := by
  refine ⟨visitExpr_apply h, fun s v => ?_, fun name typeName init span v => ⟨?_, ?_⟩,
    fun features => ?_, fun returnTy loops locals s => ?_, breaks_checkMethod h⟩
  · obtain ⟨s', fs, locals, hvisit, hbelow⟩ := (visitStmt_restores h s).1 v
    refine ⟨s', _, hvisit, rfl, hbelow.level_eq, hbelow.below_eq, fun hs => ?_⟩
    obtain ⟨s'', gs, hrestored⟩ := (visitStmt_restores h s).2 hs v
    rw [hvisit] at hrestored
    exact congrArg (·.2.locals) (Option.some.inj hrestored)
  · exact visitDecl_apply h name typeName init span v
  · refine (bindLocal_cases h.file .localVar name _ v.locals).imp_right fun hadd => ?_
    exact (Scope.sameBelow_add? hadd).2
  · exact ⟨_, visitFeatures_apply h features rfl rfl, rfl, rfl, fun name => rfl⟩
  · have hbelow := sameBelow_checkStmt (bodyOf h returnTy) loops locals s
    exact ⟨hbelow.level_eq, hbelow.below_eq, locals_checkStmt _ loops locals⟩

/-- A place on a line of its own. -/
def onLine (line : UInt64) : Span := { first := { line }, last := { line } }

/-- A loop whose body is a declaration, a loop that is left in a branch, two breaks that stand in no
loop, and a declaration whose initial value has its own name. -/
def strayMethod : Method :=
  { name := "run", returnName := "void", params := []
    body :=
      [.whileLoop (.boolLit true {}) (.decl "x" "int" none (onLine 1)) {},
        .breakLoop (onLine 2),
        .forLoop none none none (.ifElse (.boolLit true {}) (.breakLoop (onLine 3)) none {}) {},
        .ifElse (.boolLit true {}) (.decl "x" "int" none (onLine 4))
          (some (.block [.breakLoop (onLine 5)] {})) {},
        .decl "x" "int" (some (.var none "x" { span := onLine 6 })) (onLine 6)] }

/-- The variable of the loop is not seen after it, and neither is that of the branch. The breaks on
the second and fifth line are reported. -/
theorem scopes_and_loops_restored_strayMethod :
    let h : Home :=
      { table := (Members.bind [] (Hierarchy.build []).1).1, cls := "Object", file := none }
    let loop := Stmt.whileLoop (.boolLit true {}) (.decl "x" "int" none {}) {}
    loop.isDecl = false ∧
      (∃ s' v', visitStmt h loop {} = some (s', v') ∧ v'.locals = {}) ∧
      Stmt.strayBreaksAll strayMethod.body = [onLine 2, onLine 5] ∧
      breaks (checkMethod h strayMethod).2 = [onLine 2, onLine 5] ∧
      (checkMethod h strayMethod).2 = [⟨.breakOutsideLoop, onLine 2⟩,
        ⟨.breakOutsideLoop, onLine 5⟩, ⟨.unknownName "x", onLine 6⟩] := by
  intro h loop
  obtain ⟨-, hstmt, -, -, -, hbreaks⟩ := scopes_and_loops_restored h
  obtain ⟨s', v', hvisit, -, -, -, hlocals⟩ := hstmt loop {}
  exact ⟨rfl, ⟨s', v', hvisit, hlocals rfl⟩, rfl, hbreaks strayMethod, by decide⟩

end ClassCompiler
