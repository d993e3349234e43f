import ClassCompiler.Proofs.Visiting

/-!
# Scopes and loops are left as they were entered

Frames are entered and left, and loops counted, by hand along the pass over a class. Whatever the
state is when the pass comes to a statement, the frames below the innermost one and the number of
loops are the same afterwards.

Results:
1. `Visit.visitStmt_restores`: a statement changes the innermost frame only, and only if it is a
   declaration.
2. `Visit.performs_visitStmt`, `Visit.visitFeatures_apply`: inside a method the pass does what
   checking a statement does, and from the state that a class begins with it checks member after
   member.
3. `locals_checkStmt`: the check of a statement gives the locals back, declarations apart.
4. `Visit.visitFeatures_ignores_notes`: the notes that the pass finds on a tree have no effect on it.
-/

namespace ClassCompiler

namespace Scope

variable {α : Type}

/-- The scopes have the same frames up to the innermost one. -/
structure SameBelow (s s' : Scope α) : Prop where
  level_eq : s'.level = s.level
  below_eq : s'.frames.dropLast = s.frames.dropLast

namespace SameBelow

variable {s s' s'' : Scope α}

theorem refl (s : Scope α) : SameBelow s s := ⟨rfl, rfl⟩

theorem trans (h : SameBelow s s') (h' : SameBelow s' s'') : SameBelow s s'' :=
  ⟨h'.level_eq.trans h.level_eq, h'.below_eq.trans h.below_eq⟩

/-- Whoever enters a frame and changes nothing below it gets back to where it was. -/
theorem exit_eq (h : SameBelow s.enter s') : s'.exit = s := by
  obtain ⟨base, inner⟩ := s
  obtain ⟨base', inner'⟩ := s'
  cases inner' with
  | nil => cases h.level_eq
  | cons frame rest =>
    have hbelow := h.below_eq
    simp only [frames, enter, List.reverse_cons, ← List.cons_append, List.dropLast_concat] at hbelow
    obtain ⟨rfl, hrest⟩ := List.cons.inj hbelow
    rw [exit, List.tail_cons, List.reverse_injective hrest]

end SameBelow

/-- A new binding goes to the end of the innermost frame, which did not have the name. -/
theorem sameBelow_add? {s s' : Scope α} {name : String} {value : α}
    (h : s.add? name value = some s') :
    SameBelow s s' ∧ s.peek? name = none ∧ s'.innermost = s.innermost ++ [(name, value)] := by
  obtain ⟨base, inner⟩ := s
  unfold add? at h
  split at h
  · cases h
  · next hpeek =>
    have hnew := Option.not_isSome_iff_eq_none.mp hpeek
    cases inner with
    | nil =>
      cases h
      exact ⟨⟨rfl, rfl⟩, hnew, rfl⟩
    | cons frame rest =>
      cases h
      refine ⟨⟨rfl, ?_⟩, hnew, rfl⟩
      simp only [frames, List.reverse_cons, ← List.cons_append, List.dropLast_concat]

end Scope

/-- The statement declares a local variable. -/
def Stmt.isDecl : Stmt → Bool
  | .decl _ _ _ _ => true
  | _ => false

namespace Typing

/-- Binding a name adds at most one binding to the innermost frame. -/
theorem bindLocal_cases (file : Option String) (kind : NameKind) (name : String) (l : Local)
    (s : Scope Local) :
    (bindLocal file kind name l s).1 = s ∨
      s.add? name l = some (bindLocal file kind name l s).1 := by
  unfold bindLocal
  split
  · exact .inl rfl
  · cases hadd : s.add? name l with
    | none => exact .inl rfl
    | some s' => exact .inr rfl

theorem sameBelow_bindLocal (file : Option String) (kind : NameKind) (name : String) (l : Local)
    (s : Scope Local) : s.SameBelow (bindLocal file kind name l s).1 := by
  rcases bindLocal_cases file kind name l s with heq | hadd
  · rw [heq]
    exact .refl s
  · exact (Scope.sameBelow_add? hadd).1

namespace Visit

variable {α β : Type}

/-- The piece comes to its end, reports something, and leaves the rest of the state as it was. -/
def Restores (x : Visit α) : Prop := ∀ v, ∃ a fs, x v = some (a, v.report fs)

/-- The piece comes to its end, reports something, and may have changed the innermost frame. -/
def KeepsBelow (x : Visit α) : Prop :=
  ∀ v, ∃ a fs s, x v = some (a, { v.report fs with locals := s }) ∧ v.locals.SameBelow s

theorem restores_pure (a : α) : Restores (pure a) := fun v => ⟨a, [], by simp⟩

theorem Restores.bind {x : Visit α} {f : α → Visit β} (hx : Restores x)
    (hf : ∀ a, Restores (f a)) : Restores (x >>= f) := by
  intro v
  obtain ⟨a, fs, hx⟩ := hx v
  obtain ⟨b, gs, hf⟩ := hf a (v.report fs)
  exact ⟨b, fs ++ gs, by simp [hx, hf]⟩

theorem Restores.keepsBelow {x : Visit α} (hx : Restores x) : KeepsBelow x := by
  intro v
  obtain ⟨a, fs, hx⟩ := hx v
  exact ⟨a, fs, v.locals, hx, .refl _⟩

theorem KeepsBelow.bind {x : Visit α} {f : α → Visit β} (hx : KeepsBelow x)
    (hf : ∀ a, KeepsBelow (f a)) : KeepsBelow (x >>= f) := by
  intro v
  obtain ⟨a, fs, s, hx, hs⟩ := hx v
  obtain ⟨b, gs, s', hf, hs'⟩ := hf a { v.report fs with locals := s }
  refine ⟨b, fs ++ gs, s', ?_, hs.trans hs'⟩
  rw [bind_apply, hx, Option.bind_some, hf]
  simp [Visitor.report]

/-- The frame that a piece runs in is left behind as it was entered. -/
theorem KeepsBelow.withScope {x : Visit α} (hx : KeepsBelow x) : Restores (withScope x) := by
  intro v
  obtain ⟨a, fs, s, hx, hs⟩ := hx { v with locals := v.locals.enter }
  refine ⟨a, fs, ?_⟩
  simp only [Visit.withScope, bind_apply, modify_apply, Option.bind_some, hx, pure_apply,
    hs.exit_eq]
  rfl

/-- A count that was raised can be lowered again. -/
theorem leaveLoop_enterLoop (v : Visitor) (fs : List Fault) :
    (enterLoop v).bind (fun r => leaveLoop (r.2.report fs)) = some ((), v.report fs) := by
  obtain ⟨locals, method, reported⟩ := v
  cases method <;> rfl

theorem Restores.withLoop {x : Visit α} (hx : Restores (withScope x)) : Restores (withLoop x) := by
  intro v
  obtain ⟨v', hv'⟩ : ∃ v', enterLoop v = some ((), v') := ⟨_, rfl⟩
  obtain ⟨a, fs, hx⟩ := hx v'
  have hleave := leaveLoop_enterLoop v fs
  rw [hv', Option.bind_some] at hleave
  exact ⟨a, fs, by simp [Visit.withLoop, hv', hx, hleave]⟩

section

variable (h : Home)

theorem restores_visitExpr (e : Expr) : Restores (visitExpr h e) :=
  fun v => ⟨_, _, visitExpr_apply h e v⟩

theorem restores_visitExpr? (o : Option Expr) : Restores (visitExpr? h o) :=
  fun v => ⟨_, _, visitExpr?_apply h o v⟩

theorem restores_visitValue (ty : Ty) (e : Expr) : Restores (visitValue h ty e) :=
  fun v => ⟨_, _, visitValue_apply h ty e v⟩

theorem restores_visitValue? (ty : Ty) (o : Option Expr) : Restores (visitValue? h ty o) :=
  fun v => ⟨_, _, visitValue?_apply h ty o v⟩

theorem restores_visitReturned (span : Span) (value : Option Expr) :
    Restores (visitReturned h span value) := by
  intro v
  cases hmethod : v.method with
  | none => exact ⟨(), [], by simp [visitReturned, hmethod]⟩
  | some m =>
    cases value with
    | none =>
      exact ⟨(), returnFaults (v.env h) span m.returnTy none, by simp [visitReturned, hmethod]⟩
    | some e =>
      by_cases hunknown : m.returnTy = .untyped
      · exact ⟨(), [], by simp [visitReturned, hmethod, hunknown]⟩
      by_cases hvoid : m.returnTy = .void
      · exact ⟨(), [⟨.unexpectedReturnValue, span⟩], by simp [visitReturned, hmethod, hvoid]⟩
      · exact ⟨(), conformFaults h.table e.span (notedTy e) m.returnTy,
          by simp [visitReturned, hmethod, hunknown, hvoid]⟩

/-- A declaration is checked before its name is bound. -/
theorem visitDecl_apply (name typeName : String) (init : Option Expr) (span : Span) (v : Visitor) :
    let declared := declaredTy h.table .localVar name typeName
    let bound := bindLocal h.file .localVar name ⟨tyOf declared, span⟩ v.locals
    visitStmt h (.decl name typeName init span) v =
      some (.decl name typeName (init.map (annotate (v.env h))) span,
        { v with
          locals := bound.1
          reported := v.reported ++ (faultsOf span declared ++
            initFaults (v.env h) (tyOf declared) init ++ bound.2) }) := by
  simp only [visitStmt, bind_apply, settle_apply, Option.bind_some, visitValue?_apply,
    bindName_apply, pure_apply, Visitor.report, List.append_assoc]
  rfl

theorem keepsBelow_visitStmts {ss : List Stmt} (ih : ∀ s ∈ ss, KeepsBelow (visitStmt h s)) :
    KeepsBelow (visitStmts h ss) := by
  induction ss with
  | nil => exact (restores_pure []).keepsBelow
  | cons s ss ihss =>
    refine (ih s List.mem_cons_self).bind fun s' => ?_
    refine (ihss fun s hs => ih s (List.mem_cons_of_mem _ hs)).bind fun ss' => ?_
    exact (restores_pure _).keepsBelow

/-- The pass comes to the end of any statement in any state. A declaration may add to the innermost
frame; any other statement restores the state. -/
theorem visitStmt_restores (s : Stmt) :
    KeepsBelow (visitStmt h s) ∧ (s.isDecl = false → Restores (visitStmt h s)) := by
  have hrestores {s : Stmt} (hs : Restores (visitStmt h s)) :
      KeepsBelow (visitStmt h s) ∧ (s.isDecl = false → Restores (visitStmt h s)) :=
    ⟨hs.keepsBelow, fun _ => hs⟩
  -- a statement in a branch or a body may be a declaration; the frame around it takes that back
  induction s using Stmt.induction with
  | decl name typeName init span =>
    refine ⟨fun v => ?_, fun hdecl => by cases hdecl⟩
    exact ⟨_, _, _, visitDecl_apply h name typeName init span v, sameBelow_bindLocal _ _ _ _ _⟩
  | expr e span =>
    exact hrestores ((restores_visitExpr h e).bind fun e' => restores_pure _)
  | ifElse cond thenBranch elseBranch span iht ihe =>
    have helse : Restores (visitBranch h elseBranch) := by
      cases elseBranch with
      | none => exact restores_pure none
      | some s => exact (ihe s rfl).1.withScope.bind fun s' => restores_pure _
    refine hrestores ((restores_visitValue h .boolean cond).bind fun cond' => ?_)
    exact iht.1.withScope.bind fun t' => helse.bind fun e' => restores_pure _
  | whileLoop cond body span ih =>
    refine hrestores ((restores_visitValue h .boolean cond).bind fun cond' => ?_)
    exact ih.1.withScope.withLoop.bind fun body' => restores_pure _
  | forLoop init cond update body span ih =>
    refine hrestores ((restores_visitExpr? h init).bind fun init' => ?_)
    refine (restores_visitValue? h .boolean cond).bind fun cond' => ?_
    refine (restores_visitExpr? h update).bind fun update' => ?_
    exact ih.1.withScope.withLoop.bind fun body' => restores_pure _
  | breakLoop span =>
    refine hrestores fun v => ?_
    by_cases hdepth : v.loopDepth = 0
    · exact ⟨.breakLoop span, [⟨.breakOutsideLoop, span⟩], by simp [visitStmt, hdepth]⟩
    · exact ⟨.breakLoop span, [], by simp [visitStmt, hdepth]⟩
  | block stmts span ih =>
    have hstmts := keepsBelow_visitStmts h fun s hs => (ih s hs).1
    exact hrestores (hstmts.withScope.bind fun stmts' => restores_pure _)
  | ret value span =>
    refine hrestores ((restores_visitExpr? h value).bind fun value' => ?_)
    exact (restores_visitReturned h span value').bind fun _ => restores_pure _

end

/-! ## The pass and the check -/

section

variable (h : Home)

/-- What the statements of a method share. -/
def bodyOf (returnTy : Ty) : Body :=
  { table := h.table, cls := h.cls, file := h.file, returnTy }

/-- The state after a piece has been checked. -/
def after (v : Visitor) (c : Checked α) : Visitor :=
  { v with locals := c.locals, reported := v.reported ++ c.faults }

/-- In this state the piece comes to what has been checked. -/
def Performs (x : Visit α) (v : Visitor) (c : Checked α) : Prop := x v = some (c.tree, after v c)

namespace Performs

variable {x : Visit α} {v : Visitor} {c : Checked α}

theorem bind {f : α → Visit β} {tree : β} {locals : Scope Local} {fs : List Fault}
    (hx : Performs x v c) (hf : Performs (f c.tree) (after v c) ⟨tree, locals, fs⟩) :
    Performs (x >>= f) v ⟨tree, locals, c.faults ++ fs⟩ := by
  unfold Performs at *
  rw [bind_apply, hx, Option.bind_some, hf, after, after, after, List.append_assoc]

theorem map {g : α → β} (hx : Performs x v c) :
    Performs (x >>= fun a => pure (g a)) v ⟨g c.tree, c.locals, c.faults⟩ := by
  unfold Performs at *
  rw [bind_apply, hx, Option.bind_some, pure_apply]
  rfl

theorem withScope (hx : Performs x { v with locals := v.locals.enter } c) :
    Performs (withScope x) v c.leave := by
  unfold Performs at *
  simp only [Visit.withScope, bind_apply, modify_apply, Option.bind_some, hx, pure_apply]
  rfl

theorem withLoop {returnTy : Ty} {depth : Nat} (hm : v.method = some ⟨returnTy, depth⟩)
    (hx : Performs x
      { v with locals := v.locals.enter, method := some ⟨returnTy, depth + 1⟩ } c) :
    Performs (withLoop x) v c.leave := by
  obtain ⟨locals, method, reported⟩ := v
  cases hm
  have hscope : Visit.withScope x ⟨locals, some ⟨returnTy, depth + 1⟩, reported⟩ = _ := withScope hx
  unfold Performs
  simp only [Visit.withLoop, enterLoop, bind_apply, modify_apply, Option.bind_some,
    Option.map_some, hscope]
  rfl

theorem sameBelow (hx : Performs x v c) (hkeeps : KeepsBelow x) : v.locals.SameBelow c.locals := by
  obtain ⟨a, fs, locals, hvisit, hbelow⟩ := hkeeps v
  rw [hx] at hvisit
  have hlocals : c.locals = locals := congrArg (·.2.locals) (Option.some.inj hvisit)
  rw [hlocals]
  exact hbelow

theorem locals_eq (hx : Performs x v c) (hrestores : Restores x) : c.locals = v.locals := by
  obtain ⟨a, fs, hvisit⟩ := hrestores v
  rw [hx] at hvisit
  exact congrArg (·.2.locals) (Option.some.inj hvisit)

end Performs

section

variable (v : Visitor)

theorem performs_visitExpr (e : Expr) :
    Performs (visitExpr h e) v ⟨annotate (v.env h) e, v.locals, faults (v.env h) e⟩ :=
  visitExpr_apply h e v

theorem performs_visitExpr? (o : Option Expr) :
    Performs (visitExpr? h o) v ⟨o.map (annotate (v.env h)), v.locals, faults? (v.env h) o⟩ :=
  visitExpr?_apply h o v

theorem performs_cond (e : Expr) :
    Performs (visitValue h .boolean e) v
      ⟨annotate (v.env h) e, v.locals, condFaults (v.env h) e⟩ :=
  visitValue_apply h .boolean e v

theorem performs_cond? (o : Option Expr) :
    Performs (visitValue? h .boolean o) v
      ⟨o.map (annotate (v.env h)), v.locals, condFaults? (v.env h) o⟩ := by
  cases o with
  | none => exact visitValue?_apply h .boolean none v
  | some e => exact visitValue?_apply h .boolean (some e) v

end

theorem performs_visitStmts {returnTy : Ty} {ss : List Stmt}
    (ih : ∀ s ∈ ss, ∀ depth v, v.method = some ⟨returnTy, depth⟩ →
      Performs (visitStmt h s) v (checkStmt (bodyOf h returnTy) depth v.locals s)) {depth : Nat}
    {v : Visitor} (hm : v.method = some ⟨returnTy, depth⟩) :
    Performs (visitStmts h ss) v (checkStmts (bodyOf h returnTy) depth v.locals ss) := by
  induction ss generalizing v with
  | nil => exact congrArg some (Prod.ext rfl (report_nil v).symm)
  | cons s ss ihss =>
    simp only [visitStmts, checkStmts]
    refine (ih s List.mem_cons_self depth v hm).bind ?_
    exact Performs.map (ihss (fun s hs => ih s (List.mem_cons_of_mem _ hs)) (by exact hm))

/-- Inside a method the pass does to a statement what the check does to it. -/
theorem performs_visitStmt (returnTy : Ty) (s : Stmt) :
    ∀ depth v, v.method = some ⟨returnTy, depth⟩ →
      Performs (visitStmt h s) v (checkStmt (bodyOf h returnTy) depth v.locals s) := by
  -- for all counts at once, since the body of a loop is visited under a higher one
  induction s using Stmt.induction with
  | decl name typeName init span =>
    intro depth v hm
    exact visitDecl_apply h name typeName init span v
  | expr e span =>
    intro depth v hm
    exact (performs_visitExpr h v e).map
  | ifElse cond thenBranch elseBranch span iht ihe =>
    intro depth v hm
    have helse (v : Visitor) (hm : v.method = some ⟨returnTy, depth⟩) :
        Performs (visitBranch h elseBranch) v
          (checkBranch (bodyOf h returnTy) depth v.locals elseBranch) := by
      cases elseBranch with
      | none => exact congrArg some (Prod.ext rfl (report_nil v).symm)
      | some s => exact (Performs.withScope (ihe s rfl depth _ hm)).map
    simp only [visitStmt, checkStmt, List.append_assoc]
    refine (performs_cond h v cond).bind ?_
    refine Performs.bind (Performs.withScope (iht depth _ (by exact hm))) ?_
    exact Performs.map (helse _ (by exact hm))
  | whileLoop cond body span ih =>
    intro depth v hm
    simp only [visitStmt, checkStmt]
    refine (performs_cond h v cond).bind ?_
    exact Performs.map (Performs.withLoop (by exact hm) (ih (depth + 1) _ rfl))
  | forLoop init cond update body span ih =>
    intro depth v hm
    simp only [visitStmt, checkStmt, List.append_assoc]
    refine (performs_visitExpr? h v init).bind ((performs_cond? h _ cond).bind ?_)
    refine (performs_visitExpr? h _ update).bind ?_
    exact Performs.map (Performs.withLoop (by exact hm) (ih (depth + 1) _ rfl))
  | breakLoop span =>
    intro depth v hm
    have hdepth : v.loopDepth = depth := by rw [Visitor.loopDepth, hm, Option.elim_some]
    by_cases hzero : depth = 0
    · simp [Performs, visitStmt, checkStmt, hdepth, hzero]
      rfl
    · simp [Performs, visitStmt, checkStmt, hdepth, hzero, after]
  | block stmts span ih =>
    intro depth v hm
    exact (Performs.withScope (performs_visitStmts h ih hm)).map
  | ret value span =>
    intro depth v hm
    simp only [visitStmt, checkStmt]
    refine (performs_visitExpr? h v value).bind ?_
    have hreturned : Performs (visitReturned h span (value.map (annotate (v.env h))))
        (v.report (faults? (v.env h) value))
        ⟨(), v.locals, returnFaults (v.env h) span returnTy value⟩ :=
      visitReturned_apply h span value (v := v.report (faults? (v.env h) value))
        (m := ⟨returnTy, depth⟩) hm
    exact Performs.map hreturned

end

end Visit

/-! ## Locals after a statement -/

section

variable (b : Body) (loops : Nat) (locals : Scope Local)

/-- The state of a pass at a place in a method. -/
def Visitor.inside (returnTy : Ty) : Visitor := { locals, method := some ⟨returnTy, loops⟩ }

theorem sameBelow_checkStmts (ss : List Stmt) :
    locals.SameBelow (checkStmts b loops locals ss).locals := by
  let h : Home := { table := b.table, cls := b.cls, file := b.file }
  have hkeeps : Visit.KeepsBelow (Visit.visitStmts h ss) :=
    Visit.keepsBelow_visitStmts h fun s _ => (Visit.visitStmt_restores h s).1
  exact Visit.Performs.sameBelow (v := Visitor.inside loops locals b.returnTy)
    (Visit.performs_visitStmts h (fun s _ => Visit.performs_visitStmt h b.returnTy s) rfl) hkeeps

/-- Checking a statement leaves all frames below the innermost one. -/
theorem sameBelow_checkStmt (s : Stmt) : locals.SameBelow (checkStmt b loops locals s).locals := by
  let h : Home := { table := b.table, cls := b.cls, file := b.file }
  exact (Visit.performs_visitStmt h b.returnTy s loops (Visitor.inside loops locals b.returnTy)
    rfl).sameBelow (Visit.visitStmt_restores h s).1

/-- Only a declaration has an effect on the statements after it. -/
theorem locals_checkStmt {s : Stmt} (hs : s.isDecl = false) :
    (checkStmt b loops locals s).locals = locals := by
  let h : Home := { table := b.table, cls := b.cls, file := b.file }
  exact (Visit.performs_visitStmt h b.returnTy s loops (Visitor.inside loops locals b.returnTy)
    rfl).locals_eq ((Visit.visitStmt_restores h s).2 hs)

end

namespace Visit

/-! ## Members -/

section

variable (h : Home)

theorem performs_params (ps : List Param) (v : Visitor) :
    Performs (ps.forM (visitParam h)) v
      ⟨(), (bindParams h v.locals ps).1, (bindParams h v.locals ps).2⟩ := by
  induction ps generalizing v with
  | nil => exact congrArg some (Prod.ext rfl (report_nil v).symm)
  | cons p ps ih =>
    have hparam : Performs (visitParam h p) v
        (let ty := declaredTy h.table .param p.name p.typeName
          let bound := bindLocal h.file .param p.name ⟨tyOf ty, p.span⟩ v.locals
          ⟨(), bound.1, faultsOf p.span ty ++ bound.2⟩) := by
      simp only [Performs, visitParam, bind_apply, settle_apply, Option.bind_some, bindName_apply,
        report_report]
      rfl
    exact hparam.bind (ih _)

theorem sameBelow_bindParams (locals : Scope Local) (ps : List Param) :
    locals.SameBelow (bindParams h locals ps).1 := by
  induction ps generalizing locals with
  | nil => exact .refl locals
  | cons p ps ih => exact (sameBelow_bindLocal _ _ _ _ _).trans (ih _)

/-- A method is checked from locals of its own, and none of them are left behind. -/
theorem visitMethod_apply (m : Method) (v : Visitor) :
    visitMethod h m v = some ((checkMethod h m).1,
      { reported := v.reported ++ (checkMethod h m).2 }) := by
  let declared := declaredTy h.table .method m.name m.returnName
  let params := bindParams h ({} : Scope Local).enter m.params
  let body := checkStmts (bodyOf h (tyOf declared)) 0 params.1 m.body
  let start : Visitor :=
    { v.report (faultsOf m.span declared ++ overrideFaults h m) with
      locals := {}, method := some ⟨tyOf declared, 0⟩ }
  have hbody : Performs (withScope (do m.params.forM (visitParam h); visitStmts h m.body)) start
      (Checked.leave ⟨body.tree, body.locals, params.2 ++ body.faults⟩) :=
    Performs.withScope ((performs_params h m.params _).bind
      (performs_visitStmts h (fun s _ => performs_visitStmt h (tyOf declared) s) rfl))
  have hempty : body.locals.exit = {} :=
    ((sameBelow_bindParams h _ m.params).trans (sameBelow_checkStmts _ 0 _ m.body)).exit_eq
  have hmethod : visitMethod h m v =
      (withScope (do m.params.forM (visitParam h); visitStmts h m.body) start).bind fun r =>
        some ({ m with body := r.1 }, { r.2 with method := none }) := by
    simp only [visitMethod, bind_apply, settle_apply, report_apply, modify_apply, pure_apply,
      Option.bind_some, report_report]
    rfl
  rw [hmethod, hbody, Option.bind_some]
  simp only [after, Checked.leave, hempty, start, Visitor.report, checkMethod, List.append_assoc]
  rfl

theorem visitField_apply (f : Field) {v : Visitor} (hv : v.locals = {}) :
    visitField h f v = some ((checkField h f).1, v.report (checkField h f).2) := by
  obtain ⟨locals, method, reported⟩ := v
  cases hv
  simp only [visitField, bind_apply, settle_apply, Option.bind_some, visitValue?_apply, pure_apply,
    report_report]
  rfl

/-- Where no locals are bound and no method is under way, the pass does to a member what the check
does to it. -/
theorem visitFeature_apply (f : Feature) {v : Visitor} (hlocals : v.locals = {})
    (hmethod : v.method = none) :
    visitFeature h f v = some ((checkFeature h f).1, v.report (checkFeature h f).2) := by
  cases f with
  | field f => simp [visitFeature, visitField_apply h f hlocals, checkFeature]
  | method m =>
    obtain ⟨locals, method, reported⟩ := v
    cases hlocals
    cases hmethod
    simp [visitFeature, visitMethod_apply h m, checkFeature, Visitor.report]

theorem visitFeatures_apply (features : List Feature) {v : Visitor} (hlocals : v.locals = {})
    (hmethod : v.method = none) :
    visitFeatures h features v =
      some (features.map fun f => (checkFeature h f).1,
        v.report (features.flatMap fun f => (checkFeature h f).2)) := by
  induction features generalizing v with
  | nil => simp [visitFeatures]
  | cons f features ih =>
    have hrest := ih (v := v.report (checkFeature h f).2) hlocals hmethod
    unfold visitFeatures at hrest ⊢
    simp [List.mapM_cons, visitFeature_apply h f hlocals hmethod, hrest]

/-- The pass reads the types of parts from notes, but only from those that it has just made. Members
that differ in nothing but notes come out the same, with a note on every expression and with the same
reports, and another pass over what came out changes nothing and repeats the reports. -/
theorem visitFeatures_ignores_notes {fs gs : List Feature}
    (heq : fs.map Feature.erase = gs.map Feature.erase) {v : Visitor} (hlocals : v.locals = {})
    (hmethod : v.method = none) :
    ∃ visited v', visitFeatures h fs v = some (visited, v') ∧
      visitFeatures h gs v = some (visited, v') ∧ visitFeatures h visited v = some (visited, v') ∧
      visited.map Feature.erase = fs.map Feature.erase ∧ ∀ f ∈ visited, Annotated f.nodes := by
  have herase (fs : List Feature) :
      visitFeatures h (fs.map Feature.erase) v = visitFeatures h fs v := by
    simp only [visitFeatures_apply h _ hlocals hmethod, List.map_map, List.flatMap_map,
      Function.comp_def, checkFeature_erase]
  have hvisited : (fs.map fun f => (checkFeature h f).1).map Feature.erase = fs.map Feature.erase := by
    simp only [List.map_map, Function.comp_def, erase_checkFeature]
  refine ⟨_, _, visitFeatures_apply h fs hlocals hmethod, ?_, ?_, hvisited, fun f hf => ?_⟩
  · rw [← herase gs, ← heq, herase, visitFeatures_apply h fs hlocals hmethod]
  · rw [← herase, hvisited, herase, visitFeatures_apply h fs hlocals hmethod]
  · obtain ⟨g, -, rfl⟩ := List.mem_map.mp hf
    exact annotated_checkFeature h g

end

end Visit

end Typing

end ClassCompiler
