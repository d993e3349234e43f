import ClassCompiler.Proofs.TypingExpr
import ClassCompiler.Typing.Stmt

/-!
# Checking statements

The checker threads its scope through the statements of a body. As long as nothing is reported, the
scope holds the locals that the rules hold.

Results:
1. `Matches.enter`, `Matches.exit`, `Matches.add?`: the operations on scopes and the frames of the
   rules.
2. `Rules.StmtTyped.exists_frame`: a statement leaves all frames but the innermost alone.
3. `Within.completeOn`, `Within.soundOn`: the rules admit exactly the statements without a fault.
4. `Rules.StmtTyped.known`: every type noted in a statement is known.
-/

namespace ClassCompiler

open Rules Typing

/-! ## Scopes -/

namespace Matches

variable {locals : Scope Local} {frame : Frame KnownTy} {Γ : List (Frame KnownTy)}

theorem enter (h : Matches locals Γ) : Matches locals.enter ([] :: Γ) where
  base_eq := h.base_eq
  inner_eq := congrArg ([] :: ·) h.inner_eq

theorem exit (h : Matches locals (frame :: Γ)) : Matches locals.exit Γ where
  base_eq := h.base_eq
  inner_eq := by
    have hinner := congrArg List.tail h.inner_eq
    rwa [List.map_cons, List.tail_cons, ← List.map_tail] at hinner

/-- A name that the innermost frame of the rules lacks can be added, and no other. -/
theorem add?_iff (h : Matches locals (frame :: Γ)) (name : String) (l : Local) :
    (∃ locals', locals.add? name l = some locals') ↔ frame.lookup name = none := by
  obtain ⟨base, inner⟩ := locals
  cases inner with
  | nil => exact nomatch h.inner_eq
  | cons top rest =>
    obtain ⟨htop, _⟩ := List.cons.inj h.inner_eq
    have hlookup : (top.lookup name).map (·.ty) = (frame.lookup name).map KnownTy.toTy := by
      rw [← lookup_map_snd, ← lookup_map_snd]
      exact congrArg (List.lookup name) htop
    have hpeek : Scope.peek? ⟨base, top :: rest⟩ name = top.lookup name := rfl
    rw [Scope.add?, hpeek]
    cases htl : top.lookup name with
    | none =>
      rw [htl, Option.map_none, eq_comm, Option.map_eq_none_iff] at hlookup
      exact ⟨fun _ => hlookup, fun _ => ⟨_, rfl⟩⟩
    | some old =>
      rw [htl] at hlookup
      refine ⟨fun ⟨_, hs⟩ => (nomatch hs), fun hnone => ?_⟩
      rw [hnone] at hlookup
      exact nomatch hlookup

theorem add? (h : Matches locals (frame :: Γ)) {name : String} {l : Local} {τ : KnownTy}
    (hty : l.ty = τ.toTy) {locals' : Scope Local} (hadd : locals.add? name l = some locals') :
    Matches locals' ((frame ++ [(name, τ)]) :: Γ) := by
  obtain ⟨base, inner⟩ := locals
  cases inner with
  | nil => exact nomatch h.inner_eq
  | cons top rest =>
    obtain ⟨htop, hrest⟩ := List.cons.inj h.inner_eq
    rw [Scope.add?] at hadd
    split at hadd
    · exact nomatch hadd
    · obtain rfl := Option.some.inj hadd
      refine ⟨h.base_eq, ?_⟩
      have hlast : [(name, l)].map (fun b => (b.1, b.2.ty)) =
          [(name, τ)].map (fun b => (b.1, b.2.toTy)) := by simp [hty]
      refine congrArg₂ List.cons ?_ hrest
      show List.map _ (top ++ [(name, l)]) = List.map _ (frame ++ [(name, τ)])
      rw [List.map_append, List.map_append, hlast]
      exact congrArg (· ++ _) htop

end Matches

/-- A name is bound without a fault if it is not reserved and new to its frame. -/
theorem bindLocal_iff {locals : Scope Local} {frame : Frame KnownTy} {Γ : List (Frame KnownTy)}
    (h : Matches locals (frame :: Γ)) (file : Option String) (kind : NameKind) (name : String)
    {l : Local} {τ : KnownTy} (hty : l.ty = τ.toTy) :
    ((bindLocal file kind name l locals).2 = [] ↔
        isReserved name = false ∧ frame.lookup name = none) ∧
      ((bindLocal file kind name l locals).2 = [] →
        Matches (bindLocal file kind name l locals).1 ((frame ++ [(name, τ)]) :: Γ)) := by
  unfold bindLocal
  cases isReserved name with
  | true => exact ⟨⟨fun hf => (nomatch hf), fun hf => (nomatch hf.1)⟩, fun hf => (nomatch hf)⟩
  | false =>
    rw [← h.add?_iff name l]
    cases hadd : locals.add? name l with
    | none =>
      exact ⟨⟨fun hf => (nomatch hf), fun ⟨_, _, hs⟩ => (nomatch hs)⟩, fun hf => (nomatch hf)⟩
    | some locals' => exact ⟨⟨fun _ => ⟨rfl, locals', rfl⟩, fun _ => rfl⟩, fun _ => h.add? hty hadd⟩

theorem Declares.declaredTy_iff {P : List ClassDecl} {t : ClassTable} (h : Declares P t)
    {kind : NameKind} {name typeName : String} {ty : Ty} :
    declaredTy t kind name typeName = .ok ty ↔
      ∃ τ, Names P typeName τ ∧ (kind ≠ .method → τ ≠ .void) ∧ τ.toTy = ty := by
  have hvoid (τ : KnownTy) : τ.toTy = .void ↔ τ = .void := KnownTy.toTy_inj (τ := .void)
  constructor
  · intro hd
    unfold declaredTy at hd
    split at hd
    · exact nomatch hd
    · next ty' hr =>
      obtain ⟨τ, hτ, rfl⟩ := (h.resolve?_iff _ _).mp hr
      split at hd
      · exact nomatch hd
      · next hnot =>
        refine ⟨τ, hτ, fun hkind heq => hnot ⟨(hvoid τ).mpr heq, hkind⟩, Except.ok.inj hd⟩
  · rintro ⟨τ, hτ, hkind, rfl⟩
    have hnot : ¬ (τ.toTy = .void ∧ kind ≠ .method) := fun hv => hkind hv.2 ((hvoid τ).mp hv.1)
    rw [declaredTy, h.resolve?_of_names hτ]
    simp only [hnot, if_false]

/-! ## Expressions in statements -/

/-- A test of expressions reports nothing exactly where the relation holds, and the relation then
gives the annotated expression. -/
structure Decides (env : Env) (check : Expr → List Fault) (R : Expr → Expr → Prop) : Prop where
  accepts : ∀ e e', R e e' → check e = [] ∧ annotate env e = e'
  related : ∀ e, check e = [] → ∃ e', R e e'

namespace Decides

variable {env : Env} {check : Expr → List Fault} {R : Expr → Expr → Prop}

theorem accepts_option (h : Decides env check R) {e e' : Option Expr} (hr : Option.Rel R e e') :
    e.elim [] check = [] ∧ e.map (annotate env) = e' := by
  cases hr with
  | none => exact ⟨rfl, rfl⟩
  | some hr =>
    obtain ⟨hcheck, htree⟩ := h.accepts _ _ hr
    exact ⟨hcheck, congrArg some htree⟩

theorem related_option (h : Decides env check R) {e : Option Expr} (hf : e.elim [] check = []) :
    ∃ e', Option.Rel R e e' := by
  cases e with
  | none => exact ⟨none, .none⟩
  | some e =>
    obtain ⟨e', hr⟩ := h.related e hf
    exact ⟨some e', .some hr⟩

end Decides

theorem initFaults_eq (env : Env) (ty : Ty) (e : Option Expr) :
    initFaults env ty e = e.elim [] fun e => faults env e ++ valueFaults env e ty := by
  cases e <;> rfl

theorem faults?_eq (env : Env) (e : Option Expr) : faults? env e = e.elim [] (faults env) := by
  cases e <;> rfl

theorem condFaults?_eq (env : Env) (e : Option Expr) :
    condFaults? env e = e.elim [] (condFaults env) := by
  cases e <;> rfl

namespace Located

variable {P : List ClassDecl} {Γ : List (Frame KnownTy)} {env : Env} (h : Located P Γ env)
  (hP : TypesKnown P)
include h hP

theorem decides_type : Decides env (faults env) (HasSomeType P env.cls Γ) where
  accepts := by
    rintro e e' ⟨σ, ht⟩
    have ha := h.accepts e σ e' ht
    exact ⟨ha.faults_eq, ha.tree_eq⟩
  related := by
    intro e hf
    obtain ⟨σ, e', ht⟩ := h.typed hP e hf
    exact ⟨e', σ, ht⟩

theorem decides_fits (τ : KnownTy) :
    Decides env (fun e => faults env e ++ valueFaults env e τ.toTy) (Fits P env.cls Γ τ) where
  accepts := by
    rintro e e' ⟨σ, ht, hsub⟩
    have ha := h.accepts e σ e' ht
    refine ⟨?_, ha.tree_eq⟩
    rw [ha.faults_eq, (h.valueFaults_iff ha.type_eq).mpr hsub]
    rfl
  related := by
    intro e hf
    obtain ⟨hf, hvalue⟩ := List.append_eq_nil_iff.mp hf
    obtain ⟨σ, e', ht⟩ := h.typed hP e hf
    exact ⟨e', σ, ht, (h.valueFaults_iff (h.accepts e σ e' ht).type_eq).mp hvalue⟩

theorem decides_cond : Decides env (condFaults env) (Typed P env.cls Γ · .boolean ·) where
  accepts := by
    intro e e' ht
    have ha := h.accepts e .boolean e' ht
    refine ⟨?_, ha.tree_eq⟩
    rw [condFaults, ha.faults_eq, (h.valueFaults_boolean ha.type_eq).mpr rfl]
    rfl
  related := by
    intro e hf
    obtain ⟨hf, hvalue⟩ := List.append_eq_nil_iff.mp hf
    obtain ⟨σ, e', ht⟩ := h.typed hP e hf
    obtain rfl := (h.valueFaults_boolean (h.accepts e σ e' ht).type_eq).mp hvalue
    exact ⟨e', ht⟩

end Located

theorem returnFaults_none {env : Env} {span : Span} {ρ : KnownTy} :
    returnFaults env span ρ.toTy none = [] ↔ ρ = .void := by
  have hvoid : ρ.toTy = .void ↔ ρ = .void := KnownTy.toTy_inj (τ := .void)
  simp [returnFaults, hvoid, ρ.toTy_ne_untyped]

theorem returnFaults_some {env : Env} {span : Span} {ρ : KnownTy} {e : Expr} :
    returnFaults env span ρ.toTy (some e) = [] ↔
      ρ ≠ .void ∧ valueFaults env e ρ.toTy = [] := by
  have hvoid : ρ.toTy = .void ↔ ρ = .void := KnownTy.toTy_inj (τ := .void)
  by_cases hρ : ρ = .void
  · simp [returnFaults, hρ, KnownTy.toTy]
  · simp [returnFaults, hvoid, hρ, ρ.toTy_ne_untyped]

/-! ## Statements -/

/-- A body in a class of a clean program, of a method that returns `ρ`. -/
structure Within (P : List ClassDecl) (ρ : KnownTy) (b : Body) : Prop
    extends Resident P b.table b.cls where
  known : TypesKnown P
  returnTy_eq : b.returnTy = ρ.toTy

theorem Within.located {P : List ClassDecl} {ρ : KnownTy} {b : Body} (h : Within P ρ b)
    {locals : Scope Local} {Γ : List (Frame KnownTy)} (hm : Matches locals Γ) :
    Located P Γ (b.env locals) where
  toResident := h.toResident
  locals := hm

/-- The check of a piece reports nothing, leaves the locals of `Γ` and notes types as in `tree`. -/
structure Admitted {α : Type} (r : Checked α) (Γ : List (Frame KnownTy)) (tree : α) : Prop where
  faults_eq : r.faults = []
  tree_eq : r.tree = tree
  locals : Matches r.locals Γ

namespace Admitted

variable {α β : Type} {r : Checked α} {frame : Frame KnownTy} {Γ : List (Frame KnownTy)} {tree : α}

theorem leave (h : Admitted r (frame :: Γ) tree) : Admitted r.leave Γ tree :=
  ⟨h.faults_eq, h.tree_eq, h.locals.exit⟩

theorem map (f : α → β) (h : Admitted r Γ tree) : Admitted (r.map f) Γ (f tree) :=
  ⟨h.faults_eq, congrArg f h.tree_eq, h.locals⟩

end Admitted

namespace Rules

variable {P : List ClassDecl} {cls : String} {ρ : KnownTy} {inLoop : Bool} {frame : Frame KnownTy}
  {Γ Δ : List (Frame KnownTy)}

/-- A statement changes no frame but the innermost. -/
theorem StmtTyped.exists_frame {s s' : Stmt}
    (h : StmtTyped P cls ρ inLoop (frame :: Γ) s Δ s') : ∃ frame', Δ = frame' :: Γ := by
  cases h <;> exact ⟨_, rfl⟩

theorem StmtsTyped.exists_frame {ss ss' : List Stmt}
    (h : StmtsTyped P cls ρ inLoop (frame :: Γ) ss Δ ss') : ∃ frame', Δ = frame' :: Γ := by
  induction ss generalizing frame ss' with
  | nil =>
    cases h with
    | nil => exact ⟨frame, rfl⟩
  | cons s ss ih =>
    cases h with
    | cons hs hss =>
      obtain ⟨frame', rfl⟩ := hs.exists_frame
      exact ih hss

end Rules

/-- The check finds what the rules say of the statement. -/
def CompleteOn (P : List ClassDecl) (ρ : KnownTy) (b : Body) (s : Stmt) : Prop :=
  ∀ (inLoop : Bool) (loops : Nat) (locals : Scope Local) (Γ Δ : List (Frame KnownTy)) (s' : Stmt),
    (inLoop = true ↔ loops ≠ 0) → Matches locals Γ → StmtTyped P b.cls ρ inLoop Γ s Δ s' →
    Admitted (checkStmt b loops locals s) Δ s'

/-- A statement in a frame of its own leaves the frames as they were. -/
theorem CompleteOn.leave {P : List ClassDecl} {ρ : KnownTy} {b : Body} {s s' : Stmt}
    (hs : CompleteOn P ρ b s) {inLoop : Bool} (loops : Nat)
    {locals : Scope Local} {Γ Δ : List (Frame KnownTy)} (hl : inLoop = true ↔ loops ≠ 0)
    (hm : Matches locals Γ) (ht : StmtTyped P b.cls ρ inLoop ([] :: Γ) s Δ s') :
    Admitted (checkStmt b loops locals.enter s).leave Γ s' := by
  obtain ⟨frame, rfl⟩ := ht.exists_frame
  exact (hs inLoop loops locals.enter _ _ s' hl hm.enter ht).leave

/-- If the check reports nothing of the statement, the rules admit it. -/
def SoundOn (P : List ClassDecl) (ρ : KnownTy) (b : Body) (s : Stmt) : Prop :=
  ∀ (inLoop : Bool) (loops : Nat) (locals : Scope Local) (frame : Frame KnownTy)
    (Γ : List (Frame KnownTy)), (inLoop = true ↔ loops ≠ 0) → Matches locals (frame :: Γ) →
    (checkStmt b loops locals s).faults = [] →
    ∃ Δ s', StmtTyped P b.cls ρ inLoop (frame :: Γ) s Δ s'

namespace Within

variable {P : List ClassDecl} {ρ : KnownTy} {b : Body}

theorem complete_stmts {ss : List Stmt} (ih : ∀ s ∈ ss, CompleteOn P ρ b s) {inLoop : Bool}
    {loops : Nat} {locals : Scope Local} {Γ Δ : List (Frame KnownTy)} {ss' : List Stmt}
    (hl : inLoop = true ↔ loops ≠ 0) (hm : Matches locals Γ)
    (ht : StmtsTyped P b.cls ρ inLoop Γ ss Δ ss') :
    Admitted (checkStmts b loops locals ss) Δ ss' := by
  induction ss generalizing locals Γ ss' with
  | nil =>
    cases ht with
    | nil => exact ⟨rfl, rfl, hm⟩
  | cons s ss ihss =>
    cases ht with
    | cons hs hss =>
      have ha := ih s List.mem_cons_self _ _ _ _ _ _ hl hm hs
      have has := ihss (fun s hs => ih s (List.mem_cons_of_mem _ hs)) ha.locals hss
      refine ⟨?_, congrArg₂ List.cons ha.tree_eq has.tree_eq, has.locals⟩
      exact List.append_eq_nil_iff.mpr ⟨ha.faults_eq, has.faults_eq⟩

variable (h : Within P ρ b)
include h

theorem completeOn (s : Stmt) : CompleteOn P ρ b s := by
  induction s using Stmt.induction with
  | decl name typeName init span =>
    intro inLoop loops locals Γ Δ s' hl hm ht
    cases ht with
    | @decl _ frame Γ _ _ _ init' τ _ hτ hvoid hinit hres hfresh =>
      have hd : declaredTy b.table .localVar name typeName = .ok τ.toTy :=
        h.declares.declaredTy_iff.mpr ⟨τ, hτ, fun _ => hvoid, rfl⟩
      obtain ⟨hinitFaults, htree⟩ := ((h.located hm).decides_fits h.known τ).accepts_option hinit
      obtain ⟨hbound, hmatches⟩ := bindLocal_iff hm b.file .localVar name (l := ⟨_, span⟩) rfl
      have hnil := hbound.mpr ⟨hres, hfresh⟩
      rw [← initFaults_eq] at hinitFaults
      simp only [checkStmt, hd]
      exact ⟨by rw [faultsOf, tyOf, hinitFaults, hnil]; rfl, by rw [htree], hmatches hnil⟩
  | expr e span =>
    intro inLoop loops locals Γ Δ s' hl hm ht
    cases ht with
    | expr he =>
      obtain ⟨hf, htree⟩ := ((h.located hm).decides_type h.known).accepts _ _ he
      simp only [checkStmt]
      exact ⟨hf, by rw [htree], hm⟩
  | ifElse cond t e span iht ihe =>
    intro inLoop loops locals Γ Δ s' hl hm ht
    cases ht with
    | ifThen hcond ht =>
      obtain ⟨hf, htree⟩ := ((h.located hm).decides_cond h.known).accepts _ _ hcond
      have hat := iht.leave loops hl hm ht
      simp only [checkStmt, checkBranch]
      refine ⟨?_, by rw [htree, hat.tree_eq], hat.locals⟩
      rw [hf, hat.faults_eq]
      rfl
    | @ifElse _ _ _ _ _ _ _ _ e e' _ hcond ht he =>
      obtain ⟨hf, htree⟩ := ((h.located hm).decides_cond h.known).accepts _ _ hcond
      have hat := iht.leave loops hl hm ht
      -- the first branch has given its frame up, so the second one starts from the same locals
      have hae := ((ihe e rfl).leave loops hl hat.locals he).map some
      simp only [checkStmt, checkBranch]
      refine ⟨?_, by rw [htree, hat.tree_eq, hae.tree_eq], hae.locals⟩
      rw [hf, hat.faults_eq, hae.faults_eq]
      rfl
  | whileLoop cond body span ih =>
    intro inLoop loops locals Γ Δ s' hl hm ht
    cases ht with
    | whileLoop hcond hbody =>
      obtain ⟨hf, htree⟩ := ((h.located hm).decides_cond h.known).accepts _ _ hcond
      have ha := ih.leave (loops + 1) (by simp) hm hbody
      simp only [checkStmt]
      refine ⟨?_, by rw [htree, ha.tree_eq], ha.locals⟩
      rw [hf, ha.faults_eq]
      rfl
  | forLoop init cond update body span ih =>
    intro inLoop loops locals Γ Δ s' hl hm ht
    cases ht with
    | forLoop hinit hcond hupdate hbody =>
      have hloc := h.located hm
      obtain ⟨hinitFaults, hinitTree⟩ := (hloc.decides_type h.known).accepts_option hinit
      obtain ⟨hcondFaults, hcondTree⟩ := (hloc.decides_cond h.known).accepts_option hcond
      obtain ⟨hupdateFaults, hupdateTree⟩ := (hloc.decides_type h.known).accepts_option hupdate
      have ha := ih.leave (loops + 1) (by simp) hm hbody
      simp only [checkStmt, faults?_eq, condFaults?_eq]
      refine ⟨?_, by rw [hinitTree, hcondTree, hupdateTree, ha.tree_eq], ha.locals⟩
      rw [hinitFaults, hcondFaults, hupdateFaults, ha.faults_eq]
      rfl
  | breakLoop span =>
    intro inLoop loops locals Γ Δ s' hl hm ht
    cases ht with
    | breakLoop => exact ⟨if_neg (hl.mp rfl), rfl, hm⟩
  | block stmts span ih =>
    intro inLoop loops locals Γ Δ s' hl hm ht
    cases ht with
    | block hstmts =>
      obtain ⟨frame, rfl⟩ := hstmts.exists_frame
      exact (complete_stmts ih hl hm.enter hstmts).leave.map (Stmt.block · span)
  | ret value span =>
    intro inLoop loops locals Γ Δ s' hl hm ht
    cases ht with
    | retVoid hρ =>
      refine ⟨?_, rfl, hm⟩
      simp only [checkStmt]
      rw [h.returnTy_eq, returnFaults_none.mpr hρ]
      rfl
    | ret hρ hvalue =>
      obtain ⟨hf, htree⟩ := ((h.located hm).decides_fits h.known ρ).accepts _ _ hvalue
      obtain ⟨hf, hfits⟩ := List.append_eq_nil_iff.mp hf
      simp only [checkStmt]
      refine ⟨?_, by rw [Option.map_some, htree], hm⟩
      rw [h.returnTy_eq, returnFaults_some.mpr ⟨hρ, hfits⟩, faults?, hf]
      rfl

/-- Each statement is admitted, so the next one is checked with the locals of the rules. -/
theorem sound_stmts {ss : List Stmt} (ih : ∀ s ∈ ss, SoundOn P ρ b s) {inLoop : Bool} {loops : Nat}
    {locals : Scope Local} {frame : Frame KnownTy} {Γ : List (Frame KnownTy)}
    (hl : inLoop = true ↔ loops ≠ 0) (hm : Matches locals (frame :: Γ))
    (hf : (checkStmts b loops locals ss).faults = []) :
    ∃ Δ ss', StmtsTyped P b.cls ρ inLoop (frame :: Γ) ss Δ ss' := by
  induction ss generalizing locals frame with
  | nil => exact ⟨_, [], .nil⟩
  | cons s ss ihss =>
    simp only [checkStmts, List.append_eq_nil_iff] at hf
    obtain ⟨Δ, s', hs⟩ := ih s List.mem_cons_self _ _ _ _ _ hl hm hf.1
    obtain ⟨frame', rfl⟩ := hs.exists_frame
    have ha := h.completeOn s _ _ _ _ _ _ hl hm hs
    obtain ⟨Δ, ss', hss⟩ := ihss (fun s hs => ih s (List.mem_cons_of_mem _ hs)) ha.locals hf.2
    exact ⟨Δ, s' :: ss', .cons hs hss⟩

theorem soundOn (s : Stmt) : SoundOn P ρ b s := by
  induction s using Stmt.induction with
  | decl name typeName init span =>
    intro inLoop loops locals frame Γ hl hm hf
    simp only [checkStmt, List.append_eq_nil_iff] at hf
    obtain ⟨⟨hdeclared, hinit⟩, hbound⟩ := hf
    obtain ⟨ty, hty⟩ := faultsOf_eq_nil.mp hdeclared
    obtain ⟨τ, hτ, hvoid, rfl⟩ := h.declares.declaredTy_iff.mp hty
    rw [hty, tyOf] at hinit hbound
    rw [initFaults_eq] at hinit
    -- the initial value is checked before the name is bound, with the locals of the declaration
    obtain ⟨init', hinit⟩ := ((h.located hm).decides_fits h.known τ).related_option hinit
    obtain ⟨hres, hfresh⟩ := (bindLocal_iff hm b.file .localVar name rfl).1.mp hbound
    exact ⟨_, _, .decl hτ (hvoid (by simp)) hinit hres hfresh⟩
  | expr e span =>
    intro inLoop loops locals frame Γ hl hm hf
    obtain ⟨e', he⟩ := ((h.located hm).decides_type h.known).related e hf
    exact ⟨_, _, .expr he⟩
  | ifElse cond t e span iht ihe =>
    intro inLoop loops locals frame Γ hl hm hf
    simp only [checkStmt, List.append_eq_nil_iff] at hf
    obtain ⟨⟨hcond, ht⟩, he⟩ := hf
    obtain ⟨cond', hcond⟩ := ((h.located hm).decides_cond h.known).related cond hcond
    obtain ⟨Δ, t', ht⟩ := iht _ _ _ _ _ hl hm.enter ht
    cases e with
    | none => exact ⟨_, _, .ifThen hcond ht⟩
    | some e =>
      have hat := (h.completeOn t).leave loops hl hm ht
      obtain ⟨Δ', e', he⟩ := ihe e rfl _ _ _ _ _ hl hat.locals.enter he
      exact ⟨_, _, .ifElse hcond ht he⟩
  | whileLoop cond body span ih =>
    intro inLoop loops locals frame Γ hl hm hf
    simp only [checkStmt, List.append_eq_nil_iff] at hf
    obtain ⟨cond', hcond⟩ := ((h.located hm).decides_cond h.known).related cond hf.1
    obtain ⟨Δ, body', hbody⟩ := ih true (loops + 1) _ _ _ (by simp) hm.enter hf.2
    exact ⟨_, _, .whileLoop hcond hbody⟩
  | forLoop init cond update body span ih =>
    intro inLoop loops locals frame Γ hl hm hf
    have hloc := h.located hm
    simp only [checkStmt, faults?_eq, condFaults?_eq, List.append_eq_nil_iff] at hf
    obtain ⟨⟨⟨hinit, hcond⟩, hupdate⟩, hbody⟩ := hf
    obtain ⟨init', hinit⟩ := (hloc.decides_type h.known).related_option hinit
    obtain ⟨cond', hcond⟩ := (hloc.decides_cond h.known).related_option hcond
    obtain ⟨update', hupdate⟩ := (hloc.decides_type h.known).related_option hupdate
    obtain ⟨Δ, body', hbody⟩ := ih true (loops + 1) _ _ _ (by simp) hm.enter hbody
    exact ⟨_, _, .forLoop hinit hcond hupdate hbody⟩
  | breakLoop span =>
    intro inLoop loops locals frame Γ hl hm hf
    have hinside : loops ≠ 0 := by
      intro hzero
      simp [checkStmt, hzero] at hf
    obtain rfl := hl.mpr hinside
    exact ⟨_, _, .breakLoop⟩
  | block stmts span ih =>
    intro inLoop loops locals frame Γ hl hm hf
    obtain ⟨Δ, stmts', hstmts⟩ := h.sound_stmts ih hl hm.enter hf
    exact ⟨_, _, .block hstmts⟩
  | ret value span =>
    intro inLoop loops locals frame Γ hl hm hf
    simp only [checkStmt, h.returnTy_eq, List.append_eq_nil_iff] at hf
    cases value with
    | none => exact ⟨_, _, .retVoid (returnFaults_none.mp hf.2)⟩
    | some e =>
      obtain ⟨hρ, hvalue⟩ := returnFaults_some.mp hf.2
      obtain ⟨e', he⟩ := ((h.located hm).decides_fits h.known ρ).related e
        (List.append_eq_nil_iff.mpr ⟨hf.1, hvalue⟩)
      exact ⟨_, _, .ret hρ he⟩

end Within

/-! ## Noted types -/

theorem filterMap_ofExpr? (e : Option Expr) :
    (Node.ofExpr? e).filterMap Node.expr? = Expr.nodes? e := by
  rw [Node.ofExpr?, List.filterMap_map]
  exact List.filterMap_some

theorem filterMap_ofExpr (e : Expr) : (Node.ofExpr e).filterMap Node.expr? = e.nodes :=
  filterMap_ofExpr? (some e)

namespace Rules

variable {P : List ClassDecl} {cls : String} {ρ : KnownTy} {inLoop : Bool}
  {Γ Δ : List (Frame KnownTy)}

theorem noted_option {R : Expr → Expr → Prop} (hR : ∀ e e', R e e' → Noted e'.nodes)
    {e e' : Option Expr} (hr : Option.Rel R e e') : Noted (Expr.nodes? e') := by
  cases hr with
  | none => exact noted_nil
  | some hr => exact hR _ _ hr

theorem HasSomeType.known {e e' : Expr} (h : HasSomeType P cls Γ e e') : Noted e'.nodes := by
  obtain ⟨σ, ht⟩ := h
  exact Typed.known e σ e' ht

theorem Fits.known {τ : KnownTy} {e e' : Expr} (h : Fits P cls Γ τ e e') : Noted e'.nodes := by
  obtain ⟨σ, ht, _⟩ := h
  exact Typed.known e σ e' ht

theorem StmtsTyped.known {ss ss' : List Stmt}
    (ih : ∀ s ∈ ss, ∀ inLoop Γ Δ s', StmtTyped P cls ρ inLoop Γ s Δ s' →
      Noted (s'.nodes.filterMap Node.expr?))
    (h : StmtsTyped P cls ρ inLoop Γ ss Δ ss') :
    Noted ((Stmt.nodesAll ss').filterMap Node.expr?) := by
  induction ss generalizing Γ ss' with
  | nil =>
    cases h with
    | nil => exact noted_nil
  | cons s ss ihss =>
    cases h with
    | cons hs hss =>
      rw [Stmt.nodesAll, List.filterMap_append]
      refine noted_append.mpr ⟨ih s List.mem_cons_self _ _ _ _ hs, ?_⟩
      exact ihss (fun s hs => ih s (List.mem_cons_of_mem _ hs)) hss

theorem StmtTyped.known (s : Stmt) : ∀ inLoop Γ Δ s', StmtTyped P cls ρ inLoop Γ s Δ s' →
    Noted (s'.nodes.filterMap Node.expr?) := by
  have hcons (s : Stmt) (nodes : List Node) :
      (Node.stmt s :: nodes).filterMap Node.expr? = nodes.filterMap Node.expr? := rfl
  induction s using Stmt.induction with
  | decl name typeName init span =>
    intro inLoop Γ Δ s' h
    cases h with
    | decl _ _ hinit _ _ =>
      rw [Stmt.nodes, hcons, filterMap_ofExpr?]
      exact noted_option (fun _ _ => Fits.known) hinit
  | expr e span =>
    intro inLoop Γ Δ s' h
    cases h with
    | expr he =>
      rw [Stmt.nodes, hcons, filterMap_ofExpr]
      exact he.known
  | ifElse cond t e span iht ihe =>
    intro inLoop Γ Δ s' h
    cases h with
    | ifThen hcond ht =>
      simp only [Stmt.nodes, hcons, List.filterMap_append, filterMap_ofExpr, noted_append]
      exact ⟨⟨Typed.known _ _ _ hcond, iht _ _ _ _ ht⟩, noted_nil⟩
    | ifElse hcond ht he =>
      simp only [Stmt.nodes, hcons, List.filterMap_append, filterMap_ofExpr, noted_append]
      exact ⟨⟨Typed.known _ _ _ hcond, iht _ _ _ _ ht⟩, ihe _ rfl _ _ _ _ he⟩
  | whileLoop cond body span ih =>
    intro inLoop Γ Δ s' h
    cases h with
    | whileLoop hcond hbody =>
      simp only [Stmt.nodes, hcons, List.filterMap_append, filterMap_ofExpr, noted_append]
      exact ⟨Typed.known _ _ _ hcond, ih _ _ _ _ hbody⟩
  | forLoop init cond update body span ih =>
    intro inLoop Γ Δ s' h
    cases h with
    | forLoop hinit hcond hupdate hbody =>
      simp only [Stmt.nodes, hcons, List.filterMap_append, filterMap_ofExpr?, noted_append]
      exact ⟨⟨⟨noted_option (fun _ _ => HasSomeType.known) hinit,
        noted_option (fun _ _ => Typed.known _ _ _) hcond⟩,
        noted_option (fun _ _ => HasSomeType.known) hupdate⟩, ih _ _ _ _ hbody⟩
  | breakLoop span =>
    intro inLoop Γ Δ s' h
    cases h with
    | breakLoop => exact noted_nil
  | block stmts span ih =>
    intro inLoop Γ Δ s' h
    cases h with
    | block hstmts => exact hstmts.known ih
  | ret value span =>
    intro inLoop Γ Δ s' h
    cases h with
    | retVoid _ => exact noted_nil
    | ret _ hvalue =>
      rw [Stmt.nodes, hcons, filterMap_ofExpr?]
      exact hvalue.known

end Rules

end ClassCompiler
