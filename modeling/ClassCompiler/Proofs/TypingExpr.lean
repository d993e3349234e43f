import ClassCompiler.Proofs.TreeInduction
import ClassCompiler.Proofs.TypingNames

/-!
# Checking expressions

The checker computes types, faults and annotations independently of each other. On the expressions
that the rules admit, and on no others, there are no faults, and then the type and the annotations
are those of the rules.

Results:
1. `Located.accepts`: a derivation of the rules leaves the checker nothing to report.
2. `Located.typed`: an expression without a fault has a derivation, if all declared types are known.
3. `Located.typed_unique`: an expression has one type and one annotated form.
4. `Rules.Typed.known`: every type noted on an expression is known.
-/

namespace ClassCompiler

open Rules Typing

/-- The checker reports nothing, finds the type and notes types as in `e'`. -/
structure Accepts (env : Env) (e : Expr) (τ : KnownTy) (e' : Expr) : Prop where
  faults_eq : faults env e = []
  type_eq : typeOf env e = τ.toTy
  tree_eq : annotate env e = e'

/-- The same of an optional part, but for its type. -/
structure AcceptsPart (env : Env) (part part' : Option Expr) : Prop where
  faults_eq : faults? env part = []
  tree_eq : Expr.mapTy? (fun e => some (typeOf env e)) part = part'

theorem Accepts.part {env : Env} {e e' : Expr} {τ : KnownTy} (h : Accepts env e τ e') :
    AcceptsPart env (some e) (some e') where
  faults_eq := h.faults_eq
  tree_eq := congrArg some h.tree_eq

theorem acceptsPart_none (env : Env) : AcceptsPart env none none := ⟨rfl, rfl⟩

namespace Located

variable {P : List ClassDecl} {Γ : List (Frame KnownTy)} {env : Env} (h : Located P Γ env)
include h

theorem valueFaults_iff {e : Expr} {σ τ : KnownTy} (ht : typeOf env e = σ.toTy) :
    valueFaults env e τ.toTy = [] ↔ Sub P σ τ := by
  rw [valueFaults, ht, h.declares.conformFaults_iff]

theorem valueFaults_int {e : Expr} {σ : KnownTy} (ht : typeOf env e = σ.toTy) :
    valueFaults env e .int = [] ↔ σ = .int :=
  (h.valueFaults_iff (τ := .int) ht).trans sub_int

theorem valueFaults_boolean {e : Expr} {σ : KnownTy} (ht : typeOf env e = σ.toTy) :
    valueFaults env e .boolean = [] ↔ σ = .boolean :=
  (h.valueFaults_iff (τ := .boolean) ht).trans sub_boolean

/-! ## From rules to checks -/

/-- Arguments that fit are accepted one by one, whatever else the parameters carry. -/
theorem accepts_args {args args' : List Expr} {params : List Param} {bound : List ParamType}
    (ih : ∀ e ∈ args, ∀ τ e', Typed P env.cls Γ e τ e' → Accepts env e τ e')
    (hargs : ArgsTyped P env.cls Γ args params args')
    (hbound : bound.map (·.typeName) = params.map (·.typeName)) :
    faultsAll env args = [] ∧
      Expr.mapTyAll (fun e => some (typeOf env e)) args = args' ∧
      bound.length = args.length ∧
      ∀ method index, argFaults env.table method index (args.map (typed env)) bound = [] := by
  induction args generalizing args' params bound with
  | nil =>
    cases hargs with
    | nil =>
      have hnil : bound = [] := List.map_eq_nil_iff.mp hbound
      subst hnil
      exact ⟨rfl, rfl, rfl, fun _ _ => rfl⟩
  | cons arg args ihargs =>
    cases hargs with
    | @cons _ arg' _ args' p params σ τ harg hτ hfits hrest =>
      cases bound with
      | nil => exact nomatch hbound
      | cons b bound =>
        obtain ⟨hb, hbound⟩ := List.cons.inj hbound
        have hname : b.typeName = p.typeName := hb
        have ha := ih arg List.mem_cons_self σ arg' harg
        obtain ⟨hfaults, htree, hlen, hargFaults⟩ :=
          ihargs (fun e he => ih e (List.mem_cons_of_mem _ he)) hrest hbound
        refine ⟨?_, ?_, congrArg (· + 1) hlen, fun method index => ?_⟩
        · rw [faultsAll, ha.faults_eq, hfaults]
          rfl
        · rw [Expr.mapTyAll, htree]
          exact congrArg (· :: args') ha.tree_eq
        · have hparam : (env.table.resolve? b.typeName).getD .untyped = τ.toTy := by
            rw [hname, h.declares.resolve?_of_names hτ, Option.getD_some]
          have hmatch := h.declares.argMatches_iff.mpr hfits
          rw [List.map_cons, typed, argFaults, hparam, ha.type_eq]
          simp only [hmatch, if_true, hargFaults]

/-- A call of a method that the receiver has. -/
theorem accepts_call {receiver receiver' : Option Expr} {σ : KnownTy} {owner : String} {m : Method}
    {args args' : List Expr} {τ : KnownTy} (mark : Mark)
    (hpart : AcceptsPart env receiver receiver')
    (hreceiver : (typeOf? env receiver).getD (.cls env.cls) = σ.toTy)
    (ih : ∀ e ∈ args, ∀ τ e', Typed P env.cls Γ e τ e' → Accepts env e τ e')
    (hr : Receives σ owner) (hm : HasMethod P owner m)
    (hargs : ArgsTyped P env.cls Γ args m.params args') (hτ : Names P m.returnName τ) :
    Accepts env (.dispatch receiver m.name args mark) τ
      (.dispatch receiver' m.name args' (note mark τ)) := by
  obtain ⟨b, hcallee, hsig⟩ := h.declares.callee_of_hasMethod hr hm
  obtain ⟨hreturn, hparams⟩ := Prod.mk.inj hsig
  obtain ⟨hfaults, htree, hlen, hargFaults⟩ := h.accepts_args ih hargs hparams
  have htype : typeOf env (.dispatch receiver m.name args mark) = τ.toTy := by
    rw [typeOf, hreceiver, hcallee, callTy, hreturn, h.declares.resolve?_of_names hτ,
      Option.getD_some]
  refine ⟨?_, htype, ?_⟩
  · have hlen' : b.params.length = (args.map (typed env)).length := by
      rw [List.length_map]
      exact hlen
    rw [faults, hpart.faults_eq, hfaults, hreceiver, hcallee, callFaults, countFaults,
      if_pos hlen', hargFaults]
    rfl
  · show Expr.dispatch (Expr.mapTy? _ receiver) m.name _ ⟨some (typeOf env _), _⟩ = _
    rw [hpart.tree_eq, htree, htype]
    rfl

omit h in
theorem accepts_ref {object object' : Option Expr} {name : String} {τ : KnownTy} (mark : Mark)
    (hpart : AcceptsPart env object object')
    (hty : env.refTy (typeOf? env object) name = .ok τ.toTy) :
    Accepts env (.var object name mark) τ (.var object' name (note mark τ)) := by
  have htype : typeOf env (.var object name mark) = τ.toTy := by
    rw [typeOf, hty]
    rfl
  refine ⟨?_, htype, ?_⟩
  · rw [faults, hty, hpart.faults_eq]
    rfl
  · show Expr.var (Expr.mapTy? _ object) name ⟨some (typeOf env _), _⟩ = _
    rw [hpart.tree_eq, htype]
    rfl

theorem accepts_elem {object object' : Option Expr} {name : String} {index index' : Expr}
    {τ : KnownTy} (mark : Mark) (hpart : AcceptsPart env object object')
    (hty : env.refTy (typeOf? env object) name = .ok (.array τ.toTy))
    (hi : Accepts env index .int index') :
    Accepts env (.arrayElem object name index mark) τ
      (.arrayElem object' name index' (note mark τ)) := by
  have htype : typeOf env (.arrayElem object name index mark) = τ.toTy := by
    rw [typeOf, hty]
    rfl
  refine ⟨?_, htype, ?_⟩
  · have hint := (h.valueFaults_int hi.type_eq).mpr rfl
    rw [faults, hty, hpart.faults_eq, hi.faults_eq]
    simpa [faultsOf, tyOf, elemTy] using hint
  · show Expr.arrayElem (Expr.mapTy? _ object) name (annotate env index)
      ⟨some (typeOf env _), _⟩ = _
    rw [hpart.tree_eq, hi.tree_eq, htype]
    rfl

/-- What the rules admit is accepted, with the type and the annotations of the rules. -/
theorem accepts (e : Expr) :
    ∀ τ e', Typed P env.cls Γ e τ e' → Accepts env e τ e' := by
  induction e using Expr.induction with
  | dispatch receiver method args mark ihreceiver ihargs =>
    intro τ e' ht
    cases ht with
    | @call receiver receiver' σ owner m _ args' _ _ hreceiver hr hm hargs hτ =>
      have hrec := ihreceiver receiver rfl σ receiver' hreceiver
      exact h.accepts_call mark hrec.part hrec.type_eq ihargs hr hm hargs hτ
    | callThis hm hargs hτ =>
      exact h.accepts_call mark (acceptsPart_none env) rfl ihargs (.cls env.cls) hm hargs hτ
  | new typeName mark =>
    intro τ e' ht
    cases ht with
    | @new _ name _ hname =>
      have hnew : newTy env.table typeName = .ok (.cls name) :=
        h.declares.newTy_iff.mpr ⟨name, hname, rfl⟩
      have htype : typeOf env (.new typeName mark) = .cls name := by rw [typeOf, hnew]
      refine ⟨?_, htype, ?_⟩
      · rw [faults, hnew]
        rfl
      · show Expr.new typeName ⟨some (typeOf env _), _⟩ = _
        rw [htype]
        rfl
  | newArray elemName size mark ihsize =>
    intro τ e' ht
    cases ht with
    | @newArray _ _ size' τ _ hsize hname hvoid harray =>
      have hs := ihsize .int size' hsize
      have hnew : newArrayTy env.table elemName = .ok (.array τ.toTy) :=
        h.declares.newArrayTy_iff.mpr ⟨τ, hname, hvoid, harray, rfl⟩
      have htype : typeOf env (.newArray elemName size mark) = .array τ.toTy := by
        rw [typeOf, hnew]
        rfl
      refine ⟨?_, htype, ?_⟩
      · have hint := (h.valueFaults_int hs.type_eq).mpr rfl
        rw [faults, hs.faults_eq, hnew]
        exact congrArg (· ++ []) hint
      · show Expr.newArray elemName (annotate env size) ⟨some (typeOf env _), _⟩ = _
        rw [hs.tree_eq, htype]
        rfl
  | instanceOf operand typeName mark ih =>
    intro τ e' ht
    cases ht with
    | @instanceOf _ operand' _ σ τ _ hoperand hname hsub =>
      have ho := ih σ operand' hoperand
      refine ⟨?_, rfl, ?_⟩
      · rw [faults, ho.faults_eq, ho.type_eq, h.declares.namedTy_iff.mpr ⟨τ, hname, rfl⟩,
          h.declares.instanceOfFaults_iff.mpr hsub]
        rfl
      · show Expr.instanceOf (annotate env operand) typeName _ = _
        rw [ho.tree_eq]
        rfl
  | cast typeName operand mark ih =>
    intro τ e' ht
    cases ht with
    | @cast _ operand' _ σ _ _ hoperand hname hsub =>
      have ho := ih σ operand' hoperand
      have hnamed := h.declares.namedTy_iff.mpr ⟨τ, hname, rfl⟩
      have htype : typeOf env (.cast typeName operand mark) = τ.toTy := by
        rw [typeOf, hnamed]
        rfl
      refine ⟨?_, htype, ?_⟩
      · rw [faults, ho.faults_eq, ho.type_eq, hnamed, h.declares.castFaults_iff.mpr hsub]
        rfl
      · show Expr.cast typeName (annotate env operand) ⟨some (typeOf env _), _⟩ = _
        rw [ho.tree_eq, htype]
        rfl
  | assign qualifier name value mark ih =>
    intro τ e' ht
    cases ht with
    | @assign _ _ _ value' σ _ _ hvalue htarget hsub =>
      have hv := ih σ value' hvalue
      have hty := h.targetTy htarget
      have htype : typeOf env (.assign qualifier name value mark) = τ.toTy := by
        rw [typeOf, hty]
        rfl
      refine ⟨?_, htype, ?_⟩
      · rw [faults, hv.faults_eq, hty]
        exact (h.valueFaults_iff hv.type_eq).mpr hsub
      · show Expr.assign qualifier name (annotate env value) ⟨some (typeOf env _), _⟩ = _
        rw [hv.tree_eq, htype]
        rfl
  | arrayAssign qualifier name index value mark ihindex ihvalue =>
    intro τ e' ht
    cases ht with
    | @arrayAssign _ _ _ index' _ value' σ _ _ hindex hvalue htarget hsub =>
      have hi := ihindex .int index' hindex
      have hv := ihvalue σ value' hvalue
      have hty := h.targetTy htarget
      have helem : elemTy name (tyOf (env.targetTy qualifier name)) = .ok τ.toTy := by
        rw [hty]
        rfl
      have htype : typeOf env (.arrayAssign qualifier name index value mark) = τ.toTy := by
        rw [typeOf, helem]
        rfl
      refine ⟨?_, htype, ?_⟩
      · have hint := (h.valueFaults_int hi.type_eq).mpr rfl
        rw [faults, hi.faults_eq, hv.faults_eq, helem, hty]
        exact List.append_eq_nil_iff.mpr ⟨by simpa [faultsOf] using hint,
          (h.valueFaults_iff hv.type_eq).mpr hsub⟩
      · show Expr.arrayAssign qualifier name (annotate env index) (annotate env value)
          ⟨some (typeOf env _), _⟩ = _
        rw [hi.tree_eq, hv.tree_eq, htype]
        rfl
  | binary op lhs rhs mark ihl ihr =>
    intro τ e' ht
    cases ht with
    | @binary _ _ lhs' _ rhs' σ₁ σ₂ _ _ hlhs hrhs hrule =>
      have hl := ihl σ₁ lhs' hlhs
      have hr := ihr σ₂ rhs' hrhs
      have htype : typeOf env (.binary op lhs rhs mark) = τ.toTy := by
        rw [typeOf, hrule.resultTy_eq]
      refine ⟨?_, htype, ?_⟩
      · rw [faults, hl.faults_eq, hr.faults_eq, hl.type_eq, hr.type_eq,
          h.declares.binaryFaults_iff.mpr ⟨τ, hrule⟩]
        rfl
      · show Expr.binary op (annotate env lhs) (annotate env rhs) ⟨some (typeOf env _), _⟩ = _
        rw [hl.tree_eq, hr.tree_eq, htype]
        rfl
  | unary op after operand mark ih =>
    intro τ e' ht
    cases ht with
    | @unary _ _ _ operand' _ _ hoperand hrule =>
      have ho := ih τ operand' hoperand
      have htype : typeOf env (.unary op after operand mark) = τ.toTy := by
        rw [typeOf, hrule.ty_eq]
      refine ⟨?_, htype, ?_⟩
      · rw [faults, ho.faults_eq, ho.type_eq, unaryFaults_iff.mpr hrule]
        rfl
      · show Expr.unary op after (annotate env operand) ⟨some (typeOf env _), _⟩ = _
        rw [ho.tree_eq, htype]
        rfl
  | var object name mark ih =>
    intro τ e' ht
    cases ht with
    | var hname => exact accepts_ref mark (acceptsPart_none env) (h.nameTy hname)
    | @member object object' _ σ _ _ hobject hmember =>
      have ho := ih object rfl σ object' hobject
      refine accepts_ref mark ho.part ?_
      rw [typeOf?, ho.type_eq]
      exact h.declares.memberTy hmember
  | arrayElem object name index mark ihobject ihindex =>
    intro τ e' ht
    cases ht with
    | varElem hname hindex =>
      exact h.accepts_elem mark (acceptsPart_none env) (h.nameTy hname) (ihindex _ _ hindex)
    | @memberElem object object' _ _ index' σ _ _ hobject hmember hindex =>
      have ho := ihobject object rfl σ object' hobject
      refine h.accepts_elem mark ho.part ?_ (ihindex _ _ hindex)
      rw [typeOf?, ho.type_eq]
      exact h.declares.memberTy hmember
  | intLit value mark =>
    intro τ e' ht
    cases ht with
    | intLit => exact ⟨rfl, rfl, rfl⟩
  | boolLit value mark =>
    intro τ e' ht
    cases ht with
    | boolLit => exact ⟨rfl, rfl, rfl⟩
  | stringLit value mark =>
    intro τ e' ht
    cases ht with
    | stringLit => exact ⟨rfl, rfl, rfl⟩

/-! ## From checks to rules -/

theorem argsTyped {args : List Expr} {params : List Param} {bound : List ParamType}
    (ih : ∀ e ∈ args, faults env e = [] → ∃ τ e', Typed P env.cls Γ e τ e')
    (hknown : ∀ p ∈ params, ∃ τ, Names P p.typeName τ)
    (hbound : bound.map (·.typeName) = params.map (·.typeName)) (hlen : bound.length = args.length)
    (hfaults : faultsAll env args = []) {method : String} {index : Nat}
    (hargFaults : argFaults env.table method index (args.map (Typing.typed env)) bound = []) :
    ∃ args', ArgsTyped P env.cls Γ args params args' := by
  induction args generalizing params bound index with
  | nil =>
    have hnil : bound = [] := List.length_eq_zero_iff.mp hlen
    subst hnil
    have hparams : params = [] := List.map_eq_nil_iff.mp hbound.symm
    exact hparams ▸ ⟨[], .nil⟩
  | cons arg args ihargs =>
    cases bound with
    | nil => exact nomatch hlen
    | cons b bound =>
      cases params with
      | nil => exact nomatch hbound
      | cons p params =>
        obtain ⟨hb, hbound⟩ := List.cons.inj hbound
        have hname : b.typeName = p.typeName := hb
        rw [faultsAll, List.append_eq_nil_iff] at hfaults
        obtain ⟨σ, arg', harg⟩ := ih arg List.mem_cons_self hfaults.1
        obtain ⟨τ, hτ⟩ := hknown p List.mem_cons_self
        have hparam : (env.table.resolve? b.typeName).getD .untyped = τ.toTy := by
          rw [hname, h.declares.resolve?_of_names hτ, Option.getD_some]
        rw [List.map_cons, Typing.typed, argFaults, hparam, (h.accepts arg σ arg' harg).type_eq]
          at hargFaults
        split at hargFaults
        · next hmatch =>
          obtain ⟨args', hargs⟩ := ihargs (fun e he => ih e (List.mem_cons_of_mem _ he))
            (fun q hq => hknown q (List.mem_cons_of_mem _ hq)) hbound (Nat.succ.inj hlen)
            hfaults.2 hargFaults
          exact ⟨arg' :: args', .cons harg hτ (h.declares.argMatches_iff.mp hmatch) hargs⟩
        · exact nomatch hargFaults

/-- A call without a fault, on a receiver of a known type, is one that the rules admit. -/
theorem callTyped (hP : TypesKnown P) {σ : KnownTy} {method : String} {args : List Expr}
    (ih : ∀ e ∈ args, faults env e = [] → ∃ τ e', Typed P env.cls Γ e τ e')
    (hfaults : faultsAll env args = []) {span : Span}
    (hcall : callFaults env.table span method (args.map (Typing.typed env))
      (callee env.table σ.toTy method) = []) :
    ∃ owner m args' τ, Receives σ owner ∧ HasMethod P owner m ∧ m.name = method ∧
      ArgsTyped P env.cls Γ args m.params args' ∧ Names P m.returnName τ := by
  obtain ⟨owner, m, hr, hm, rfl⟩ := h.declares.exists_method_of_callFaults hcall
  obtain ⟨b, hcallee, hsig⟩ := h.declares.callee_of_hasMethod hr hm
  obtain ⟨_, hparams⟩ := Prod.mk.inj hsig
  obtain ⟨_, c, hc, hmem⟩ := hm.exists_own
  obtain ⟨τ, hτ⟩ := hP.returned hc hmem
  rw [hcallee, callFaults, List.append_eq_nil_iff, countFaults] at hcall
  have hlen : b.params.length = args.length := by
    by_contra hne
    rw [if_neg (by rwa [List.length_map])] at hcall
    exact nomatch hcall.1
  obtain ⟨args', hargs⟩ :=
    h.argsTyped ih (fun p hp => hP.param hc hmem hp) hparams hlen hfaults hcall.2
  exact ⟨owner, m, args', τ, hr, hm, rfl, hargs, hτ⟩

/-- What is accepted without a fault has a derivation. -/
theorem typed (hP : TypesKnown P) (e : Expr) :
    faults env e = [] → ∃ τ e', Typed P env.cls Γ e τ e' := by
  -- the type of a part is known from its derivation, so no test sees an unknown type
  have hknown {e e' : Expr} {τ : KnownTy} (ht : Typed P env.cls Γ e τ e') :
      typeOf env e = τ.toTy := (h.accepts e τ e' ht).type_eq
  induction e using Expr.induction with
  | dispatch receiver method args mark ihreceiver ihargs =>
    intro hf
    rw [faults, List.append_eq_nil_iff, List.append_eq_nil_iff] at hf
    obtain ⟨⟨hfr, hfa⟩, hcall⟩ := hf
    cases receiver with
    | none =>
      obtain ⟨owner, m, args', τ, hr, hm, rfl, hargs, hτ⟩ :=
        h.callTyped (σ := .cls env.cls) hP ihargs hfa hcall
      cases hr
      exact ⟨τ, _, .callThis hm hargs hτ⟩
    | some receiver =>
      obtain ⟨σ, receiver', hreceiver⟩ := ihreceiver receiver rfl hfr
      rw [typeOf?, Option.getD_some, hknown hreceiver] at hcall
      obtain ⟨owner, m, args', τ, hr, hm, rfl, hargs, hτ⟩ := h.callTyped hP ihargs hfa hcall
      exact ⟨τ, _, .call hreceiver hr hm hargs hτ⟩
  | new typeName mark =>
    intro hf
    obtain ⟨ty, hty⟩ := faultsOf_eq_nil.mp hf
    obtain ⟨name, hname, _⟩ := h.declares.newTy_iff.mp hty
    exact ⟨.cls name, _, .new hname⟩
  | newArray elemName size mark ihsize =>
    intro hf
    rw [faults, List.append_eq_nil_iff, List.append_eq_nil_iff] at hf
    obtain ⟨⟨hfs, hint⟩, hnew⟩ := hf
    obtain ⟨σ, size', hsize⟩ := ihsize hfs
    obtain rfl := (h.valueFaults_int (hknown hsize)).mp hint
    obtain ⟨ty, hty⟩ := faultsOf_eq_nil.mp hnew
    obtain ⟨τ, hτ, hvoid, harray, _⟩ := h.declares.newArrayTy_iff.mp hty
    exact ⟨.array τ, _, .newArray hsize hτ hvoid harray⟩
  | instanceOf operand typeName mark ih =>
    intro hf
    rw [faults, List.append_eq_nil_iff] at hf
    obtain ⟨σ, operand', hoperand⟩ := ih hf.1
    cases hnamed : namedTy env.table typeName with
    | error problem =>
      rw [hnamed] at hf
      exact nomatch hf.2
    | ok ty =>
      obtain ⟨τ, hτ, rfl⟩ := h.declares.namedTy_iff.mp hnamed
      rw [hnamed, hknown hoperand] at hf
      exact ⟨.boolean, _, .instanceOf hoperand hτ (h.declares.instanceOfFaults_iff.mp hf.2)⟩
  | cast typeName operand mark ih =>
    intro hf
    rw [faults, List.append_eq_nil_iff] at hf
    obtain ⟨σ, operand', hoperand⟩ := ih hf.1
    cases hnamed : namedTy env.table typeName with
    | error problem =>
      rw [hnamed] at hf
      exact nomatch hf.2
    | ok ty =>
      obtain ⟨τ, hτ, rfl⟩ := h.declares.namedTy_iff.mp hnamed
      rw [hnamed, hknown hoperand] at hf
      exact ⟨τ, _, .cast hoperand hτ (h.declares.castFaults_iff.mp hf.2)⟩
  | assign qualifier name value mark ih =>
    intro hf
    rw [faults, List.append_eq_nil_iff, List.append_eq_nil_iff] at hf
    obtain ⟨⟨hfv, htarget⟩, hvalue⟩ := hf
    obtain ⟨σ, value', hvalueTyped⟩ := ih hfv
    obtain ⟨ty, hty⟩ := faultsOf_eq_nil.mp htarget
    obtain ⟨τ, hτ⟩ := h.targetTyped hP hty
    rw [h.targetTy hτ] at hvalue
    exact ⟨τ, _, .assign hvalueTyped hτ ((h.valueFaults_iff (hknown hvalueTyped)).mp hvalue)⟩
  | arrayAssign qualifier name index value mark ihindex ihvalue =>
    intro hf
    simp only [faults, List.append_eq_nil_iff] at hf
    obtain ⟨⟨⟨⟨⟨hfi, hfv⟩, hint⟩, htarget⟩, helem⟩, hvalue⟩ := hf
    obtain ⟨ρ, index', hindex⟩ := ihindex hfi
    obtain rfl := (h.valueFaults_int (hknown hindex)).mp hint
    obtain ⟨σ, value', hvalueTyped⟩ := ihvalue hfv
    obtain ⟨ty, hty⟩ := faultsOf_eq_nil.mp htarget
    obtain ⟨ω, hω⟩ := h.targetTyped hP hty
    rw [h.targetTy hω] at helem hvalue
    obtain ⟨elem, helem⟩ := faultsOf_eq_nil.mp helem
    obtain ⟨τ, rfl, _⟩ := elemTy_iff.mp helem
    exact ⟨τ, _, .arrayAssign hindex hvalueTyped hω
      ((h.valueFaults_iff (hknown hvalueTyped)).mp hvalue)⟩
  | binary op lhs rhs mark ihl ihr =>
    intro hf
    rw [faults, List.append_eq_nil_iff, List.append_eq_nil_iff] at hf
    obtain ⟨⟨hfl, hfr⟩, hop⟩ := hf
    obtain ⟨σ, lhs', hlhs⟩ := ihl hfl
    obtain ⟨τ, rhs', hrhs⟩ := ihr hfr
    rw [hknown hlhs, hknown hrhs] at hop
    obtain ⟨ρ, hrule⟩ := h.declares.binaryFaults_iff.mp hop
    exact ⟨ρ, _, .binary hlhs hrhs hrule⟩
  | unary op after operand mark ih =>
    intro hf
    rw [faults, List.append_eq_nil_iff] at hf
    obtain ⟨σ, operand', hoperand⟩ := ih hf.1
    rw [hknown hoperand] at hf
    exact ⟨σ, _, .unary hoperand (unaryFaults_iff.mp hf.2)⟩
  | var object name mark ih =>
    intro hf
    rw [faults, List.append_eq_nil_iff] at hf
    obtain ⟨hfo, href⟩ := hf
    obtain ⟨ty, hty⟩ := faultsOf_eq_nil.mp href
    cases object with
    | none =>
      obtain ⟨τ, hτ⟩ := h.nameTyped hP hty
      exact ⟨τ, _, .var hτ⟩
    | some object =>
      obtain ⟨σ, object', hobject⟩ := ih object rfl hfo
      rw [typeOf?, hknown hobject] at hty
      obtain ⟨τ, hτ⟩ := h.declares.memberTyped hP hty
      exact ⟨τ, _, .member hobject hτ⟩
  | arrayElem object name index mark ihobject ihindex =>
    intro hf
    simp only [faults, List.append_eq_nil_iff] at hf
    obtain ⟨⟨⟨⟨hfo, hfi⟩, hint⟩, href⟩, helem⟩ := hf
    obtain ⟨ρ, index', hindex⟩ := ihindex hfi
    obtain rfl := (h.valueFaults_int (hknown hindex)).mp hint
    obtain ⟨ty, hty⟩ := faultsOf_eq_nil.mp href
    obtain ⟨elem, helem⟩ := faultsOf_eq_nil.mp helem
    cases object with
    | none =>
      obtain ⟨ω, hω⟩ := h.nameTyped hP hty
      have hname : env.refTy (typeOf? env none) name = .ok ω.toTy := h.nameTy hω
      rw [hname] at helem
      obtain ⟨τ, rfl, _⟩ := elemTy_iff.mp helem
      exact ⟨τ, _, .varElem hω hindex⟩
    | some object =>
      obtain ⟨σ, object', hobject⟩ := ihobject object rfl hfo
      rw [typeOf?, hknown hobject] at hty helem
      obtain ⟨ω, hω⟩ := h.declares.memberTyped hP hty
      have hmember : env.refTy (some σ.toTy) name = .ok ω.toTy := h.declares.memberTy hω
      rw [hmember] at helem
      obtain ⟨τ, rfl, _⟩ := elemTy_iff.mp helem
      exact ⟨τ, _, .memberElem hobject hω hindex⟩
  | intLit value mark => exact fun _ => ⟨.int, _, .intLit⟩
  | boolLit value mark => exact fun _ => ⟨.boolean, _, .boolLit⟩
  | stringLit value mark => exact fun _ => ⟨.cls stringName, _, .stringLit⟩

/-- The checker is a function, so what it agrees with is unique. -/
theorem typed_unique {e e₁ e₂ : Expr} {τ₁ τ₂ : KnownTy} (h₁ : Typed P env.cls Γ e τ₁ e₁)
    (h₂ : Typed P env.cls Γ e τ₂ e₂) : τ₁ = τ₂ ∧ e₁ = e₂ := by
  have ha₁ := h.accepts e τ₁ e₁ h₁
  have ha₂ := h.accepts e τ₂ e₂ h₂
  exact ⟨KnownTy.toTy_injective (ha₁.type_eq.symm.trans ha₂.type_eq),
    ha₁.tree_eq.symm.trans ha₂.tree_eq⟩

end Located

/-! ## Noted types -/

/-- Every expression of the tree has a known type noted on it. -/
def Noted (exprs : List Expr) : Prop := ∀ e ∈ exprs, ∃ τ : KnownTy, e.ty? = some τ.toTy

theorem noted_nil : Noted [] := fun _ he => absurd he List.not_mem_nil

theorem noted_append {es es' : List Expr} : Noted (es ++ es') ↔ Noted es ∧ Noted es' := by
  simp only [Noted, List.mem_append, or_imp, forall_and]

/-- A node is noted with its parts if its own note is known. -/
theorem Noted.node {e : Expr} {parts : List Expr} (hparts : Noted parts) {τ : KnownTy}
    (hty : e.ty? = some τ.toTy) : Noted (e :: parts) := by
  intro n hn
  rcases List.mem_cons.mp hn with rfl | hn
  · exact ⟨τ, hty⟩
  · exact hparts n hn

namespace Rules

variable {P : List ClassDecl} {cls : String} {Γ : List (Frame KnownTy)}

theorem ArgsTyped.known {args args' : List Expr} {params : List Param}
    (ih : ∀ e ∈ args, ∀ τ e', Typed P cls Γ e τ e' → Noted e'.nodes)
    (h : ArgsTyped P cls Γ args params args') : Noted (Expr.nodesAll args') := by
  induction args generalizing params args' with
  | nil =>
    cases h with
    | nil => exact noted_nil
  | cons arg args ihargs =>
    cases h with
    | cons harg _ _ hrest =>
      refine noted_append.mpr ⟨ih arg List.mem_cons_self _ _ harg, ?_⟩
      exact ihargs (fun e he => ih e (List.mem_cons_of_mem _ he)) hrest

theorem Typed.known (e : Expr) : ∀ τ e', Typed P cls Γ e τ e' → Noted e'.nodes := by
  induction e using Expr.induction with
  | dispatch receiver method args mark ihreceiver ihargs =>
    intro τ e' h
    cases h with
    | call hreceiver _ _ hargs _ =>
      exact .node (noted_append.mpr ⟨ihreceiver _ rfl _ _ hreceiver, hargs.known ihargs⟩) rfl
    | callThis _ hargs _ => exact .node (noted_append.mpr ⟨noted_nil, hargs.known ihargs⟩) rfl
  | new typeName mark =>
    intro τ e' h
    cases h with
    | new _ => exact .node noted_nil rfl
  | newArray elemName size mark ih =>
    intro τ e' h
    cases h with
    | newArray hsize _ _ _ => exact .node (ih _ _ hsize) rfl
  | instanceOf operand typeName mark ih =>
    intro τ e' h
    cases h with
    | instanceOf hoperand _ _ => exact .node (τ := .boolean) (ih _ _ hoperand) rfl
  | cast typeName operand mark ih =>
    intro τ e' h
    cases h with
    | cast hoperand _ _ => exact .node (ih _ _ hoperand) rfl
  | assign qualifier name value mark ih =>
    intro τ e' h
    cases h with
    | assign hvalue _ _ => exact .node (ih _ _ hvalue) rfl
  | arrayAssign qualifier name index value mark ihindex ihvalue =>
    intro τ e' h
    cases h with
    | arrayAssign hindex hvalue _ _ =>
      exact .node (noted_append.mpr ⟨ihindex _ _ hindex, ihvalue _ _ hvalue⟩) rfl
  | binary op lhs rhs mark ihl ihr =>
    intro τ e' h
    cases h with
    | binary hlhs hrhs _ => exact .node (noted_append.mpr ⟨ihl _ _ hlhs, ihr _ _ hrhs⟩) rfl
  | unary op after operand mark ih =>
    intro τ e' h
    cases h with
    | unary hoperand _ => exact .node (ih _ _ hoperand) rfl
  | var object name mark ih =>
    intro τ e' h
    cases h with
    | var _ => exact .node noted_nil rfl
    | member hobject _ => exact .node (ih _ rfl _ _ hobject) rfl
  | arrayElem object name index mark ihobject ihindex =>
    intro τ e' h
    cases h with
    | varElem _ hindex => exact .node (noted_append.mpr ⟨noted_nil, ihindex _ _ hindex⟩) rfl
    | memberElem hobject _ hindex =>
      exact .node (noted_append.mpr ⟨ihobject _ rfl _ _ hobject, ihindex _ _ hindex⟩) rfl
  | intLit value mark =>
    intro τ e' h
    cases h with
    | intLit => exact .node (τ := .int) noted_nil rfl
  | boolLit value mark =>
    intro τ e' h
    cases h with
    | boolLit => exact .node (τ := .boolean) noted_nil rfl
  | stringLit value mark =>
    intro τ e' h
    cases h with
    | stringLit => exact .node (τ := .cls stringName) noted_nil rfl

end Rules

end ClassCompiler
