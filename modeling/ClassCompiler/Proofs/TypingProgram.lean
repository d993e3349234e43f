import ClassCompiler.Proofs.TypingStmt
import ClassCompiler.Typing.Class

/-!
# Checking programs

Every member of every class is checked from the same table. The rules for the members are followed
exactly by the members without a fault, once all types that the program declares have a meaning; and
they have one if all members follow the rules, or if none has a fault.

Results:
1. `Resident.overrideFaults_iff`: what is reported of an overriding method.
2. `Resident.complete_feature`, `Resident.sound_feature`: the rules admit exactly the members that
   have no fault.
3. `classes_checkClasses`, `diagnostics_checkClasses`: to check a program is to check all members.
4. `checkClasses_sound_and_complete`: a clean program is checked without a report if and only if it
   follows the rules, and then the types noted are those of the rules.
-/

namespace ClassCompiler

open Rules Typing

/-! ## Parameters -/

/-- The scope that the parameters of a method are bound in. -/
theorem matches_start : Matches ({} : Scope Local).enter [[]] := ⟨rfl, rfl⟩

section

variable {P : List ClassDecl} {h : Home} (hd : Declares P h.table)
include hd

theorem complete_params {locals : Scope Local} {frame frame' : Frame KnownTy}
    {Γ : List (Frame KnownTy)} {params : List Param} (hm : Matches locals (frame :: Γ))
    (ht : ParamsTyped P frame params frame') :
    (bindParams h locals params).2 = [] ∧
      Matches (bindParams h locals params).1 (frame' :: Γ) := by
  induction ht generalizing locals with
  | nil => exact ⟨rfl, hm⟩
  | @cons frame frame' p params τ hτ hvoid hres hfresh _ ih =>
    have hdeclared : declaredTy h.table .param p.name p.typeName = .ok τ.toTy :=
      hd.declaredTy_iff.mpr ⟨τ, hτ, fun _ => hvoid, rfl⟩
    obtain ⟨hbound, hmatches⟩ := bindLocal_iff hm h.file .param p.name (l := ⟨_, p.span⟩) rfl
    have hnil := hbound.mpr ⟨hres, hfresh⟩
    obtain ⟨hrest, hmatches⟩ := ih (hmatches hnil)
    simp only [bindParams, hdeclared]
    refine ⟨?_, hmatches⟩
    rw [faultsOf, tyOf, hnil]
    exact hrest

theorem sound_params {locals : Scope Local} {frame : Frame KnownTy} {Γ : List (Frame KnownTy)}
    {params : List Param} (hm : Matches locals (frame :: Γ))
    (hf : (bindParams h locals params).2 = []) : ∃ frame', ParamsTyped P frame params frame' := by
  induction params generalizing locals frame with
  | nil => exact ⟨frame, .nil⟩
  | cons p params ih =>
    simp only [bindParams, List.append_eq_nil_iff] at hf
    obtain ⟨⟨hdeclared, hbound⟩, hrest⟩ := hf
    obtain ⟨ty, hty⟩ := faultsOf_eq_nil.mp hdeclared
    obtain ⟨τ, hτ, hvoid, rfl⟩ := hd.declaredTy_iff.mp hty
    rw [hty, tyOf] at hbound hrest
    obtain ⟨hiff, hmatches⟩ := bindLocal_iff hm h.file .param p.name (l := ⟨_, p.span⟩) rfl
    obtain ⟨hres, hfresh⟩ := hiff.mp hbound
    obtain ⟨frame', hparams⟩ := ih (hmatches hbound) hrest
    exact ⟨frame', .cons hτ (hvoid (by simp)) hres hfresh hparams⟩

end

/-- Each parameter has a type. -/
theorem Rules.ParamsTyped.exists_names {P : List ClassDecl} {frame frame' : Frame KnownTy}
    {params : List Param} (h : ParamsTyped P frame params frame') {p : Param} (hp : p ∈ params) :
    ∃ τ, Names P p.typeName τ := by
  induction h with
  | nil => exact absurd hp List.not_mem_nil
  | cons hτ _ _ _ _ ih =>
    rcases List.mem_cons.mp hp with rfl | hp
    · exact ⟨_, hτ⟩
    · exact ih hp

/-! ## Overriding -/

theorem ClassTable.sameSignature_iff {t : ClassTable} {a b : MethodBinding} :
    t.sameSignature a b = true ↔ t.sameTypeName a.returnName b.returnName = true ∧
      List.Forall₂ (fun x y => t.sameTypeName x y = true) (a.params.map (·.typeName))
        (b.params.map (·.typeName)) := by
  rw [sameSignature, Bool.and_eq_true, Bool.and_eq_true, and_assoc, decide_eq_true_eq,
    List.forall₂_map_left_iff, List.forall₂_map_right_iff, List.forall₂_iff_zip, List.all_eq_true]
  refine and_congr_right fun _ => and_congr_right fun _ => ?_
  exact ⟨fun hzip x y hxy => hzip (x, y) hxy, fun hzip p hp => hzip hp⟩

namespace Declares

variable {P : List ClassDecl} {t : ClassTable} (h : Declares P t)
include h

theorem sameTypeName_iff {a b : String} (ha : ∃ τ, Names P a τ) (hb : ∃ τ, Names P b τ) :
    t.sameTypeName a b = true ↔ SameType P a b := by
  obtain ⟨σ, hσ⟩ := ha
  obtain ⟨τ, hτ⟩ := hb
  rw [ClassTable.sameTypeName, h.resolve?_of_names hσ, h.resolve?_of_names hτ]
  simp only [decide_eq_true_eq, KnownTy.toTy_inj]
  constructor
  · rintro rfl
    exact ⟨σ, hσ, hτ⟩
  · rintro ⟨ω, hσω, hτω⟩
    exact (h.names_unique hσ hσω).trans (h.names_unique hτω hτ)

/-- The bound signatures agree if the declared ones do. -/
theorem sameSignature_iff (hP : TypesKnown P) {c d : ClassDecl} (hc : c ∈ P) (hd : d ∈ P)
    {m n : Method} (hm : m ∈ c.methods) (hn : n ∈ d.methods) {a b : MethodBinding}
    (ha : a.signature = m.signature) (hb : b.signature = n.signature) :
    t.sameSignature a b = true ↔ SameSignature P m n := by
  obtain ⟨hareturn, haparams⟩ := Prod.mk.inj ha
  obtain ⟨hbreturn, hbparams⟩ := Prod.mk.inj hb
  rw [ClassTable.sameSignature_iff, hareturn, hbreturn, haparams, hbparams, SameSignature,
    h.sameTypeName_iff (hP.returned hc hm) (hP.returned hd hn), List.forall₂_map_left_iff,
    List.forall₂_map_right_iff, List.forall₂_iff_zip, List.forall₂_iff_zip]
  refine and_congr_right fun _ => and_congr_right fun _ => ?_
  constructor
  · intro hzip p q hpq
    obtain ⟨hp, hq⟩ := List.of_mem_zip hpq
    exact (h.sameTypeName_iff (hP.param hc hm hp) (hP.param hd hn hq)).mp (hzip hpq)
  · intro hzip p q hpq
    obtain ⟨hp, hq⟩ := List.of_mem_zip hpq
    exact (h.sameTypeName_iff (hP.param hc hm hp) (hP.param hd hn hq)).mpr (hzip hpq)

end Declares

theorem Holds.peek_methods {c : ClassDecl} {e : ClassEntry} (h : Holds c e) {m : Method}
    (hm : m ∈ c.methods) : ∃ b, e.methods.peek? m.name = some b ∧ b.signature = m.signature := by
  have hlookup := h.lookup_methods m.name
  rw [find?_of_mem_of_nodup h.nodup_methods hm] at hlookup
  obtain ⟨b, hb, hsig⟩ := Option.map_eq_some_iff.mp hlookup
  refine ⟨b, ?_, hsig⟩
  obtain ⟨fields, methods, hframed, _, _⟩ := h.frames
  rw [hframed.methods_eq, Scope.lookup?_single] at hb
  rw [hframed.methods_eq]
  exact hb

namespace Resident

variable {P : List ClassDecl} {h : Home} (hr : Resident P h.table h.cls) (hP : TypesKnown P)
  {c : ClassDecl} (hc : c ∈ P) (hcls : c.name = h.cls)
include hr hP hc hcls

/-- An overriding method is reported unless it has the signature of what it overrides. -/
theorem overrideFaults_iff {m : Method} (hm : m ∈ c.methods) :
    overrideFaults h m = [] ↔
      ∀ parent inherited, Extends P h.cls parent → HasMethod P parent inherited →
        inherited.name = m.name → SameSignature P m inherited := by
  have hd := hr.declares
  obtain ⟨e, he, hholds⟩ := hd.entry c hc
  rw [hcls] at he
  obtain ⟨parent, hext⟩ := hr.home
  have hlink := (hd.parent h.cls parent).mpr hext
  have hparent : e.parent = some parent := by
    rwa [ClassTable.parent?, he, Option.bind_some] at hlink
  have hunique (p : String) (hp : Extends P h.cls p) : p = parent :=
    Option.some.inj (((hd.parent h.cls p).mpr hp).symm.trans hlink)
  have hlookup (n : Method) (hn : HasMethod P parent n) (hname : n.name = m.name) :=
    (hd.lookupMethod?_iff parent m.name n.signature).mpr ⟨n, hn, hname, rfl⟩
  obtain ⟨own, hown, hsig⟩ := hholds.peek_methods hm
  unfold overrideFaults
  simp only [he, hparent, Option.bind_some, hown]
  cases hfound : h.table.lookupMethod? parent m.name with
  | none =>
    refine ⟨fun _ p n hp hn hname => ?_, fun _ => rfl⟩
    obtain rfl := hunique p hp
    have hnone := hlookup n hn hname
    rw [hfound] at hnone
    cases hnone
  | some found =>
    obtain ⟨definer, overridden⟩ := found
    -- all methods of that name which the parent has share the signature of the one found
    have hsame {n : Method} (hn : HasMethod P parent n) (hname : n.name = m.name) :
        h.table.sameSignature own overridden = true ↔ SameSignature P m n := by
      have hsome := hlookup n hn hname
      rw [hfound] at hsome
      obtain ⟨_, d, hdmem, hnmem⟩ := hn.exists_own
      exact hd.sameSignature_iff hP hc hdmem hm hnmem hsig (Option.some.inj hsome)
    simp only [ite_fault_eq_nil]
    constructor
    · intro hagree p n hp hn hname
      obtain rfl := hunique p hp
      exact (hsame hn hname).mp hagree
    · intro hall
      obtain ⟨n, hn, hname, _⟩ :=
        (hd.lookupMethod?_iff parent m.name overridden.signature).mp (by rw [hfound]; rfl)
      exact (hsame hn hname).mpr (hall parent n hext hn hname)

/-! ## Members -/

/-- What the rules admit has no fault, and the types noted are those of the rules. -/
theorem complete_feature {f f' : Feature} (hf : f ∈ c.features)
    (ht : FeatureTyped P h.cls f f') : checkFeature h f = (f', []) := by
  have hd := hr.declares
  cases ht with
  | @field f τ init' hτ hvoid hinit =>
    have hdeclared : declaredTy h.table .field f.name f.typeName = .ok τ.toTy :=
      hd.declaredTy_iff.mpr ⟨τ, hτ, fun _ => hvoid, rfl⟩
    have hloc : Located P [] { table := h.table, cls := h.cls, locals := {} } := ⟨hr, rfl, rfl⟩
    obtain ⟨hfaults, htree⟩ := (hloc.decides_fits hP τ).accepts_option hinit
    rw [← initFaults_eq] at hfaults
    simp only [checkFeature, checkField, hdeclared]
    rw [faultsOf, tyOf, hfaults, htree]
    rfl
  | @method m ρ frame Γ body' hρ hoverride hparams hbody =>
    have hdeclared : declaredTy h.table .method m.name m.returnName = .ok ρ.toTy :=
      hd.declaredTy_iff.mpr ⟨ρ, hρ, fun hkind => absurd rfl hkind, rfl⟩
    have hoverrideFaults :=
      (hr.overrideFaults_iff hP hc hcls (ClassDecl.mem_methods.mpr hf)).mpr hoverride
    obtain ⟨hparamFaults, hmatches⟩ := complete_params hd matches_start hparams
    have hwithin : Within P ρ
        { table := h.table, cls := h.cls, file := h.file, returnTy := ρ.toTy } := ⟨hr, hP, rfl⟩
    have hloops : false = true ↔ (0 : Nat) ≠ 0 := by simp
    have ha := Within.complete_stmts (fun s _ => hwithin.completeOn s) hloops hmatches hbody
    simp only [checkFeature, checkMethod, hdeclared]
    rw [faultsOf, tyOf, hoverrideFaults, hparamFaults, ha.faults_eq, ha.tree_eq]
    rfl

/-- What has no fault is admitted by the rules. -/
theorem sound_feature {f : Feature} (hf : f ∈ c.features) (hfaults : (checkFeature h f).2 = []) :
    FeatureTyped P h.cls f (checkFeature h f).1 := by
  have hd := hr.declares
  -- by completeness it is enough to find some derivation
  suffices ∃ f', FeatureTyped P h.cls f f' by
    obtain ⟨f', ht⟩ := this
    rw [hr.complete_feature hP hc hcls hf ht]
    exact ht
  cases f with
  | field f =>
    simp only [checkFeature, checkField, List.append_eq_nil_iff] at hfaults
    obtain ⟨ty, hty⟩ := faultsOf_eq_nil.mp hfaults.1
    obtain ⟨τ, hτ, hvoid, rfl⟩ := hd.declaredTy_iff.mp hty
    have hinit := hfaults.2
    rw [hty, tyOf, initFaults_eq] at hinit
    have hloc : Located P [] { table := h.table, cls := h.cls, locals := {} } := ⟨hr, rfl, rfl⟩
    obtain ⟨init', hinit⟩ := (hloc.decides_fits hP τ).related_option hinit
    exact ⟨_, .field hτ (hvoid (by simp)) hinit⟩
  | method m =>
    simp only [checkFeature, checkMethod, List.append_eq_nil_iff] at hfaults
    obtain ⟨⟨⟨hdeclared, hoverride⟩, hparams⟩, hbody⟩ := hfaults
    obtain ⟨ty, hty⟩ := faultsOf_eq_nil.mp hdeclared
    obtain ⟨ρ, hρ, _, rfl⟩ := hd.declaredTy_iff.mp hty
    rw [hty, tyOf] at hbody
    have hoverride :=
      (hr.overrideFaults_iff hP hc hcls (ClassDecl.mem_methods.mpr hf)).mp hoverride
    obtain ⟨frame, hparams⟩ := sound_params hd matches_start hparams
    obtain ⟨_, hmatches⟩ := complete_params hd matches_start hparams
    have hwithin : Within P ρ
        { table := h.table, cls := h.cls, file := h.file, returnTy := ρ.toTy } := ⟨hr, hP, rfl⟩
    have hloops : false = true ↔ (0 : Nat) ≠ 0 := by simp
    obtain ⟨Γ, body', hbody⟩ :=
      hwithin.sound_stmts (fun s _ => hwithin.soundOn s) hloops hmatches hbody
    exact ⟨_, .method hρ hoverride hparams hbody⟩

end Resident

/-! ## Declared types -/

theorem Rules.FeatureTyped.exists_names {P : List ClassDecl} {cls : String} {f f' : Feature}
    (h : FeatureTyped P cls f f') {text : String} (htext : text ∈ f.typeNames) :
    ∃ τ, Names P text τ := by
  cases h with
  | field hτ _ _ =>
    obtain rfl := List.mem_singleton.mp htext
    exact ⟨_, hτ⟩
  | method hρ _ hparams _ =>
    rcases List.mem_cons.mp htext with rfl | htext
    · exact ⟨_, hρ⟩
    · obtain ⟨p, hp, rfl⟩ := List.mem_map.mp htext
      exact hparams.exists_names hp

/-- A type without a meaning is reported where it is declared. -/
theorem Declares.exists_names_of_checkFeature {P : List ClassDecl} {h : Home}
    (hd : Declares P h.table) {f : Feature} (hf : (checkFeature h f).2 = []) {text : String}
    (htext : text ∈ f.typeNames) : ∃ τ, Names P text τ := by
  cases f with
  | field f =>
    obtain rfl := List.mem_singleton.mp htext
    obtain ⟨ty, hty⟩ := faultsOf_eq_nil.mp (List.append_eq_nil_iff.mp hf).1
    obtain ⟨τ, hτ, _⟩ := hd.declaredTy_iff.mp hty
    exact ⟨τ, hτ⟩
  | method m =>
    simp only [checkFeature, checkMethod, List.append_eq_nil_iff] at hf
    obtain ⟨⟨⟨hdeclared, _⟩, hparams⟩, _⟩ := hf
    rcases List.mem_cons.mp htext with rfl | htext
    · obtain ⟨ty, hty⟩ := faultsOf_eq_nil.mp hdeclared
      obtain ⟨τ, hτ, _⟩ := hd.declaredTy_iff.mp hty
      exact ⟨τ, hτ⟩
    · obtain ⟨p, hp, rfl⟩ := List.mem_map.mp htext
      obtain ⟨frame, hparams⟩ := sound_params hd matches_start hparams
      exact hparams.exists_names hp

/-- The language's own classes declare types of the language only. -/
theorem exists_names_builtin (classes : List ClassDecl) {c : ClassDecl} (hc : c ∈ builtinClasses)
    {f : Feature} (hf : f ∈ c.features) {text : String} (htext : text ∈ f.typeNames) :
    ∃ τ, Names (builtinClasses ++ classes) text τ := by
  have htexts : ∀ c ∈ builtinClasses, ∀ f ∈ c.features, ∀ text ∈ f.typeNames,
      text = "int" ∨ text = "boolean" ∨ text = "void" ∨
        TypeName.parse text = .named text ∧ text ∈ builtinClasses.map (·.name) := by decide
  rcases htexts c hc f hf text htext with rfl | rfl | rfl | ⟨hparse, hname⟩
  · exact ⟨.int, .simple .int⟩
  · exact ⟨.boolean, .simple .boolean⟩
  · exact ⟨.void, .simple .void⟩
  · obtain ⟨d, hd, hname⟩ := List.mem_map.mp hname
    exact ⟨.cls text, .simple (hparse ▸ .cls ⟨d, List.mem_append_left _ hd, hname⟩)⟩

theorem typesKnown_of_user {classes : List ClassDecl}
    (h : ∀ c ∈ classes, ∀ f ∈ c.features, ∀ text ∈ f.typeNames,
      ∃ τ, Names (builtinClasses ++ classes) text τ) : TypesKnown (builtinClasses ++ classes) := by
  intro c hc f hf text htext
  rcases List.mem_append.mp hc with hc | hc
  · exact exists_names_builtin classes hc hf htext
  · exact h c hc f hf text htext

/-! ## Programs -/

namespace Typing

def homeOf (t : ClassTable) (c : ClassDecl) : Home := { table := t, cls := c.name, file := c.file }

/-- The class with every member replaced by its checked form. -/
def checkedClass (t : ClassTable) (c : ClassDecl) : ClassDecl :=
  { c with features := c.features.map fun f => (checkFeature (homeOf t c) f).1 }

/-- A check that nobody cancels goes through all classes. -/
theorem checkClasses_none (t : ClassTable) (reported index : Nat) (classes : List ClassDecl) :
    checkClasses t none reported index classes =
      { classes := (classes.zipIdx index).map fun (c, i) => (checkClass t i c).1
        diagnostics := (classes.zipIdx index).flatMap fun (c, i) => (checkClass t i c).2
        finished := true } := by
  induction classes generalizing reported index with
  | nil => rfl
  | cons c rest ih =>
    have hgo : cancelled none reported = false := rfl
    rw [checkClasses, hgo, if_neg Bool.false_ne_true]
    simp only [ih]
    rfl

/-- The class is the registered definition of its name, so that it is checked. -/
def IsChecked (t : ClassTable) (index : Nat) (c : ClassDecl) : Prop :=
  (t.find? c.name).any (·.origin = .user index) = true

theorem checkClass_of_isChecked {t : ClassTable} {index : Nat} {c : ClassDecl}
    (h : IsChecked t index c) :
    checkClass t index c = (checkedClass t c,
      (c.features.flatMap fun f => (checkFeature (homeOf t c) f).2).map
        (Fault.diagnostic c.file)) := by
  unfold IsChecked at h
  rw [checkClass, if_pos h]
  simp only [List.map_map, List.flatMap_map]
  rfl

/-- Every class is the registered definition of its name. -/
def Owned (t : ClassTable) (classes : List ClassDecl) : Prop :=
  ∀ index c, classes[index]? = some c → (t.find? c.name).any (·.origin = .user index) = true

theorem owned_of_clean {classes : List ClassDecl} (hbuild : (Hierarchy.build classes).2 = []) :
    Owned (Members.bind classes (Hierarchy.build classes).1).1 classes := by
  intro index c hc
  obtain ⟨e, he, horigin⟩ := Hierarchy.find?_user hbuild hc
  rw [Members.find?_bind, he, Option.map_some, Option.any_some, decide_eq_true_eq, ← horigin]
  exact (congrArg ClassEntry.origin (Members.bare_bindEntry classes e) :)

section

variable {t : ClassTable} {classes : List ClassDecl} (h : Owned t classes)
include h

theorem classes_checkClasses :
    (checkClasses t none 0 0 classes).classes = classes.map (checkedClass t) := by
  rw [checkClasses_none]
  calc
    _ = (classes.zipIdx 0).map (checkedClass t ∘ Prod.fst) :=
      List.map_congr_left fun _ hc =>
        congrArg Prod.fst (checkClass_of_isChecked (h _ _ (List.mem_zipIdx_iff_getElem?.mp hc)))
    _ = classes.map (checkedClass t) := by rw [← List.map_map, List.zipIdx_map_fst]

theorem diagnostics_checkClasses :
    (checkClasses t none 0 0 classes).diagnostics = [] ↔
      ∀ c ∈ classes, ∀ f ∈ c.features, (checkFeature (homeOf t c) f).2 = [] := by
  have hclass {index : Nat} {c : ClassDecl} (hc : classes[index]? = some c) :
      (checkClass t index c).2 = [] ↔ ∀ f ∈ c.features, (checkFeature (homeOf t c) f).2 = [] := by
    rw [checkClass_of_isChecked (h index c hc), List.map_eq_nil_iff, List.flatMap_eq_nil_iff]
  rw [checkClasses_none, List.flatMap_eq_nil_iff]
  constructor
  · intro hnil c hc
    obtain ⟨index, hget⟩ := List.getElem?_of_mem hc
    exact (hclass hget).mp (hnil (c, index) (List.mem_zipIdx_iff_getElem?.mpr hget))
  · rintro hnil ⟨c, index⟩ hc
    have hget := List.mem_zipIdx_iff_getElem?.mp hc
    exact (hclass hget).mpr (hnil c (List.mem_of_getElem? hget))

end

end Typing

/-! ## Noted types -/

theorem Rules.FeatureTyped.known {P : List ClassDecl} {cls : String} {f f' : Feature}
    (h : FeatureTyped P cls f f') : Noted (f'.nodes.filterMap Node.expr?) := by
  cases h with
  | @field f τ init' _ _ hinit =>
    show Noted ((Node.ofExpr? init').filterMap Node.expr?)
    rw [filterMap_ofExpr?]
    exact noted_option (fun _ _ => Fits.known) hinit
  | @method m ρ frame Γ body' _ _ _ hbody =>
    have hparams : (m.params.map Node.param).filterMap Node.expr? = [] := by
      rw [List.filterMap_map]
      exact List.filterMap_eq_nil_iff.mpr fun p _ => rfl
    show Noted ((m.params.map Node.param ++ Stmt.nodesAll body').filterMap Node.expr?)
    rw [List.filterMap_append, hparams, List.nil_append]
    exact hbody.known fun s _ => StmtTyped.known s

/-- The expressions of a program are those of its members. -/
theorem noted_exprs {p : Program}
    (h : ∀ c ∈ p.classes, ∀ f ∈ c.features, Noted (f.nodes.filterMap Node.expr?)) :
    Noted p.exprs := by
  intro e he
  obtain ⟨node, hnode, hexpr⟩ := List.mem_filterMap.mp he
  rcases List.mem_cons.mp hnode with rfl | hnode
  · exact nomatch hexpr
  obtain ⟨c, hc, hnode⟩ := List.mem_flatMap.mp hnode
  rcases List.mem_cons.mp hnode with rfl | hnode
  · exact nomatch hexpr
  obtain ⟨f, hf, hnode⟩ := List.mem_flatMap.mp hnode
  exact h c hc f hf e (List.mem_filterMap.mpr ⟨node, hnode, hexpr⟩)

/-! ## Clean programs -/

theorem map_eq_of_forall₂ {α β : Type} {R : α → β → Prop} {f : α → β} {as : List α} {bs : List β}
    (hf : ∀ a ∈ as, ∀ b, R a b → f a = b) (h : List.Forall₂ R as bs) : as.map f = bs := by
  induction h with
  | nil => rfl
  | cons hab _ ih =>
    rw [List.map_cons, hf _ List.mem_cons_self _ hab]
    exact congrArg _ (ih fun a ha => hf a (List.mem_cons_of_mem _ ha))

namespace Resident

variable {P : List ClassDecl} {t : ClassTable} {c : ClassDecl}

theorem exists_located {cls : String} (hr : Resident P t cls) (Γ : List (Frame KnownTy)) :
    ∃ locals, Located P Γ { table := t, cls, locals } := by
  refine ⟨{ inner := Γ.map (·.map fun b => (b.1, ⟨b.2.toTy, {}⟩)) }, hr, rfl, ?_⟩
  rw [List.map_map]
  refine List.map_congr_left fun frame _ => ?_
  rw [Function.comp_apply, List.map_map]
  rfl

/-- Whatever annotated form the rules allow a class, the check makes that one of it. -/
theorem checkedClass_eq (hr : Resident P t c.name) (hP : TypesKnown P) (hc : c ∈ P)
    {c' : ClassDecl} (h : ClassTyped P c c') : checkedClass t c = c' := by
  cases h with
  | members hfeatures =>
    refine congrArg (fun features => { c with features }) (map_eq_of_forall₂ ?_ hfeatures)
    intro f hf f' ht
    rw [hr.complete_feature (h := homeOf t c) hP hc rfl hf ht]

end Resident

/-- The table is right about the classes of the program. -/
structure Clean (classes : List ClassDecl) (t : ClassTable) : Prop where
  owned : Owned t classes
  resident : ∀ c ∈ classes, Resident (builtinClasses ++ classes) t c.name

theorem clean_bind {classes : List ClassDecl} (hnamed : ∀ c ∈ classes, c.name ≠ "")
    (hbuild : (Hierarchy.build classes).2 = [])
    (hbind : (Members.bind classes (Hierarchy.build classes).1).2 = []) :
    Clean classes (Members.bind classes (Hierarchy.build classes).1).1 where
  owned := owned_of_clean hbuild
  resident := by
    intro c hc
    have hmem : c ∈ builtinClasses ++ classes := List.mem_append_right _ hc
    refine ⟨declares_of_clean hbuild hbind, fun d hd => ?_, ?_⟩
    · rcases List.mem_append.mp hd with hd | hd
      · have hbuiltin : ∀ d ∈ builtinClasses, d.name ≠ "" := by decide
        exact hbuiltin d hd
      · exact hnamed d hd
    · cases hp : c.parent with
      | some parent => exact ⟨parent, .declared hmem hp⟩
      | none => exact ⟨objectName, .root hmem hp (Hierarchy.user_ne_root hbuild hc)⟩

namespace Clean

variable {classes : List ClassDecl} {t : ClassTable} (h : Clean classes t)
include h

theorem diagnostics_of_typed
    (hall : ∀ c ∈ classes, ∀ f ∈ c.features,
      ∃ f', FeatureTyped (builtinClasses ++ classes) c.name f f') :
    (checkClasses t none 0 0 classes).diagnostics = [] := by
  have hP : TypesKnown (builtinClasses ++ classes) := by
    refine typesKnown_of_user fun c hc f hf text htext => ?_
    obtain ⟨f', ht⟩ := hall c hc f hf
    exact ht.exists_names htext
  refine (diagnostics_checkClasses h.owned).mpr fun c hc f hf => ?_
  obtain ⟨f', ht⟩ := hall c hc f hf
  have hmem : c ∈ builtinClasses ++ classes := List.mem_append_right _ hc
  rw [(h.resident c hc).complete_feature (h := homeOf t c) hP hmem rfl hf ht]

variable (hnil : (checkClasses t none 0 0 classes).diagnostics = [])
include hnil

/-- An unknown type silences checks that involve it, but it is reported where it is declared. -/
theorem typesKnown : TypesKnown (builtinClasses ++ classes) :=
  typesKnown_of_user fun c hc f hf _ htext =>
    (h.resident c hc).declares.exists_names_of_checkFeature (h := homeOf t c)
      ((diagnostics_checkClasses h.owned).mp hnil c hc f hf) htext

theorem featureTyped {c : ClassDecl} (hc : c ∈ classes) {f : Feature} (hf : f ∈ c.features) :
    FeatureTyped (builtinClasses ++ classes) c.name f (checkFeature (homeOf t c) f).1 :=
  (h.resident c hc).sound_feature (h := homeOf t c) (h.typesKnown hnil)
    (List.mem_append_right _ hc) rfl hf ((diagnostics_checkClasses h.owned).mp hnil c hc f hf)

theorem classesTyped :
    List.Forall₂ (ClassTyped (builtinClasses ++ classes)) classes
      (checkClasses t none 0 0 classes).classes := by
  rw [classes_checkClasses h.owned, List.forall₂_map_right_iff, List.forall₂_same]
  intro c hc
  refine .members (List.forall₂_map_right_iff.mpr (List.forall₂_same.mpr fun f hf => ?_))
  exact h.featureTyped hnil hc hf

theorem classes_unique {checked : List ClassDecl}
    (hchecked : List.Forall₂ (ClassTyped (builtinClasses ++ classes)) classes checked) :
    checked = (checkClasses t none 0 0 classes).classes := by
  rw [classes_checkClasses h.owned]
  refine (map_eq_of_forall₂ (fun c hc c' ht => ?_) hchecked).symm
  exact (h.resident c hc).checkedClass_eq (h.typesKnown hnil) (List.mem_append_right _ hc) ht

theorem noted : Noted (Program.exprs { classes := (checkClasses t none 0 0 classes).classes }) := by
  refine noted_exprs fun c' hc' f' hf' => ?_
  rw [classes_checkClasses h.owned] at hc'
  obtain ⟨c, hc, rfl⟩ := List.mem_map.mp hc'
  obtain ⟨f, hf, rfl⟩ := List.mem_map.mp hf'
  exact (h.featureTyped hnil hc hf).known

end Clean

/-- The check is sound and complete. Let the classes of a program have names, and let building and
binding report nothing. Then the check reports nothing if and only if every member of every class
follows the rules. If so, the checked classes are the one annotated form that the rules allow, every
expression in them has a type noted, and that type is known. By the rules no expression has two
types. -/
theorem checkClasses_sound_and_complete (classes : List ClassDecl)
    (hnamed : ∀ c ∈ classes, c.name ≠ "") (hbuild : (Hierarchy.build classes).2 = [])
    (hbind : (Members.bind classes (Hierarchy.build classes).1).2 = []) :
    let P := builtinClasses ++ classes
    let run := checkClasses (Members.bind classes (Hierarchy.build classes).1).1 none 0 0 classes
    (run.diagnostics = [] ↔
        ∀ c ∈ classes, ∀ f ∈ c.features, ∃ f', FeatureTyped P c.name f f') ∧
      (run.diagnostics = [] →
        List.Forall₂ (ClassTyped P) classes run.classes ∧
        (∀ checked, List.Forall₂ (ClassTyped P) classes checked → checked = run.classes) ∧
        ∀ e ∈ Program.exprs { classes := run.classes },
          ∃ τ : KnownTy, e.ty? = some τ.toTy ∧ τ.toTy ≠ .untyped) ∧
      ∀ c ∈ classes, ∀ Γ e σ τ e₁ e₂,
        Typed P c.name Γ e σ e₁ → Typed P c.name Γ e τ e₂ → σ = τ ∧ e₁ = e₂ := by
  intro P run
  have hclean := clean_bind hnamed hbuild hbind
  refine ⟨⟨?_, hclean.diagnostics_of_typed⟩, ?_, ?_⟩
  · intro hnil c hc f hf
    exact ⟨_, hclean.featureTyped hnil hc hf⟩
  · intro hnil
    refine ⟨hclean.classesTyped hnil, fun checked => hclean.classes_unique hnil, fun e he => ?_⟩
    obtain ⟨τ, hτ⟩ := hclean.noted hnil e he
    exact ⟨τ, hτ, τ.toTy_ne_untyped⟩
  · intro c hc Γ e σ τ e₁ e₂ h₁ h₂
    obtain ⟨locals, hlocated⟩ := (hclean.resident c hc).exists_located Γ
    exact hlocated.typed_unique h₁ h₂

/-- A counter, and one whose method overrides that of the first and calls it. -/
def counters : List ClassDecl :=
  [{ name := "Counter"
     features := [
       .field { name := "count", typeName := "int", init := some (.intLit 0 {}) },
       .method {
         name := "bump", returnName := "int", params := [{ name := "by", typeName := "int" }]
         body := [.ret (some (.assign none "count"
           (.binary .add (.var none "count" {}) (.var none "by" {}) {}) {})) {}] }] },
    { name := "Capped", parent := some "Counter"
      features := [
        .method {
          name := "bump", returnName := "int", params := [{ name := "by", typeName := "int" }]
          body := [
            .whileLoop (.binary .lessThan (.intLit 9 {}) (.var none "by" {}) {}) (.breakLoop {}) {},
            .decl "base" "Counter" (some (.var none "this" {})) {},
            .ret (some (.dispatch (some (.var none "super" {})) "bump"
              [.var none "by" {}] {})) {}] }] }]

theorem checkClasses_sound_and_complete_counters :
    let t := (Members.bind counters (Hierarchy.build counters).1).1
    let run := checkClasses t none 0 0 counters
    run.diagnostics = [] ∧
      (∀ c ∈ counters, ∀ f ∈ c.features,
        ∃ f', FeatureTyped (builtinClasses ++ counters) c.name f f') ∧
      List.Forall₂ (ClassTyped (builtinClasses ++ counters)) counters run.classes := by
  intro t run
  obtain ⟨hiff, hannotated, _⟩ :=
    checkClasses_sound_and_complete counters (by decide) (by decide) (by decide)
  have hnil : run.diagnostics = [] := by decide
  exact ⟨hnil, hiff.mp hnil, (hannotated hnil).1⟩

end ClassCompiler
