import ClassCompiler.Proofs.DeclaredOnce
import ClassCompiler.Proofs.Rotation

/-!
# The order of declarations

A program that declares nothing twice means the same in whatever order its classes, and the features
of its classes, are written. Everything that an analysis leaves behind is compared: the table, the
types on the expressions, and the diagnostics. Only the report on a cycle of parents can differ, as
it begins with the member of the cycle that is met first.

Results:
1. `Hierarchy.map_find?_reordered`: both programs register the same classes.
2. `Hierarchy.parent?_build_reordered`: they end up with the same parents.
3. `interchangeable_reordered`: the tables are interchangeable, so all that follows is the same.
4. `analysis_order_independent`: the two runs.
-/

namespace ClassCompiler

open Typing Walk

/-- A class with its features in some other order. -/
structure SameClass (c d : ClassDecl) : Prop where
  name : d.name = c.name
  parent : d.parent = c.parent
  file : d.file = c.file
  span : d.span = c.span
  features : c.features.Perm d.features

/-- A program with its classes, and the features of each, in some other order. -/
structure Reordered (p q : Program) : Prop where
  span : q.span = p.span
  classes : PermUpTo SameClass p.classes q.classes

namespace SameClass

variable {c d : ClassDecl} (h : SameClass c d)
include h

theorem nodup_features (hnodup : (c.features.map Feature.member).Nodup) :
    (d.features.map Feature.member).Nodup :=
  (h.features.map Feature.member).nodup_iff.mp hnodup

theorem userEntry : Hierarchy.userEntry 0 d = Hierarchy.userEntry 0 c := by
  unfold Hierarchy.userEntry
  rw [h.name, h.parent, h.file, h.span]

theorem headReport? : Hierarchy.headReport? d = Hierarchy.headReport? c := by
  simp only [Hierarchy.headReport?, Hierarchy.definitionReport?, Hierarchy.definitionProblem?,
    h.name, h.file, h.span]

theorem reservedReports : (Members.reservedReports c).Perm (Members.reservedReports d) := by
  unfold Members.reservedReports
  rw [h.file]
  exact ((h.features.filter _).map _).map _

theorem homeOf (t : ClassTable) : homeOf t d = homeOf t c := by
  unfold Typing.homeOf
  rw [h.name, h.file]

theorem annotated (t : ClassTable) : SameClass (annotated t c) (annotated t d) := by
  unfold Typing.annotated checkedClass
  rw [h.name, h.homeOf]
  split
  · exact ⟨rfl, h.parent, h.file, h.span, h.features.map _⟩
  · exact h

theorem plainEntry (parent : Option String) :
    plainEntry false d parent = plainEntry false c parent := by
  unfold ClassCompiler.plainEntry
  rw [h.name, h.parent, h.file, h.span]

/-- A class shows the same, whatever the order of its features. -/
theorem face (hnodup : (c.features.map Feature.member).Nodup) (parent : Option String) :
    Face.ofDecl false d parent = Face.ofDecl false c parent := by
  have hbare : (ClassCompiler.plainEntry false c parent).bare =
      ClassCompiler.plainEntry false c parent := rfl
  unfold Face.ofDecl
  rw [h.plainEntry]
  generalize ClassCompiler.plainEntry false c parent = e at hbare ⊢
  have hframed := (Members.framed_of_once hbare hnodup).1
  have hkept : (Members.kept c.features).Perm (Members.kept d.features) := h.features.filter _
  have hfieldPart : Members.fieldPart e d = Members.fieldPart e c :=
    Members.fieldPart_congr rfl h.file
  have hmethodPart : Members.methodPart e d = Members.methodPart e c :=
    Members.methodPart_congr rfl h.file
  have hfields (name : String) := lookup_of_perm (hkept.flatMap_right (Members.fieldPart e c))
    (List.nodup_append.mp (List.map_append ▸ hframed.nodup_fields)).2.1 name
  have hmethods (name : String) := lookup_of_perm (hkept.flatMap_right (Members.methodPart e c))
    hframed.nodup_methods name
  simp only [hfieldPart, hmethodPart, h.name, List.lookup_append, hfields, hmethods]

end SameClass

namespace Interchangeable

variable {t t' : ClassTable} (h : Interchangeable t t')
include h

theorem checkFeature_homeOf (c : ClassDecl) (f : Feature) :
    Typing.checkFeature (homeOf t' c) f = Typing.checkFeature (homeOf t c) f := by
  have hhome : Interchangeable (homeOf t c).table t' := h
  exact hhome.checkFeature f

theorem annotated : annotated t' = annotated t := by
  funext c
  unfold Typing.annotated checkedClass
  simp only [h.checkFeature_homeOf]

end Interchangeable

/-- An entry without the place of its declaration in the program. -/
def ClassEntry.placeless (e : ClassEntry) : ClassEntry :=
  { e with origin := if e.isBuiltin then .builtin 0 else .user 0 }

section

variable {P Q : List ClassDecl} (hP : DeclaredOnce P) (h : PermUpTo SameClass P Q)
include hP h

theorem DeclaredOnce.reordered : DeclaredOnce Q where
  nodup_names := by
    have hnames : (P.map (·.name)).Perm (Q.map (·.name)) :=
      (h.map fun c d hcd => hcd.name.symm).perm
    exact hnames.nodup_iff.mp hP.nodup_names
  nodup_features := by
    intro d hd
    obtain ⟨c, hc, hcd⟩ := h.exists_of_mem hd
    exact hcd.nodup_features (hP.nodup_features c hc)

namespace Hierarchy

/-! ## The hierarchy -/

omit hP in
theorem defined_reordered :
    PermUpTo (fun c d => c ∈ P ∧ SameClass c d) (defined P) (defined Q) := by
  have hmem : PermUpTo (fun c d => c ∈ P ∧ SameClass c d) P Q :=
    h.with_mem.imp fun c d hcd => ⟨hcd.1, hcd.2.2⟩
  exact hmem.filter fun c d hcd => by rw [hcd.2.name]

/-- The same classes are registered. What tells entries apart by their places may be different in
the two programs, as long as it comes from the declarations. -/
theorem map_find?_reordered {α : Type} {f g : ClassEntry → α} (k : ClassDecl → α)
    (hf : ∀ c index, (c, index) ∈ definitions P → f (userEntry index c) = k c)
    (hg : ∀ d index, (d, index) ∈ definitions Q → g (userEntry index d) = k d)
    (hbuiltin : ∀ e ∈ builtinTable.entries, g e = f e)
    (hsame : ∀ c ∈ P, ∀ d, SameClass c d → k d = k c) (name : String) :
    ((registeredTable Q).find? name).map g = ((registeredTable P).find? name).map f := by
  have hQ := hP.reordered h
  have hnodup : ((defined P).map (·.name)).Nodup :=
    hP.nodup_names.sublist (List.filter_sublist.map _)
  have hclass := (defined_reordered h).map_find? (fun c d hcd => hcd.2.name)
    (fun c d hcd => hsame c hcd.1 d hcd.2) hnodup name
  have hlanguage : (builtinTable.find? name).map g = (builtinTable.find? name).map f :=
    Option.map_congr fun e he => hbuiltin e (ClassTable.mem_of_find? he)
  rw [map_find?_registeredTable hQ hg, map_find?_registeredTable hP hf, hlanguage, hclass]

theorem find?_reordered (name : String) :
    ((registeredTable Q).find? name).map ClassEntry.placeless =
      ((registeredTable P).find? name).map ClassEntry.placeless :=
  map_find?_reordered hP h (userEntry 0) (fun _ _ _ => rfl) (fun _ _ _ => rfl)
    (fun _ _ => rfl) (fun _ _ _ hcd => hcd.userEntry) name

theorem resolvedLinks_reordered :
    resolvedLinks (registeredTable Q) = resolvedLinks (registeredTable P) := by
  have hcontains : (registeredTable Q).contains = (registeredTable P).contains := by
    funext name
    have hsome := congrArg Option.isSome (find?_reordered hP h name)
    rwa [Option.isSome_map, Option.isSome_map] at hsome
  have hparent : resolvedParent (registeredTable Q) = resolvedParent (registeredTable P) := by
    funext e
    unfold resolvedParent
    rw [hcontains]
  funext name
  unfold resolvedLinks
  rw [hparent]
  split
  · rfl
  · have hlink := congrArg (Option.map (resolvedParent (registeredTable P)))
      (find?_reordered hP h name)
    rwa [Option.map_map, Option.map_map] at hlink

theorem parentReport?_reordered {c d : ClassDecl} (hcd : SameClass c d) :
    parentReport? (registeredTable Q) d = parentReport? (registeredTable P) c := by
  unfold parentReport?
  rw [hcd.userEntry]
  refine congrArg (Option.map _) ?_
  have hfind := find?_reordered hP h ((userEntry 0 c).declaredParent.getD objectName)
  unfold parentProblem?
  cases hp : (registeredTable P).find? ((userEntry 0 c).declaredParent.getD objectName) with
  | none =>
    rw [hp, Option.map_none, Option.map_eq_none_iff] at hfind
    simp only [hfind, hp]
  | some e =>
    rw [hp, Option.map_some] at hfind
    obtain ⟨e', he', hsame⟩ := Option.map_eq_some_iff.mp hfind
    have hextendable : e'.extendable = e.extendable := (congrArg ClassEntry.extendable hsame :)
    simp only [he', hp, hextendable]

theorem mem_reported_reordered (name : String) :
    name ∈ ((build Q).2.filterMap Diagnostic.cycle?).flatMap (·.2) ↔
      name ∈ ((build P).2.filterMap Diagnostic.cycle?).flatMap (·.2) := by
  rw [mem_reported_build, mem_reported_build, resolvedLinks_reordered hP h]

/-- The repair sends the same classes to the root, whatever cycle it meets first. -/
theorem parent?_build_reordered : (build Q).1.parent? = (build P).1.parent? := by
  rw [(repairing_build Q).1.links, (repairing_build P).1.links, resolvedLinks_reordered hP h]
  funext name
  unfold redirect
  simp only [mem_reported_reordered hP h name]

theorem cycles_reordered : PermUpTo (fun r r' => r.2.IsRotated r'.2)
    ((build P).2.filterMap Diagnostic.cycle?) ((build Q).2.filterMap Diagnostic.cycle?) := by
  have hrepairP := (repairing_build P).1
  have hrepairQ := (repairing_build Q).1
  rw [resolvedLinks_reordered hP h] at hrepairQ
  exact permUpTo_isRotated hrepairP.cycles hrepairQ.cycles hrepairP.nodup hrepairQ.nodup
    fun name => (mem_reported_reordered hP h name).symm

end Hierarchy

end

/-! ## Reports -/

/-- A report on a cycle of parents, at the class that the cycle is read from. -/
def IsCycleReport (classes : List ClassDecl) (cycle : List String) (d : Diagnostic) : Prop :=
  ∃ c ∈ classes, cycle.head? = some c.name ∧
    d = Fault.diagnostic c.file ⟨.inheritanceCycle c.name cycle, c.span⟩

/-- The diagnostics are equal, or they report the same cycle, each from one of its members on. -/
inductive SameReport (classes : List ClassDecl) : Diagnostic → Diagnostic → Prop
  | refl (d : Diagnostic) : SameReport classes d d
  | cycle {d d' : Diagnostic} {cycle cycle' : List String} (hrotated : cycle.IsRotated cycle')
      (hd : IsCycleReport classes cycle d) (hd' : IsCycleReport classes cycle' d') :
      SameReport classes d d'

theorem SameReport.level {classes : List ClassDecl} {d d' : Diagnostic}
    (h : SameReport classes d d') : d.level = d'.level := by
  cases h with
  | refl => rfl
  | cycle _ hd hd' =>
    obtain ⟨_, _, _, rfl⟩ := hd
    obtain ⟨_, _, _, rfl⟩ := hd'
    rfl

/-- A class on a cycle is one of the program: those of the language lead to the root. -/
theorem Hierarchy.exists_decl_of_onCycle {classes : List ClassDecl} {name : String}
    (hcycle : OnCycle (resolvedLinks (registeredTable classes)) name) :
    ∃ c ∈ classes, c.name = name ∧
      ∃ index, (registeredTable classes).find? name = some (userEntry index c) := by
  obtain ⟨parent, hparent⟩ := Option.ne_none_iff_exists'.mp hcycle.ne_none
  have hlink := hparent
  unfold resolvedLinks at hlink
  split at hlink
  · cases hlink
  · obtain ⟨e, he, hresolved⟩ := Option.map_eq_some_iff.mp hlink
    have hmem := ClassTable.mem_of_find? he
    rw [entries_registeredTable] at hmem
    rcases List.mem_append.mp hmem with hbuiltin | huser
    · have hroot : parent = objectName := by
        rw [← hresolved]
        unfold resolvedParent
        simp only [declaredParent_builtin e hbuiltin, ite_self]
      exact absurd (if_pos rfl) (hroot ▸ (hcycle.step hparent).1.ne_none)
    · obtain ⟨⟨c, index⟩, hdef, rfl⟩ := List.mem_map.mp huser
      exact ⟨c, List.mem_of_getElem? (mem_definitions.mp hdef).1, ClassTable.name_of_find? he,
        index, he⟩

/-- The repair reports a cycle at the class that it starts with. -/
theorem Hierarchy.exists_cycleReport {classes : List ClassDecl} {r : String × List String}
    (hr : r ∈ (build classes).2.filterMap Diagnostic.cycle?) :
    ∃ d, cycleReport? (registeredTable classes) r = some d ∧ IsCycleReport classes r.2 d := by
  obtain ⟨hcycle, hhead⟩ := (repairing_build classes).1.cycles r hr
  obtain ⟨c, hc, hname, index, hfind⟩ :=
    exists_decl_of_onCycle (hcycle.onCycle (List.mem_of_head? hhead))
  unfold cycleReport?
  rw [hfind, ← hname]
  exact ⟨_, rfl, c, hc, hname ▸ hhead, rfl⟩

section

variable {P Q : List ClassDecl} (hP : DeclaredOnce P) (h : PermUpTo SameClass P Q)
include h

theorem IsCycleReport.reordered {cycle : List String} {d : Diagnostic}
    (hd : IsCycleReport Q cycle d) : IsCycleReport P cycle d := by
  obtain ⟨c', hc', hhead, rfl⟩ := hd
  obtain ⟨c, hc, hsame⟩ := h.exists_of_mem hc'
  refine ⟨c, hc, hsame.name ▸ hhead, ?_⟩
  rw [hsame.name, hsame.file, hsame.span]

include hP

theorem Hierarchy.diagnostics_build_reordered :
    PermUpTo (SameReport P) (build P).2 (build Q).2 := by
  have hQ := hP.reordered h
  have hheads : ((register builtinTable 0 P).2).Perm (register builtinTable 0 Q).2 := by
    rw [diagnostics_register_of_once hP, diagnostics_register_of_once hQ]
    exact h.filterMap_perm fun c d hcd => hcd.headReport?
  have hparents : (linkParents (registeredTable P)).2.Perm (linkParents (registeredTable Q)).2 := by
    rw [diagnostics_linkParents_of_once hP, diagnostics_linkParents_of_once hQ]
    exact (defined_reordered h).filterMap_perm fun c d hcd => parentReport?_reordered hP h hcd.2
  have hcycles : PermUpTo (SameReport P)
      (((build P).2.filterMap Diagnostic.cycle?).filterMap (cycleReport? (registeredTable P)))
      (((build Q).2.filterMap Diagnostic.cycle?).filterMap (cycleReport? (registeredTable Q))) := by
    refine (cycles_reordered hP h).with_mem.filterMap fun r r' hrr' => ?_
    obtain ⟨hr, hr', hrotated⟩ := hrr'
    obtain ⟨d, hreport, hd⟩ := exists_cycleReport hr
    obtain ⟨d', hreport', hd'⟩ := exists_cycleReport hr'
    rw [hreport, hreport']
    exact .some (.cycle hrotated hd (hd'.reordered h))
  rw [diagnostics_build P, diagnostics_build Q]
  exact .append (.of_perm .refl (hheads.append hparents)) hcycles

/-! ## The table -/

theorem map_face_reordered (name : String) (parent : Option String) :
    ((Hierarchy.registeredTable Q).find? name).map (declaredFace? Q parent) =
      ((Hierarchy.registeredTable P).find? name).map (declaredFace? P parent) := by
  have hdecl (classes : List ClassDecl) (c : ClassDecl) (index : Nat)
      (hdef : (c, index) ∈ Hierarchy.definitions classes) :
      declaredFace? classes parent (Hierarchy.userEntry index c) =
        some (Face.ofDecl false c parent) :=
    congrArg (Option.map (Face.ofDecl false · parent)) (Hierarchy.mem_definitions.mp hdef).1
  refine Hierarchy.map_find?_reordered hP h (some <| Face.ofDecl false · parent) (hdecl P) (hdecl Q)
    (fun e he => ?_) (fun c hc d hcd => ?_) name
  · obtain ⟨_, _, rfl⟩ := List.mem_map.mp he
    rfl
  · exact congrArg some (hcd.face (hP.nodup_features c hc) parent)

theorem names_bind_reordered : ((Members.bind P (Hierarchy.build P).1).1.names).Perm
    (Members.bind Q (Hierarchy.build Q).1).1.names := by
  have hnames {classes : List ClassDecl} (honce : DeclaredOnce classes) :
      (Members.bind classes (Hierarchy.build classes).1).1.names =
        builtinClasses.map (·.name) ++ (Hierarchy.defined classes).map (·.name) := by
    rw [Members.names_bind, Hierarchy.names_build, Hierarchy.names_registeredTable,
      ← Hierarchy.map_fst_definitions honce, List.map_map]
    rfl
  rw [hnames hP, hnames (hP.reordered h)]
  exact ((Hierarchy.defined_reordered h).map fun c d hcd => hcd.2.name.symm).perm.append_left _

/-- Both tables show the same classes, with the same parents and members. -/
theorem interchangeable_reordered :
    Interchangeable (Members.bind P (Hierarchy.build P).1).1
      (Members.bind Q (Hierarchy.build Q).1).1 where
  size := by
    rw [← Hierarchy.names_length, ← Hierarchy.names_length]
    exact (names_bind_reordered hP h).length_eq.symm
  face := by
    intro name
    have hjoin (o : Option ClassEntry) :
        o.map ClassEntry.face = (o.map (some ·.face)).join := by cases o <;> rfl
    rw [hjoin, hjoin, map_face_bind hP, map_face_bind (hP.reordered h),
      Hierarchy.parent?_build_reordered hP h, map_face_reordered hP h]

/-! ## Members and checks -/

theorem Members.diagnostics_bind_reordered :
    (Members.bind P (Hierarchy.build P).1).2.Perm (Members.bind Q (Hierarchy.build Q).1).2 := by
  rw [diagnostics_bind_of_once hP, diagnostics_bind_of_once (hP.reordered h)]
  exact (Hierarchy.defined_reordered h).flatMap_perm fun c d hcd => hcd.2.reservedReports

theorem Typing.diagnostics_checkClasses_reordered :
    let t := (Members.bind P (Hierarchy.build P).1).1
    let t' := (Members.bind Q (Hierarchy.build Q).1).1
    (checkClasses t none 0 0 P).diagnostics.Perm (checkClasses t' none 0 0 Q).diagnostics := by
  intro t t'
  rw [diagnostics_checkClasses_of_once hP, diagnostics_checkClasses_of_once (hP.reordered h)]
  refine (Hierarchy.defined_reordered h).flatMap_perm fun c d hcd => ?_
  rw [hcd.2.file, hcd.2.homeOf]
  simp only [(interchangeable_reordered hP h).checkFeature_homeOf]
  exact (hcd.2.features.flatMap_right _).map _

theorem Typing.classes_checkClasses_reordered :
    let t := (Members.bind P (Hierarchy.build P).1).1
    let t' := (Members.bind Q (Hierarchy.build Q).1).1
    (checkClasses t' none 0 0 Q).classes = Q.map (annotated t) := by
  intro t t'
  rw [classes_checkClasses_of_once (hP.reordered h), (interchangeable_reordered hP h).annotated]

end

/-! ## The whole analysis -/

theorem hasErrors_eq (ds : List Diagnostic) : hasErrors ds = decide (0 < errorCount ds) := by
  unfold hasErrors errorCount
  rw [Bool.eq_iff_iff, decide_eq_true_iff, List.any_eq_true, List.countP_pos_iff]

section

variable {p q : Program} (honce : DeclaredOnce p.classes) (h : Reordered p q)
include honce h

theorem Analysis.diagnostics_run_reordered :
    PermUpTo (SameReport p.classes) (run none p).diagnostics (run none q).diagnostics := by
  have hbuild := Hierarchy.diagnostics_build_reordered honce h.classes
  have hbind := Members.diagnostics_bind_reordered honce h.classes
  have hcheck := diagnostics_checkClasses_reordered honce h.classes
  have hentry := (interchangeable_reordered honce h.classes).check
  rw [run_none, run_none, hentry]
  exact ((hbuild.append (.of_perm .refl hbind)).append (.of_perm .refl hcheck)).append
    (.of_perm .refl (.refl _))

theorem Analysis.hasErrors_run_reordered :
    hasErrors (run none p).diagnostics = hasErrors (run none q).diagnostics := by
  have hcount : errorCount (run none p).diagnostics = errorCount (run none q).diagnostics :=
    (diagnostics_run_reordered honce h).countP_eq fun d d' hdd' => by rw [hdd'.level]
  rw [hasErrors_eq, hasErrors_eq, hcount]

end

/-- The order of declarations does not matter in a program that declares nothing twice. If classes
and features are put in some other order, there are the same classes with the same parents, every
field and method is found in the same class with the same binding, and the features get the same
types: those of both programs are annotated by the table of the first. The diagnostics are the same
but for their order and for where a report on a cycle begins, so one program has errors if and only
if the other has. -/
theorem analysis_order_independent {p q : Program} (honce : DeclaredOnce p.classes)
    (h : Reordered p q) :
    let r := Analysis.run none p
    let s := Analysis.run none q
    ∃ t t', r.table = some t ∧ s.table = some t' ∧
      t.names.Perm t'.names ∧ t.parent? = t'.parent? ∧
      t.lookupField? = t'.lookupField? ∧ t.lookupMethod? = t'.lookupMethod? ∧
      r.program.classes = p.classes.map (annotated t) ∧
      s.program.classes = q.classes.map (annotated t) ∧ Reordered r.program s.program ∧
      PermUpTo (SameReport p.classes) r.diagnostics s.diagnostics ∧
      hasErrors r.diagnostics = hasErrors s.diagnostics := by
  intro r s
  let t := (Members.bind p.classes (Hierarchy.build p.classes).1).1
  let t' := (Members.bind q.classes (Hierarchy.build q.classes).1).1
  have hr : r = _ := Analysis.run_none p
  have hs : s = _ := Analysis.run_none q
  have hsame : Interchangeable t t' := interchangeable_reordered honce h.classes
  have hp : r.program.classes = p.classes.map (annotated t) := by
    rw [hr]
    exact classes_checkClasses_of_once honce
  have hq : s.program.classes = q.classes.map (annotated t) := by
    rw [hs]
    exact classes_checkClasses_reordered honce h.classes
  have hprograms : Reordered r.program s.program := by
    refine ⟨?_, ?_⟩
    · rw [hr, hs]
      exact h.span
    · rw [hp, hq]
      exact h.classes.map fun c d hcd => hcd.annotated t
  exact ⟨t, t', by rw [hr], by rw [hs], names_bind_reordered honce h.classes, hsame.parent?.symm,
    hsame.lookupField?.symm, hsame.lookupMethod?.symm, hp, hq, hprograms,
    Analysis.diagnostics_run_reordered honce h, Analysis.hasErrors_run_reordered honce h⟩

/-- The program read backwards. -/
def Program.backwards (p : Program) : Program :=
  { p with classes := p.classes.reverse.map fun c => { c with features := c.features.reverse } }

theorem Program.reordered_backwards (p : Program) : Reordered p p.backwards where
  span := rfl
  classes := by
    refine ⟨p.classes.reverse, (List.reverse_perm _).symm, ?_⟩
    rw [backwards, List.forall₂_map_right_iff, List.forall₂_same]
    exact fun c _ => ⟨rfl, rfl, rfl, rfl, (List.reverse_perm _).symm⟩

/-- Two classes extend each other, a class uses one that comes later, and a field has a value of
the wrong type. -/
def loopedShapes : Program where
  classes := [
    { name := "Ring", parent := some "Link", file := some "a" },
    { name := "Link", parent := some "Ring", file := some "b" },
    { name := "Main", parent := some "Shape"
      features := [
        .field { name := "size", typeName := "int", init := some (.boolLit true {}) },
        .method { name := "main", returnName := "void"
                  body := [.expr (.assign none "area" (.var none "size" {}) {}) {}] }] },
    { name := "Shape", features := [.field { name := "area", typeName := "int" }] }]

/-- From the other end, the cycle is met at its other member. -/
theorem analysis_order_independent_loopedShapes :
    let p := loopedShapes
    let q := p.backwards
    DeclaredOnce p.classes ∧ Reordered p q ∧
      (Analysis.run none p).diagnostics.filterMap Diagnostic.cycle? = [("Ring", ["Ring", "Link"])] ∧
      (Analysis.run none q).diagnostics.filterMap Diagnostic.cycle? = [("Link", ["Link", "Ring"])] ∧
      PermUpTo (SameReport p.classes) (Analysis.run none p).diagnostics
        (Analysis.run none q).diagnostics ∧
      hasErrors (Analysis.run none q).diagnostics = true := by
  intro p q
  have honce : DeclaredOnce p.classes := ⟨by decide, by decide⟩
  have hreordered : Reordered p q := p.reordered_backwards
  obtain ⟨_, _, _, _, _, _, _, _, _, _, _, hreports, herrors⟩ :=
    analysis_order_independent honce hreordered
  have hp : hasErrors (Analysis.run none p).diagnostics = true := by decide
  exact ⟨honce, hreordered, by decide, by decide, hreports, herrors ▸ hp⟩

end ClassCompiler
