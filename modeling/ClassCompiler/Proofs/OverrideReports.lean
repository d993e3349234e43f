import ClassCompiler.Proofs.Definitions
import ClassCompiler.Proofs.Overriding

/-!
# How often an invalid override is reported

A class keeps one method of each name, and this is the method that is compared with the inherited
one. But the comparison is made at every declaration of a method, also at one that was not kept.

Results:
1. `HasFrames.mem_invalidOverrides`, `HasFrames.nodup_invalidOverrides`: the invalid overrides of a
   table as a list.
2. `HasFrames.overriding_overrideFaults`: a method is reported if the one kept under its name breaks
   a signature.
3. `invalidOverride_reports`: the reports of an analysis are the declarations of invalid overrides.
   There is one report for each of them if no class declares a method twice.
4. `invalidOverride_reported_twice`: otherwise there can be more.
-/

namespace ClassCompiler

open Typing

/-! ## Invalid overrides -/

/-- The class of the program has a method of its own that does not have the signature of the method
which its parent has under that name. -/
def IsInvalidOverride (t : ClassTable) (cls method : String) : Prop :=
  ∃ e own parent definer inherited, t.find? cls = some e ∧ e.isBuiltin = false ∧
    e.methods.lookup? method = some own ∧ e.parent = some parent ∧
    t.lookupMethod? parent method = some (definer, inherited) ∧
    t.sameSignature own inherited = false

/-- The method of that name in an entry does not have the signature that the class inherits. -/
def breaksSignature (t : ClassTable) (e : ClassEntry) (method : String) : Bool :=
  match e.parent.bind (t.lookupMethod? · method), e.methods.lookup? method with
  | some (_, inherited), some own => !t.sameSignature own inherited
  | _, _ => false

/-- The methods of a class that do not have the signature it inherits for them. -/
def brokenMethods (t : ClassTable) (cls : String) : List String :=
  match t.find? cls with
  | none => []
  | some e => e.declaredMethods.filter (breaksSignature t e)

/-- The classes of the program, each with its methods that break a signature. -/
def invalidOverrides (t : ClassTable) : List (String × String) :=
  (t.entries.filter fun e => !e.isBuiltin).flatMap fun e =>
    (brokenMethods t e.name).map (e.name, ·)

theorem breaksSignature_iff {t : ClassTable} {e : ClassEntry} {method : String} :
    breaksSignature t e method = true ↔ ∃ own parent definer inherited,
      e.methods.lookup? method = some own ∧ e.parent = some parent ∧
        t.lookupMethod? parent method = some (definer, inherited) ∧
        t.sameSignature own inherited = false := by
  unfold breaksSignature
  cases hparent : e.parent with
  | none => simp
  | some parent =>
    rw [Option.bind_some]
    cases hinherited : t.lookupMethod? parent method with
    | none => simp [hinherited]
    | some found =>
      cases hown : e.methods.lookup? method with
      | none => simp
      | some own => simp [hinherited, Prod.ext_iff]

/-- A table with one entry for each name, and one frame for the methods of each entry. -/
structure HasFrames (t : ClassTable) : Prop where
  nodup : t.names.Nodup
  framed : ∀ e ∈ t.entries, ∃ fields methods, Members.Framed e fields methods

theorem hasFrames_bind (classes : List ClassDecl) :
    HasFrames (Members.bind classes (Hierarchy.build classes).1).1 where
  nodup := (Members.rooted_bind classes (rooted_build classes)).nodup
  framed := by
    intro e he
    obtain ⟨fresh, hfresh, rfl⟩ := Members.mem_bind.mp he
    exact Members.framed_bindEntry hfresh

namespace HasFrames

variable {t : ClassTable} (h : HasFrames t)
include h

/-- What breaks a signature has been bound, so it is among the declared methods. -/
theorem mem_brokenMethods {cls method : String} {e : ClassEntry} (he : t.find? cls = some e) :
    method ∈ brokenMethods t cls ↔ breaksSignature t e method = true := by
  obtain ⟨fields, methods, hframed⟩ := h.framed e (ClassTable.mem_of_find? he)
  unfold brokenMethods
  rw [he, List.mem_filter, hframed.mem_declaredMethods]
  refine ⟨And.right, fun hbreaks => ⟨?_, hbreaks⟩⟩
  obtain ⟨own, _, _, _, hown, _⟩ := breaksSignature_iff.mp hbreaks
  rw [hown, Option.isSome_some]

theorem nodup_brokenMethods (cls : String) : (brokenMethods t cls).Nodup := by
  unfold brokenMethods
  split
  · exact List.nodup_nil
  · next e he =>
    obtain ⟨fields, methods, hframed⟩ := h.framed e (ClassTable.mem_of_find? he)
    rw [hframed.declared_eq]
    exact hframed.nodup_methods.filter _

theorem mem_invalidOverrides {cls method : String} :
    (cls, method) ∈ invalidOverrides t ↔ IsInvalidOverride t cls method := by
  unfold invalidOverrides IsInvalidOverride
  rw [List.mem_flatMap]
  constructor
  · rintro ⟨e, hmem, hpair⟩
    obtain ⟨hmem, huser⟩ := List.mem_filter.mp hmem
    obtain ⟨m, hm, heq⟩ := List.mem_map.mp hpair
    obtain ⟨rfl, rfl⟩ := Prod.mk.inj heq
    have he := ClassTable.find?_of_mem h.nodup hmem
    obtain ⟨own, parent, definer, inherited, hbreaks⟩ :=
      breaksSignature_iff.mp ((h.mem_brokenMethods he).mp hm)
    exact ⟨e, own, parent, definer, inherited, he, by simpa using huser, hbreaks⟩
  · rintro ⟨e, own, parent, definer, inherited, he, huser, hbreaks⟩
    cases ClassTable.name_of_find? he
    refine ⟨e, List.mem_filter.mpr ⟨ClassTable.mem_of_find? he, by simp [huser]⟩, ?_⟩
    refine List.mem_map_of_mem ((h.mem_brokenMethods he).mpr ?_)
    exact breaksSignature_iff.mpr ⟨own, parent, definer, inherited, hbreaks⟩

theorem nodup_invalidOverrides : (invalidOverrides t).Nodup := by
  refine List.nodup_flatMap.mpr ⟨fun e _ => ?_, ?_⟩
  · exact (h.nodup_brokenMethods e.name).map fun _ _ heq => (Prod.mk.inj heq).2
  · -- two entries have different names, so their pairs differ in the first part
    have hpairwise : t.entries.Pairwise fun e e' => e.name ≠ e'.name := List.pairwise_map.mp h.nodup
    refine (hpairwise.sublist List.filter_sublist).imp fun {e e'} hne pair he he' => ?_
    obtain ⟨_, _, rfl⟩ := List.mem_map.mp he
    obtain ⟨_, _, heq⟩ := List.mem_map.mp he'
    exact hne (Prod.mk.inj heq).1.symm

end HasFrames

/-! ## Reports -/

/-- The class and the method of a fault of overriding. -/
def Fault.overriding? (f : Fault) : Option (String × String) :=
  match f.problem with
  | .invalidOverride cls method _ => some (cls, method)
  | _ => none

def Diagnostic.overriding? (d : Diagnostic) : Option (String × String) :=
  match d.cause with
  | some (.fault f) => f.overriding?
  | _ => none

theorem Diagnostic.isInvalidOverride_eq (d : Diagnostic) :
    d.isInvalidOverride = d.overriding?.isSome := by
  unfold isInvalidOverride overriding?
  split
  · next h => simp [h, Fault.overriding?]
  · next h =>
    split
    · next f hf =>
      unfold Fault.overriding?
      split
      · next hproblem => exact absurd (by rw [hf, ← hproblem]) (h _ _ _ f.span)
      · rfl
    · rfl

theorem Fault.overriding?_of_stage {f : Fault} (h : f.problem.stage ≠ .override) :
    f.overriding? = none := by
  unfold overriding?
  split
  · next hproblem => exact absurd (by rw [hproblem]; rfl) h
  · rfl

theorem Diagnostic.overriding?_of_stage {d : Diagnostic} (h : d.stage? ≠ some .override) :
    d.overriding? = none := by
  unfold overriding?
  split
  · next f hf =>
    refine Fault.overriding?_of_stage fun hstage => h ?_
    simp [stage?, hf, hstage]
  · rfl

/-- Leaving out what a function does not take does not change what it gives. -/
theorem filterMap_filter_of_none {α β : Type} {p : α → Bool} {f : α → Option β}
    (h : ∀ a, p a = false → f a = none) (as : List α) :
    (as.filter p).filterMap f = as.filterMap f := by
  rw [List.filterMap_filter]
  refine List.filterMap_congr fun a _ => ?_
  cases hp : p a with
  | true => rw [if_pos rfl]
  | false => rw [if_neg Bool.false_ne_true, h a hp]

theorem filterMap_overriding_reportsAt (ds : List Diagnostic) :
    (reportsAt .override ds).filterMap Diagnostic.overriding? =
      ds.filterMap Diagnostic.overriding? :=
  filterMap_filter_of_none
    (fun _ h => Diagnostic.overriding?_of_stage (of_decide_eq_false h)) ds

theorem filterMap_overriding_filter (fs : List Fault) :
    (fs.filter (·.problem.stage = .override)).filterMap Fault.overriding? =
      fs.filterMap Fault.overriding? :=
  filterMap_filter_of_none (fun _ h => Fault.overriding?_of_stage (of_decide_eq_false h)) fs

/-- The methods that a class declares, each with the class. -/
def ClassDecl.methodDecls (c : ClassDecl) : List (String × String) :=
  c.methods.map fun m => (c.name, m.name)

namespace HasFrames

variable {t : ClassTable} (h : HasFrames t) {c : ClassDecl} {e : ClassEntry}
  (he : t.find? c.name = some e)
include h he

/-- A method is reported if the method that was kept under its name breaks a signature. -/
theorem overriding_overrideFaults (m : Method) :
    (overrideFaults (homeOf t c) m).filterMap Fault.overriding? =
      if m.name ∈ brokenMethods t c.name then [(c.name, m.name)] else [] := by
  obtain ⟨fields, methods, hframed⟩ := h.framed e (ClassTable.mem_of_find? he)
  have hpeek : e.methods.peek? m.name = e.methods.lookup? m.name := by
    rw [hframed.methods_eq, Scope.lookup?_single]
    rfl
  simp only [h.mem_brokenMethods he, overrideFaults, homeOf, he, hpeek, breaksSignature]
  cases hinherited : e.parent.bind (t.lookupMethod? · m.name) with
  | none => rfl
  | some inherited =>
    cases hown : e.methods.lookup? m.name with
    | none => rfl
    | some own =>
      by_cases hsame : t.sameSignature own inherited.2 = true
      · simp [hsame]
      · simp [hsame, Fault.overriding?]

theorem overriding_checkFeatures :
    (c.features.flatMap fun f => (checkFeature (homeOf t c) f).2).filterMap Fault.overriding? =
      c.methodDecls.filter (·.2 ∈ brokenMethods t c.name) := by
  rw [← filterMap_overriding_filter, List.filter_flatMap]
  simp only [filter_override_checkFeature]
  unfold ClassDecl.methodDecls ClassDecl.methods
  induction c.features with
  | nil => rfl
  | cons f rest ih =>
    rw [List.flatMap_cons, List.filterMap_append, ih]
    cases f with
    | field f => rfl
    | method m =>
      rw [overridingFaults, h.overriding_overrideFaults he]
      simp only [List.filterMap_cons, List.map_cons, List.filter_cons, decide_eq_true_eq]
      split <;> rfl

end HasFrames

/-! ## The whole analysis -/

namespace Hierarchy

/-- The methods that the classes of the program declare, as often as they are declared. Only classes
that define their names count. -/
def methodDecls (classes : List ClassDecl) : List (String × String) :=
  (definitions classes).flatMap fun (c, _) => c.methodDecls

end Hierarchy

section

variable {classes : List ClassDecl}

/-- A definition has an entry in the table, made from it. -/
theorem exists_find?_of_definition {c : ClassDecl} {index : Nat}
    (hdef : (c, index) ∈ Hierarchy.definitions classes) :
    ∃ e, (Members.bind classes (Hierarchy.build classes).1).1.find? c.name = some e ∧
      e.origin = .user index :=
  isChecked_iff_find?.mp ((isChecked_iff (Hierarchy.mem_definitions.mp hdef).1).mpr hdef)

theorem mem_invalidOverrides_of_definition {c : ClassDecl} {index : Nat}
    (hdef : (c, index) ∈ Hierarchy.definitions classes) (method : String) :
    (c.name, method) ∈ invalidOverrides (Members.bind classes (Hierarchy.build classes).1).1 ↔
      method ∈ brokenMethods (Members.bind classes (Hierarchy.build classes).1).1 c.name := by
  have hframes := hasFrames_bind classes
  obtain ⟨e, he, horigin⟩ := exists_find?_of_definition hdef
  rw [hframes.mem_invalidOverrides, hframes.mem_brokenMethods he, breaksSignature_iff]
  constructor
  · rintro ⟨e', own, parent, definer, inherited, he', _, hbreaks⟩
    cases he.symm.trans he'
    exact ⟨own, parent, definer, inherited, hbreaks⟩
  · rintro ⟨own, parent, definer, inherited, hbreaks⟩
    refine ⟨e, own, parent, definer, inherited, he, ?_, hbreaks⟩
    rw [ClassEntry.isBuiltin, horigin, Origin.isBuiltin]

/-- An invalid override is declared by the class that it is found in. -/
theorem IsInvalidOverride.mem_methodDecls {cls method : String}
    (h : IsInvalidOverride (Members.bind classes (Hierarchy.build classes).1).1 cls method) :
    (cls, method) ∈ Hierarchy.methodDecls classes := by
  obtain ⟨e, own, _, _, _, he, huser, hown, _⟩ := h
  have hfind := he
  rw [Members.find?_bind] at hfind
  obtain ⟨fresh, hfresh, rfl⟩ := Option.map_eq_some_iff.mp hfind
  obtain ⟨c, m, hdecl, hname, hm, rfl, _⟩ :=
    exists_method_of_lookup (ClassTable.mem_of_find? hfresh) hown
  have hcls : c.name = cls := hname.trans (ClassTable.name_of_find? hfresh)
  subst hcls
  rw [ClassEntry.isBuiltin, Members.origin_bindEntry] at huser
  cases horigin : fresh.origin with
  | builtin index =>
    rw [horigin] at huser
    cases huser
  | user index =>
    rw [horigin] at hdecl
    refine List.mem_flatMap.mpr ⟨(c, index), (isChecked_iff hdecl).mp ?_, ?_⟩
    · refine isChecked_iff_find?.mpr ⟨_, he, ?_⟩
      rw [Members.origin_bindEntry, horigin]
    · exact List.mem_map_of_mem (ClassDecl.mem_methods.mpr hm)

theorem overriding_checkClasses (classes : List ClassDecl) :
    let t := (Members.bind classes (Hierarchy.build classes).1).1
    (checkClasses t none 0 0 classes).diagnostics.filterMap Diagnostic.overriding? =
      (Hierarchy.methodDecls classes).filter (· ∈ invalidOverrides t) := by
  intro t
  have hframes : HasFrames t := hasFrames_bind classes
  rw [diagnostics_checkClasses_bind, List.filterMap_flatMap, Hierarchy.methodDecls,
    List.filter_flatMap]
  refine List.flatMap_congr fun ⟨c, index⟩ hdef => ?_
  obtain ⟨e, he, _⟩ := exists_find?_of_definition hdef
  rw [List.filterMap_map]
  refine (hframes.overriding_checkFeatures he).trans (List.filter_congr fun pair hpair => ?_)
  obtain ⟨m, _, rfl⟩ := List.mem_map.mp hpair
  exact decide_eq_decide.mpr (mem_invalidOverrides_of_definition hdef m.name).symm

end

/-- What the analysis of any program reports on overriding. The invalid overrides of its table are
listed once each, and every one of them is declared somewhere. The reports are the declarations that
are invalid overrides, in the order of the program. So each invalid override is reported as often as
it is declared: if no class declares a method twice, there are as many reports as invalid
overrides. -/
theorem invalidOverride_reports (p : Program) :
    let t := (Members.bind p.classes (Hierarchy.build p.classes).1).1
    let declared := Hierarchy.methodDecls p.classes
    let invalid := invalidOverrides t
    let diagnostics := (Analysis.run none p).diagnostics
    invalid.Nodup ∧
      (∀ cls method, (cls, method) ∈ invalid ↔ IsInvalidOverride t cls method) ∧
      invalid ⊆ declared ∧
      diagnostics.filterMap Diagnostic.overriding? = declared.filter (· ∈ invalid) ∧
      diagnostics.countP Diagnostic.isInvalidOverride = declared.countP (· ∈ invalid) ∧
      (declared.Nodup → diagnostics.countP Diagnostic.isInvalidOverride = invalid.length) := by
  intro t declared invalid diagnostics
  have hframes : HasFrames t := hasFrames_bind p.classes
  have hsub : invalid ⊆ declared := fun pair hpair =>
    (hframes.mem_invalidOverrides.mp hpair).mem_methodDecls
  have hreports : diagnostics.filterMap Diagnostic.overriding? = declared.filter (· ∈ invalid) := by
    rw [← filterMap_overriding_reportsAt, Analysis.override_reports, filterMap_overriding_reportsAt]
    exact overriding_checkClasses p.classes
  have hcount : diagnostics.countP Diagnostic.isInvalidOverride =
      declared.countP (· ∈ invalid) := by
    rw [List.countP_eq_length_filter (p := (· ∈ invalid)), ← hreports,
      List.length_filterMap_eq_countP]
    exact List.countP_congr fun d _ => by rw [d.isInvalidOverride_eq]
  refine ⟨hframes.nodup_invalidOverrides, fun _ _ => hframes.mem_invalidOverrides, hsub, hreports,
    hcount, fun hnodup => ?_⟩
  rw [hcount, List.countP_eq_length_filter]
  refine List.Perm.length_eq ?_
  rw [List.perm_ext_iff_of_nodup (hnodup.filter _) hframes.nodup_invalidOverrides]
  intro pair
  rw [List.mem_filter, decide_eq_true_eq]
  exact ⟨And.right, fun hpair => ⟨hsub hpair, hpair⟩⟩

/-- `Square` gets both methods of `Shape` wrong, and `Tile` keeps to what `Square` has. -/
def brokenShapes : Program where
  classes := [
    { name := "Shape"
      features := [Builtin.method "area" "int", Builtin.method "scale" "int" [("by", "int")]] },
    { name := "Square", parent := some "Shape"
      features := [Builtin.method "scale" "int", Builtin.method "area" "boolean"] },
    { name := "Tile", parent := some "Square", features := [Builtin.method "area" "boolean"] }]

theorem invalidOverride_reports_brokenShapes :
    let declared := Hierarchy.methodDecls brokenShapes.classes
    declared.Nodup ∧
      (Analysis.run none brokenShapes).diagnostics.countP Diagnostic.isInvalidOverride = 2 := by
  intro declared
  have hnodup : declared.Nodup := by decide
  obtain ⟨_, _, _, _, _, hcount⟩ := invalidOverride_reports brokenShapes
  exact ⟨hnodup, (hcount hnodup).trans (by decide)⟩

/-- `Sub` has one method `size`, which is no valid override. It declares it twice. -/
def repeatedOverride : Program where
  classes := [
    { name := "Main", features := [Builtin.method "main" "void", Builtin.method "size" "int"] },
    { name := "Sub", parent := some "Main"
      features := [Builtin.method "size" "boolean", Builtin.method "size" "int"] }]

/-- One invalid override is reported twice if it is declared twice. -/
theorem invalidOverride_reported_twice :
    let t := (Members.bind repeatedOverride.classes (Hierarchy.build repeatedOverride.classes).1).1
    invalidOverrides t = [("Sub", "size")] ∧
      (Analysis.run none repeatedOverride).diagnostics.countP Diagnostic.isInvalidOverride = 2 := by
  decide

end ClassCompiler
