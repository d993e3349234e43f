import ClassCompiler.Proofs.Definitions
import ClassCompiler.Proofs.Faces

/-!
# Programs that declare nothing twice

If no class and no member is declared twice, a declaration is judged on its own: nothing depends on
what stands before it. So what an analysis does can be said class by class, without places in the
program.

Results:
1. `Hierarchy.map_find?_registeredTable`: the registered table by the names of the classes.
2. `Hierarchy.diagnostics_register_of_once`, `Hierarchy.diagnostics_linkParents_of_once`: the
   reports on the classes and their parents.
3. `Members.Framed.bindFeatures_of_once`: the frames hold the features that have no reserved name.
4. `map_face_bind`: what the table shows of a class, from its declaration and its parent.
5. `Typing.classes_checkClasses_of_once`: which classes the check goes through.
-/

namespace ClassCompiler

open Typing

/-- No two classes have the same name, and no class has two features of the same kind and name. -/
structure DeclaredOnce (classes : List ClassDecl) : Prop where
  nodup_names : (classes.map (·.name)).Nodup
  nodup_features : ∀ c ∈ classes, (c.features.map Feature.member).Nodup

namespace Hierarchy

/-! ## Registration -/

/-- The classes that can define their names. -/
def defined (classes : List ClassDecl) : List ClassDecl := classes.filter (isDefinable ·.name)

/-- The report on a class that cannot define its name, whatever stands before it. -/
def headReport? (c : ClassDecl) : Option Diagnostic := definitionReport? [] (c, 0)

section

variable {classes : List ClassDecl} (h : DeclaredOnce classes)
include h

theorem definitionProblem?_of_once {c : ClassDecl} {index : Nat} (hc : classes[index]? = some c) :
    definitionProblem? (classes.take index) c = definitionProblem? [] c := by
  have hfirst : (classes.take index).find? (·.name == c.name) = none := by
    obtain ⟨hlt, rfl⟩ := List.getElem?_eq_some_iff.mp hc
    have hsplit : classes.take index ++ classes[index] :: classes.drop (index + 1) = classes := by
      rw [← List.drop_eq_getElem_cons hlt, List.take_append_drop]
    have hnodup := h.nodup_names
    rw [← hsplit, List.map_append, List.nodup_append] at hnodup
    refine List.find?_eq_none.mpr fun d hd heq => ?_
    exact hnodup.2.2 d.name (List.mem_map_of_mem hd) _ List.mem_cons_self (beq_iff_eq.mp heq)
  rw [definitionProblem?, definitionProblem?, hfirst]
  rfl

theorem isDefinition_of_once {c : ClassDecl} {index : Nat} (hc : classes[index]? = some c) :
    isDefinition classes (c, index) = isDefinable c.name := by
  rw [Bool.eq_iff_iff, isDefinition_iff, definitionProblem?_of_once h hc,
    definitionProblem?_eq_none]
  exact ⟨And.left, fun hname => ⟨hname, rfl⟩⟩

theorem map_fst_definitions : (definitions classes).map (·.1) = defined classes := by
  have hfilter : definitions classes = classes.zipIdx.filter (isDefinable ·.1.name) :=
    List.filter_congr fun ⟨c, index⟩ hmem =>
      isDefinition_of_once h (List.mem_zipIdx_iff_getElem?.mp hmem)
  have hmap := List.filter_map (f := Prod.fst) (p := (isDefinable ·.name)) (l := classes.zipIdx)
  rw [hfilter, defined]
  conv_rhs => rw [← List.zipIdx_map_fst 0 classes]
  exact hmap.symm

theorem diagnostics_register_of_once :
    (register builtinTable 0 classes).2 = classes.filterMap headReport? := by
  rw [diagnostics_register]
  conv_rhs => rw [← List.zipIdx_map_fst 0 classes, List.filterMap_map]
  refine List.filterMap_congr fun ⟨c, index⟩ hmem => ?_
  have hc := List.mem_zipIdx_iff_getElem?.mp hmem
  rw [definitionReport?, definitionProblem?_of_once h hc]
  rfl

/-- The registered table under a name: a class of the language, or else one of the program. -/
theorem map_find?_registeredTable {α : Type} {f : ClassEntry → α} {f' : ClassDecl → α}
    (hf : ∀ c index, (c, index) ∈ definitions classes → f (userEntry index c) = f' c)
    (name : String) :
    ((registeredTable classes).find? name).map f =
      ((builtinTable.find? name).map f).or
        (((defined classes).find? (·.name == name)).map f') := by
  let defs := definitions classes
  have hentries : (defs.map fun d => userEntry d.2 d.1).find? (·.name == name) =
      (defs.find? (·.1.name == name)).map fun d => userEntry d.2 d.1 := List.find?_map
  have hclasses : (defs.map (·.1)).find? (·.name == name) =
      (defs.find? (·.1.name == name)).map (·.1) := List.find?_map
  rw [ClassTable.find?, entries_registeredTable, List.find?_append, Option.map_or, hentries,
    ← map_fst_definitions h, hclasses]
  refine congrArg _ ?_
  cases hd : defs.find? (·.1.name == name) with
  | none => rfl
  | some d => exact congrArg some (hf d.1 d.2 (List.mem_of_find?_eq_some hd))

end

/-! ## Parents -/

/-- The report on the parent of a class of the program. -/
def parentReport? (t : ClassTable) (c : ClassDecl) : Option Diagnostic :=
  (parentProblem? t (userEntry 0 c)).map (report (userEntry 0 c))

/-- The classes of the language extend the root, and this is no problem. -/
theorem declaredParent_builtin :
    ∀ e ∈ builtinTable.entries, e.declaredParent.getD objectName = objectName := by decide

theorem parentProblem?_builtin (classes : List ClassDecl) {e : ClassEntry}
    (he : e ∈ builtinTable.entries) : parentProblem? (registeredTable classes) e = none := by
  have hroot : (registeredTable classes).find? objectName = some (builtinEntry 0 Builtin.object) :=
    (prefix_registeredTable classes).find?_eq_some (show builtinTable.find? objectName = _ from rfl)
  simp only [parentProblem?, declaredParent_builtin e he, hroot]
  rfl

theorem diagnostics_linkParents_of_once {classes : List ClassDecl} (h : DeclaredOnce classes) :
    (linkParents (registeredTable classes)).2 =
      (defined classes).filterMap (parentReport? (registeredTable classes)) := by
  let t := registeredTable classes
  let f (e : ClassEntry) : Option Diagnostic := (parentProblem? t e).map (report e)
  have hbuiltin : (builtinTable.entries.filter (·.name ≠ objectName)).filterMap f = [] := by
    refine List.filterMap_eq_nil_iff.mpr fun e he => ?_
    show (parentProblem? t e).map (report e) = none
    rw [parentProblem?_builtin classes (List.mem_filter.mp he).1, Option.map_none]
  have huser : ((definitions classes).map fun d => userEntry d.2 d.1).filter
      (·.name ≠ objectName) = (definitions classes).map fun d => userEntry d.2 d.1 := by
    refine List.filter_eq_self.mpr fun e he => ?_
    obtain ⟨⟨c, i⟩, hdef, rfl⟩ := List.mem_map.mp he
    refine decide_eq_true fun hroot => ?_
    have hname : isDefinable c.name = true := by
      have hproblem := isDefinition_iff.mp (List.mem_filter.mp hdef).2
      exact (definitionProblem?_eq_none.mp hproblem).1
    rw [show c.name = objectName from hroot] at hname
    exact absurd hname (by decide)
  calc (linkParents t).2
      = (linked t).filterMap f := rfl
    _ = ((definitions classes).map fun d => userEntry d.2 d.1).filterMap f := by
      rw [linked, entries_registeredTable, List.filter_append, List.filterMap_append, hbuiltin,
        huser, List.nil_append]
    _ = ((definitions classes).map (·.1)).filterMap (parentReport? t) := by
      rw [List.filterMap_map, List.filterMap_map]
      rfl
    _ = (defined classes).filterMap (parentReport? t) := by rw [map_fst_definitions h]

end Hierarchy

/-! ## Members -/

theorem Scope.add?_of_lookup {α : Type} {frame : Frame α} {name : String}
    (h : frame.lookup name = none) (value : α) :
    add? { inner := [frame] } name value = some { inner := [frame ++ [(name, value)]] } := by
  have hpeek : peek? { inner := [frame] } name = none := h
  simp [add?, hpeek]

namespace Members

/-- The features that can be bound: those without a reserved name. -/
def kept (features : List Feature) : List Feature := features.filter (!isReserved ·.name)

/-- The reports on features with a reserved name. -/
def reservedFaults (features : List Feature) : List Fault :=
  (features.filter (isReserved ·.name)).map fun f => ⟨.reservedName (kind f) f.name, f.span⟩

def reservedReports (c : ClassDecl) : List Diagnostic :=
  (reservedFaults c.features).map (Fault.diagnostic c.file)

/-- The frame for the kind of a feature does not have its name. -/
def IsFresh (fields : Frame FieldBinding) (methods : Frame MethodBinding) : Feature → Prop
  | .field f => f.name ∉ fields.map (·.1)
  | .method m => m.name ∉ methods.map (·.1)

theorem bindFeature_reserved (c : ClassDecl) (e : ClassEntry) {f : Feature}
    (hres : isReserved f.name = true) :
    bindFeature c e f = .error (.reservedName (kind f) f.name) := by
  cases f with
  | field f => exact if_pos hres
  | method m => exact if_pos hres

section

variable {e e' : ClassEntry} {c c' : ClassDecl} (hentry : e'.isBuiltin = e.isBuiltin)
  (hfile : c'.file = c.file)
include hentry hfile

/-- What a feature adds depends on where the class comes from, not on its members. -/
theorem fieldPart_congr : fieldPart e' c' = fieldPart e c := by
  funext f
  cases f with
  | field f => simp only [fieldPart, fieldBinding, location, hentry, hfile]
  | method m => rfl

theorem methodPart_congr : methodPart e' c' = methodPart e c := by
  funext f
  cases f with
  | field f => rfl
  | method m => simp only [methodPart, methodBinding, location, hentry, hfile]

end

namespace Framed

variable {e : ClassEntry} {fields : Frame FieldBinding} {methods : Frame MethodBinding}

theorem exists_bindFeature (h : Framed e fields methods) (c : ClassDecl) {f : Feature}
    (hres : isReserved f.name = false) (hfresh : IsFresh fields methods f) :
    ∃ e', Members.bindFeature c e f = .ok e' := by
  cases f with
  | field f =>
    have hpseudo : f.name ∉ (pseudoFrame e).map (·.1) := by
      intro hmem
      rcases List.mem_pair.mp hmem with heq | heq
      · rw [show (Feature.field f).name = "this" from heq] at hres
        cases hres
      · rw [show (Feature.field f).name = "super" from heq] at hres
        cases hres
    have hlookup : (pseudoFrame e ++ fields).lookup f.name = none := by
      rw [lookup_eq_none_iff_not_mem, List.map_append]
      exact fun hmem => (List.mem_append.mp hmem).elim hpseudo hfresh
    simp only [Members.bindFeature, show isReserved f.name = false from hres, h.fields_eq,
      Scope.add?_of_lookup hlookup]
    exact ⟨_, rfl⟩
  | method m =>
    have hlookup : methods.lookup m.name = none := lookup_eq_none_iff_not_mem.mpr hfresh
    simp only [Members.bindFeature, show isReserved m.name = false from hres, h.methods_eq,
      Scope.add?_of_lookup hlookup]
    exact ⟨_, rfl⟩

/-- A feature that is bound leaves features of other names fresh. -/
theorem isFresh_append {c : ClassDecl} {f g : Feature} (hne : g.member ≠ f.member)
    (hfresh : IsFresh fields methods g) :
    IsFresh (fields ++ fieldPart e c f) (methods ++ methodPart e c f) g := by
  cases f with
  | field f =>
    cases g with
    | field g =>
      have hname : g.name ≠ f.name := fun heq => hne (congrArg Member.field heq)
      simpa [IsFresh, fieldPart, hname] using hfresh
    | method m => simpa [IsFresh, methodPart] using hfresh
  | method m =>
    cases g with
    | field g => simpa [IsFresh, fieldPart] using hfresh
    | method g =>
      have hname : g.name ≠ m.name := fun heq => hne (congrArg Member.method heq)
      simpa [IsFresh, methodPart, hname] using hfresh

/-- Features that are declared once are bound in order, unless their names are reserved. -/
theorem bindFeatures_of_once (h : Framed e fields methods) (c : ClassDecl)
    {features : List Feature} (hnodup : (features.map Feature.member).Nodup)
    (hfresh : ∀ f ∈ features, isReserved f.name = false → IsFresh fields methods f) :
    Framed (Members.bindFeatures c e features).1
        (fields ++ (kept features).flatMap (fieldPart e c))
        (methods ++ (kept features).flatMap (methodPart e c)) ∧
      (Members.bindFeatures c e features).2 = reservedFaults features := by
  induction features generalizing e fields methods with
  | nil => exact ⟨by simpa [Members.bindFeatures, kept] using h, rfl⟩
  | cons f rest ih =>
    obtain ⟨hnew, hnodup⟩ := List.nodup_cons.mp hnodup
    unfold Members.bindFeatures
    cases hres : isReserved f.name with
    | true =>
      obtain ⟨hframed, hfaults⟩ := ih h hnodup fun g hg => hfresh g (List.mem_cons_of_mem _ hg)
      rw [bindFeature_reserved c e hres]
      refine ⟨by simpa [kept, hres] using hframed, ?_⟩
      simp [reservedFaults, hres, hfaults]
    | false =>
      obtain ⟨e', hok⟩ := h.exists_bindFeature c hres (hfresh f List.mem_cons_self hres)
      have hbuiltin : e'.isBuiltin = e.isBuiltin :=
        (congrArg ClassEntry.isBuiltin (bare_bindFeature hok) :)
      obtain ⟨hframed, hfaults⟩ := ih (h.bindFeature hok) hnodup fun g hg hgres =>
        isFresh_append (fun heq => hnew (heq ▸ List.mem_map_of_mem hg))
          (hfresh g (List.mem_cons_of_mem _ hg) hgres)
      rw [hok]
      refine ⟨?_, by simpa [reservedFaults, hres] using hfaults⟩
      rw [fieldPart_congr hbuiltin rfl, methodPart_congr hbuiltin rfl] at hframed
      simpa [kept, hres] using hframed

end Framed

/-- The frames of a class with features that are declared once. -/
theorem framed_of_once {e : ClassEntry} (hbare : e.bare = e) {c : ClassDecl}
    (hnodup : (c.features.map Feature.member).Nodup) :
    Framed (bindFeatures c (openFrames e) c.features).1 ((kept c.features).flatMap (fieldPart e c))
        ((kept c.features).flatMap (methodPart e c)) ∧
      (bindFeatures c (openFrames e) c.features).2 = reservedFaults c.features := by
  have hfresh (f : Feature) : IsFresh [] [] f := by cases f <;> exact List.not_mem_nil
  exact (framed_openFrames hbare).bindFeatures_of_once c hnodup fun f _ _ => hfresh f

theorem bindEntry_of_once {classes : List ClassDecl} {e : ClassEntry} (hbare : e.bare = e)
    {c : ClassDecl} (hdecl : e.origin.decl? classes = some c)
    (hnodup : (c.features.map Feature.member).Nodup) :
    Framed (bindEntry classes e).1 ((kept c.features).flatMap (fieldPart e c))
        ((kept c.features).flatMap (methodPart e c)) ∧
      (bindEntry classes e).2 = reservedReports c := by
  obtain ⟨hframed, hfaults⟩ := framed_of_once hbare hnodup
  unfold bindEntry
  rw [hdecl]
  exact ⟨hframed, congrArg (List.map (Fault.diagnostic c.file)) hfaults⟩

end Members

/-! ## The table -/

/-- The entry of a class without its place in the program. -/
def plainEntry (builtin : Bool) (c : ClassDecl) (parent : Option String) : ClassEntry where
  name := c.name
  parent
  declaredParent := c.parent
  origin := if builtin then .builtin 0 else .user 0
  location := if builtin then .builtin else .source c.file c.span

/-- The face of a class with the given parent whose features are declared once. -/
def Face.ofDecl (builtin : Bool) (c : ClassDecl) (parent : Option String) : Face :=
  let e := plainEntry builtin c parent
  let fields := (Members.kept c.features).flatMap (Members.fieldPart e c)
  let methods := (Members.kept c.features).flatMap (Members.methodPart e c)
  { name := c.name
    parent
    location := e.location
    field? := fun name => (Members.pseudoFrame e ++ fields).lookup name
    method? := fun name => methods.lookup name
    ownMethod? := fun name => methods.lookup name }

/-- What an entry shows, by the declaration at its origin. -/
def declaredFace? (classes : List ClassDecl) (parent : Option String) (e : ClassEntry) :
    Option Face :=
  (e.origin.decl? classes).map (Face.ofDecl e.isBuiltin · parent)

theorem isBuiltin_plainEntry (builtin : Bool) (c : ClassDecl) (parent : Option String) :
    (plainEntry builtin c parent).isBuiltin = builtin := by cases builtin <;> rfl

section

variable {classes : List ClassDecl}

theorem face_bindEntry {e : ClassEntry} (hbare : e.bare = e) {c : ClassDecl}
    (hdecl : e.origin.decl? classes = some c) (hnodup : (c.features.map Feature.member).Nodup)
    (hname : e.name = c.name)
    (hlocation : e.location = if e.isBuiltin then .builtin else .source c.file c.span) :
    (Members.bindEntry classes e).1.face = Face.ofDecl e.isBuiltin c e.parent := by
  have hframed := (Members.bindEntry_of_once hbare hdecl hnodup).1
  have hsame := Members.bare_bindEntry classes e
  have hname' := (ClassEntry.name_of_bare hsame).trans hname
  have hparent' := ClassEntry.parent_of_bare hsame
  have hlocation' := (Members.location_bindEntry classes e).trans hlocation
  have hpseudo : Members.pseudoFrame (Members.bindEntry classes e).1 =
      Members.pseudoFrame (plainEntry e.isBuiltin c e.parent) := by
    simp only [Members.pseudoFrame, hname', hparent', hlocation', plainEntry]
  have hbuiltin := (isBuiltin_plainEntry e.isBuiltin c e.parent).symm
  have hfields := hframed.fields_eq
  have hmethods := hframed.methods_eq
  rw [hpseudo, Members.fieldPart_congr hbuiltin rfl] at hfields
  rw [Members.methodPart_congr hbuiltin rfl] at hmethods
  have hlookup (frame : Frame MethodBinding) (name : String) :
      Scope.peek? { inner := [frame] } name = frame.lookup name := rfl
  simp only [ClassEntry.face, Face.ofDecl, Face.mk.injEq, hname', hparent', hlocation', hfields,
    hmethods, plainEntry, funext_iff, Scope.lookup?_single, hlookup, implies_true, and_self]

theorem DeclaredOnce.nodup_of_decl (h : DeclaredOnce classes) {o : Origin} {c : ClassDecl}
    (hdecl : o.decl? classes = some c) : (c.features.map Feature.member).Nodup := by
  have hbuiltin : ∀ c ∈ builtinClasses, (c.features.map Feature.member).Nodup := by decide
  rcases List.mem_append.mp (Origin.mem_of_decl? hdecl) with hc | hc
  · exact hbuiltin c hc
  · exact h.nodup_features c hc

/-- What the table shows of a class depends on its declaration and its parent only. -/
theorem map_face_bind (h : DeclaredOnce classes) (name : String) :
    ((Members.bind classes (Hierarchy.build classes).1).1.find? name).map (some ·.face) =
      ((Hierarchy.registeredTable classes).find? name).map
        (declaredFace? classes ((Hierarchy.build classes).1.parent? name)) := by
  rw [Members.find?_bind]
  cases he : (Hierarchy.build classes).1.find? name with
  | none =>
    have hnone : (Hierarchy.registeredTable classes).find? name = none := by
      rw [ClassTable.find?_eq_none, ← Hierarchy.names_build]
      exact ClassTable.find?_eq_none.mp he
    rw [hnone]
    rfl
  | some e =>
    have hmem := ClassTable.mem_of_find? he
    have hreg := Hierarchy.find?_registered he
    obtain ⟨hbare, c, hdecl, hname⟩ := Hierarchy.exists_decl_of_mem hmem
    have hfrom := (Hierarchy.registered_registeredTable classes).fromDecl _
      (ClassTable.mem_of_find? hreg)
    have hface := face_bindEntry hbare hdecl (h.nodup_of_decl hdecl) hname.symm
      (hfrom.location_eq hdecl)
    have hdecl' : e.unlinked.origin.decl? classes = some c := hdecl
    rw [hreg, ClassTable.parent?, he, Option.map_some, Option.map_some, Option.map_some, hface,
      declaredFace?, hdecl']
    rfl

/-! ## Reports and classes -/

namespace Members

/-- The reports on the declaration at the origin of an entry. -/
def reservedReportsAt (classes : List ClassDecl) (e : ClassEntry) : List Diagnostic :=
  (e.origin.decl? classes).elim [] reservedReports

theorem reservedReportsAt_builtin (classes : List ClassDecl) {e : ClassEntry}
    (he : e ∈ Hierarchy.builtinTable.entries) : reservedReportsAt classes e = [] := by
  have hnone : ∀ c ∈ builtinClasses, reservedFaults c.features = [] := by decide
  obtain ⟨⟨c, index⟩, hmem, rfl⟩ := List.mem_map.mp he
  have hc := List.mem_zipIdx_iff_getElem?.mp hmem
  simp only [reservedReportsAt, Hierarchy.builtinEntry, Origin.decl?, hc]
  exact congrArg (List.map _) (hnone c (List.mem_of_getElem? hc))

/-- The members are reported whose names are reserved. -/
theorem diagnostics_bind_of_once (h : DeclaredOnce classes) :
    (bind classes (Hierarchy.build classes).1).2 =
      (Hierarchy.defined classes).flatMap reservedReports := by
  have hentry : ∀ e ∈ (Hierarchy.build classes).1.entries,
      (bindEntry classes e).2 = reservedReportsAt classes e.unlinked := by
    intro e he
    obtain ⟨hbare, c, hdecl, _⟩ := Hierarchy.exists_decl_of_mem he
    have hdecl' : e.unlinked.origin.decl? classes = some c := hdecl
    rw [(bindEntry_of_once hbare hdecl (h.nodup_of_decl hdecl)).2, reservedReportsAt, hdecl']
    rfl
  have hbuiltin : Hierarchy.builtinTable.entries.flatMap (reservedReportsAt classes) = [] :=
    List.flatMap_eq_nil_iff.mpr fun e he => reservedReportsAt_builtin classes he
  have huser : ∀ d ∈ Hierarchy.definitions classes,
      reservedReportsAt classes (Hierarchy.userEntry d.2 d.1) = reservedReports d.1 := by
    intro d hd
    have hc : classes[d.2]? = some d.1 := (Hierarchy.mem_definitions.mp hd).1
    simp only [reservedReportsAt, Hierarchy.userEntry, Origin.decl?, hc]
    rfl
  calc (bind classes (Hierarchy.build classes).1).2
      = (Hierarchy.build classes).1.entries.flatMap fun e => (bindEntry classes e).2 := by
        rw [bind, List.flatMap_map]
    _ = (Hierarchy.registeredTable classes).entries.flatMap (reservedReportsAt classes) := by
      rw [List.flatMap_congr hentry, ← Hierarchy.unlinked_build, List.flatMap_map]
    _ = (Hierarchy.definitions classes).flatMap fun d => reservedReports d.1 := by
      rw [Hierarchy.entries_registeredTable, List.flatMap_append, hbuiltin, List.nil_append,
        List.flatMap_map, List.flatMap_congr huser]
    _ = (Hierarchy.defined classes).flatMap reservedReports := by
      rw [← Hierarchy.map_fst_definitions h, List.flatMap_map]

end Members

/-- The form of a class after the check against a table: one that cannot define its name is left as
it is. -/
def Typing.annotated (t : ClassTable) (c : ClassDecl) : ClassDecl :=
  if Hierarchy.isDefinable c.name then checkedClass t c else c

section

variable (h : DeclaredOnce classes)
include h

theorem Typing.diagnostics_checkClasses_of_once :
    let t := (Members.bind classes (Hierarchy.build classes).1).1
    (checkClasses t none 0 0 classes).diagnostics =
      (Hierarchy.defined classes).flatMap fun c =>
        (c.features.flatMap fun f => (checkFeature (homeOf t c) f).2).map
          (Fault.diagnostic c.file) := by
  intro t
  rw [diagnostics_checkClasses_bind, ← Hierarchy.map_fst_definitions h, List.flatMap_map]

theorem Typing.classes_checkClasses_of_once :
    let t := (Members.bind classes (Hierarchy.build classes).1).1
    (checkClasses t none 0 0 classes).classes = classes.map (annotated t) := by
  intro t
  have hclass : ∀ d ∈ classes.zipIdx, (checkClass t d.2 d.1).1 = annotated t d.1 := by
    rintro ⟨c, i⟩ hmem
    have hc := List.mem_zipIdx_iff_getElem?.mp hmem
    have hchecked : IsChecked t i c ↔ Hierarchy.isDefinable c.name = true := by
      rw [isChecked_iff hc, ← Hierarchy.isDefinition_of_once h hc, Hierarchy.definitions,
        List.mem_filter]
      exact ⟨fun hdef => hdef.2, fun hdef => ⟨hmem, hdef⟩⟩
    by_cases hdef : IsChecked t i c
    · rw [checkClass_of_isChecked hdef, annotated, if_pos (hchecked.mp hdef)]
    · rw [annotated, if_neg (mt hchecked.mpr hdef)]
      exact congrArg Prod.fst (if_neg hdef)
  rw [checkClasses_none]
  conv_rhs => rw [← List.zipIdx_map_fst 0 classes, List.map_map]
  exact List.map_congr_left hclass

end

end

end ClassCompiler
