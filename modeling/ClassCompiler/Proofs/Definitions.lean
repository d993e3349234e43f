import ClassCompiler.Proofs.Stages

/-!
# One definition for each name

Several classes of a program may have one name, or a name that no class can have. Registration keeps
the first class of each name that can be defined. Linking, binding and checking find the definition
again, each in its own way, and all find the same one.

Results:
1. `Hierarchy.register_eq`: what registration keeps and what it reports, by the classes alone.
   `Hierarchy.Tracks.skip` and `Hierarchy.Tracks.push` are the two steps.
2. `Typing.isChecked_iff`: the check looks at the definitions and at no other class.
3. `Members.boundFrom_bindEntry`: what is bound in an entry is a feature of its definition.
4. `one_definition_per_name`: all of it, for the analysis of any program.
-/

namespace ClassCompiler

open Typing

namespace Hierarchy

/-! ## Definitions -/

/-- A class of the program can have the name: it is not reserved and no class of the language has
it. -/
def isDefinable (name : String) : Bool :=
  !isReserved name && !builtinClasses.any (·.name == name)

/-- The class at a place is the first one of its name, and the name can be defined. -/
def isDefinition (classes : List ClassDecl) (c : ClassDecl × Nat) : Bool :=
  isDefinable c.1.name && !(classes.take c.2).any (·.name == c.1.name)

/-- The classes that define their names, each with its place in the program. -/
def definitions (classes : List ClassDecl) : List (ClassDecl × Nat) :=
  classes.zipIdx.filter (isDefinition classes)

/-- Why a class that comes after the classes `before` does not define its name. -/
def definitionProblem? (before : List ClassDecl) (c : ClassDecl) : Option Problem :=
  if isReserved c.name then some (.reservedName .cls c.name)
  else if builtinClasses.any (·.name == c.name) then some (.builtinRedefined c.name)
  else (before.find? (·.name == c.name)).map fun first =>
    .duplicateClass c.name (.source first.file first.span)

/-- The report on a class that does not define its name. -/
def definitionReport? (classes : List ClassDecl) (c : ClassDecl × Nat) : Option Diagnostic :=
  (definitionProblem? (classes.take c.2) c.1).map fun problem =>
    Fault.diagnostic c.1.file ⟨problem, c.1.span⟩

theorem definitionProblem?_eq_none {before : List ClassDecl} {c : ClassDecl} :
    definitionProblem? before c = none ↔
      isDefinable c.name = true ∧ before.find? (·.name == c.name) = none := by
  unfold definitionProblem? isDefinable
  cases hres : isReserved c.name with
  | true => simp
  | false =>
    cases hbuiltin : builtinClasses.any (·.name == c.name) with
    | true => simp
    | false => simp

theorem isDefinition_iff {classes : List ClassDecl} {c : ClassDecl × Nat} :
    isDefinition classes c = true ↔ definitionProblem? (classes.take c.2) c.1 = none := by
  rw [definitionProblem?_eq_none]
  simp [isDefinition]

theorem mem_definitions {classes : List ClassDecl} {c : ClassDecl} {index : Nat} :
    (c, index) ∈ definitions classes ↔
      classes[index]? = some c ∧ definitionReport? classes (c, index) = none := by
  rw [definitions, List.mem_filter, List.mem_zipIdx_iff_getElem?, isDefinition_iff,
    definitionReport?, Option.map_eq_none_iff]

/-! ## Registration -/

theorem find?_push (t : ClassTable) (e : ClassEntry) (name : String) :
    (t.push e).find? name = (t.find? name).or (if e.name = name then some e else none) := by
  unfold ClassTable.push ClassTable.find?
  rw [List.find?_append, List.find?_singleton]
  simp only [beq_iff_eq]

/-- The table knows the classes in `done` as far as later classes can tell: who has a name, and
where the class of that name was defined. -/
structure Tracks (done : List ClassDecl) (t : ClassTable) : Prop where
  builtin : ∀ c ∈ builtinClasses, ∃ e, t.find? c.name = some e ∧ e.isBuiltin = true
  user : ∀ name, isDefinable name = true →
    (t.find? name).map (fun e => (e.isBuiltin, e.location)) =
      (done.find? (·.name == name)).map fun c => (false, .source c.file c.span)

namespace Tracks

variable {done : List ClassDecl} {t : ClassTable} (h : Tracks done t) {c : ClassDecl}
include h

/-- The table rejects a class for the reason that the classes before it give. -/
theorem rejection?_eq (c : ClassDecl) : rejection? t c = definitionProblem? done c := by
  unfold rejection? definitionProblem?
  cases hres : isReserved c.name with
  | true => rfl
  | false =>
    cases hbuiltin : builtinClasses.any (·.name == c.name) with
    | true =>
      obtain ⟨b, hb, hname⟩ := List.any_eq_true.mp hbuiltin
      obtain ⟨e, he, hisBuiltin⟩ := h.builtin b hb
      rw [beq_iff_eq.mp hname] at he
      simp [he, hisBuiltin]
    | false =>
      have huser := h.user c.name (by simp [isDefinable, hres, hbuiltin])
      cases hfirst : done.find? (·.name == c.name) with
      | none =>
        rw [hfirst, Option.map_none, Option.map_eq_none_iff] at huser
        simp [huser]
      | some first =>
        rw [hfirst, Option.map_some] at huser
        obtain ⟨e, he, hpair⟩ := Option.map_eq_some_iff.mp huser
        obtain ⟨hisBuiltin, hlocation⟩ := Prod.mk.inj hpair
        simp [he, hisBuiltin, hlocation]

/-- A class that does not define its name leaves the table as it is. -/
theorem skip (hc : definitionProblem? done c ≠ none) : Tracks (done ++ [c]) t where
  builtin := h.builtin
  user := by
    intro name hname
    rw [h.user name hname, List.find?_append]
    cases hfirst : done.find? (·.name == name) with
    | some first => rfl
    | none =>
      -- if the class had this name it would define it
      have hne : c.name ≠ name := by
        rintro rfl
        exact hc (definitionProblem?_eq_none.mpr ⟨hname, hfirst⟩)
      simp [hne]

/-- A class that is entered is known from then on, unless there was one of its name before. -/
theorem push (c : ClassDecl) (index : Nat) :
    Tracks (done ++ [c]) (t.push (userEntry index c)) where
  builtin := by
    intro b hb
    obtain ⟨e, he, hisBuiltin⟩ := h.builtin b hb
    exact ⟨e, by rw [find?_push, he, Option.some_or], hisBuiltin⟩
  user := by
    intro name hname
    rw [find?_push, List.find?_append, Option.map_or, Option.map_or, h.user name hname]
    refine congrArg (Option.or _) ?_
    by_cases hcname : c.name = name
    · simp [hcname, userEntry, ClassEntry.isBuiltin, Origin.isBuiltin]
    · simp [hcname, userEntry]

end Tracks

theorem tracks_builtinTable : Tracks [] builtinTable where
  builtin := by decide
  user := by
    intro name hname
    have hfresh : builtinTable.find? name = none := by
      rw [ClassTable.find?_eq_none]
      intro hmem
      obtain ⟨c, hc, rfl⟩ : ∃ c ∈ builtinClasses, c.name = name :=
        List.mem_map (f := fun c : ClassDecl => c.name).mp hmem
      have hbuiltin : builtinClasses.any (·.name == c.name) = true :=
        List.any_eq_true.mpr ⟨c, hc, beq_self_eq_true c.name⟩
      simp [isDefinable, hbuiltin] at hname
    rw [hfresh]
    rfl

/-- Registration enters the definitions in order, and reports the other classes in order. -/
theorem register_eq {classes done rest : List ClassDecl} (hsplit : classes = done ++ rest)
    {t : ClassTable} (h : Tracks done t) :
    register t done.length rest =
      (⟨t.entries ++ ((rest.zipIdx done.length).filter (isDefinition classes)).map
          fun (c, i) => userEntry i c⟩,
        (rest.zipIdx done.length).filterMap (definitionReport? classes)) := by
  induction rest generalizing done t with
  | nil => simp [register]
  | cons c rest ih =>
    have hnext : classes = (done ++ [c]) ++ rest := by simp [hsplit]
    have hlen : (done ++ [c]).length = done.length + 1 := by simp
    have htake : classes.take done.length = done := by simp [hsplit]
    unfold register
    rw [h.rejection?_eq c, List.zipIdx_cons]
    cases hproblem : definitionProblem? done c with
    | some problem =>
      have hrest := ih hnext (h.skip (by rw [hproblem]; exact Option.some_ne_none _))
      have hskip : isDefinition classes (c, done.length) = false := by
        rw [Bool.eq_false_iff, ne_eq, isDefinition_iff, htake, hproblem]
        exact Option.some_ne_none _
      have hreport : definitionReport? classes (c, done.length) =
          some (Fault.diagnostic c.file ⟨problem, c.span⟩) := by
        rw [definitionReport?, htake, hproblem, Option.map_some]
      rw [hlen] at hrest
      rw [List.filter_cons_of_neg (by simp [hskip]), List.filterMap_cons_some hreport]
      simp only [hrest]
    | none =>
      have hrest := ih hnext (h.push c done.length)
      have hkeep : isDefinition classes (c, done.length) = true := by
        rw [isDefinition_iff, htake, hproblem]
      have hreport : definitionReport? classes (c, done.length) = none := by
        rw [definitionReport?, htake, hproblem, Option.map_none]
      rw [hlen] at hrest
      rw [List.filter_cons_of_pos hkeep, List.filterMap_cons_none hreport]
      simp only [hrest, List.map_cons]
      rw [ClassTable.push, List.append_assoc]
      rfl

section

variable (classes : List ClassDecl)

theorem entries_registeredTable :
    (registeredTable classes).entries =
      builtinTable.entries ++ (definitions classes).map fun d => userEntry d.2 d.1 :=
  congrArg (·.1.entries) (register_eq (List.nil_append classes).symm tracks_builtinTable)

theorem diagnostics_register :
    (register builtinTable 0 classes).2 = classes.zipIdx.filterMap (definitionReport? classes) :=
  congrArg (·.2) (register_eq (List.nil_append classes).symm tracks_builtinTable)

theorem names_registeredTable :
    (registeredTable classes).names =
      builtinClasses.map (·.name) ++ (definitions classes).map (·.1.name) := by
  rw [ClassTable.names, entries_registeredTable, List.map_append, List.map_map]
  rfl

end

end Hierarchy

/-! ## Which classes are checked -/

namespace Members

variable {classes : List ClassDecl}

theorem origin_bindEntry (classes : List ClassDecl) (e : ClassEntry) :
    (bindEntry classes e).1.origin = e.origin :=
  (congrArg ClassEntry.origin (bare_bindEntry classes e) :)

theorem location_bindEntry (classes : List ClassDecl) (e : ClassEntry) :
    (bindEntry classes e).1.location = e.location :=
  (congrArg ClassEntry.location (bare_bindEntry classes e) :)

/-- What an entry of the final table has from registration. -/
theorem map_bind_build {α : Type} {f : ClassEntry → α} (hlinks : ∀ e, f e.unlinked = f e)
    (hmembers : ∀ e, f (bindEntry classes e).1 = f e) :
    (bind classes (Hierarchy.build classes).1).1.entries.map f =
      (Hierarchy.registeredTable classes).entries.map f := by
  rw [bind_eq, ← Hierarchy.unlinked_build, List.map_map, List.map_map]
  refine List.map_congr_left fun e _ => ?_
  rw [Function.comp_apply, Function.comp_apply, hlinks, hmembers]

end Members

theorem Typing.isChecked_iff_find? {t : ClassTable} {index : Nat} {c : ClassDecl} :
    IsChecked t index c ↔ ∃ e, t.find? c.name = some e ∧ e.origin = .user index := by
  unfold IsChecked
  rw [Option.any_eq_true]
  simp only [decide_eq_true_eq]

/-- The check looks at the classes that define their names. -/
theorem Typing.isChecked_iff {classes : List ClassDecl} {index : Nat} {c : ClassDecl}
    (hc : classes[index]? = some c) :
    IsChecked (Members.bind classes (Hierarchy.build classes).1).1 index c ↔
      (c, index) ∈ Hierarchy.definitions classes := by
  have hentries := Hierarchy.entries_registeredTable classes
  rw [isChecked_iff_find?, Members.find?_bind]
  constructor
  · rintro ⟨bound, hbound, horigin⟩
    obtain ⟨e, he, rfl⟩ := Option.map_eq_some_iff.mp hbound
    rw [Members.origin_bindEntry] at horigin
    have hmem := ClassTable.mem_of_find? (Hierarchy.find?_registered he)
    rw [hentries] at hmem
    rcases List.mem_append.mp hmem with hmem | hmem
    · -- a class of the language has another origin
      obtain ⟨⟨b, i⟩, _, heq⟩ := List.mem_map.mp hmem
      have hbuiltin : e.origin = .builtin i := (congrArg ClassEntry.origin heq :).symm
      cases horigin.symm.trans hbuiltin
    · obtain ⟨⟨d, i⟩, hdef, heq⟩ := List.mem_map.mp hmem
      have huser : e.origin = .user i := (congrArg ClassEntry.origin heq :).symm
      cases horigin.symm.trans huser
      cases hc.symm.trans (Hierarchy.mem_definitions.mp hdef).1
      exact hdef
  · intro hdef
    have hmem : Hierarchy.userEntry index c ∈ (Hierarchy.registeredTable classes).entries := by
      rw [hentries]
      exact List.mem_append_right _ (List.mem_map.mpr ⟨(c, index), hdef, rfl⟩)
    obtain ⟨e, he, _, hfresh⟩ := Hierarchy.find?_of_mem_registered hmem
    refine ⟨(Members.bindEntry classes e).1, Option.map_eq_some_iff.mpr ⟨e, he, rfl⟩, ?_⟩
    rw [Members.origin_bindEntry]
    exact (congrArg ClassEntry.origin hfresh :)

theorem flatMap_filter {α β : Type} (p : α → Bool) (f : α → List β) (as : List α) :
    (as.filter p).flatMap f = as.flatMap fun a => if p a then f a else [] := by
  induction as with
  | nil => rfl
  | cons a as ih =>
    rw [List.flatMap_cons, List.filter_cons, ← ih]
    cases p a <;> rfl

/-- All reports of the check are on members of the definitions. -/
theorem Typing.diagnostics_checkClasses_bind (classes : List ClassDecl) :
    let t := (Members.bind classes (Hierarchy.build classes).1).1
    (checkClasses t none 0 0 classes).diagnostics =
      (Hierarchy.definitions classes).flatMap fun (c, _) =>
        (c.features.flatMap fun f => (checkFeature (homeOf t c) f).2).map
          (Fault.diagnostic c.file) := by
  intro t
  rw [checkClasses_none, Hierarchy.definitions, flatMap_filter]
  refine List.flatMap_congr fun ⟨c, i⟩ hmem => ?_
  have hc := List.mem_zipIdx_iff_getElem?.mp hmem
  have hdef : Hierarchy.isDefinition classes (c, i) = true ↔ IsChecked t i c := by
    rw [isChecked_iff hc, Hierarchy.definitions, List.mem_filter]
    exact ⟨fun h => ⟨hmem, h⟩, fun h => h.2⟩
  by_cases hchecked : IsChecked t i c
  · rw [if_pos (hdef.mpr hchecked)]
    exact congrArg Prod.snd (checkClass_of_isChecked hchecked)
  · rw [if_neg (mt hdef.mp hchecked)]
    exact congrArg Prod.snd (if_neg hchecked)

/-! ## What is bound -/

theorem Scope.toList_add? {α : Type} {s s' : Scope α} {name : String} {value : α}
    (h : s.add? name value = some s') : s'.toList = s.toList ++ [(name, value)] := by
  unfold add? at h
  split at h
  · cases h
  · split at h
    · next hinner =>
      cases h
      simp [toList, frames, hinner]
    · next frame rest hinner =>
      cases h
      simp [toList, frames, hinner]

/-- The member that a feature becomes. -/
def Feature.member : Feature → Member
  | .field f => .field f.name
  | .method m => .method m.name

namespace Members

/-- Everything bound in an entry is a feature of the class, with a name that is not reserved. Only
`this` and `super` are bound without a declaration. -/
structure BoundFrom (c : ClassDecl) (e : ClassEntry) : Prop where
  fields : ∀ b ∈ e.fields.toList, b.2.role = .declared →
    ∃ f, .field f ∈ c.features ∧ isReserved f.name = false ∧ b = (f.name, fieldBinding e c f)
  methods : ∀ b ∈ e.methods.toList,
    ∃ m, .method m ∈ c.features ∧ isReserved m.name = false ∧ b = (m.name, methodBinding e c m)
  members : ∀ m ∈ e.members, ∃ f ∈ c.features, f.member = m

namespace BoundFrom

variable {c : ClassDecl} {e : ClassEntry}

theorem bindFeature (h : BoundFrom c e) {f : Feature} (hf : f ∈ c.features) {e' : ClassEntry}
    (hok : Members.bindFeature c e f = .ok e') : BoundFrom c e' := by
  have hmembers (f : Feature) (hf : f ∈ c.features) :
      ∀ m ∈ e.members ++ [f.member], ∃ f ∈ c.features, f.member = m := by
    intro m hm
    rcases List.mem_append.mp hm with hm | hm
    · exact h.members m hm
    · exact ⟨f, hf, (List.mem_singleton.mp hm).symm⟩
  cases f with
  | field f =>
    obtain ⟨hres, fields, hadd, rfl⟩ := bindFeature_field hok
    refine ⟨fun b hb hrole => ?_, h.methods, hmembers (.field f) hf⟩
    rw [Scope.toList_add? hadd] at hb
    rcases List.mem_append.mp hb with hb | hb
    · exact h.fields b hb hrole
    · exact ⟨f, hf, hres, List.mem_singleton.mp hb⟩
  | method m =>
    obtain ⟨hres, methods, hadd, rfl⟩ := bindFeature_method hok
    refine ⟨h.fields, fun b hb => ?_, hmembers (.method m) hf⟩
    rw [Scope.toList_add? hadd] at hb
    rcases List.mem_append.mp hb with hb | hb
    · exact h.methods b hb
    · exact ⟨m, hf, hres, List.mem_singleton.mp hb⟩

theorem bindFeatures (h : BoundFrom c e) {features : List Feature} (hsub : features ⊆ c.features) :
    BoundFrom c (Members.bindFeatures c e features).1 := by
  induction features generalizing e with
  | nil => exact h
  | cons f rest ih =>
    obtain ⟨hf, hrest⟩ := List.cons_subset.mp hsub
    unfold Members.bindFeatures
    cases hok : Members.bindFeature c e f with
    | ok e' => exact ih (h.bindFeature hf hok) hrest
    | error problem => exact ih h hrest

end BoundFrom

theorem boundFrom_openFrames {e : ClassEntry} (hbare : e.bare = e) (c : ClassDecl) :
    BoundFrom c (openFrames e) := by
  rw [← hbare]
  refine ⟨fun b hb hrole => ?_, fun b hb => absurd hb List.not_mem_nil,
    fun m hm => absurd hm List.not_mem_nil⟩
  rcases List.mem_pair.mp hb with rfl | rfl
  · cases hrole
  · cases hrole

/-- An entry of the table is bound to the declaration at its origin. -/
theorem boundFrom_bindEntry {classes : List ClassDecl} {e : ClassEntry} (hbare : e.bare = e)
    {c : ClassDecl} (hdecl : e.origin.decl? classes = some c) :
    BoundFrom c (bindEntry classes e).1 := by
  unfold bindEntry
  rw [hdecl]
  exact (boundFrom_openFrames hbare c).bindFeatures (List.Subset.refl c.features)

end Members

/-! ## The whole analysis -/

theorem Hierarchy.FromDecl.location_eq {classes : List ClassDecl} {e : ClassEntry}
    (h : FromDecl classes e) {c : ClassDecl} (hdecl : e.origin.decl? classes = some c) :
    e.location = if e.isBuiltin then .builtin else .source c.file c.span := by
  cases h with
  | builtin _ => rfl
  | user hc =>
    cases hc.symm.trans hdecl
    rfl

/-- The entry is that of the declaration at its origin: it has its name and its place, and all that
is bound in it comes from there. -/
structure IsEntryOf (classes : List ClassDecl) (c : ClassDecl) (e : ClassEntry) : Prop where
  decl : e.origin.decl? classes = some c
  name : e.name = c.name
  location : e.location = if e.isBuiltin then .builtin else .source c.file c.span
  bound : Members.BoundFrom c e

theorem isEntryOf_of_mem {classes : List ClassDecl} {e : ClassEntry}
    (he : e ∈ (Members.bind classes (Hierarchy.build classes).1).1.entries) :
    ∃ c, IsEntryOf classes c e := by
  obtain ⟨fresh, hfresh, rfl⟩ := Members.mem_bind.mp he
  obtain ⟨hbare, c, hdecl, hname⟩ := Hierarchy.exists_decl_of_mem hfresh
  have horigin := Members.origin_bindEntry classes fresh
  have hregistered : fresh.unlinked ∈ (Hierarchy.registeredTable classes).entries := by
    rw [← Hierarchy.unlinked_build]
    exact List.mem_map_of_mem hfresh
  have hfrom := (Hierarchy.registered_registeredTable classes).fromDecl _ hregistered
  refine ⟨c, horigin ▸ hdecl, ?_, ?_, Members.boundFrom_bindEntry hbare hdecl⟩
  · exact (ClassEntry.name_of_bare (Members.bare_bindEntry classes fresh)).trans hname.symm
  · rw [ClassEntry.isBuiltin, horigin, Members.location_bindEntry]
    exact hfrom.location_eq hdecl

/-- In the analysis of any program one class defines each name, and all phases agree on it. The
classes of the table are those of the language, followed by the first class of each name that is
neither reserved nor theirs. Every other class is reported once, in the order of the program, and
none of the definitions is. An entry of the table has its name, its place and its members from the
declaration at its origin. The check goes through the members of the definitions, and leaves any
other class as it is, without a report. -/
theorem one_definition_per_name (p : Program) :
    let classes := p.classes
    let t := (Members.bind classes (Hierarchy.build classes).1).1
    let defs := Hierarchy.definitions classes
    (Analysis.run none p).table = some t ∧
      t.entries.map (fun e => (e.name, e.origin)) =
        builtinClasses.zipIdx.map (fun (c, i) => (c.name, .builtin i)) ++
          defs.map (fun (c, i) => (c.name, .user i)) ∧
      reportsAt .definition (Analysis.run none p).diagnostics =
        classes.zipIdx.filterMap (Hierarchy.definitionReport? classes) ∧
      (∀ i c, classes[i]? = some c →
        (Hierarchy.definitionReport? classes (c, i) = none ↔ (c, i) ∈ defs)) ∧
      (∀ e ∈ t.entries, ∃ c, IsEntryOf classes c e) ∧
      ∀ i c, classes[i]? = some c →
        ((c, i) ∈ defs → checkClass t i c = (checkedClass t c,
          (c.features.flatMap fun f => (checkFeature (homeOf t c) f).2).map
            (Fault.diagnostic c.file))) ∧
        ((c, i) ∉ defs → checkClass t i c = (c, [])) := by
  intro classes t defs
  refine ⟨by rw [Analysis.run_none], ?_, ?_, fun i c hc => ?_, fun e he => isEntryOf_of_mem he,
    fun i c hc => ⟨fun hdef => ?_, fun hdef => ?_⟩⟩
  · rw [Members.map_bind_build (fun _ => rfl) fun e => ?_, Hierarchy.entries_registeredTable,
      List.map_append, List.map_map]
    · rfl
    · rw [ClassEntry.name_of_bare (Members.bare_bindEntry classes e), Members.origin_bindEntry]
  · rw [Analysis.definition_reports, Hierarchy.diagnostics_register]
  · rw [Hierarchy.mem_definitions]
    exact ⟨fun hnone => ⟨hc, hnone⟩, fun hdef => hdef.2⟩
  · exact checkClass_of_isChecked ((isChecked_iff hc).mpr hdef)
  · exact if_neg (mt (isChecked_iff hc).mp hdef)

/-- Of these classes only the first `Node` and `Main` define their names. -/
def crowdedNames : Program where
  classes := [
    { name := "Node", file := some "a" }, { name := "this" },
    { name := "Node", parent := some "Main", file := some "b"
      features := [.field { name := "next", typeName := "Missing" }] },
    { name := "String" }, { name := "Main" }]

theorem one_definition_per_name_crowdedNames :
    let t := (Members.bind crowdedNames.classes (Hierarchy.build crowdedNames.classes).1).1
    t.names = ["Object", "String", "Sys", "TextIO", "Node", "Main"] ∧
      (reportsAt .definition (Analysis.run none crowdedNames).diagnostics).map (·.cause) =
        [some (.fault ⟨.reservedName .cls "this", {}⟩),
          some (.fault ⟨.duplicateClass "Node" (.source (some "a") {}), {}⟩),
          some (.fault ⟨.builtinRedefined "String", {}⟩)] ∧
      (checkClass t 2
        { name := "Node", parent := some "Main", file := some "b"
          features := [.field { name := "next", typeName := "Missing" }] }).2 = [] := by
  intro t
  obtain ⟨_, hentries, hreports, hdefs, _, hcheck⟩ := one_definition_per_name crowdedNames
  have hnames := congrArg (List.map Prod.fst) hentries
  rw [List.map_map] at hnames
  refine ⟨hnames.trans (by decide), hreports ▸ by decide, ?_⟩
  rw [(hcheck 2 _ rfl).2 fun hdef => absurd ((hdefs 2 _ rfl).mpr hdef) (by decide)]

end ClassCompiler
