import ClassCompiler.Members
import ClassCompiler.Proofs.ClassTree

/-!
# Bound members

What binding makes of an entry: its place in the hierarchy stays, and its tables come to hold one
frame each. The method table and the list of members name the same methods.

Results:
1. `rooted_bind`: binding keeps the tree; `find?_bind`.
2. `Framed.bindFeatures`: whatever the features are, the tables keep their one frame, the members
   stay in step with the method table, and every method that is bound is one of the features.
3. `framed_bindEntry_of_decl`, `framed_bindEntry`: so it is for every entry of a table that was
   built.
-/

namespace ClassCompiler

namespace ClassEntry

/-- An entry without its members. -/
def bare (e : ClassEntry) : ClassEntry := { e with fields := {}, methods := {}, members := [] }

theorem name_of_bare {e e' : ClassEntry} (h : e'.bare = e.bare) : e'.name = e.name :=
  (congrArg ClassEntry.name h :)

theorem parent_of_bare {e e' : ClassEntry} (h : e'.bare = e.bare) : e'.parent = e.parent :=
  (congrArg ClassEntry.parent h :)

theorem children_of_bare {e e' : ClassEntry} (h : e'.bare = e.bare) : e'.children = e.children :=
  (congrArg ClassEntry.children h :)

end ClassEntry

namespace Members

/-! ## What binding leaves alone -/

theorem bindFeature_field {c : ClassDecl} {e e' : ClassEntry} {f : Field}
    (h : bindFeature c e (.field f) = .ok e') :
    isReserved f.name = false ∧ ∃ fields, e.fields.add? f.name (fieldBinding e c f) = some fields ∧
      e' = { e with fields, members := e.members ++ [.field f.name] } := by
  simp only [bindFeature] at h
  split at h
  · exact nomatch h
  · next hres =>
    split at h
    · next fields hadd => exact ⟨by simpa using hres, fields, hadd, (Except.ok.inj h).symm⟩
    · exact nomatch h

theorem bindFeature_method {c : ClassDecl} {e e' : ClassEntry} {m : Method}
    (h : bindFeature c e (.method m) = .ok e') :
    isReserved m.name = false ∧
      ∃ methods, e.methods.add? m.name (methodBinding e c m) = some methods ∧
        e' = { e with methods, members := e.members ++ [.method m.name] } := by
  simp only [bindFeature] at h
  split at h
  · exact nomatch h
  · next hres =>
    split at h
    · next methods hadd => exact ⟨by simpa using hres, methods, hadd, (Except.ok.inj h).symm⟩
    · exact nomatch h

theorem bare_bindFeature {c : ClassDecl} {e e' : ClassEntry} {f : Feature}
    (h : bindFeature c e f = .ok e') : e'.bare = e.bare := by
  cases f with
  | field f =>
    obtain ⟨_, fields, _, rfl⟩ := bindFeature_field h
    rfl
  | method m =>
    obtain ⟨_, methods, _, rfl⟩ := bindFeature_method h
    rfl

theorem bare_bindFeatures (c : ClassDecl) (e : ClassEntry) (features : List Feature) :
    (bindFeatures c e features).1.bare = e.bare := by
  induction features generalizing e with
  | nil => rfl
  | cons f rest ih =>
    unfold bindFeatures
    cases hf : bindFeature c e f with
    | ok e' => exact (ih e').trans (bare_bindFeature hf)
    | error problem => exact ih e

/-- The binding of a method depends on where the class comes from, not on its members. -/
theorem methodBinding_of_bare {e e' : ClassEntry} (h : e'.bare = e.bare) (c : ClassDecl)
    (m : Method) : methodBinding e' c m = methodBinding e c m := by
  have hbuiltin : e'.isBuiltin = e.isBuiltin := (congrArg ClassEntry.isBuiltin h :)
  rw [methodBinding, methodBinding, location, location, hbuiltin]

theorem bare_bindEntry (classes : List ClassDecl) (e : ClassEntry) :
    (bindEntry classes e).1.bare = e.bare := by
  unfold bindEntry
  cases e.origin.decl? classes with
  | none => rfl
  | some c => exact bare_bindFeatures c (openFrames e) c.features

theorem bind_eq (classes : List ClassDecl) (t : ClassTable) :
    (bind classes t).1 = ⟨t.entries.map fun e => (bindEntry classes e).1⟩ := by
  simp [bind]

theorem mem_bind {classes : List ClassDecl} {t : ClassTable} {e : ClassEntry} :
    e ∈ (bind classes t).1.entries ↔ ∃ fresh ∈ t.entries, (bindEntry classes fresh).1 = e := by
  rw [bind_eq]
  exact List.mem_map

theorem find?_bind (classes : List ClassDecl) (t : ClassTable) (name : String) :
    (bind classes t).1.find? name = (t.find? name).map fun e => (bindEntry classes e).1 := by
  rw [bind_eq, ClassTable.find?_map t _ fun e => ?_]
  exact ClassEntry.name_of_bare (bare_bindEntry classes e)

theorem names_bind (classes : List ClassDecl) (t : ClassTable) :
    (bind classes t).1.names = t.names := by
  rw [bind_eq, ClassTable.names_map t _ fun e => ?_]
  exact ClassEntry.name_of_bare (bare_bindEntry classes e)

theorem parent?_bind (classes : List ClassDecl) (t : ClassTable) :
    (bind classes t).1.parent? = t.parent? := by
  funext name
  rw [ClassTable.parent?, find?_bind, ClassTable.parent?]
  cases t.find? name with
  | none => rfl
  | some e => exact ClassEntry.parent_of_bare (bare_bindEntry classes e)

theorem rooted_bind (classes : List ClassDecl) {t : ClassTable} (h : Rooted t) :
    Rooted (bind classes t).1 where
  nodup := by rw [names_bind]; exact h.nodup
  root_mem := by rw [names_bind]; exact h.root_mem
  root_parent := by rw [parent?_bind]; exact h.root_parent
  closed := by rw [parent?_bind, names_bind]; exact h.closed
  linked := by rw [parent?_bind, names_bind]; exact h.linked
  ends := by rw [parent?_bind, names_bind]; exact h.ends
  count_children := by
    intro e he name
    obtain ⟨e, hmem, rfl⟩ := mem_bind.mp he
    have hbare := bare_bindEntry classes e
    rw [parent?_bind, ClassEntry.name_of_bare hbare, ClassEntry.children_of_bare hbare]
    exact h.count_children e hmem name

/-! ## Frames -/

/-- Both tables of the entry have one frame, without a name twice. That of the fields begins with
`this` and `super`. The members of the entry are those of the frames. -/
structure Framed (e : ClassEntry) (fields : Frame FieldBinding) (methods : Frame MethodBinding) :
    Prop where
  fields_eq : e.fields = { inner := [pseudoFrame e ++ fields] }
  methods_eq : e.methods = { inner := [methods] }
  declared_eq : e.declaredMethods = methods.map (·.1)
  role_eq : ∀ b ∈ fields, b.2.role = .declared
  nodup_fields : ((pseudoFrame e ++ fields).map (·.1)).Nodup
  nodup_methods : (methods.map (·.1)).Nodup

end Members

namespace Scope

variable {α : Type}

theorem lookup?_single (frame : Frame α) (name : String) :
    lookup? { inner := [frame] } name = frame.lookup name := by
  unfold lookup? lookupLevel? lookupLevel?.search
  cases frame.lookup name with
  | none => rfl
  | some value => rfl

theorem add?_single {frame : Frame α} {name : String} {value : α} {s : Scope α}
    (h : add? { inner := [frame] } name value = some s) :
    frame.lookup name = none ∧ s = { inner := [frame ++ [(name, value)]] } := by
  have hpeek : peek? { inner := [frame] } name = frame.lookup name := rfl
  unfold add? at h
  rw [hpeek] at h
  cases hl : frame.lookup name with
  | none =>
    rw [hl] at h
    exact ⟨rfl, (Option.some.inj h).symm⟩
  | some old =>
    rw [hl] at h
    exact nomatch h

end Scope

namespace Members

/-- What a feature adds to the frame of the fields. -/
def fieldPart (e : ClassEntry) (c : ClassDecl) : Feature → Frame FieldBinding
  | .field f => [(f.name, fieldBinding e c f)]
  | .method _ => []

/-- What a feature adds to the frame of the methods. -/
def methodPart (e : ClassEntry) (c : ClassDecl) : Feature → Frame MethodBinding
  | .field _ => []
  | .method m => [(m.name, methodBinding e c m)]

namespace Framed

variable {e : ClassEntry} {fields : Frame FieldBinding} {methods : Frame MethodBinding}

/-- A feature that is bound goes to the end of its frame, which did not have its name yet. -/
theorem bindFeature (h : Framed e fields methods) {c : ClassDecl} {f : Feature} {e' : ClassEntry}
    (hok : Members.bindFeature c e f = .ok e') :
    Framed e' (fields ++ fieldPart e c f) (methods ++ methodPart e c f) := by
  cases f with
  | field f =>
    obtain ⟨_, s, hadd, rfl⟩ := bindFeature_field hok
    rw [h.fields_eq] at hadd
    obtain ⟨hnew, rfl⟩ := Scope.add?_single hadd
    refine ⟨?_, ?_, ?_, ?_, ?_, ?_⟩
    · simp [fieldPart, pseudoFrame]
    · simpa [methodPart] using h.methods_eq
    · simpa [ClassEntry.declaredMethods, methodPart] using h.declared_eq
    · intro b hb
      rcases List.mem_append.mp hb with hb | hb
      · exact h.role_eq b hb
      · rw [fieldPart, List.mem_singleton] at hb
        exact hb ▸ rfl
    · have hnodup := nodup_names_append hnew h.nodup_fields (fieldBinding e c f)
      rwa [List.append_assoc] at hnodup
    · simpa [methodPart] using h.nodup_methods
  | method m =>
    obtain ⟨_, s, hadd, rfl⟩ := bindFeature_method hok
    rw [h.methods_eq] at hadd
    obtain ⟨hnew, rfl⟩ := Scope.add?_single hadd
    have hdeclared := h.declared_eq
    refine ⟨?_, rfl, ?_, ?_, ?_, ?_⟩
    · simpa [fieldPart, pseudoFrame] using h.fields_eq
    · simp only [ClassEntry.declaredMethods] at hdeclared
      simp [ClassEntry.declaredMethods, methodPart, hdeclared]
    · simpa [fieldPart] using h.role_eq
    · rw [fieldPart, List.append_nil]
      exact h.nodup_fields
    · exact nodup_names_append hnew h.nodup_methods (methodBinding e c m)

/-- Every method that gets bound is one of the features. -/
theorem bindFeatures (h : Framed e fields methods) (c : ClassDecl) (features : List Feature) :
    ∃ fields' methods', Framed (Members.bindFeatures c e features).1 fields' methods' ∧
      ∀ b ∈ methods', b ∈ methods ∨
        ∃ m, .method m ∈ features ∧ b = (m.name, methodBinding e c m) := by
  induction features generalizing e fields methods with
  | nil => exact ⟨fields, methods, h, fun _ hb => .inl hb⟩
  | cons f rest ih =>
    unfold Members.bindFeatures
    cases hf : Members.bindFeature c e f with
    | error problem =>
      obtain ⟨fields', methods', hframed, hfrom⟩ := ih h
      refine ⟨fields', methods', hframed, fun b hb => (hfrom b hb).imp_right ?_⟩
      exact fun ⟨m, hm, heq⟩ => ⟨m, List.mem_cons_of_mem _ hm, heq⟩
    | ok e' =>
      obtain ⟨fields', methods', hframed, hfrom⟩ := ih (h.bindFeature hf)
      refine ⟨fields', methods', hframed, fun b hb => ?_⟩
      rcases hfrom b hb with hb | ⟨m, hm, rfl⟩
      · rcases List.mem_append.mp hb with hb | hb
        · exact .inl hb
        · cases f with
          | field f => exact absurd hb List.not_mem_nil
          | method m => exact .inr ⟨m, List.mem_cons_self, List.mem_singleton.mp hb⟩
      · refine .inr ⟨m, List.mem_cons_of_mem _ hm, ?_⟩
        rw [methodBinding_of_bare (bare_bindFeature hf)]

theorem mem_declaredMethods (h : Framed e fields methods) (name : String) :
    name ∈ e.declaredMethods ↔ (e.methods.lookup? name).isSome = true := by
  rw [h.declared_eq, h.methods_eq, Scope.lookup?_single, List.lookup_isSome_iff, List.mem_map]
  exact exists_congr fun b => and_congr_right fun _ => by rw [beq_iff_eq, eq_comm]

end Framed

/-- Opening the frames of an entry without members gives one empty frame for each table. -/
theorem framed_openFrames {e : ClassEntry} (h : e.bare = e) : Framed (openFrames e) [] [] where
  fields_eq := by
    rw [← h]
    rfl
  methods_eq := by
    rw [← h]
    rfl
  declared_eq := by
    rw [← h]
    rfl
  role_eq := fun _ hb => absurd hb List.not_mem_nil
  nodup_fields := show ["this", "super"].Nodup by decide
  nodup_methods := List.nodup_nil

end Members

namespace Hierarchy

theorem FromDecl.bare_eq {classes : List ClassDecl} {e : ClassEntry} (h : FromDecl classes e) :
    e.bare = e := by
  cases h <;> rfl

/-- An entry of the table that is built has no members yet, and it knows its declaration. -/
theorem exists_decl_of_mem {classes : List ClassDecl} {e : ClassEntry}
    (he : e ∈ (build classes).1.entries) :
    e.bare = e ∧ ∃ c, e.origin.decl? classes = some c ∧ c.name = e.name := by
  have hmem : e.unlinked ∈ (registeredTable classes).entries :=
    unlinked_build classes ▸ List.mem_map_of_mem he
  have hfrom := (registered_registeredTable classes).fromDecl _ hmem
  obtain ⟨c, hdecl, hname, _⟩ := hfrom.exists_decl
  refine ⟨?_, c, hdecl, hname⟩
  have hbare := hfrom.bare_eq
  cases e
  simp_all [ClassEntry.unlinked, ClassEntry.bare]

end Hierarchy

namespace Members

/-- The entry of a class after the features of its declaration have been bound. -/
theorem framed_bindEntry_of_decl {classes : List ClassDecl} {e : ClassEntry} (hbare : e.bare = e)
    {c : ClassDecl} (hdecl : e.origin.decl? classes = some c) :
    ∃ fields methods, Framed (bindEntry classes e).1 fields methods ∧
      ∀ b ∈ methods, ∃ m, .method m ∈ c.features ∧ b = (m.name, methodBinding e c m) := by
  unfold bindEntry
  rw [hdecl]
  obtain ⟨fields, methods, hframed, hfrom⟩ :=
    (framed_openFrames hbare).bindFeatures c c.features
  exact ⟨fields, methods, hframed, fun b hb => (hfrom b hb).resolve_left List.not_mem_nil⟩

/-- The entry of a class after its members have been bound. -/
theorem framed_bindEntry {classes : List ClassDecl} {e : ClassEntry}
    (he : e ∈ (Hierarchy.build classes).1.entries) :
    ∃ fields methods, Framed (bindEntry classes e).1 fields methods := by
  obtain ⟨hbare, c, hdecl, _⟩ := Hierarchy.exists_decl_of_mem he
  obtain ⟨fields, methods, hframed, _⟩ := framed_bindEntry_of_decl hbare hdecl
  exact ⟨fields, methods, hframed⟩

end Members

end ClassCompiler
