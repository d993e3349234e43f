import ClassCompiler.Proofs.Binding
import ClassCompiler.Proofs.TypeRules
import ClassCompiler.Typing.Env

/-!
# The table of a clean program

If building and binding report nothing, the class table says neither more nor less than the
declarations do: it has the same classes, the same parents and the same members.

Results:
1. `entries_register_of_clean`, `parent?_of_clean`: every class is registered, and linked as
   declared.
2. `Framed.bindFeatures_of_clean`: every member is bound.
3. `Declares.findSome?_ancestors`: a search up the table finds what a class inherits.
4. `declares_of_clean`: the table of a clean program declares what the program does.
-/

namespace ClassCompiler

open Walk Rules

/-! ## Registration and links -/

namespace Hierarchy

theorem entries_register_of_clean {t : ClassTable} {index : Nat} {classes : List ClassDecl}
    (h : (register t index classes).2 = []) :
    (register t index classes).1.entries =
      t.entries ++ (classes.zipIdx index).map fun (c, i) => userEntry i c := by
  induction classes generalizing t index with
  | nil => simp [register]
  | cons c rest ih =>
    unfold register at h ⊢
    cases hrej : rejection? t c with
    | some problem =>
      rw [hrej] at h
      cases h
    | none =>
      rw [hrej] at h
      rw [ih h, ClassTable.push, List.append_assoc, List.zipIdx_cons]
      rfl

section

variable {classes : List ClassDecl} (hclean : (build classes).2 = [])
include hclean

theorem register_clean : (register builtinTable 0 classes).2 = [] :=
  (List.append_eq_nil_iff.mp (List.append_eq_nil_iff.mp hclean).1).1

theorem linkParents_clean : (linkParents (registeredTable classes)).2 = [] :=
  (List.append_eq_nil_iff.mp (List.append_eq_nil_iff.mp hclean).1).2

theorem mem_registered_of_user {index : Nat} {c : ClassDecl} (hc : classes[index]? = some c) :
    userEntry index c ∈ (registeredTable classes).entries := by
  rw [registeredTable, entries_register_of_clean (register_clean hclean)]
  refine List.mem_append_right _ (List.mem_map.mpr ⟨(c, index), ?_, rfl⟩)
  exact List.mem_zipIdx_iff_getElem?.mpr hc

theorem mem_registered_of_builtin {index : Nat} {c : ClassDecl}
    (hc : builtinClasses[index]? = some c) :
    builtinEntry index c ∈ (registeredTable classes).entries := by
  rw [registeredTable, entries_register_of_clean (register_clean hclean)]
  refine List.mem_append_left _ (List.mem_map.mpr ⟨(c, index), ?_, rfl⟩)
  exact List.mem_zipIdx_iff_getElem?.mpr hc

/-- Every class of the language and the program has the entry made from its declaration. -/
theorem exists_entry {c : ClassDecl} (hc : c ∈ builtinClasses ++ classes) :
    ∃ e ∈ (registeredTable classes).entries, e.origin.decl? classes = some c ∧ e.name = c.name ∧
      e.declaredParent.getD objectName = c.parent.getD objectName := by
  rcases List.mem_append.mp hc with hc | hc
  · obtain ⟨index, hget⟩ := List.getElem?_of_mem hc
    exact ⟨_, mem_registered_of_builtin hclean hget, hget, rfl, rfl⟩
  · obtain ⟨index, hget⟩ := List.getElem?_of_mem hc
    exact ⟨_, mem_registered_of_user hclean hget, hget, rfl, rfl⟩

/-- Nothing was reported, so there was no cycle, and every class has the parent it asks for. -/
theorem parent?_of_clean (name : String) :
    (build classes).1.parent? name =
      if name = objectName then none
      else ((registeredTable classes).find? name).map (·.declaredParent.getD objectName) := by
  obtain ⟨hrepair, _⟩ := repairing_build classes
  have hlinks : (build classes).1.parent? name = resolvedLinks (registeredTable classes) name := by
    rw [hrepair.links, hclean]
    simp [redirect]
  rw [hlinks, resolvedLinks]
  by_cases hroot : name = objectName
  · rw [if_pos hroot, if_pos hroot]
  · rw [if_neg hroot, if_neg hroot]
    cases he : (registeredTable classes).find? name with
    | none => rfl
    | some e =>
      have hlinked : e ∈ linked (registeredTable classes) :=
        mem_linked.mpr ⟨ClassTable.mem_of_find? he, ClassTable.name_of_find? he ▸ hroot⟩
      have hnone := List.filterMap_eq_nil_iff.mp (linkParents_clean hclean) e hlinked
      rw [Option.map_eq_none_iff] at hnone
      -- a parent that is not registered would have been reported
      have hcontains :
          (registeredTable classes).contains (e.declaredParent.getD objectName) = true := by
        simp only [parentProblem?] at hnone
        split at hnone
        · cases hnone
        · next p hp => rw [ClassTable.contains, hp]; rfl
      simp only [Option.map_some, resolvedParent, hcontains, if_true]

end

end Hierarchy

/-! ## Members -/

/-- The types that a method returns and takes. -/
def Method.signature (m : Method) : String × List String :=
  (m.returnName, m.params.map (·.typeName))

def MethodBinding.signature (b : MethodBinding) : String × List String :=
  (b.returnName, b.params.map (·.typeName))

namespace Feature

def field? : Feature → Option Field
  | field f => some f
  | method _ => none

def method? : Feature → Option Method
  | method m => some m
  | field _ => none

end Feature

namespace Members

theorem signature_methodBinding (e : ClassEntry) (c : ClassDecl) (m : Method) :
    (methodBinding e c m).signature = m.signature := by
  simp [methodBinding, MethodBinding.signature, Method.signature]

/-- Names other than `this` and `super` are those of declared fields. -/
theorem Framed.lookup_fields {e : ClassEntry} {fields : Frame FieldBinding}
    {methods : Frame MethodBinding} (h : Framed e fields methods) {name : String}
    (hthis : name ≠ "this") (hsuper : name ≠ "super") :
    e.fields.lookup? name = fields.lookup name := by
  have hpseudo : (pseudoFrame e).lookup name = none := by
    refine lookup_eq_none_iff_not_mem.mpr fun hmem => ?_
    rcases List.mem_pair.mp hmem with heq | heq
    · exact hthis heq
    · exact hsuper heq
  rw [h.fields_eq, Scope.lookup?_single, List.lookup_append, hpseudo, Option.none_or]

/-- If nothing is reported, the frames hold all features, in order. -/
theorem Framed.bindFeatures_of_clean {e : ClassEntry} {fields : Frame FieldBinding}
    {methods : Frame MethodBinding} (h : Framed e fields methods) {c : ClassDecl}
    {features : List Feature} (hclean : (Members.bindFeatures c e features).2 = []) :
    ∃ fields' methods',
      Framed (Members.bindFeatures c e features).1 (fields ++ fields') (methods ++ methods') ∧
      fields'.map (fun b => (b.1, b.2.typeName)) =
        (features.filterMap Feature.field?).map (fun f => (f.name, f.typeName)) ∧
      methods'.map (fun b => (b.1, b.2.signature)) =
        (features.filterMap Feature.method?).map fun m => (m.name, m.signature) := by
  induction features generalizing e fields methods with
  | nil => exact ⟨[], [], by simpa [Members.bindFeatures] using h, rfl, rfl⟩
  | cons f rest ih =>
    unfold Members.bindFeatures at hclean ⊢
    cases hf : Members.bindFeature c e f with
    | error problem =>
      rw [hf] at hclean
      exact nomatch hclean
    | ok e' =>
      rw [hf] at hclean
      obtain ⟨fields', methods', hframed, hfields, hmethods⟩ := ih (h.bindFeature hf) hclean
      rw [List.append_assoc, List.append_assoc] at hframed
      refine ⟨_, _, hframed, ?_, ?_⟩
      · rw [List.map_append, hfields]
        cases f <;> rfl
      · rw [List.map_append, hmethods]
        cases f with
        | field f => rfl
        | method m =>
          simp [methodPart, Feature.method?, signature_methodBinding]

end Members

/-- The entry holds the class and all its members as they are declared. -/
structure Holds (c : ClassDecl) (e : ClassEntry) : Prop where
  name_eq : e.name = c.name
  frames : ∃ fields methods, Members.Framed e fields methods ∧
    fields.map (fun b => (b.1, b.2.typeName)) = c.fields.map (fun f => (f.name, f.typeName)) ∧
    methods.map (fun b => (b.1, b.2.signature)) = c.methods.map fun m => (m.name, m.signature)

namespace Holds

variable {c : ClassDecl} {e : ClassEntry}

theorem lookup_types {α β : Type} {frame : Frame α} {f : α → β} {γ : Type} {values : List γ}
    {key : γ → String} {g : γ → β}
    (h : frame.map (fun b => (b.1, f b.2)) = values.map fun a => (key a, g a)) (name : String) :
    (frame.lookup name).map f = (values.find? (key · == name)).map g := by
  rw [← lookup_map_key values key g name, ← h, lookup_map_snd]

theorem names_eq {α β : Type} {frame : Frame α} {f : α → β} {γ : Type} {values : List γ}
    {key : γ → String} {g : γ → β}
    (h : frame.map (fun b => (b.1, f b.2)) = values.map fun a => (key a, g a)) :
    frame.map (·.1) = values.map key := by
  have := congrArg (List.map Prod.fst) h
  rwa [List.map_map, List.map_map] at this

theorem lookup_methods (h : Holds c e) (name : String) :
    (e.methods.lookup? name).map (·.signature) =
      (c.methods.find? (·.name == name)).map (·.signature) := by
  obtain ⟨fields, methods, hframed, _, hmethods⟩ := h.frames
  rw [hframed.methods_eq, Scope.lookup?_single]
  exact lookup_types hmethods name

theorem nodup_methods (h : Holds c e) : (c.methods.map (·.name)).Nodup := by
  obtain ⟨fields, methods, hframed, _, hmethods⟩ := h.frames
  exact names_eq hmethods ▸ hframed.nodup_methods

theorem nodup_fields (h : Holds c e) : ("this" :: "super" :: c.fields.map (·.name)).Nodup := by
  obtain ⟨fields, methods, hframed, hfields, _⟩ := h.frames
  have hnodup := hframed.nodup_fields
  rw [List.map_append, names_eq hfields] at hnodup
  exact hnodup

theorem lookup_fields (h : Holds c e) {name : String} (hthis : name ≠ "this")
    (hsuper : name ≠ "super") :
    (e.fields.lookup? name).map (·.typeName) =
      (c.fields.find? (·.name == name)).map (·.typeName) := by
  obtain ⟨fields, methods, hframed, hfields, _⟩ := h.frames
  rw [hframed.lookup_fields hthis hsuper]
  exact lookup_types hfields name

theorem role_of_lookup (h : Holds c e) {name : String} (hthis : name ≠ "this")
    (hsuper : name ≠ "super") {b : FieldBinding} (hb : e.fields.lookup? name = some b) :
    b.role = .declared := by
  obtain ⟨fields, methods, hframed, _, _⟩ := h.frames
  rw [hframed.lookup_fields hthis hsuper] at hb
  exact hframed.role_eq (name, b) (mem_of_lookup hb)

theorem lookup_this (h : Holds c e) :
    e.fields.lookup? "this" =
      some { typeName := e.name, role := .this, location := e.location } := by
  obtain ⟨fields, methods, hframed, _, _⟩ := h.frames
  rw [hframed.fields_eq, Scope.lookup?_single]
  rfl

theorem lookup_super (h : Holds c e) :
    e.fields.lookup? "super" =
      some { typeName := e.parent.getD "", role := .super, location := e.location } := by
  obtain ⟨fields, methods, hframed, _, _⟩ := h.frames
  rw [hframed.fields_eq, Scope.lookup?_single]
  rfl

end Holds

/-! ## Inherited members -/

/-- The table has the classes of `P`, with their parents and their members. -/
structure Declares (P : List ClassDecl) (t : ClassTable) : Prop where
  rooted : Rooted t
  entry : ∀ c ∈ P, ∃ e, t.find? c.name = some e ∧ Holds c e
  decl : ∀ name e, t.find? name = some e → ∃ c ∈ P, Holds c e
  parent : ∀ a b, t.parent? a = some b ↔ Extends P a b

theorem Rooted.findSome?_ancestors {t : ClassTable} (h : Rooted t) {name : String} {e : ClassEntry}
    (he : t.find? name = some e) {β : Type} (look : ClassEntry → Option β) :
    (t.ancestors name).findSome? look =
      (look e).or ((t.parent? name).bind fun parent => (t.ancestors parent).findSome? look) := by
  have hparent : t.parent? name = e.parent := by rw [ClassTable.parent?, he, Option.bind_some]
  rw [h.ancestors_eq he, List.findSome?_cons, hparent]
  cases look e with
  | some v => rfl
  | none => cases e.parent <;> rfl

theorem find?_of_mem_of_nodup {α : Type} {values : List α} {key : α → String}
    (hn : (values.map key).Nodup) {a : α} (ha : a ∈ values) :
    values.find? (key · == key a) = some a := by
  cases hf : values.find? (key · == key a) with
  | none => exact absurd (beq_self_eq_true (key a)) (List.find?_eq_none.mp hf a ha)
  | some b =>
    have hkey : key b = key a := by simpa using List.find?_some hf
    rw [List.inj_on_of_nodup_map hn (List.mem_of_find?_eq_some hf) ha hkey]

namespace Declares

variable {P : List ClassDecl} {t : ClassTable}

theorem mem_names_iff (h : Declares P t) {name : String} : name ∈ t.names ↔ IsClass P name := by
  constructor
  · intro hname
    obtain ⟨e, he⟩ := ClassTable.exists_find? hname
    obtain ⟨c, hc, hholds⟩ := h.decl name e he
    exact ⟨c, hc, hholds.name_eq.symm.trans (ClassTable.name_of_find? he)⟩
  · rintro ⟨c, hc, rfl⟩
    obtain ⟨e, he, _⟩ := h.entry c hc
    exact ClassTable.mem_names_of_find? he

/-- A search from a class upwards finds exactly what the class inherits. -/
theorem findSome?_ancestors {α β : Type} (h : Declares P t) {own : ClassDecl → List α}
    {key : α → String} {value : α → β} {look : ClassEntry → Option β} {name : String}
    (hlook : ∀ c e, Holds c e → look e = ((own c).find? (key · == name)).map value)
    (hnodup : ∀ c e, Holds c e → ((own c).map key).Nodup) (cls : String) (v : β) :
    (t.ancestors cls).findSome? look = some v ↔
      ∃ a, Inherits P own key cls a ∧ key a = name ∧ value a = v := by
  constructor
  · intro hfound
    by_cases hcls : cls ∈ t.names
    · obtain ⟨n, hn⟩ := h.rooted.ends cls hcls
      -- the walk up from the class ends, and each step of the search is one of its steps
      induction hn with
      | last hnone =>
        obtain ⟨e, he⟩ := ClassTable.exists_find? hcls
        obtain ⟨c, hc, hholds⟩ := h.decl _ e he
        have hname := hholds.name_eq.symm.trans (ClassTable.name_of_find? he)
        rw [h.rooted.findSome?_ancestors he, hnone, Option.bind_none, Option.or_none,
          hlook c e hholds] at hfound
        obtain ⟨a, ha, rfl⟩ := Option.map_eq_some_iff.mp hfound
        refine ⟨a, hname ▸ .own hc (List.mem_of_find?_eq_some ha), ?_, rfl⟩
        simpa using List.find?_some ha
      | @step n a b hb _ ih =>
        obtain ⟨e, he⟩ := ClassTable.exists_find? hcls
        obtain ⟨c, hc, hholds⟩ := h.decl _ e he
        have hname := hholds.name_eq.symm.trans (ClassTable.name_of_find? he)
        rw [h.rooted.findSome?_ancestors he, hb, hlook c e hholds] at hfound
        cases hown : (own c).find? (key · == name) with
        | some m =>
          rw [hown] at hfound
          refine ⟨m, hname ▸ .own hc (List.mem_of_find?_eq_some hown), ?_, Option.some.inj hfound⟩
          simpa using List.find?_some hown
        | none =>
          rw [hown] at hfound
          obtain ⟨m, hm, hkey, hvalue⟩ := ih hfound (h.rooted.closed a hcls b hb)
          refine ⟨m, ?_, hkey, hvalue⟩
          subst hname
          refine .parent hc (fun own' hown' heq => ?_) ((h.parent _ _).mp hb) hm
          exact List.find?_eq_none.mp hown own' hown' (beq_iff_eq.mpr (heq.trans hkey))
    · rw [ClassTable.ancestors, ClassTable.chain_of_find?_eq_none
        (ClassTable.find?_eq_none.mpr hcls)] at hfound
      cases hfound
  · rintro ⟨a, ha, rfl, rfl⟩
    induction ha with
    | @own c a hc ha =>
      obtain ⟨e, he, hholds⟩ := h.entry c hc
      rw [h.rooted.findSome?_ancestors he, hlook c e hholds,
        find?_of_mem_of_nodup (hnodup c e hholds) ha]
      rfl
    | @parent c parent a hc hnone hext _ ih =>
      obtain ⟨e, he, hholds⟩ := h.entry c hc
      have hnot : (own c).find? (key · == key a) = none :=
        List.find?_eq_none.mpr fun b hb heq => hnone b hb (beq_iff_eq.mp heq)
      rw [h.rooted.findSome?_ancestors he, hlook c e hholds, hnot, (h.parent _ _).mpr hext]
      exact ih hlook

theorem holds_of_mem_ancestors (h : Declares P t) {cls : String} {e : ClassEntry}
    (he : e ∈ t.ancestors cls) : ∃ c ∈ P, Holds c e :=
  h.decl e.name e (ClassTable.find?_of_mem h.rooted.nodup (ClassTable.mem_of_mem_chain he))

theorem lookupMethod?_iff (h : Declares P t) (cls name : String) (sig : String × List String) :
    (t.lookupMethod? cls name).map (·.2.signature) = some sig ↔
      ∃ m, HasMethod P cls m ∧ m.name = name ∧ m.signature = sig := by
  rw [ClassTable.lookupMethod?, List.map_findSome?]
  refine h.findSome?_ancestors (fun c e hholds => ?_) (fun _ _ hholds => hholds.nodup_methods) cls
    sig
  rw [← hholds.lookup_methods name, Function.comp_apply, Option.map_map]
  rfl

theorem lookupField?_of_ne (h : Declares P t) (cls : String) {name : String}
    (hthis : name ≠ "this") (hsuper : name ≠ "super") :
    t.lookupField? cls name =
      (t.ancestors cls).findSome? fun e => (e.fields.lookup? name).map (e.name, ·) := by
  rw [ClassTable.lookupField?, ← List.head?_filterMap, ← List.head?_filterMap]
  refine congrArg List.head? (List.filterMap_congr fun e he => ?_)
  obtain ⟨c, _, hholds⟩ := h.holds_of_mem_ancestors he
  cases hb : e.fields.lookup? name with
  | none => rfl
  | some b => simp [hholds.role_of_lookup hthis hsuper hb]

theorem role_of_lookupField? (h : Declares P t) {cls name : String} (hthis : name ≠ "this")
    (hsuper : name ≠ "super") {r : String × FieldBinding} (hr : t.lookupField? cls name = some r) :
    r.2.role = .declared := by
  rw [h.lookupField?_of_ne cls hthis hsuper] at hr
  obtain ⟨e, he, hfound⟩ := List.exists_of_findSome?_eq_some hr
  obtain ⟨b, hb, rfl⟩ := Option.map_eq_some_iff.mp hfound
  obtain ⟨c, _, hholds⟩ := h.holds_of_mem_ancestors he
  exact hholds.role_of_lookup hthis hsuper hb

/-- The names `this` and `super` are found in the class itself. -/
theorem lookupField?_pseudo (h : Declares P t) {cls name : String} {e : ClassEntry}
    (he : t.find? cls = some e) {b : FieldBinding} (hb : e.fields.lookup? name = some b) :
    t.lookupField? cls name = some (cls, b) := by
  have hname := ClassTable.name_of_find? he
  rw [ClassTable.lookupField?, h.rooted.findSome?_ancestors he]
  simp [hb, hname]

end Declares

/-- The declared type of the nearest field of a name. -/
def ClassTable.declaredField? (t : ClassTable) (cls name : String) : Option String :=
  ((t.lookupField? cls name).filter (·.2.role = .declared)).map (·.2.typeName)

namespace Declares

variable {P : List ClassDecl} {t : ClassTable}

theorem declaredField?_pseudo (h : Declares P t) (cls : String) {name : String}
    (hname : name = "this" ∨ name = "super") : t.declaredField? cls name = none := by
  unfold ClassTable.declaredField?
  cases hf : t.find? cls with
  | none =>
    rw [ClassTable.lookupField?, ClassTable.ancestors, ClassTable.chain_of_find?_eq_none hf]
    rfl
  | some e =>
    obtain ⟨c, _, hholds⟩ := h.decl cls e hf
    rcases hname with rfl | rfl
    · rw [h.lookupField?_pseudo hf hholds.lookup_this]
      rfl
    · rw [h.lookupField?_pseudo hf hholds.lookup_super]
      rfl

theorem ne_pseudo_of_hasField (h : Declares P t) {cls : String} {f : Field}
    (hf : HasField P cls f) : f.name ≠ "this" ∧ f.name ≠ "super" := by
  induction hf with
  | @own c f hc hf =>
    obtain ⟨e, _, hholds⟩ := h.entry c hc
    have hmem : f.name ∈ c.fields.map (·.name) := List.mem_map_of_mem hf
    have hnodup := hholds.nodup_fields
    grind
  | parent _ _ _ _ ih => exact ih

theorem declaredField?_iff (h : Declares P t) (cls name text : String) :
    t.declaredField? cls name = some text ↔
      ∃ f, HasField P cls f ∧ f.name = name ∧ f.typeName = text := by
  by_cases hname : name = "this" ∨ name = "super"
  · rw [h.declaredField?_pseudo cls hname]
    refine ⟨fun hnone => (nomatch hnone), ?_⟩
    rintro ⟨f, hf, rfl, _⟩
    obtain ⟨hthis, hsuper⟩ := h.ne_pseudo_of_hasField hf
    rcases hname with hname | hname
    · exact absurd hname hthis
    · exact absurd hname hsuper
  · push Not at hname
    obtain ⟨hthis, hsuper⟩ := hname
    have hrole : (t.lookupField? cls name).filter (·.2.role = .declared) =
        t.lookupField? cls name := by
      cases hr : t.lookupField? cls name with
      | none => rfl
      | some r => simp [Option.filter, h.role_of_lookupField? hthis hsuper hr]
    rw [ClassTable.declaredField?, hrole, h.lookupField?_of_ne cls hthis hsuper, List.map_findSome?]
    refine h.findSome?_ancestors (fun c e hholds => ?_) (fun c e hholds => ?_) cls text
    · rw [← hholds.lookup_fields hthis hsuper, Function.comp_apply, Option.map_map]
      rfl
    · exact (List.nodup_cons.mp (List.nodup_cons.mp hholds.nodup_fields).2).2

end Declares

/-! ## The table of a program -/

namespace Members

variable {classes : List ClassDecl}

theorem bindEntry_clean {t : ClassTable} (hclean : (bind classes t).2 = []) {e : ClassEntry}
    (he : e ∈ t.entries) : (bindEntry classes e).2 = [] :=
  List.flatMap_eq_nil_iff.mp hclean _ (List.mem_map_of_mem he)

theorem holds_bindEntry (hclean : (bind classes (Hierarchy.build classes).1).2 = [])
    {e : ClassEntry} (he : e ∈ (Hierarchy.build classes).1.entries) {c : ClassDecl}
    (hdecl : e.origin.decl? classes = some c) (hname : c.name = e.name) :
    Holds c (bindEntry classes e).1 := by
  refine ⟨(ClassEntry.name_of_bare (bare_bindEntry classes e)).trans hname.symm, ?_⟩
  have hfaults := bindEntry_clean hclean he
  unfold bindEntry at hfaults ⊢
  rw [hdecl] at hfaults ⊢
  obtain ⟨hbare, _⟩ := Hierarchy.exists_decl_of_mem he
  obtain ⟨fields, methods, hframed, hfields, hmethods⟩ :=
    (framed_openFrames hbare).bindFeatures_of_clean (List.map_eq_nil_iff.mp hfaults)
  exact ⟨fields, methods, hframed, hfields, hmethods⟩

end Members

theorem Origin.mem_of_decl? {classes : List ClassDecl} {o : Origin} {c : ClassDecl}
    (h : o.decl? classes = some c) : c ∈ builtinClasses ++ classes := by
  cases o with
  | builtin index => exact List.mem_append_left _ (List.mem_of_getElem? h)
  | user index => exact List.mem_append_right _ (List.mem_of_getElem? h)

namespace Hierarchy

variable {classes : List ClassDecl}

/-- A registered class keeps its entry, but for the links. -/
theorem find?_of_mem_registered {fresh : ClassEntry}
    (hmem : fresh ∈ (registeredTable classes).entries) :
    ∃ e, (build classes).1.find? fresh.name = some e ∧
      (registeredTable classes).find? fresh.name = some e.unlinked ∧ e.unlinked = fresh := by
  have hfind := ClassTable.find?_of_mem (registered_registeredTable classes).nodup hmem
  have hname : fresh.name ∈ (build classes).1.names := by
    rw [names_build]
    exact ClassTable.mem_names_of_find? hfind
  obtain ⟨e, he⟩ := ClassTable.exists_find? hname
  have hreg := find?_registered he
  exact ⟨e, he, hreg, Option.some.inj (hreg.symm.trans hfind)⟩

variable (hclean : (build classes).2 = [])
include hclean

/-- The classes of a program are those registered from it. -/
theorem find?_user {index : Nat} {c : ClassDecl} (hc : classes[index]? = some c) :
    ∃ e, (build classes).1.find? c.name = some e ∧ e.origin = .user index := by
  obtain ⟨e, he, _, hfresh⟩ := find?_of_mem_registered (mem_registered_of_user hclean hc)
  exact ⟨e, he, (congrArg ClassEntry.origin hfresh :)⟩

theorem user_ne_root {c : ClassDecl} (hc : c ∈ classes) : c.name ≠ objectName := by
  intro hname
  obtain ⟨index, hget⟩ := List.getElem?_of_mem hc
  obtain ⟨e, he, horigin⟩ := find?_user hclean hget
  have hobject : builtinClasses[0]? = some Builtin.object := rfl
  obtain ⟨root, hroot, _, hfresh⟩ :=
    find?_of_mem_registered (mem_registered_of_builtin hclean hobject)
  rw [hname] at he
  cases he.symm.trans hroot
  exact nomatch horigin.symm.trans (congrArg ClassEntry.origin hfresh :)

/-- Every class is found under its name, with the entry of its own declaration. -/
theorem find?_of_clean {c : ClassDecl} (hc : c ∈ builtinClasses ++ classes) :
    ∃ e, (build classes).1.find? c.name = some e ∧ e.origin.decl? classes = some c ∧
      e.declaredParent.getD objectName = c.parent.getD objectName ∧
      (registeredTable classes).find? c.name = some e.unlinked := by
  obtain ⟨fresh, hmem, hdecl, hname, hparent⟩ := exists_entry hclean hc
  obtain ⟨e, he, hreg, rfl⟩ := find?_of_mem_registered hmem
  rw [hname] at he hreg
  exact ⟨e, he, hdecl, hparent, hreg⟩

/-- The root is the class of the language, and it extends nothing. -/
theorem parent_root {c : ClassDecl} (hc : c ∈ builtinClasses ++ classes)
    (hname : c.name = objectName) : c.parent = none := by
  obtain ⟨e, he, hdecl, _⟩ := find?_of_clean hclean hc
  obtain ⟨e', he', hdecl', _⟩ := find?_of_clean hclean
    (List.mem_append_left classes (show Builtin.object ∈ builtinClasses from List.mem_cons_self))
  rw [hname] at he
  cases he.symm.trans he'
  cases hdecl.symm.trans hdecl'
  rfl

theorem parent?_iff_extends (a b : String) :
    (build classes).1.parent? a = some b ↔ Extends (builtinClasses ++ classes) a b := by
  constructor
  · intro h
    obtain ⟨e, he⟩ := ClassTable.exists_find? (ClassTable.mem_names_of_parent? h)
    obtain ⟨_, c, hdecl, hname⟩ := exists_decl_of_mem (ClassTable.mem_of_find? he)
    have hc := Origin.mem_of_decl? hdecl
    have hca : c.name = a := hname.trans (ClassTable.name_of_find? he)
    subst hca
    obtain ⟨e', he', _, hparent, hreg⟩ := find?_of_clean hclean hc
    rw [parent?_of_clean hclean, hreg] at h
    split at h
    · exact nomatch h
    · next hroot =>
      have hb : c.parent.getD objectName = b := hparent.symm.trans (Option.some.inj h)
      cases hp : c.parent with
      | none =>
        rw [hp] at hb
        exact hb ▸ .root hc hp hroot
      | some parent =>
        rw [hp] at hb
        exact hb ▸ .declared hc hp
  · intro h
    have hlink {c : ClassDecl} (hc : c ∈ builtinClasses ++ classes) (hroot : c.name ≠ objectName) :
        (build classes).1.parent? c.name = some (c.parent.getD objectName) := by
      obtain ⟨e, _, _, hparent, hreg⟩ := find?_of_clean hclean hc
      rw [parent?_of_clean hclean, if_neg hroot, hreg, Option.map_some]
      exact congrArg some hparent
    cases h with
    | @declared c parent hc hp =>
      have hroot : c.name ≠ objectName := by
        intro hname
        exact nomatch (parent_root hclean hc hname).symm.trans hp
      rw [hlink hc hroot, hp]
      rfl
    | @root c hc hp hroot =>
      rw [hlink hc hroot, hp]
      rfl

end Hierarchy

/-- A program without a report of building or binding is described by its table. -/
theorem declares_of_clean {classes : List ClassDecl} (hbuild : (Hierarchy.build classes).2 = [])
    (hbind : (Members.bind classes (Hierarchy.build classes).1).2 = []) :
    Declares (builtinClasses ++ classes) (Members.bind classes (Hierarchy.build classes).1).1 where
  rooted := Members.rooted_bind classes (rooted_build classes)
  entry := by
    intro c hc
    obtain ⟨e, he, hdecl, _⟩ := Hierarchy.find?_of_clean hbuild hc
    refine ⟨(Members.bindEntry classes e).1, by rw [Members.find?_bind, he, Option.map_some], ?_⟩
    exact Members.holds_bindEntry hbind (ClassTable.mem_of_find? he) hdecl
      (ClassTable.name_of_find? he).symm
  decl := by
    intro name e he
    rw [Members.find?_bind] at he
    obtain ⟨fresh, hfresh, rfl⟩ := Option.map_eq_some_iff.mp he
    obtain ⟨_, c, hdecl, hname⟩ := Hierarchy.exists_decl_of_mem (ClassTable.mem_of_find? hfresh)
    exact ⟨c, Origin.mem_of_decl? hdecl,
      Members.holds_bindEntry hbind (ClassTable.mem_of_find? hfresh) hdecl hname⟩
  parent := by
    intro a b
    rw [Members.parent?_bind]
    exact Hierarchy.parent?_iff_extends hbuild a b

end ClassCompiler
