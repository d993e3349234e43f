import ClassCompiler.Proofs.Repair

/-!
# The hierarchy is a tree

Whatever the classes of a program are, the table that `Hierarchy.build` returns is a tree with
`Object` at its root. The invariant `Rooted` is what the passes guarantee; the facts about
`ClassTable.ancestors` follow from it.

Results:
1. `rooted_build`: the table that is built is rooted.
2. `Rooted.chain_eq_ancestors`: no walk up is cut short by its budget.
3. `Rooted.ancestors_eq`, `Rooted.ancestors_suffix`: the ancestors of a class are the class itself,
   followed by the ancestors of its parent; `Rooted.isSubclass_iff`.
4. `build_isTree`: the statement about trees in full.
-/

namespace ClassCompiler

open Walk

/-- Every class but the root has a parent, and every walk up ends. -/
structure Rooted (t : ClassTable) : Prop extends Mirrored t where
  linked : ∀ name ∈ t.names, name ≠ objectName → t.parent? name ≠ none
  ends : ∀ name ∈ t.names, ∃ n, EndsIn t.parent? n name

theorem rooted_build (classes : List ClassDecl) : Rooted (Hierarchy.build classes).1 := by
  obtain ⟨hrepair, hends⟩ := Hierarchy.repairing_build classes
  exact { hrepair.mirrored with linked := hrepair.linked, ends := hends }

namespace ClassTable

/-! ## Chains -/

theorem chain_of_find? {t : ClassTable} {name : String} {e : ClassEntry}
    (he : t.find? name = some e) (steps : Nat) :
    t.chain (steps + 1) name = e :: (e.parent.map (t.chain steps)).getD [] := by
  rw [chain, he]
  show e :: _ = _
  cases e.parent <;> rfl

theorem chain_of_find?_eq_none {t : ClassTable} {name : String} (hnone : t.find? name = none)
    (steps : Nat) : t.chain steps name = [] := by
  cases steps with
  | zero => rfl
  | succ steps => rw [chain, hnone]

theorem mem_of_mem_chain {t : ClassTable} {steps : Nat} {name : String} {e : ClassEntry}
    (h : e ∈ t.chain steps name) : e ∈ t.entries := by
  induction steps generalizing name with
  | zero => exact absurd h List.not_mem_nil
  | succ steps ih =>
    cases hf : t.find? name with
    | none =>
      rw [chain_of_find?_eq_none hf] at h
      exact absurd h List.not_mem_nil
    | some first =>
      rw [chain_of_find? hf] at h
      rcases List.mem_cons.mp h with rfl | h
      · exact mem_of_find? hf
      · cases hp : first.parent with
        | none =>
          rw [hp] at h
          exact absurd h List.not_mem_nil
        | some parent =>
          rw [hp] at h
          exact ih h

theorem head?_chain {t : ClassTable} {steps : Nat} {name : String} {e : ClassEntry}
    (h : (t.chain steps name).head? = some e) : e.name = name := by
  cases steps with
  | zero => exact nomatch h
  | succ steps =>
    cases hf : t.find? name with
    | none =>
      rw [chain_of_find?_eq_none hf] at h
      exact nomatch h
    | some first =>
      rw [chain_of_find? hf, List.head?_cons, Option.some.injEq] at h
      exact h ▸ name_of_find? hf

theorem isChain_chain (t : ClassTable) (steps : Nat) (name : String) :
    (t.chain steps name).IsChain fun e up => e.parent = some up.name := by
  induction steps generalizing name with
  | zero => exact .nil
  | succ steps ih =>
    cases he : t.find? name with
    | none =>
      rw [chain_of_find?_eq_none he]
      exact .nil
    | some e =>
      rw [chain_of_find? he]
      cases hp : e.parent with
      | none => exact .singleton e
      | some parent => exact (ih parent).cons fun up hup => head?_chain hup ▸ hp

theorem chain_eq_filterMap {t : ClassTable} (hc : Closed t.parent? t.names) (steps : Nat)
    {name : String} (hname : name ∈ t.names) :
    t.chain steps name = (trail t.parent? steps name).filterMap t.find? := by
  induction steps generalizing name with
  | zero => rfl
  | succ steps ih =>
    obtain ⟨e, he⟩ := exists_find? hname
    have hparent : t.parent? name = e.parent := by rw [parent?, he, Option.bind_some]
    rw [chain_of_find? he, trail, List.filterMap_cons_some he, hparent]
    cases hp : e.parent with
    | none => rfl
    | some parent => exact congrArg _ (ih (hc name hname parent (hparent.trans hp)))

theorem map_name_filterMap {t : ClassTable} {names : List String} (hsub : names ⊆ t.names) :
    (names.filterMap t.find?).map (·.name) = names := by
  induction names with
  | nil => rfl
  | cons name rest ih =>
    obtain ⟨hname, hrest⟩ := List.cons_subset.mp hsub
    obtain ⟨e, he⟩ := exists_find? hname
    rw [List.filterMap_cons_some he, List.map_cons, ih hrest, name_of_find? he]

end ClassTable

namespace Rooted

variable {t : ClassTable}

theorem exists_parent (h : Rooted t) {name : String} (hname : name ∈ t.names)
    (hroot : name ≠ objectName) : ∃ parent ∈ t.names, t.parent? name = some parent := by
  obtain ⟨parent, hp⟩ := Option.ne_none_iff_exists'.mp (h.linked name hname hroot)
  exact ⟨parent, h.closed name hname parent hp, hp⟩

/-- A walk up takes fewer steps than there are classes, so no budget from there on matters. -/
theorem chain_eq_ancestors (h : Rooted t) {name : String} (hname : name ∈ t.names) {steps : Nat}
    (hsteps : t.size ≤ steps) : t.chain steps name = t.ancestors name := by
  obtain ⟨n, hn⟩ := h.ends name hname
  have hlt := hn.lt_length h.closed hname
  rw [Hierarchy.names_length] at hlt
  rw [ClassTable.ancestors, ClassTable.chain_eq_filterMap h.closed _ hname,
    ClassTable.chain_eq_filterMap h.closed _ hname, hn.trail_eq (by omega), hn.trail_eq hlt]

theorem names_ancestors (h : Rooted t) {name : String} (hname : name ∈ t.names) :
    (t.ancestors name).map (·.name) = trail t.parent? t.size name := by
  rw [ClassTable.ancestors, ClassTable.chain_eq_filterMap h.closed _ hname,
    ClassTable.map_name_filterMap (trail_subset h.closed _ hname)]

/-- The ancestors of a class are the class and the ancestors of its parent. -/
theorem ancestors_eq (h : Rooted t) {name : String} {e : ClassEntry} (he : t.find? name = some e) :
    t.ancestors name = e :: (e.parent.map t.ancestors).getD [] := by
  have hname := ClassTable.mem_names_of_find? he
  rw [← h.chain_eq_ancestors hname (Nat.le_succ t.size), ClassTable.chain_of_find? he]
  rfl

theorem ancestors_suffix (h : Rooted t) {sub sup : String} (hr : Reaches t.parent? sub sup) :
    t.ancestors sup <:+ t.ancestors sub := by
  induction hr using Relation.ReflTransGen.head_induction_on with
  | refl => exact List.suffix_refl _
  | @head a b hs _ ih =>
    obtain ⟨e, he, hp⟩ := Option.bind_eq_some_iff.mp hs
    rw [h.ancestors_eq he, hp, Option.map_some, Option.getD_some]
    exact ih.trans (List.suffix_cons e _)

theorem mem_names_of_reaches (h : Rooted t) {sub sup : String} (hsub : sub ∈ t.names)
    (hr : Reaches t.parent? sub sup) : sup ∈ t.names := by
  induction hr with
  | refl => exact hsub
  | tail _ hs ih => exact h.closed _ ih _ hs

theorem isSubclass_iff (h : Rooted t) {sub sup : String} (hsub : sub ∈ t.names) :
    t.isSubclass sub sup = true ↔ Reaches t.parent? sub sup := by
  rw [ClassTable.isSubclass, List.any_eq_true]
  constructor
  · rintro ⟨e, he, hname⟩
    have hmem : e.name ∈ (t.ancestors sub).map (·.name) := List.mem_map_of_mem he
    rw [h.names_ancestors hsub] at hmem
    exact beq_iff_eq.mp hname ▸ reaches_of_mem_trail hmem
  · intro hr
    obtain ⟨e, he⟩ := ClassTable.exists_find? (h.mem_names_of_reaches hsub hr)
    refine ⟨e, (h.ancestors_suffix hr).subset ?_, beq_iff_eq.mpr (ClassTable.name_of_find? he)⟩
    rw [h.ancestors_eq he]
    exact List.mem_cons_self

end Rooted

/-! ## Trees -/

/-- The way from a class up to the root: entries of the table, each linked to the next, and none met
twice. -/
structure IsLineage (t : ClassTable) (name : String) (line : List ClassEntry) : Prop where
  entries : ∀ e ∈ line, t.find? e.name = some e
  first : (line.map (·.name)).head? = some name
  links : line.IsChain fun e up => e.parent = some up.name
  nodup : (line.map (·.name)).Nodup
  last : (line.map (·.name)).getLast? = some objectName

/-- The table is a tree with `Object` at its root. Child lists mirror the parent links: a name
stands once in the child list of its parent, and in no other list. -/
structure IsTree (t : ClassTable) : Prop where
  nodup : t.names.Nodup
  root_mem : objectName ∈ t.names
  root_parent : t.parent? objectName = none
  parent : ∀ name ∈ t.names, name ≠ objectName → ∃ parent ∈ t.names, t.parent? name = some parent
  lineage : ∀ name ∈ t.names, IsLineage t name (t.ancestors name)
  uncut : ∀ name ∈ t.names, ∀ steps, t.size ≤ steps → t.chain steps name = t.ancestors name
  children : ∀ e ∈ t.entries, ∀ name,
    e.children.count name = if t.parent? name = some e.name then 1 else 0

theorem Rooted.isLineage {t : ClassTable} (h : Rooted t) {name : String} (hname : name ∈ t.names) :
    IsLineage t name (t.ancestors name) := by
  obtain ⟨n, hn⟩ := h.ends name hname
  have hlt := hn.lt_length h.closed hname
  rw [Hierarchy.names_length] at hlt
  have hnames := h.names_ancestors hname
  rw [hn.trail_eq hlt] at hnames
  refine ⟨fun e he => ?_, ?_, t.isChain_chain t.size name, ?_, ?_⟩
  · exact ClassTable.find?_of_mem h.nodup (ClassTable.mem_of_mem_chain he)
  · rw [hnames, head?_trail]
  · rw [hnames]
    exact hn.nodup_trail (n + 1)
  · obtain ⟨z, hz, hnone⟩ := hn.getLast?_trail
    -- the walk ends at a class without a parent, and only the root has none
    have hzmem := trail_subset h.closed _ hname (List.mem_of_getLast? hz)
    have hroot : z = objectName := by
      by_contra hne
      exact h.linked z hzmem hne hnone
    rw [hnames, hz, hroot]

theorem Rooted.isTree {t : ClassTable} (h : Rooted t) : IsTree t where
  nodup := h.nodup
  root_mem := h.root_mem
  root_parent := h.root_parent
  parent := fun _ hname hroot => h.exists_parent hname hroot
  lineage := fun _ hname => h.isLineage hname
  uncut := fun _ hname _ hsteps => h.chain_eq_ancestors hname hsteps
  children := h.count_children

/-- The table that is built from any list of classes is a tree rooted at `Object`. Its classes are
the built-in ones and all those of the program whose name is not reserved. -/
theorem build_isTree (classes : List ClassDecl) :
    IsTree (Hierarchy.build classes).1 ∧
    ∀ name, name ∈ (Hierarchy.build classes).1.names ↔
      (∃ c ∈ builtinClasses, c.name = name) ∨
        isReserved name = false ∧ ∃ c ∈ classes, c.name = name := by
  refine ⟨(rooted_build classes).isTree, fun name => ?_⟩
  have hbuiltin : name ∈ Hierarchy.builtinTable.names ↔ ∃ c ∈ builtinClasses, c.name = name :=
    List.mem_map (f := fun c : ClassDecl => c.name) (l := builtinClasses)
  rw [Hierarchy.names_build, Hierarchy.registeredTable, Hierarchy.mem_names_register, hbuiltin]

end ClassCompiler
