import ClassCompiler.ClassTable
import ClassCompiler.Proofs.NamedValues
import ClassCompiler.Proofs.Walk

/-!
# Parent links and child lists

What `ClassTable.setParent` does to a table, and the invariant that ties the parent links to the
child lists while links are set one after the other.

Results:
1. `ClassTable.setParent_eq`: setting a link changes every entry on its own, by `relink`.
2. `Mirrored.setParent`: child lists keep mirroring the parent links, whatever the old and the new
   parent are, the class itself included.
3. `Mirrored.setParents`, `parent?_setParents`: the same for any run of links.
-/

namespace ClassCompiler

open Walk

namespace ClassTable

/-! ## Finding entries -/

theorem name_of_find? {t : ClassTable} {name : String} {e : ClassEntry}
    (h : t.find? name = some e) : e.name = name := by
  simpa using List.find?_some h

theorem mem_of_find? {t : ClassTable} {name : String} {e : ClassEntry}
    (h : t.find? name = some e) : e ∈ t.entries :=
  List.mem_of_find?_eq_some h

theorem mem_names {t : ClassTable} {name : String} :
    name ∈ t.names ↔ ∃ e ∈ t.entries, e.name = name :=
  List.mem_map

theorem find?_isSome {t : ClassTable} {name : String} :
    (t.find? name).isSome ↔ name ∈ t.names := by
  rw [find?, List.find?_isSome, mem_names]
  simp

theorem exists_find? {t : ClassTable} {name : String} (h : name ∈ t.names) :
    ∃ e, t.find? name = some e :=
  Option.isSome_iff_exists.mp (find?_isSome.mpr h)

theorem mem_names_of_find? {t : ClassTable} {name : String} {e : ClassEntry}
    (h : t.find? name = some e) : name ∈ t.names :=
  find?_isSome.mp (by simp [h])

theorem find?_eq_none {t : ClassTable} {name : String} : t.find? name = none ↔ name ∉ t.names := by
  rw [← find?_isSome, Option.not_isSome_iff_eq_none]

theorem contains_iff {t : ClassTable} {name : String} : t.contains name = true ↔ name ∈ t.names :=
  find?_isSome

theorem find?_of_mem {t : ClassTable} (hn : t.names.Nodup) {e : ClassEntry} (he : e ∈ t.entries) :
    t.find? e.name = some e := by
  obtain ⟨e', he'⟩ := exists_find? (mem_names.mpr ⟨e, he, rfl⟩)
  have heq : e' = e :=
    List.inj_on_of_nodup_map hn (mem_of_find? he') he (name_of_find? he')
  rw [he', heq]

theorem mem_names_of_parent? {t : ClassTable} {name parent : String}
    (h : t.parent? name = some parent) : name ∈ t.names := by
  obtain ⟨e, he, _⟩ := Option.bind_eq_some_iff.mp h
  exact mem_names_of_find? he

theorem find?_map (t : ClassTable) (f : ClassEntry → ClassEntry) (hf : ∀ e, (f e).name = e.name)
    (name : String) : find? ⟨t.entries.map f⟩ name = (t.find? name).map f := by
  rw [find?, List.find?_map, find?]
  exact congrArg (Option.map f ·) (congrArg (t.entries.find? ·) (funext fun e => by simp [hf]))

theorem names_map (t : ClassTable) (f : ClassEntry → ClassEntry) (hf : ∀ e, (f e).name = e.name) :
    names ⟨t.entries.map f⟩ = t.names := by
  rw [names, List.map_map]
  exact congrArg (t.entries.map ·) (funext hf)

end ClassTable

namespace ClassEntry

/-- What putting `child` under `parent` does to an entry, if the old parent of `child` is `old`. -/
def relink (old : Option String) (child parent : String) (e : ClassEntry) : ClassEntry :=
  { e with
    parent := if e.name = child then some parent else e.parent
    children :=
      (if old = some e.name then e.children.filter (· ≠ child) else e.children)
        ++ if e.name = parent then [child] else [] }

/-- An entry without its place in the hierarchy. -/
def unlinked (e : ClassEntry) : ClassEntry := { e with parent := none, children := [] }

end ClassEntry

namespace ClassTable

/-- Tables that differ in nothing but their links have the same names. -/
theorem names_of_unlinked {t s : ClassTable}
    (h : t.entries.map ClassEntry.unlinked = s.entries.map ClassEntry.unlinked) :
    t.names = s.names := by
  have hname (u : ClassTable) : u.names = (u.entries.map ClassEntry.unlinked).map (·.name) := by
    rw [List.map_map]
    rfl
  rw [hname t, hname s, h]

/-! ## Setting one link -/

theorem setParent_eq (t : ClassTable) (child parent : String) :
    t.setParent child parent = ⟨t.entries.map (.relink (t.parent? child) child parent)⟩ := by
  unfold setParent
  cases hold : t.parent? child with
  | none =>
    simp only [modify, List.map_map, mk.injEq]
    refine List.map_congr_left fun e _ => ?_
    cases e
    grind [ClassEntry.relink]
  | some old =>
    simp only [modify, List.map_map, mk.injEq]
    refine List.map_congr_left fun e _ => ?_
    cases e
    grind [ClassEntry.relink]

theorem names_setParent (t : ClassTable) (child parent : String) :
    (t.setParent child parent).names = t.names := by
  rw [setParent_eq]
  exact t.names_map _ fun _ => rfl

theorem unlinked_setParent (t : ClassTable) (child parent : String) :
    (t.setParent child parent).entries.map ClassEntry.unlinked =
      t.entries.map ClassEntry.unlinked := by
  rw [setParent_eq, List.map_map]
  rfl

theorem parent?_setParent {t : ClassTable} {child : String} (hc : child ∈ t.names)
    (parent name : String) :
    (t.setParent child parent).parent? name =
      if name = child then some parent else t.parent? name := by
  rw [setParent_eq, parent?, t.find?_map (.relink (t.parent? child) child parent) fun _ => rfl]
  cases he : t.find? name with
  | none =>
    have hne : name ≠ child := fun h => find?_eq_none.mp he (h ▸ hc)
    simp [parent?, he, hne]
  | some e =>
    have hname := name_of_find? he
    by_cases hc : name = child
    · simp [ClassEntry.relink, hname, hc]
    · simp [ClassEntry.relink, parent?, he, hname, hc]

end ClassTable

/-! ## The invariant -/

/-- Child lists mirror parent links: a class stands once in the child list of its parent and in no
other. The root has no parent, and parents are classes of the table. -/
structure Mirrored (t : ClassTable) : Prop where
  nodup : t.names.Nodup
  root_mem : objectName ∈ t.names
  root_parent : t.parent? objectName = none
  closed : Closed t.parent? t.names
  count_children : ∀ e ∈ t.entries, ∀ name,
    e.children.count name = if t.parent? name = some e.name then 1 else 0

namespace Mirrored

theorem setParent {t : ClassTable} (h : Mirrored t) {child parent : String}
    (hc : child ∈ t.names) (hroot : child ≠ objectName) (hp : parent ∈ t.names) :
    Mirrored (t.setParent child parent) where
  nodup := by rw [t.names_setParent]; exact h.nodup
  root_mem := by rw [t.names_setParent]; exact h.root_mem
  root_parent := by
    rw [ClassTable.parent?_setParent hc, if_neg (Ne.symm hroot)]
    exact h.root_parent
  closed := by
    intro a ha b hb
    rw [t.names_setParent] at ha ⊢
    rw [ClassTable.parent?_setParent hc] at hb
    split at hb
    · cases hb
      exact hp
    · exact h.closed a ha b hb
  count_children := by
    intro e' he' name
    rw [ClassTable.setParent_eq] at he'
    obtain ⟨e, he, rfl⟩ := List.mem_map.mp he'
    have hcount := h.count_children e he name
    rw [ClassTable.parent?_setParent hc]
    by_cases hname : name = child
    · subst hname
      -- whatever the old parent was, nothing is left of the class in its list
      have hrest : (if t.parent? name = some e.name then e.children.filter (· ≠ name)
          else e.children).count name = 0 := by
        split
        · exact List.count_eq_zero_of_not_mem (by simp)
        · next hne => rw [hcount, if_neg hne]
      simp only [ClassEntry.relink, List.count_append, hrest]
      by_cases hpe : e.name = parent
      · simp [hpe]
      · simp [hpe, Ne.symm hpe]
    · have hrest : (if t.parent? child = some e.name then e.children.filter (· ≠ child)
          else e.children).count name = e.children.count name := by
        split
        · exact List.count_filter (by simpa using hname)
        · rfl
      have hadded : (if e.name = parent then [child] else []).count name = 0 := by
        split
        · simp [Ne.symm hname]
        · rfl
      simp only [ClassEntry.relink, List.count_append, hrest, hadded, hcount, if_neg hname,
        Nat.add_zero]

end Mirrored

/-! ## Setting many links -/

namespace ClassTable

/-- Sets links one after the other; each pair is a class and its new parent. -/
def setParents (t : ClassTable) (links : List (String × String)) : ClassTable :=
  links.foldl (fun acc link => acc.setParent link.1 link.2) t

theorem names_setParents (t : ClassTable) (links : List (String × String)) :
    (t.setParents links).names = t.names := by
  induction links generalizing t with
  | nil => rfl
  | cons link links ih => exact (ih _).trans (t.names_setParent link.1 link.2)

theorem unlinked_setParents (t : ClassTable) (links : List (String × String)) :
    (t.setParents links).entries.map ClassEntry.unlinked =
      t.entries.map ClassEntry.unlinked := by
  induction links generalizing t with
  | nil => rfl
  | cons link links ih => exact (ih _).trans (t.unlinked_setParent link.1 link.2)

/-- A run that gives each class at most one new parent: the given ones are in force afterwards, and
all other links are as before. -/
theorem parent?_setParents {t : ClassTable} {links : List (String × String)}
    (hmem : ∀ link ∈ links, link.1 ∈ t.names) (hnodup : (links.map (·.1)).Nodup) (name : String) :
    (t.setParents links).parent? name = (links.lookup name).or (t.parent? name) := by
  induction links generalizing t with
  | nil => rfl
  | cons link links ih =>
    obtain ⟨child, parent⟩ := link
    have hc : child ∈ t.names := hmem _ List.mem_cons_self
    obtain ⟨hnot, hnodup⟩ := List.nodup_cons.mp hnodup
    have hrest := ih (t := t.setParent child parent)
      (fun link hl => by rw [names_setParent]; exact hmem link (List.mem_cons_of_mem _ hl)) hnodup
    refine hrest.trans ?_
    rw [parent?_setParent hc, List.lookup_cons]
    by_cases hname : name = child
    · subst hname
      -- the class does not occur again in the run
      have hnone : links.lookup name = none := lookup_eq_none_iff_not_mem.mpr hnot
      simp [hnone]
    · have hbeq : (name == child) = false := by simpa using hname
      simp [hname, hbeq]

end ClassTable

theorem Mirrored.setParents {t : ClassTable} (h : Mirrored t) {links : List (String × String)}
    (hlinks : ∀ link ∈ links, link.1 ∈ t.names ∧ link.1 ≠ objectName ∧ link.2 ∈ t.names) :
    Mirrored (t.setParents links) := by
  induction links generalizing t with
  | nil => exact h
  | cons link links ih =>
    obtain ⟨hc, hroot, hp⟩ := hlinks link List.mem_cons_self
    refine ih (h.setParent hc hroot hp) fun link hl => ?_
    rw [ClassTable.names_setParent]
    exact hlinks link (List.mem_cons_of_mem _ hl)

end ClassCompiler
