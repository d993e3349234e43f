import ClassCompiler.Hierarchy
import ClassCompiler.Proofs.Linking

/-!
# Registered and linked classes

What the first two passes of `Hierarchy.build` leave behind: a table with one entry per name, each
made from a declaration, and then the links of that table.

Results:
1. `register_invariant`: what holds of the built-in classes and survives each registration holds of
   the registered table; `registered_registeredTable` is the invariant needed here.
   `mem_names_register` says which names it has.
2. `parent?_linkParents`: linking puts the resolved parents in force, no more and no less.
3. `mirrored_linkParents`: child lists mirror the links, cycles or not.
-/

namespace ClassCompiler.Hierarchy

open Walk

/-! ## Registration -/

/-- The entry is the one that registration makes of a declaration of the language or the program. -/
inductive FromDecl (classes : List ClassDecl) : ClassEntry → Prop
  | builtin {index : Nat} {c : ClassDecl} :
      builtinClasses[index]? = some c → FromDecl classes (builtinEntry index c)
  | user {index : Nat} {c : ClassDecl} :
      classes[index]? = some c → FromDecl classes (userEntry index c)

/-- The table after the registration of the classes of a program. -/
def registeredTable (classes : List ClassDecl) : ClassTable := (register builtinTable 0 classes).1

theorem rejection?_eq_none {t : ClassTable} {c : ClassDecl} :
    rejection? t c = none ↔ isReserved c.name = false ∧ c.name ∉ t.names := by
  unfold rejection?
  cases hr : isReserved c.name with
  | true => simp
  | false => simp [ClassTable.find?_eq_none]

theorem names_push (t : ClassTable) (e : ClassEntry) : (t.push e).names = t.names ++ [e.name] := by
  simp [ClassTable.push, ClassTable.names]

/-- Registration only ever pushes entries of declarations with fresh, unreserved names. -/
theorem register_invariant {P : ClassTable → Prop} {classes : List ClassDecl}
    (start : P builtinTable)
    (push : ∀ t index c, classes[index]? = some c → isReserved c.name = false → c.name ∉ t.names →
      P t → P (t.push (userEntry index c))) :
    P (registeredTable classes) := by
  suffices ∀ (done rest : List ClassDecl) (t : ClassTable), classes = done ++ rest → P t →
      P (register t done.length rest).1
    from this [] classes builtinTable rfl start
  intro done rest
  induction rest generalizing done with
  | nil => exact fun t _ ht => ht
  | cons c rest ih =>
    intro t hsplit ht
    have hnext : classes = (done ++ [c]) ++ rest := by simp [hsplit]
    have hlen : (done ++ [c]).length = done.length + 1 := by simp
    unfold register
    cases hrej : rejection? t c with
    | some problem =>
      have := ih (done ++ [c]) t hnext ht
      rwa [hlen] at this
    | none =>
      obtain ⟨hres, hfresh⟩ := rejection?_eq_none.mp hrej
      have hget : classes[done.length]? = some c := by simp [hsplit]
      have := ih (done ++ [c]) _ hnext (push t done.length c hget hres hfresh ht)
      rwa [hlen] at this

/-- The built-in classes come first. -/
theorem prefix_registeredTable (classes : List ClassDecl) :
    builtinTable.entries <+: (registeredTable classes).entries :=
  register_invariant (P := fun t => builtinTable.entries <+: t.entries) List.prefix_rfl
    fun _ _ _ _ _ _ ht => ht.trans (List.prefix_append _ _)

/-- A class is left out only for a reserved name or for one that stands in the table already. -/
theorem mem_names_register {t : ClassTable} {index : Nat} {classes : List ClassDecl}
    {name : String} : name ∈ (register t index classes).1.names ↔
      name ∈ t.names ∨ isReserved name = false ∧ ∃ c ∈ classes, c.name = name := by
  induction classes generalizing t index with
  | nil => simp [register]
  | cons c rest ih =>
    rw [List.exists_mem_cons_iff]
    unfold register
    cases hrej : rejection? t c with
    | none =>
      obtain ⟨hres, _⟩ := rejection?_eq_none.mp hrej
      have hnew : name ∈ (t.push (userEntry index c)).names ↔ name ∈ t.names ∨ c.name = name := by
        rw [names_push, List.mem_append, List.mem_singleton, eq_comm]
        rfl
      rw [ih, hnew]
      grind
    | some problem =>
      have hold : isReserved c.name = true ∨ c.name ∈ t.names := by
        by_contra hnot
        push Not at hnot
        have hnone := rejection?_eq_none.mpr ⟨by simpa using hnot.1, hnot.2⟩
        exact nomatch hnone.symm.trans hrej
      rw [ih]
      grind

/-- What the later passes need to know of a registered table. -/
structure Registered (classes : List ClassDecl) (t : ClassTable) : Prop where
  nodup : t.names.Nodup
  root_mem : objectName ∈ t.names
  fromDecl : ∀ e ∈ t.entries, FromDecl classes e

theorem registered_registeredTable (classes : List ClassDecl) :
    Registered classes (registeredTable classes) := by
  refine register_invariant ⟨by decide, by decide, ?_⟩ fun t index c hget _ hfresh ht => ?_
  · intro e he
    simp only [builtinTable, builtinClasses, List.zipIdx_cons, List.zipIdx_nil, List.map_cons,
      List.map_nil, List.mem_cons, List.not_mem_nil, or_false] at he
    rcases he with rfl | rfl | rfl | rfl <;> exact .builtin rfl
  · refine ⟨?_, ?_, ?_⟩
    · rw [names_push]
      refine List.nodup_append.mpr ⟨ht.nodup, by simp, fun a ha b hb hab => ?_⟩
      rw [List.mem_singleton] at hb
      exact hfresh (show (userEntry index c).name ∈ t.names from hb ▸ hab ▸ ha)
    · rw [names_push]
      exact List.mem_append_left _ ht.root_mem
    · intro e he
      rcases List.mem_append.mp he with he | he
      · exact ht.fromDecl e he
      · rw [List.mem_singleton] at he
        exact he ▸ .user hget

namespace FromDecl

variable {classes : List ClassDecl} {e : ClassEntry}

/-- A fresh entry has no place in the hierarchy yet. -/
theorem unlinked_eq (h : FromDecl classes e) : e.unlinked = e := by
  cases h <;> rfl

theorem exists_decl (h : FromDecl classes e) :
    ∃ c, e.origin.decl? classes = some c ∧ c.name = e.name ∧
      e.declaredParent.getD objectName = c.parent.getD objectName := by
  cases h with
  | @builtin index c hc => exact ⟨c, hc, rfl, rfl⟩
  | @user index c hc => exact ⟨c, hc, rfl, rfl⟩

end FromDecl

/-! ## Linking -/

/-- The link that every class but the root gets from its entry. -/
def resolvedLinks (t : ClassTable) : Links := fun name =>
  if name = objectName then none else (t.find? name).map (resolvedParent t)

/-- The table after every class has been linked to its parent. -/
def linkedTable (classes : List ClassDecl) : ClassTable :=
  (linkParents (registeredTable classes)).1

theorem linkParents_eq (t : ClassTable) :
    (linkParents t).1 = t.setParents ((linked t).map fun e => (e.name, resolvedParent t e)) := by
  rw [ClassTable.setParents, List.foldl_map]
  rfl

theorem names_linkParents (t : ClassTable) : (linkParents t).1.names = t.names := by
  rw [linkParents_eq, ClassTable.names_setParents]

theorem unlinked_linkParents (t : ClassTable) :
    (linkParents t).1.entries.map ClassEntry.unlinked = t.entries.map ClassEntry.unlinked := by
  rw [linkParents_eq, ClassTable.unlinked_setParents]

theorem mem_linked {t : ClassTable} {e : ClassEntry} :
    e ∈ linked t ↔ e ∈ t.entries ∧ e.name ≠ objectName := by
  simp [linked, List.mem_filter]

theorem lookup_linked (t : ClassTable) (name : String) :
    ((linked t).map fun e => (e.name, resolvedParent t e)).lookup name = resolvedLinks t name := by
  rw [lookup_map_key, linked, List.find?_filter]
  unfold resolvedLinks
  split
  · next hroot =>
    rw [List.find?_eq_none.mpr (by simp [hroot]), Option.map_none]
  · next hroot =>
    refine congrArg (Option.map (resolvedParent t)) (congrArg (t.entries.find? ·) ?_)
    funext e
    by_cases hname : e.name = name
    · simp [hname, hroot]
    · simp [hname]

section

variable {classes : List ClassDecl} {t : ClassTable} (h : Registered classes t)
include h

theorem parent?_registered (name : String) : t.parent? name = none := by
  unfold ClassTable.parent?
  cases he : t.find? name with
  | none => rfl
  | some e =>
    have hfresh := (h.fromDecl e (ClassTable.mem_of_find? he)).unlinked_eq
    rw [Option.bind_some, ← hfresh]
    rfl

theorem mirrored_registered : Mirrored t where
  nodup := h.nodup
  root_mem := h.root_mem
  root_parent := parent?_registered h objectName
  closed := by
    intro a _ b hb
    exact nomatch (parent?_registered h a).symm.trans hb
  count_children := by
    intro e he name
    rw [parent?_registered h name, ← (h.fromDecl e he).unlinked_eq]
    rfl

theorem resolvedParent_mem (e : ClassEntry) : resolvedParent t e ∈ t.names := by
  simp only [resolvedParent]
  split
  · next hc => exact ClassTable.contains_iff.mp hc
  · exact h.root_mem

/-- The links in force after linking are the resolved ones. -/
theorem parent?_linkParents : (linkParents t).1.parent? = resolvedLinks t := by
  funext name
  rw [linkParents_eq, ClassTable.parent?_setParents, lookup_linked, parent?_registered h,
    Option.or_none]
  · intro link hl
    obtain ⟨e, he, rfl⟩ := List.mem_map.mp hl
    exact List.mem_map_of_mem (mem_linked.mp he).1
  · rw [List.map_map]
    exact h.nodup.sublist (List.filter_sublist.map _)

theorem mirrored_linkParents : Mirrored (linkParents t).1 := by
  rw [linkParents_eq]
  refine (mirrored_registered h).setParents fun link hl => ?_
  obtain ⟨e, he, rfl⟩ := List.mem_map.mp hl
  obtain ⟨hmem, hroot⟩ := mem_linked.mp he
  exact ⟨List.mem_map_of_mem hmem, hroot, resolvedParent_mem h e⟩

end

end ClassCompiler.Hierarchy
