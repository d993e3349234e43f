import ClassCompiler.Proofs.ClassTree

/-!
# Subtyping is an order

Away from the recovery type the types are partially ordered, with `Object` above all classes and
arrays. The relation is first put into rules, one per reason; what two classes have to do with each
other is then the only part that rests on the hierarchy being a tree.

Results:
1. `isSubtype_iff`: the rules of `ClassTable.isSubtype`.
2. `Rooted.isSubclass_trans`, `Rooted.isSubclass_antisymm`, `Rooted.isSubclass_root`: the classes are
   ordered by the parent links, with the root above all of them.
3. `Rooted.below_trans`, `Rooted.below_antisymm`, `Rooted.object_below_iff`: the order of the types.
4. `subtyping_partial_order`: the statement for the table of a program.
-/

namespace ClassCompiler

open Walk

/-! ## Rules -/

/-- `Below t sub sup`: one of the reasons for which a value of a type is also one of another. -/
inductive Below (t : ClassTable) : Ty → Ty → Prop
  | refl (ty : Ty) : Below t ty ty
  | ofUntyped (sup : Ty) : Below t .untyped sup
  | toUntyped (sub : Ty) : Below t sub .untyped
  | nullCls (name : String) : Below t .null (.cls name)
  | nullArray (elem : Ty) : Below t .null (.array elem)
  | cls {sub sup : String} : t.isSubclass sub sup = true → Below t (.cls sub) (.cls sup)
  | arrayObject (elem : Ty) : Below t (.array elem) .object
  | arrayCls {sub sup : String} :
      t.isSubclass sub sup = true → Below t (.array (.cls sub)) (.array (.cls sup))

theorem isSubtype_iff {t : ClassTable} {sub sup : Ty} :
    t.isSubtype sub sup = true ↔ Below t sub sup := by
  constructor
  · intro h
    rcases Bool.or_eq_true_iff.mp h with heq | hrule
    · exact of_decide_eq_true heq ▸ .refl sub
    · split at hrule
      next => exact .ofUntyped _
      next => exact .toUntyped _
      next => exact .nullCls _
      next => exact .nullArray _
      next => exact .cls hrule
      next => exact of_decide_eq_true hrule ▸ .arrayObject _
      next => exact .arrayCls hrule
      next => exact absurd hrule Bool.false_ne_true
  · intro h
    cases h with
    | refl => simp [ClassTable.isSubtype]
    | ofUntyped => simp [ClassTable.isSubtype]
    | toUntyped => cases sub <;> simp [ClassTable.isSubtype]
    | nullCls => simp [ClassTable.isSubtype]
    | nullArray => simp [ClassTable.isSubtype]
    | cls hsub => simp [ClassTable.isSubtype, hsub]
    | arrayObject => simp [ClassTable.isSubtype, Ty.object]
    | arrayCls hsub => simp [ClassTable.isSubtype, hsub]

/-! ## Classes -/

theorem ClassTable.mem_names_of_isSubclass {t : ClassTable} {sub sup : String}
    (h : t.isSubclass sub sup = true) : sub ∈ t.names := by
  by_contra hsub
  rw [isSubclass, ancestors, chain_of_find?_eq_none (find?_eq_none.mpr hsub)] at h
  exact absurd h Bool.false_ne_true

namespace Rooted

variable {t : ClassTable}

theorem isSubclass_iff_mem_and_reaches (h : Rooted t) {sub sup : String} :
    t.isSubclass sub sup = true ↔ sub ∈ t.names ∧ Reaches t.parent? sub sup := by
  constructor
  · intro hsub
    have hmem := ClassTable.mem_names_of_isSubclass hsub
    exact ⟨hmem, (h.isSubclass_iff hmem).mp hsub⟩
  · rintro ⟨hmem, hr⟩
    exact (h.isSubclass_iff hmem).mpr hr

theorem isSubclass_trans (h : Rooted t) {a b c : String} (hab : t.isSubclass a b = true)
    (hbc : t.isSubclass b c = true) : t.isSubclass a c = true := by
  rw [h.isSubclass_iff_mem_and_reaches] at hab hbc ⊢
  exact ⟨hab.1, hab.2.trans hbc.2⟩

/-- Two classes that lead to each other would lie on a cycle, and no walk up runs into one. -/
theorem isSubclass_antisymm (h : Rooted t) {a b : String} (hab : t.isSubclass a b = true)
    (hba : t.isSubclass b a = true) : a = b := by
  rw [h.isSubclass_iff_mem_and_reaches] at hab hba
  rcases Relation.reflTransGen_iff_eq_or_transGen.mp hab.2 with rfl | hstep
  · rfl
  · obtain ⟨n, hn⟩ := h.ends a hab.1
    exact absurd (hstep.trans_left hba.2) hn.not_onCycle

theorem isSubclass_root (h : Rooted t) {name : String} (hname : name ∈ t.names) :
    t.isSubclass name objectName = true := by
  have hlast := List.mem_of_getLast? (h.isLineage hname).last
  rw [h.names_ancestors hname] at hlast
  exact h.isSubclass_iff_mem_and_reaches.mpr ⟨hname, reaches_of_mem_trail hlast⟩

theorem eq_root_of_isSubclass (h : Rooted t) {name : String}
    (hsub : t.isSubclass objectName name = true) : name = objectName :=
  h.isSubclass_antisymm
    (h.isSubclass_root (h.mem_names_of_reaches h.root_mem
      (h.isSubclass_iff_mem_and_reaches.mp hsub).2)) hsub

/-! ## Types -/

/-- What lies between two types cannot be the recovery type, which would join any two types. -/
theorem below_trans (h : Rooted t) {a b c : Ty} (hb : b ≠ .untyped) (hab : Below t a b)
    (hbc : Below t b c) : Below t a c := by
  cases hab with
  | refl => exact hbc
  | ofUntyped => exact .ofUntyped c
  | toUntyped => exact absurd rfl hb
  | nullCls =>
    cases hbc with
    | refl => exact .nullCls _
    | toUntyped => exact .toUntyped _
    | cls => exact .nullCls _
  | nullArray =>
    cases hbc with
    | refl => exact .nullArray _
    | toUntyped => exact .toUntyped _
    | arrayObject => exact .nullCls _
    | arrayCls => exact .nullArray _
  | cls hsub =>
    cases hbc with
    | refl => exact .cls hsub
    | toUntyped => exact .toUntyped _
    | cls hsup => exact .cls (h.isSubclass_trans hsub hsup)
  | arrayObject elem =>
    cases hbc with
    | refl => exact .arrayObject elem
    | toUntyped => exact .toUntyped _
    | cls hsup => exact h.eq_root_of_isSubclass hsup ▸ .arrayObject elem
  | arrayCls hsub =>
    cases hbc with
    | refl => exact .arrayCls hsub
    | toUntyped => exact .toUntyped _
    | arrayObject => exact .arrayObject _
    | arrayCls hsup => exact .arrayCls (h.isSubclass_trans hsub hsup)

theorem below_antisymm (h : Rooted t) {a b : Ty} (ha : a ≠ .untyped) (hb : b ≠ .untyped)
    (hab : Below t a b) (hba : Below t b a) : a = b := by
  cases hab with
  | refl => rfl
  | ofUntyped => exact absurd rfl ha
  | toUntyped => exact absurd rfl hb
  | nullCls => cases hba
  | nullArray => cases hba
  | cls hsub =>
    cases hba with
    | refl => rfl
    | cls hsup => rw [h.isSubclass_antisymm hsub hsup]
  | arrayObject => cases hba
  | arrayCls hsub =>
    cases hba with
    | refl => rfl
    | arrayCls hsup => rw [h.isSubclass_antisymm hsub hsup]

theorem object_below_iff (h : Rooted t) {ty : Ty} :
    Below t .object ty ↔ ty = .object ∨ ty = .untyped := by
  constructor
  · intro hbelow
    cases hbelow with
    | refl => exact .inl rfl
    | toUntyped => exact .inr rfl
    | cls hsub => exact .inl (congrArg Ty.cls (h.eq_root_of_isSubclass hsub))
  · rintro (rfl | rfl)
    · exact .refl _
    · exact .toUntyped _

end Rooted

/-- The subclass relation of a built table is the closure of the parent links, and away from the
recovery type the subtype relation is a partial order with `Object` above everything but primitive
types, and below nothing else. -/
theorem subtyping_partial_order (classes : List ClassDecl) :
    let t := (Hierarchy.build classes).1
    (∀ sub sup, t.isSubclass sub sup = true ↔
      sub ∈ t.names ∧ Relation.ReflTransGen (fun a b => t.parent? a = some b) sub sup) ∧
    (∀ a, t.isSubtype a a = true) ∧
    (∀ a b c, b ≠ .untyped → t.isSubtype a b = true → t.isSubtype b c = true →
      t.isSubtype a c = true) ∧
    (∀ a b, a ≠ .untyped → b ≠ .untyped → t.isSubtype a b = true → t.isSubtype b a = true →
      a = b) ∧
    t.isSubtype .null .object = true ∧
    (∀ elem, t.isSubtype (.array elem) .object = true) ∧
    (∀ name ∈ t.names, t.isSubtype (.cls name) .object = true) ∧
    ∀ ty, t.isSubtype .object ty = true ↔ ty = .object ∨ ty = .untyped := by
  intro t
  have h : Rooted t := rooted_build classes
  simp only [isSubtype_iff]
  refine ⟨fun sub sup => h.isSubclass_iff_mem_and_reaches, .refl, ?_, ?_, .nullCls _, .arrayObject,
    fun name hname => .cls (h.isSubclass_root hname), fun ty => h.object_below_iff⟩
  · exact fun a b c hb hab hbc => h.below_trans hb hab hbc
  · exact fun a b ha hb hab hba => h.below_antisymm ha hb hab hba

/-- A cycle of `B` and `C`, a class `A` that leads into it, and a name `Ghost` without a class. -/
theorem subtyping_partial_order_tailedCycles :
    let t := (Hierarchy.build Hierarchy.tailedCycles).1
    Relation.ReflTransGen (fun a b => t.parent? a = some b) "A" "B" ∧
    t.isSubtype .null (.array (.cls "A")) = true ∧
    t.isSubtype (.array (.cls "A")) (.array (.cls "B")) = true ∧
    t.isSubtype .null (.array (.cls "B")) = true ∧
    t.isSubtype (.cls "Ghost") (.cls "Ghost") = true ∧ t.isSubclass "Ghost" "Ghost" = false ∧
    Ty.cls "Ghost" = Ty.cls "Ghost" ∧ t.isSubtype (.cls "C") .object = true := by
  intro t
  obtain ⟨hclosure, hrefl, htrans, hantisymm, _, _, hclasses, _⟩ :=
    subtyping_partial_order Hierarchy.tailedCycles
  have hnull : t.isSubtype .null (.array (.cls "A")) = true := by decide
  have harray : t.isSubtype (.array (.cls "A")) (.array (.cls "B")) = true := by decide
  have hghost := hrefl (.cls "Ghost")
  refine ⟨((hclosure "A" "B").mp (by decide)).2, hnull, harray,
    htrans _ _ _ (by decide) hnull harray, hghost, by decide, ?_, hclasses "C" (by decide)⟩
  exact hantisymm _ _ (by decide) (by decide) hghost hghost

end ClassCompiler
