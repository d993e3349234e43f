import ClassCompiler.Proofs.TypingProgram

/-!
# Overriding along the hierarchy

The check compares a method with the nearest one above it only. Since having the same signature is
transitive, this is enough for whole chains of classes, whatever else is wrong with a program.

Results:
1. `ClassTable.sameTypeName_trans`, `ClassTable.sameSignature_trans`: type names are compared partly
   by meaning and partly by spelling, and still the comparison is transitive.
2. `KeepsSignatures.lookupMethod?_of_reaches`: what holds from one class to its parent holds from a
   class to all its ancestors.
3. `keepsSignatures_bind`: without a report every class agrees with its parent, since every bound
   method of every class of the table is looked at, and the built-in classes agree anyway.
4. `signatures_kept_of_no_invalidOverride`: the two together.
-/

namespace ClassCompiler

open Typing Walk

/-- The diagnostic is about a method without the signature of the one it overrides. -/
def Diagnostic.isInvalidOverride (d : Diagnostic) : Bool :=
  match d.cause with
  | some (.fault ⟨.invalidOverride _ _ _, _⟩) => true
  | _ => false

/-! ## Signatures -/

namespace ClassTable

variable {t : ClassTable}

theorem sameTypeName_iff {a b : String} :
    t.sameTypeName a b = true ↔
      a = b ∨ ∃ ty, t.resolve? a = some ty ∧ t.resolve? b = some ty := by
  unfold sameTypeName
  cases ha : t.resolve? a with
  | none => simp
  | some x =>
    cases hb : t.resolve? b with
    | none => simp
    | some y =>
      simp only [decide_eq_true_eq, Option.some.injEq, exists_eq_left']
      refine ⟨fun hxy => .inr hxy.symm, ?_⟩
      rintro (rfl | rfl)
      · exact Option.some.inj (ha.symm.trans hb)
      · rfl

/-- A name without a meaning agrees only with itself, so it cannot link two names that have one. -/
theorem sameTypeName_trans {a b c : String} (hab : t.sameTypeName a b = true)
    (hbc : t.sameTypeName b c = true) : t.sameTypeName a c = true := by
  rw [sameTypeName_iff] at hab hbc ⊢
  rcases hab with rfl | ⟨ty, ha, hb⟩
  · exact hbc
  · rcases hbc with rfl | ⟨ty', hb', hc⟩
    · exact .inr ⟨ty, ha, hb⟩
    · cases hb.symm.trans hb'
      exact .inr ⟨ty, ha, hc⟩

theorem sameSignature_of_eq {a b : MethodBinding} (h : a.signature = b.signature) :
    t.sameSignature a b = true := by
  obtain ⟨hreturn, hparams⟩ := Prod.mk.inj h
  rw [sameSignature_iff, hreturn, hparams]
  have hrefl (name : String) : t.sameTypeName name name = true := sameTypeName_iff.mpr (.inl rfl)
  exact ⟨hrefl _, List.forall₂_same.mpr fun name _ => hrefl name⟩

theorem sameSignature_trans {a b c : MethodBinding} (hab : t.sameSignature a b = true)
    (hbc : t.sameSignature b c = true) : t.sameSignature a c = true := by
  rw [sameSignature_iff] at hab hbc ⊢
  obtain ⟨habReturn, habParams⟩ := hab
  obtain ⟨hbcReturn, hbcParams⟩ := hbc
  refine ⟨sameTypeName_trans habReturn hbcReturn, ?_⟩
  generalize a.params.map (·.typeName) = xs, b.params.map (·.typeName) = ys,
    c.params.map (·.typeName) = zs at habParams hbcParams ⊢
  induction habParams generalizing zs with
  | nil =>
    cases hbcParams
    exact .nil
  | cons hxy _ ih =>
    cases hbcParams with
    | cons hyz hrest => exact .cons (sameTypeName_trans hxy hyz) (ih _ hrest)

end ClassTable

/-! ## From parents to ancestors -/

/-- The nearest method of a name is the class's own, or else that of its parent. -/
theorem Rooted.lookupMethod?_eq {t : ClassTable} (h : Rooted t) {cls : String} {e : ClassEntry}
    (he : t.find? cls = some e) (name : String) :
    t.lookupMethod? cls name = ((e.methods.lookup? name).map (e.name, ·)).or
      ((t.parent? cls).bind fun parent => t.lookupMethod? parent name) :=
  h.findSome?_ancestors he _

/-- Every method that a class declares has the signature of what its parent has under that name. -/
def KeepsSignatures (t : ClassTable) : Prop :=
  ∀ cls e parent name own definer inherited, t.find? cls = some e → e.parent = some parent →
    e.methods.lookup? name = some own → t.lookupMethod? parent name = some (definer, inherited) →
      t.sameSignature own inherited = true

/-- A class has every method of its ancestors, with the signature it has there. -/
theorem KeepsSignatures.lookupMethod?_of_reaches {t : ClassTable} (hkeeps : KeepsSignatures t)
    (hrooted : Rooted t) {sub sup : String} (hr : Reaches t.parent? sub sup)
    {name definer : String} {b : MethodBinding}
    (hb : t.lookupMethod? sup name = some (definer, b)) :
    ∃ definer' b', t.lookupMethod? sub name = some (definer', b') ∧
      t.sameSignature b' b = true := by
  induction hr using Relation.ReflTransGen.head_induction_on with
  | refl => exact ⟨definer, b, hb, ClassTable.sameSignature_of_eq rfl⟩
  | @head cls parent hs _ ih =>
    obtain ⟨definer', b', hb', hsame⟩ := ih
    obtain ⟨e, he, hparent⟩ := Option.bind_eq_some_iff.mp hs
    rw [hrooted.lookupMethod?_eq he, show t.parent? cls = some parent from hs]
    cases hown : e.methods.lookup? name with
    | none => exact ⟨definer', b', hb', hsame⟩
    | some own =>
      have hagree := hkeeps cls e parent name own definer' b' he hparent hown hb'
      exact ⟨e.name, own, rfl, ClassTable.sameSignature_trans hagree hsame⟩

/-! ## What the check looks at -/

namespace Typing

/-- Every fault of every feature is reported if its class is the registered one of its name. -/
theorem mem_diagnostics_checkClasses {t : ClassTable} {classes : List ClassDecl} {index : Nat}
    {c : ClassDecl} (hc : classes[index]? = some c) (hchecked : IsChecked t index c) {f : Feature}
    (hf : f ∈ c.features) {fault : Fault} (hfault : fault ∈ (checkFeature (homeOf t c) f).2) :
    fault.diagnostic c.file ∈ (checkClasses t none 0 0 classes).diagnostics := by
  rw [checkClasses_none]
  refine List.mem_flatMap.mpr ⟨(c, index), List.mem_zipIdx_iff_getElem?.mpr hc, ?_⟩
  show _ ∈ (checkClass t index c).2
  rw [checkClass_of_isChecked hchecked]
  exact List.mem_map_of_mem (List.mem_flatMap.mpr ⟨f, hf, hfault⟩)

/-- Unless the signatures agree, the comparison with what the parent has is reported. -/
theorem invalidOverride_mem_checkFeature {h : Home} {m : Method} {e : ClassEntry}
    {parent definer : String} {own inherited : MethodBinding} (he : h.table.find? h.cls = some e)
    (hparent : e.parent = some parent) (hown : e.methods.peek? m.name = some own)
    (hinherited : h.table.lookupMethod? parent m.name = some (definer, inherited))
    (hdiffer : h.table.sameSignature own inherited ≠ true) :
    ⟨.invalidOverride h.cls m.name definer, m.span⟩ ∈ (checkFeature h (.method m)).2 := by
  have hfaults : overrideFaults h m = [⟨.invalidOverride h.cls m.name definer, m.span⟩] := by
    simp only [overrideFaults, he, hparent, Option.bind_some, hinherited, hown, if_neg hdiffer]
  simp [checkFeature, checkMethod, hfaults]

end Typing

/-! ## The table of a program -/

namespace Hierarchy

theorem find?_root (classes : List ClassDecl) :
    ∃ root, (build classes).1.find? objectName = some root ∧ root.origin = .builtin 0 := by
  obtain ⟨root, hroot⟩ := ClassTable.exists_find? (rooted_build classes).root_mem
  refine ⟨root, hroot, ?_⟩
  have hregistered : (registeredTable classes).find? objectName =
      some (builtinEntry 0 Builtin.object) :=
    (prefix_registeredTable classes).find?_eq_some (show builtinTable.find? objectName = _ from rfl)
  exact congrArg ClassEntry.origin
    (Option.some.inj ((find?_registered hroot).symm.trans hregistered) :)

/-- The built-in classes other than the root stay under the root. -/
theorem parent_of_builtin {classes : List ClassDecl} {e : ClassEntry} {parent : String}
    {index : Nat} (he : e ∈ (build classes).1.entries) (horigin : e.origin = .builtin index)
    (hparent : e.parent = some parent) : parent = objectName := by
  have hfind := ClassTable.find?_of_mem (rooted_build classes).nodup he
  have hlink : (build classes).1.parent? e.name = some parent := by
    rw [ClassTable.parent?, hfind, Option.bind_some, hparent]
  rw [(repairing_build classes).1.links] at hlink
  unfold redirect resolvedLinks at hlink
  split at hlink
  · exact (Option.some.inj hlink).symm
  · split at hlink
    · cases hlink
    · rw [find?_registered hfind, Option.map_some, Option.some.injEq] at hlink
      rw [← hlink]
      -- a built-in class declares the root as its parent, or none at all
      have hfrom := (registered_registeredTable classes).fromDecl _
        (ClassTable.mem_of_find? (find?_registered hfind))
      have hdeclared : e.declaredParent.getD objectName = objectName := by
        have hall : ∀ c ∈ builtinClasses, c.parent.getD objectName = objectName := by decide
        generalize hfresh : e.unlinked = fresh at hfrom
        cases hfrom with
        | @builtin i c hc =>
          rw [show e.declaredParent = c.parent from (congrArg ClassEntry.declaredParent hfresh :)]
          exact hall c (List.mem_of_getElem? hc)
        | @user i c hc =>
          have horigin' : e.origin = .user i := (congrArg ClassEntry.origin hfresh :)
          cases horigin.symm.trans horigin'
      simp only [resolvedParent]
      rw [show e.unlinked.declaredParent = e.declaredParent from rfl, hdeclared]
      exact ite_self _

end Hierarchy

section

variable {classes : List ClassDecl}

/-- A bound method of a class of the table is a method of the declaration at its origin. -/
theorem exists_method_of_lookup {fresh : ClassEntry}
    (hmem : fresh ∈ (Hierarchy.build classes).1.entries) {name : String} {b : MethodBinding}
    (hb : (Members.bindEntry classes fresh).1.methods.lookup? name = some b) :
    ∃ c m, fresh.origin.decl? classes = some c ∧ c.name = fresh.name ∧ .method m ∈ c.features ∧
      m.name = name ∧ b.signature = m.signature ∧
      (Members.bindEntry classes fresh).1.methods.peek? name = some b := by
  obtain ⟨hbare, c, hdecl, hname⟩ := Hierarchy.exists_decl_of_mem hmem
  obtain ⟨fields, methods, hframed, hfrom⟩ := Members.framed_bindEntry_of_decl hbare hdecl
  rw [hframed.methods_eq, Scope.lookup?_single] at hb
  obtain ⟨m, hm, heq⟩ := hfrom (name, b) (mem_of_lookup hb)
  obtain ⟨rfl, rfl⟩ := Prod.mk.inj heq
  refine ⟨c, m, hdecl, hname, hm, rfl, Members.signature_methodBinding fresh c m, ?_⟩
  rw [hframed.methods_eq]
  exact hb

/-- What the root has is what the language declares for it. -/
theorem exists_method_of_lookup_root {name definer : String} {b : MethodBinding}
    (hb : (Members.bind classes (Hierarchy.build classes).1).1.lookupMethod? objectName name =
      some (definer, b)) :
    ∃ m, .method m ∈ Builtin.object.features ∧ m.name = name ∧ b.signature = m.signature := by
  have hrooted := Members.rooted_bind classes (rooted_build classes)
  obtain ⟨root, hroot, horigin⟩ := Hierarchy.find?_root classes
  have hfind := Members.find?_bind classes (Hierarchy.build classes).1 objectName
  rw [hroot, Option.map_some] at hfind
  rw [hrooted.lookupMethod?_eq hfind, hrooted.root_parent, Option.bind_none, Option.or_none] at hb
  obtain ⟨own, hown, heq⟩ := Option.map_eq_some_iff.mp hb
  obtain ⟨_, rfl⟩ := Prod.mk.inj heq
  obtain ⟨c, m, hdecl, _, hm, hname, hsig, _⟩ :=
    exists_method_of_lookup (ClassTable.mem_of_find? hroot) hown
  rw [horigin] at hdecl
  cases hdecl
  exact ⟨m, hm, hname, hsig⟩

/-- Without a report every class agrees with its parent. The methods of a class of the program are
compared when its declaration is checked, and those of a built-in class need no check. -/
theorem keepsSignatures_bind
    (hclean : ∀ d ∈ (checkClasses (Members.bind classes (Hierarchy.build classes).1).1 none 0 0
      classes).diagnostics, d.isInvalidOverride = false) :
    KeepsSignatures (Members.bind classes (Hierarchy.build classes).1).1 := by
  intro cls e parent name own definer inherited he hparent hown hinherited
  have hfind := he
  rw [Members.find?_bind] at hfind
  obtain ⟨fresh, hfresh, rfl⟩ := Option.map_eq_some_iff.mp hfind
  have hmem := ClassTable.mem_of_find? hfresh
  have hbare := Members.bare_bindEntry classes fresh
  obtain ⟨c, m, hdecl, hname, hm, rfl, hsig, hpeek⟩ := exists_method_of_lookup hmem hown
  cases horigin : fresh.origin with
  | builtin index =>
    have hlinked : fresh.parent = some parent :=
      (ClassEntry.parent_of_bare hbare).symm.trans hparent
    have hroot : parent = objectName := Hierarchy.parent_of_builtin hmem horigin hlinked
    obtain ⟨n, hn, hnname, hnsig⟩ := exists_method_of_lookup_root (hroot ▸ hinherited)
    have hall : ∀ c ∈ builtinClasses, ∀ m ∈ c.methods, ∀ n ∈ Builtin.object.methods,
        n.name = m.name → m.signature = n.signature := by decide
    rw [horigin] at hdecl
    refine ClassTable.sameSignature_of_eq (hsig.trans (.trans ?_ hnsig.symm))
    exact hall c (List.mem_of_getElem? hdecl) m (ClassDecl.mem_methods.mpr hm) n
      (ClassDecl.mem_methods.mpr hn) hnname
  | user index =>
    rw [horigin] at hdecl
    have hcls : c.name = cls := hname.trans (ClassTable.name_of_find? hfresh)
    subst hcls
    have hbound : (Members.bindEntry classes fresh).1.origin = .user index :=
      (congrArg ClassEntry.origin hbare :).trans horigin
    have hchecked : IsChecked (Members.bind classes (Hierarchy.build classes).1).1 index c := by
      rw [IsChecked, he]
      simpa using hbound
    by_contra hdiffer
    have hfault := invalidOverride_mem_checkFeature
      (h := homeOf (Members.bind classes (Hierarchy.build classes).1).1 c) he hparent hpeek
      hinherited hdiffer
    have hreported := mem_diagnostics_checkClasses hdecl hchecked hm hfault
    exact nomatch hclean _ hreported

end

/-- Let none of the phases report an invalid override of a program; anything else may be reported.
Then a class has every method that a class above it has, and with the same signature. -/
theorem signatures_kept_of_no_invalidOverride (classes : List ClassDecl) :
    let built := Hierarchy.build classes
    let bound := Members.bind classes built.1
    let t := bound.1
    (∀ d ∈ built.2 ++ bound.2 ++ (checkClasses t none 0 0 classes).diagnostics,
      d.isInvalidOverride = false) →
    ∀ sub ∈ t.names, ∀ sup ∈ t.names, t.isSubclass sub sup = true →
      ∀ name definer b, t.lookupMethod? sup name = some (definer, b) →
        ∃ definer' b', t.lookupMethod? sub name = some (definer', b') ∧
          t.sameSignature b' b = true := by
  intro built bound t hclean sub hsub sup _ hsubclass name definer b hb
  have hrooted : Rooted t := Members.rooted_bind classes (rooted_build classes)
  have hkeeps : KeepsSignatures t :=
    keepsSignatures_bind fun d hd => hclean d (List.mem_append_right _ hd)
  exact hkeeps.lookupMethod?_of_reaches hrooted ((hrooted.isSubclass_iff hsub).mp hsubclass) hb

/-- Much is wrong here, but no override: `Missing` has no meaning, `area` is declared twice and
spells its type in two ways, `Text` extends a final class, and two classes extend each other. -/
def faultyShapes : List ClassDecl :=
  [{ name := "Shape"
     features := [Builtin.method "scale" "int" [("by", "Missing")],
       Builtin.method "area" "int[]"] },
    { name := "Square", parent := some "Shape"
      features := [Builtin.method "area" "int []", Builtin.method "area" "boolean"] },
    { name := "Tile", parent := some "Square"
      features := [Builtin.method "scale" "int" [("factor", "Missing")]] },
    { name := "Text", parent := some stringName
      features := [Builtin.method "concat" "String" [("tail", "String")]] },
    { name := "Ping", parent := some "Pong" }, { name := "Pong", parent := some "Ping" }]

theorem signatures_kept_of_no_invalidOverride_faultyShapes :
    let built := Hierarchy.build faultyShapes
    let bound := Members.bind faultyShapes built.1
    let t := bound.1
    let checked := checkClasses t none 0 0 faultyShapes
    (built.2.length, bound.2.length, checked.diagnostics.length) = (2, 1, 2) ∧
      (∀ d ∈ built.2 ++ bound.2 ++ checked.diagnostics, d.isInvalidOverride = false) ∧
      ∃ definer b, t.lookupMethod? "Tile" "scale" = some (definer, b) ∧
        t.sameSignature b
          { returnName := "int", params := [⟨"by", "Missing"⟩], location := .source none {} } =
            true := by
  intro built bound t checked
  have hclean : ∀ d ∈ built.2 ++ bound.2 ++ checked.diagnostics, d.isInvalidOverride = false := by
    decide
  refine ⟨by decide, hclean, ?_⟩
  exact signatures_kept_of_no_invalidOverride faultyShapes hclean "Tile" (by decide) "Shape"
    (by decide) (by decide) "scale" "Shape" _ (by decide)

end ClassCompiler
