import ClassCompiler.Assembly.DispatchTable
import ClassCompiler.Proofs.Binding

/-!
# Virtual dispatch

The table of a class is filled from the root down, and a look-up searches from the class up. Both
find the same definition, and a class keeps the slots of the classes above it.

Results:
1. `prefix_foldl_enter`, `nodup_foldl_enter`: definitions only ever add methods at the end.
2. `definer?_foldl_enter`: of several definitions of a method the last one is in force.
3. `exists_declared_of_mem`: what a slot names is declared.
4. `definer?_ofClass`: it is the one that the look-up finds, if members and method tables agree.
5. `ofClass_keeps_slots_and_finds`: all of it, for the table of any program.
-/

namespace ClassCompiler

open Walk

namespace Assembly.DispatchTable

/-- The methods in the order of their slots. -/
def methods (d : DispatchTable) : List String := d.slots.map (·.method)

/-- The class whose definition of a method is in force. -/
def definer? (d : DispatchTable) (method : String) : Option String :=
  (d.slots.find? (·.method == method)).map (·.definer)

/-! ## Entering definitions -/

theorem any_slots_iff (d : DispatchTable) (method : String) :
    d.slots.any (·.method = method) = true ↔ method ∈ d.methods := by
  simp [methods]

theorem methods_enter (d : DispatchTable) (s : Slot) :
    (d.enter s).methods = if s.method ∈ d.methods then d.methods else d.methods ++ [s.method] := by
  unfold enter
  by_cases h : s.method ∈ d.methods
  · rw [if_pos ((any_slots_iff d s.method).mpr h), if_pos h]
    show (d.slots.map _).map _ = _
    rw [List.map_map]
    refine List.map_congr_left fun old _ => ?_
    by_cases hm : old.method = s.method <;> simp [hm]
  · rw [if_neg (mt (any_slots_iff d s.method).mp h), if_neg h]
    exact List.map_append

theorem definer?_enter (d : DispatchTable) (s : Slot) (method : String) :
    (d.enter s).definer? method =
      if s.method = method then some s.definer else d.definer? method := by
  unfold enter
  by_cases h : s.method ∈ d.methods
  · rw [if_pos ((any_slots_iff d s.method).mpr h)]
    -- a slot that is taken over keeps its method, so the same slot is found as before
    have hsame : ((fun x : Slot => x.method == method) ∘
        fun old => if old.method = s.method then s else old) = (·.method == method) := by
      funext old
      by_cases hm : old.method = s.method <;> simp [hm]
    show ((d.slots.map _).find? _).map _ = _
    rw [List.find?_map, hsame, definer?]
    cases hf : d.slots.find? (·.method == method) with
    | none =>
      have hne : s.method ≠ method := by
        rintro rfl
        obtain ⟨old, hold, heq⟩ := List.mem_map.mp h
        exact List.find?_eq_none.mp hf old hold (beq_iff_eq.mpr heq)
      rw [if_neg hne]
      rfl
    | some old =>
      have hold : old.method = method := by simpa using List.find?_some hf
      by_cases hm : s.method = method
      · simp [hm, hold]
      · simp [hm, hold, Ne.symm hm]
  · rw [if_neg (mt (any_slots_iff d s.method).mp h)]
    show ((d.slots ++ [s]).find? _).map _ = _
    rw [List.find?_append, definer?]
    by_cases hm : s.method = method
    · have hnone : d.slots.find? (·.method == method) = none := by
        refine List.find?_eq_none.mpr fun old hold heq => h ?_
        exact List.mem_map.mpr ⟨old, hold, (beq_iff_eq.mp heq).trans hm.symm⟩
      simp [hnone, hm]
    · simp [hm]

theorem mem_slots_enter {d : DispatchTable} {s old : Slot} (h : old ∈ (d.enter s).slots) :
    old ∈ d.slots ∨ old = s := by
  unfold enter at h
  split at h
  · obtain ⟨slot, hslot, rfl⟩ := List.mem_map.mp h
    by_cases hm : slot.method = s.method
    · exact .inr (if_pos hm)
    · exact .inl (by rwa [if_neg hm])
  · exact (List.mem_append.mp h).imp_right List.mem_singleton.mp

theorem mem_slots_foldl_enter {defs : List Slot} {d : DispatchTable} {s : Slot}
    (h : s ∈ (defs.foldl enter d).slots) : s ∈ d.slots ∨ s ∈ defs := by
  induction defs generalizing d with
  | nil => exact .inl h
  | cons first defs ih =>
    rcases ih h with hd | hdefs
    · rcases mem_slots_enter hd with hd | rfl
      · exact .inl hd
      · exact .inr List.mem_cons_self
    · exact .inr (List.mem_cons_of_mem _ hdefs)

theorem prefix_foldl_enter (defs : List Slot) (d : DispatchTable) :
    d.methods <+: (defs.foldl enter d).methods := by
  induction defs generalizing d with
  | nil => exact List.prefix_rfl
  | cons s defs ih =>
    refine List.IsPrefix.trans ?_ (ih (d.enter s))
    rw [methods_enter]
    split
    · exact List.prefix_rfl
    · exact List.prefix_append _ _

theorem nodup_foldl_enter (defs : List Slot) {d : DispatchTable} (h : d.methods.Nodup) :
    (defs.foldl enter d).methods.Nodup := by
  induction defs generalizing d with
  | nil => exact h
  | cons s defs ih =>
    refine ih ?_
    rw [methods_enter]
    split
    · exact h
    · next hnew =>
      refine List.nodup_append.mpr ⟨h, by simp, fun a ha b hb hab => hnew ?_⟩
      rw [List.mem_singleton] at hb
      exact hb ▸ hab ▸ ha

/-- The last definition of a method is in force. -/
theorem definer?_foldl_enter (defs : List Slot) (d : DispatchTable) (method : String) :
    (defs.foldl enter d).definer? method =
      ((defs.reverse.find? (·.method == method)).map (·.definer)).or (d.definer? method) := by
  induction defs generalizing d with
  | nil => rfl
  | cons s defs ih =>
    rw [List.foldl_cons, ih, definer?_enter, List.reverse_cons, List.find?_append]
    cases defs.reverse.find? (·.method == method) with
    | some last => rfl
    | none => by_cases hm : s.method = method <;> simp [hm]

/-! ## Reading a table -/

theorem map_fst_get? (d : DispatchTable) (method : String) :
    (d.get? method).map (·.1) = d.methods.idxOf? method := by
  have hidx : d.methods.idxOf? method = d.slots.findIdx? (·.method == method) := by
    rw [List.idxOf?, methods, List.findIdx?_map]
    rfl
  rw [hidx, get?]
  cases hi : d.slots.findIdx? (·.method == method) with
  | none => rfl
  | some index =>
    have hsome : (d.slots.find? (·.method == method)).isSome = true := by
      rw [List.find?_isSome, ← List.any_eq_true, ← List.findIdx?_isSome, hi]
      rfl
    obtain ⟨s, hs⟩ := Option.isSome_iff_exists.mp hsome
    rw [hs]
    rfl

theorem map_snd_get? (d : DispatchTable) (method : String) :
    (d.get? method).map (·.2) = d.definer? method := by
  rw [get?, definer?]
  cases hs : d.slots.find? (·.method == method) with
  | none => cases d.slots.findIdx? (·.method == method) <;> rfl
  | some s =>
    have hsome : (d.slots.findIdx? (·.method == method)).isSome = true := by
      rw [List.findIdx?_isSome, List.any_eq_true, ← List.find?_isSome, hs]
      rfl
    obtain ⟨index, hi⟩ := Option.isSome_iff_exists.mp hsome
    rw [hi]
    rfl

/-- A table that goes on where another one ends has its methods at the same slots. -/
theorem get?_of_prefix {d d' : DispatchTable} (h : d.methods <+: d'.methods)
    {method definer : String} {index : Nat} (hget : d.get? method = some (index, definer)) :
    ∃ definer', d'.get? method = some (index, definer') := by
  have hidx := map_fst_get? d method
  rw [hget] at hidx
  have hidx' : (d'.get? method).map (·.1) = some index :=
    (map_fst_get? d' method).trans (h.findIdx?_eq_some hidx.symm)
  obtain ⟨⟨_, definer'⟩, hget', rfl⟩ := Option.map_eq_some_iff.mp hidx'
  exact ⟨definer', hget'⟩

/-! ## The table of a class -/

/-- A slot goes back to an entry that declares its method. -/
theorem exists_declared_of_mem {t : ClassTable} {cls : String} {s : Slot}
    (hs : s ∈ (ofClass t cls).slots) :
    ∃ e ∈ t.entries, e.name = s.definer ∧ s.method ∈ e.declaredMethods := by
  have hdef := (mem_slots_foldl_enter hs).resolve_left List.not_mem_nil
  obtain ⟨e, he, hmem⟩ := List.mem_flatMap.mp hdef
  obtain ⟨method, hmethod, rfl⟩ := List.mem_map.mp hmem
  exact ⟨e, ClassTable.mem_of_mem_chain (List.mem_reverse.mp he), rfl, hmethod⟩

theorem find?_declared (e : ClassEntry) (method : String) :
    ((e.declaredMethods.map fun m => (⟨m, e.name⟩ : Slot)).reverse.find?
      (·.method == method)).map (·.definer) =
        if method ∈ e.declaredMethods then some e.name else none := by
  cases hf : (e.declaredMethods.map fun m => (⟨m, e.name⟩ : Slot)).reverse.find?
      (·.method == method) with
  | none =>
    have hnot : method ∉ e.declaredMethods := by
      intro hm
      refine List.find?_eq_none.mp hf ⟨method, e.name⟩ ?_ (beq_self_eq_true method)
      exact List.mem_reverse.mpr (List.mem_map_of_mem hm)
    rw [if_neg hnot]
    rfl
  | some s =>
    have hmem := List.mem_reverse.mp (List.mem_of_find?_eq_some hf)
    obtain ⟨m, hm, rfl⟩ := List.mem_map.mp hmem
    have heq : m = method := by simpa using List.find?_some hf
    rw [if_pos (heq ▸ hm)]
    rfl

theorem definer?_ofClass {t : ClassTable}
    (ht : ∀ e ∈ t.entries, ∀ m, m ∈ e.declaredMethods ↔ (e.methods.lookup? m).isSome = true)
    (cls method : String) :
    (ofClass t cls).definer? method = (t.lookupMethod? cls method).map (·.1) := by
  rw [ofClass, definer?_foldl_enter, definitions, List.reverse_flatMap, List.reverse_reverse,
    List.find?_flatMap, List.map_findSome?, ClassTable.lookupMethod?, List.map_findSome?]
  show Option.or _ none = _
  rw [Option.or_none, ← List.head?_filterMap, ← List.head?_filterMap]
  refine congrArg List.head? (List.filterMap_congr fun e he => ?_)
  have hiff := ht e (ClassTable.mem_of_mem_chain he) method
  refine (find?_declared e method).trans ?_
  cases hl : e.methods.lookup? method with
  | none =>
    rw [hl] at hiff
    rw [if_neg (by simp [hiff])]
    simp [hl]
  | some b =>
    rw [hl] at hiff
    rw [if_pos (hiff.mpr rfl)]
    simp [hl]

theorem prefix_definitions {t : ClassTable} (h : Rooted t) {sub sup : String}
    (hr : Reaches t.parent? sub sup) : definitions t sup <+: definitions t sub := by
  obtain ⟨below, hbelow⟩ := h.ancestors_suffix hr
  unfold definitions
  rw [← hbelow, List.reverse_append, List.flatMap_append]
  exact List.prefix_append _ _

theorem prefix_methods {t : ClassTable} (h : Rooted t) {sub sup : String}
    (hr : Reaches t.parent? sub sup) : (ofClass t sup).methods <+: (ofClass t sub).methods := by
  obtain ⟨own, hown⟩ := prefix_definitions h hr
  unfold ofClass
  rw [← hown, List.foldl_append]
  exact prefix_foldl_enter own _

/-- Dispatch in the table of any program. The methods of a class come first, in the same slots, in
every class below it. No method has two slots. The slot of a method names the class that a look-up
from the class upwards finds, and there is no slot if the look-up finds nothing. -/
theorem ofClass_keeps_slots_and_finds (classes : List ClassDecl) :
    let t := (Members.bind classes (Hierarchy.build classes).1).1
    (∀ sub sup, Reaches t.parent? sub sup →
      (ofClass t sup).methods <+: (ofClass t sub).methods ∧
      ∀ method index definer, (ofClass t sup).get? method = some (index, definer) →
        ∃ definer', (ofClass t sub).get? method = some (index, definer')) ∧
    (∀ cls, (ofClass t cls).methods.Nodup) ∧
    ∀ cls method,
      ((ofClass t cls).get? method).map (·.2) = (t.lookupMethod? cls method).map (·.1) := by
  intro t
  have hrooted : Rooted t := Members.rooted_bind classes (rooted_build classes)
  refine ⟨fun sub sup hr => ?_, fun cls => nodup_foldl_enter _ List.nodup_nil, fun cls method => ?_⟩
  · have hkept := prefix_methods hrooted hr
    exact ⟨hkept, fun method index definer hget => get?_of_prefix hkept hget⟩
  · rw [map_snd_get?]
    refine definer?_ofClass (fun e he m => ?_) cls method
    obtain ⟨e, hmem, rfl⟩ := Members.mem_bind.mp he
    obtain ⟨fields, methods, hframed⟩ := Members.framed_bindEntry hmem
    exact hframed.mem_declaredMethods m

/-- Two classes above each other: `B` overrides `f` of `A` and `toString` of the root, and `h` is
its own. -/
def overriding : List ClassDecl :=
  [{ name := "B", parent := some "A"
     features := [Builtin.method "h" "int", Builtin.method "toString" "String",
       Builtin.method "f" "int"] },
    { name := "A", features := [Builtin.method "f" "int", Builtin.method "g" "int"] }]

theorem ofClass_keeps_slots_and_finds_overriding :
    let t := (Members.bind overriding (Hierarchy.build overriding).1).1
    Reaches t.parent? "B" "A" ∧
    (ofClass t "A").methods <+: (ofClass t "B").methods ∧
    (ofClass t "A").get? "f" = some (3, "A") ∧ (ofClass t "B").get? "f" = some (3, "B") ∧
    (t.lookupMethod? "B" "f").map (·.1) = some "B" ∧
    (t.lookupMethod? "B" "missing").map (·.1) = none := by
  intro t
  have hr : Reaches t.parent? "B" "A" :=
    Relation.ReflTransGen.single (show t.parent? "B" = some "A" by decide)
  obtain ⟨hkeeps, _, hfinds⟩ := ofClass_keeps_slots_and_finds overriding
  obtain ⟨hkept, hslots⟩ := hkeeps "B" "A" hr
  have hA : (ofClass t "A").get? "f" = some (3, "A") := by decide
  obtain ⟨definer, hB⟩ := hslots "f" 3 "A" hA
  have hfound : (ofClass t "B").definer? "f" = some "B" := by decide
  have hdefiner : definer = "B" := by
    rw [← map_snd_get?, hB] at hfound
    exact Option.some.inj hfound
  subst hdefiner
  refine ⟨hr, hkept, hA, hB, ?_, ?_⟩
  · rw [← hfinds "B" "f", hB]
    rfl
  · exact (hfinds "B" "missing").symm.trans (by decide)

end Assembly.DispatchTable

end ClassCompiler
