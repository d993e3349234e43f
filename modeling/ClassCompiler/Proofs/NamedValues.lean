import Mathlib.Data.List.Find
import Mathlib.Data.List.Nodup

/-!
# Lists of named values

Frames, links between classes and the fields of records are lists of names with their values. A name
stands for the first value that it has in such a list.

Results:
1. `lookup_eq_find?`, `lookup_map_key`, `lookup_map_snd`: a look-up is a search, so it can be moved
   through a map.
2. `mem_of_lookup`, `lookup_eq_none_iff_not_mem`: what a look-up says of the names in a list.
3. `lookup_eq_some_iff_mem`, `lookup_of_perm`, `lookup_append_of_nodup`: if no name is there twice, the
   order does not matter.
-/

namespace ClassCompiler

variable {α β : Type} {entries : List (String × α)} {name : String}

/-! ## Look-ups as searches -/

theorem lookup_eq_find? (entries : List (String × α)) (name : String) :
    entries.lookup name = (entries.find? (·.1 == name)).map (·.2) := by
  induction entries with
  | nil => rfl
  | cons b entries ih =>
    rw [List.lookup_cons, List.find?_cons, Bool.beq_comm]
    cases b.1 == name with
    | true => rfl
    | false => exact ih

/-- Looking up a key in a list of pairs made from values finds the first value of that key. -/
theorem lookup_map_key (values : List β) (key : β → String) (f : β → α) (name : String) :
    (values.map fun b => (key b, f b)).lookup name = (values.find? (key · == name)).map f := by
  rw [lookup_eq_find?, List.find?_map, Option.map_map]
  rfl

theorem lookup_map_snd (entries : List (String × α)) (f : α → β) (name : String) :
    (entries.map fun b => (b.1, f b.2)).lookup name = (entries.lookup name).map f := by
  rw [lookup_map_key, lookup_eq_find?, Option.map_map]
  rfl

/-! ## Names in a list -/

theorem mem_of_lookup {value : α} (h : entries.lookup name = some value) :
    (name, value) ∈ entries := by
  obtain ⟨before, rest, rfl, _⟩ := List.lookup_eq_some_iff.mp h
  exact List.mem_append_right before List.mem_cons_self

theorem lookup_eq_none_iff_not_mem : entries.lookup name = none ↔ name ∉ entries.map (·.1) := by
  rw [List.lookup_eq_none_iff, List.mem_map]
  constructor
  · rintro h ⟨b, hb, rfl⟩
    exact bne_iff_ne.mp (h b hb) rfl
  · intro h b hb
    exact bne_iff_ne.mpr fun heq => h ⟨b, hb, heq.symm⟩

theorem nodup_names_append (hnew : entries.lookup name = none) (h : (entries.map (·.1)).Nodup)
    (value : α) : ((entries ++ [(name, value)]).map (·.1)).Nodup := by
  rw [List.map_append, List.map_singleton, ← List.concat_eq_append]
  exact h.concat (lookup_eq_none_iff_not_mem.mp hnew)

/-! ## Lists without repetitions -/

theorem lookup_eq_some_iff_mem (h : (entries.map (·.1)).Nodup) {value : α} :
    entries.lookup name = some value ↔ (name, value) ∈ entries := by
  refine ⟨mem_of_lookup, fun hmem => ?_⟩
  cases hlookup : entries.lookup name with
  | none => exact absurd (List.mem_map_of_mem hmem) (lookup_eq_none_iff_not_mem.mp hlookup)
  | some found =>
    have heq := List.inj_on_of_nodup_map h (mem_of_lookup hlookup) hmem rfl
    rw [(Prod.mk.inj heq).2]

theorem lookup_of_perm {entries' : List (String × α)} (h : entries.Perm entries')
    (hnodup : (entries.map (·.1)).Nodup) (name : String) :
    entries.lookup name = entries'.lookup name := by
  rw [lookup_eq_find?, lookup_eq_find?, List.find?_eq_find?_of_perm h fun a ha b hb => ?_]
  exact List.inj_on_of_nodup_map hnodup ha.1 hb.1
    ((beq_iff_eq.mp ha.2).trans (beq_iff_eq.mp hb.2).symm)

/-- The last values of a list are found behind the others. -/
theorem lookup_append_of_nodup {own : List String} {tail : List (String × α)}
    (hkeys : entries.map (·.1) = own) (hnodup : (own ++ tail.map (·.1)).Nodup)
    (hname : name ∈ tail.map (·.1)) : (entries ++ tail).lookup name = tail.lookup name := by
  have hnot : name ∉ entries.map (·.1) := by
    rw [hkeys]
    exact fun hmem => (List.nodup_append.mp hnodup).2.2 name hmem name hname rfl
  rw [List.lookup_append, lookup_eq_none_iff_not_mem.mpr hnot]
  rfl

end ClassCompiler
