import Mathlib.Data.List.Find
import Mathlib.Data.List.Perm.Basic
import Mathlib.Data.List.Rotate
import ClassCompiler.Proofs.Repair

/-!
# Cycles up to rotation

Which class of a cycle is reported depends on where the repair starts. But the cycles are those of
the links, so two repairs of the same links report the same cycles, in some order and each from some
member on.

Results:
1. `PermUpTo`: lists that have related members, in any order.
2. `Walk.IsCycle.isRotated`: two lists that go round one cycle are rotations of each other.
3. `Hierarchy.permUpTo_isRotated`: two lists of all cycles of the same links agree up to that.
4. `Hierarchy.diagnostics_build`: the reports of a repair, read off the cycles it met.
-/

namespace ClassCompiler

/-! ## Lists up to order -/

/-- The lists have related members, in any order. -/
def PermUpTo {α β : Type} (R : α → β → Prop) (as : List α) (bs : List β) : Prop :=
  ∃ mid, as.Perm mid ∧ List.Forall₂ R mid bs

namespace PermUpTo

variable {α β γ δ : Type} {R : α → β → Prop} {as : List α} {bs : List β}

theorem of_perm {R : α → α → Prop} (hrefl : ∀ a, R a a) {as bs : List α} (h : as.Perm bs) :
    PermUpTo R as bs :=
  ⟨bs, h, List.forall₂_same.mpr fun a _ => hrefl a⟩

theorem perm {as bs : List α} (h : PermUpTo Eq as bs) : as.Perm bs := by
  obtain ⟨mid, hperm, hrel⟩ := h
  rw [List.forall₂_eq_eq_eq] at hrel
  exact hrel ▸ hperm

theorem imp {S : α → β → Prop} (h : PermUpTo R as bs) (hRS : ∀ a b, R a b → S a b) :
    PermUpTo S as bs := by
  obtain ⟨mid, hperm, hrel⟩ := h
  exact ⟨mid, hperm, hrel.imp hRS⟩

theorem append {as' : List α} {bs' : List β} (h : PermUpTo R as bs) (h' : PermUpTo R as' bs') :
    PermUpTo R (as ++ as') (bs ++ bs') := by
  obtain ⟨mid, hperm, hrel⟩ := h
  obtain ⟨mid', hperm', hrel'⟩ := h'
  exact ⟨mid ++ mid', hperm.append hperm', List.rel_append hrel hrel'⟩

theorem cons {a : α} {b : β} (hab : R a b) (h : PermUpTo R as bs) :
    PermUpTo R (a :: as) (b :: bs) := by
  obtain ⟨mid, hperm, hrel⟩ := h
  exact ⟨a :: mid, hperm.cons a, .cons hab hrel⟩

theorem trans_perm {bs' : List β} (h : PermUpTo R as bs) (hbs : bs.Perm bs') :
    PermUpTo R as bs' := by
  obtain ⟨mid, hperm, hrel⟩ := h
  have hcomp : Relation.Comp (List.Forall₂ R) List.Perm mid bs' := ⟨bs, hrel, hbs⟩
  rw [List.forall₂_comp_perm_eq_perm_comp_forall₂] at hcomp
  obtain ⟨mid', hmid, hrel'⟩ := hcomp
  exact ⟨mid', hperm.trans hmid, hrel'⟩

/-- Members are related as members of their lists. -/
theorem with_mem (h : PermUpTo R as bs) :
    PermUpTo (fun a b => a ∈ as ∧ b ∈ bs ∧ R a b) as bs := by
  obtain ⟨mid, hperm, hrel⟩ := h
  have hmem : List.Forall₂ (fun a b => a ∈ mid ∧ b ∈ bs ∧ R a b) mid bs := by
    clear hperm
    induction hrel with
    | nil => exact .nil
    | cons hab _ ih =>
      refine .cons ⟨List.mem_cons_self, List.mem_cons_self, hab⟩ (ih.imp fun a b hrest => ?_)
      exact ⟨List.mem_cons_of_mem _ hrest.1, List.mem_cons_of_mem _ hrest.2.1, hrest.2.2⟩
  exact ⟨mid, hperm, hmem.imp fun a b hab => ⟨hperm.mem_iff.mpr hab.1, hab.2⟩⟩

theorem exists_of_mem (h : PermUpTo R as bs) {b : β} (hb : b ∈ bs) : ∃ a ∈ as, R a b := by
  obtain ⟨mid, hperm, hrel⟩ := h
  suffices hmid : ∃ a ∈ mid, R a b from
    hmid.imp fun a ha => ⟨hperm.mem_iff.mpr ha.1, ha.2⟩
  clear hperm
  induction hrel with
  | nil => exact absurd hb List.not_mem_nil
  | cons hab _ ih =>
    rcases List.mem_cons.mp hb with rfl | hb
    · exact ⟨_, List.mem_cons_self, hab⟩
    · exact (ih hb).imp fun a ha => ⟨List.mem_cons_of_mem _ ha.1, ha.2⟩

theorem filter {p : α → Bool} {q : β → Bool} (h : PermUpTo R as bs)
    (hpq : ∀ a b, R a b → p a = q b) : PermUpTo R (as.filter p) (bs.filter q) := by
  obtain ⟨mid, hperm, hrel⟩ := h
  refine ⟨mid.filter p, hperm.filter p, List.rel_filter (fun a b hab => ?_) hrel⟩
  exact Bool.eq_iff_iff.mp (hpq a b hab)

/-- A function takes related members to related values, and leaves out the same members. -/
theorem filterMap {S : γ → δ → Prop} {f : α → Option γ} {g : β → Option δ} (h : PermUpTo R as bs)
    (hfg : ∀ a b, R a b → Option.Rel S (f a) (g b)) :
    PermUpTo S (as.filterMap f) (bs.filterMap g) := by
  obtain ⟨mid, hperm, hrel⟩ := h
  exact ⟨mid.filterMap f, hperm.filterMap f, List.rel_filterMap (fun a b => hfg a b) hrel⟩

theorem map {S : γ → δ → Prop} {f : α → γ} {g : β → δ} (h : PermUpTo R as bs)
    (hfg : ∀ a b, R a b → S (f a) (g b)) : PermUpTo S (as.map f) (bs.map g) := by
  rw [← List.filterMap_eq_map, ← List.filterMap_eq_map]
  exact h.filterMap fun a b hab => .some (hfg a b hab)

theorem filterMap_perm {f : α → Option γ} {g : β → Option γ} (h : PermUpTo R as bs)
    (hfg : ∀ a b, R a b → g b = f a) : (as.filterMap f).Perm (bs.filterMap g) := by
  refine (h.filterMap fun a b hab => ?_).perm
  rw [hfg a b hab]
  cases f a with
  | none => exact .none
  | some value => exact .some rfl

theorem flatMap_perm {f : α → List γ} {g : β → List γ} (h : PermUpTo R as bs)
    (hfg : ∀ a b, R a b → (f a).Perm (g b)) : (as.flatMap f).Perm (bs.flatMap g) := by
  obtain ⟨mid, hperm, hrel⟩ := h
  refine (hperm.flatMap_right f).trans ?_
  clear hperm
  induction hrel with
  | nil => exact .refl _
  | @cons a b mid bs hab _ ih =>
    rw [List.flatMap_cons, List.flatMap_cons]
    exact (hfg a b hab).append ih

theorem countP_eq {p : α → Bool} {q : β → Bool} (h : PermUpTo R as bs)
    (hpq : ∀ a b, R a b → p a = q b) : as.countP p = bs.countP q := by
  obtain ⟨mid, hperm, hrel⟩ := h
  rw [hperm.countP_eq p]
  clear hperm
  induction hrel with
  | nil => rfl
  | @cons a b mid bs hab _ ih => rw [List.countP_cons, List.countP_cons, ih, hpq a b hab]

/-- If no key stands twice, the members of a key are related, so what depends on that is equal. -/
theorem map_find? {key : α → String} {key' : β → String} {f : α → γ} {g : β → γ}
    (h : PermUpTo R as bs) (hkey : ∀ a b, R a b → key' b = key a) (hfg : ∀ a b, R a b → g b = f a)
    (hnodup : (as.map key).Nodup) (name : String) :
    (bs.find? (key' · == name)).map g = (as.find? (key · == name)).map f := by
  obtain ⟨mid, hperm, hrel⟩ := h
  rw [List.find?_eq_find?_of_perm hperm fun a ha b hb => ?_]
  · clear hperm hnodup
    induction hrel with
    | nil => rfl
    | @cons a b mid bs hab _ ih =>
      rw [List.find?_cons, List.find?_cons, hkey a b hab]
      cases key a == name with
      | true => exact congrArg some (hfg a b hab)
      | false => exact ih
  · exact List.inj_on_of_nodup_map hnodup ha.1 hb.1
      ((beq_iff_eq.mp ha.2).trans (beq_iff_eq.mp hb.2).symm)

end PermUpTo

/-! ## Cycles -/

namespace Walk

variable {g : Links}

/-- Until it comes back to `a`, a walk goes through the rest of a cycle in its order. -/
theorem trail_cut_eq {a x z : String} {rest : List String}
    (hchain : (x :: rest).IsChain (Step g)) (hfresh : a ∉ rest)
    (hlast : (x :: rest).getLast? = some z) (hback : Step g z a) {budget : Nat}
    (hbudget : rest.length < budget) : trail (cut g a) budget x = x :: rest := by
  induction rest generalizing x budget with
  | nil =>
    obtain ⟨n, rfl⟩ := Nat.exists_eq_add_one_of_ne_zero (Nat.ne_zero_of_lt hbudget)
    rw [List.getLast?_singleton, Option.some.injEq] at hlast
    rw [trail, cut_eq_none (hlast ▸ hback)]
  | cons y rest ih =>
    obtain ⟨n, rfl⟩ := Nat.exists_eq_add_one_of_ne_zero (Nat.ne_zero_of_lt hbudget)
    obtain ⟨hstep, hchain⟩ := List.isChain_cons.mp hchain
    rw [List.mem_cons, not_or] at hfresh
    have hcut : cut g a x = some y := cut_eq_some.mpr ⟨hstep y rfl, Ne.symm hfresh.1⟩
    rw [List.getLast?_cons_cons] at hlast
    rw [trail, hcut]
    exact congrArg (x :: ·) (ih hchain hfresh.2 hlast (by simpa using hbudget))

namespace IsCycle

/-- A cycle is determined by where it starts. -/
theorem eq_of_head {xs ys : List String} (hx : IsCycle g xs) (hy : IsCycle g ys) {a : String}
    (hxa : xs.head? = some a) (hya : ys.head? = some a) : xs = ys := by
  have htrail (zs : List String) (hz : IsCycle g zs) (hza : zs.head? = some a) {budget : Nat}
      (hbudget : zs.length ≤ budget) : trail (cut g a) budget a = zs := by
    obtain ⟨hnodup, hchain, first, last, hfirst, hlast, hback⟩ := hz
    obtain ⟨rest, rfl⟩ := List.head?_eq_some_iff.mp hza
    cases hfirst
    exact trail_cut_eq hchain (List.nodup_cons.mp hnodup).1 hlast hback hbudget
  rw [← htrail xs hx hxa (Nat.le_max_left _ ys.length), htrail ys hy hya (Nat.le_max_right _ _)]

/-- A cycle can be read from any of its members on. -/
theorem rotate {before after : List String} (h : IsCycle g (before ++ after)) :
    IsCycle g (after ++ before) := by
  obtain ⟨hnodup, hchain, first, last, hfirst, hlast, hback⟩ := h
  obtain ⟨hbefore, hafter, hjoin⟩ := List.isChain_append.mp hchain
  refine ⟨List.perm_append_comm.nodup_iff.mp hnodup, ?_, ?_⟩
  · refine List.isChain_append.mpr ⟨hafter, hbefore, fun x hx y hy => ?_⟩
    rw [List.getLast?_append, Option.mem_def.mp hx, Option.some_or, Option.some.injEq] at hlast
    rw [List.head?_append, Option.mem_def.mp hy, Option.some_or, Option.some.injEq] at hfirst
    exact hlast ▸ hfirst ▸ hback
  · cases before with
    | nil => exact ⟨first, last, by simpa using hfirst, by simpa using hlast, hback⟩
    | cons b before =>
      cases after with
      | nil => exact ⟨first, last, by simpa using hfirst, by simpa using hlast, hback⟩
      | cons a after =>
        -- the new last name is the one before the cut
        have hz := List.getLast?_eq_some_getLast (List.cons_ne_nil b before)
        refine ⟨a, _, rfl, ?_, hjoin _ hz a rfl⟩
        rw [List.getLast?_append, hz, Option.some_or]

/-- Two lists that go round one cycle are rotations of each other. -/
theorem isRotated {xs ys : List String} (hx : IsCycle g xs) (hy : IsCycle g ys) {a : String}
    (hxa : a ∈ xs) (hya : ys.head? = some a) : xs.IsRotated ys := by
  obtain ⟨before, after, rfl⟩ := List.append_of_mem hxa
  have hsame : a :: after ++ before = ys := hx.rotate.eq_of_head hy rfl hya
  rw [← hsame]
  exact List.isRotated_append

end IsCycle

end Walk

open Walk

namespace Hierarchy

theorem mem_flatMap_tail {r : String × List String} {rs : List (String × List String)}
    (h : ((r :: rs).flatMap (·.2)).Nodup) (a : String) :
    a ∈ rs.flatMap (·.2) ↔ a ∈ (r :: rs).flatMap (·.2) ∧ a ∉ r.2 := by
  rw [List.flatMap_cons] at h ⊢
  refine ⟨fun hrs => ⟨List.mem_append_right _ hrs, fun hr => ?_⟩, fun hall => ?_⟩
  · exact (List.nodup_append.mp h).2.2 a hr a hrs rfl
  · exact (List.mem_append.mp hall.1).resolve_left hall.2

/-- Two lists of cycles of the same links, with the same members and none twice, are the same up to
order and rotation. -/
theorem permUpTo_isRotated {g : Links} {rs rs' : List (String × List String)}
    (hcycles : ∀ r ∈ rs, IsCycle g r.2 ∧ r.2.head? = some r.1)
    (hcycles' : ∀ r ∈ rs', IsCycle g r.2 ∧ r.2.head? = some r.1)
    (hnodup : (rs.flatMap (·.2)).Nodup) (hnodup' : (rs'.flatMap (·.2)).Nodup)
    (hmem : ∀ a, a ∈ rs.flatMap (·.2) ↔ a ∈ rs'.flatMap (·.2)) :
    PermUpTo (fun r r' => r.2.IsRotated r'.2) rs rs' := by
  induction rs generalizing rs' with
  | nil =>
    cases rs' with
    | nil => exact ⟨[], .refl _, .nil⟩
    | cons r' rs' =>
      have hhead := List.mem_of_head? (hcycles' r' List.mem_cons_self).2
      have hin := (hmem r'.1).mpr (List.mem_flatMap.mpr ⟨r', List.mem_cons_self, hhead⟩)
      exact absurd hin List.not_mem_nil
  | cons r rs ih =>
    obtain ⟨hcycle, hhead⟩ := hcycles r List.mem_cons_self
    -- the other list has a cycle through the first member of this one
    have hin := (hmem r.1).mp
      (List.mem_flatMap.mpr ⟨r, List.mem_cons_self, List.mem_of_head? hhead⟩)
    obtain ⟨r', hr', hinr'⟩ := List.mem_flatMap.mp hin
    obtain ⟨hcycle', hhead'⟩ := hcycles' r' hr'
    have hrotated : r.2.IsRotated r'.2 := (hcycle'.isRotated hcycle hinr' hhead).symm
    obtain ⟨before, after, rfl⟩ := List.append_of_mem hr'
    have hperm : (r' :: (before ++ after)).Perm (before ++ r' :: after) := List.perm_middle.symm
    have hflat := hperm.flatMap_right (·.2)
    refine .trans_perm (.cons hrotated (ih ?_ ?_ ?_ ?_ ?_)) hperm
    · exact fun r hr => hcycles r (List.mem_cons_of_mem _ hr)
    · exact fun r hr => hcycles' r (hperm.subset (List.mem_cons_of_mem _ hr))
    · exact (List.nodup_append.mp hnodup).2.1
    · exact (List.nodup_append.mp (hflat.nodup_iff.mpr hnodup')).2.1
    · intro a
      have htail := mem_flatMap_tail (hflat.nodup_iff.mpr hnodup') a
      rw [mem_flatMap_tail hnodup, htail, hmem a, hflat.mem_iff, hrotated.mem_iff]

/-- The classes that are reported with a cycle are those that lie on one. -/
theorem mem_reported_build (classes : List ClassDecl) (name : String) :
    name ∈ ((build classes).2.filterMap Diagnostic.cycle?).flatMap (·.2) ↔
      OnCycle (resolvedLinks (registeredTable classes)) name := by
  obtain ⟨hrepair, hends⟩ := repairing_build classes
  refine hrepair.mem_reported_iff hends fun a ha => ?_
  rw [names_build]
  unfold resolvedLinks at ha
  split at ha
  · exact absurd rfl ha
  · obtain ⟨e, he⟩ := Option.ne_none_iff_exists'.mp (mt (congrArg _) ha)
    exact ClassTable.mem_names_of_find? he

/-! ## Reports -/

/-- The report on a cycle, at the place of the class that it starts with. -/
def cycleReport? (t : ClassTable) (r : String × List String) : Option Diagnostic :=
  (t.find? r.1).map fun e => report e (.inheritanceCycle r.1 r.2)

/-- Where a class is defined does not change with its links. -/
theorem cycleReport?_congr {t t' : ClassTable}
    (h : t'.entries.map ClassEntry.unlinked = t.entries.map ClassEntry.unlinked) :
    cycleReport? t' = cycleReport? t := by
  have hfind (t : ClassTable) (name : String) :
      (t.find? name).map ClassEntry.unlinked =
        (⟨t.entries.map ClassEntry.unlinked⟩ : ClassTable).find? name :=
    (t.find?_map ClassEntry.unlinked (fun _ => rfl) name).symm
  funext r
  have hreport (t : ClassTable) : cycleReport? t r =
      ((t.find? r.1).map ClassEntry.unlinked).map (report · (.inheritanceCycle r.1 r.2)) := by
    rw [Option.map_map]
    rfl
  rw [hreport, hreport, hfind, hfind, h]

theorem diagnostics_repairFrom (t : ClassTable) (name : String) :
    (repairFrom t name).2 =
      ((repairFrom t name).2.filterMap Diagnostic.cycle?).filterMap (cycleReport? t) := by
  unfold repairFrom
  cases firstRevisited? t (t.size + 1) [] name with
  | none => rfl
  | some start =>
    cases he : t.find? start with
    | none => simp [he]
    | some e => simp [he, cycle?_report, cycleReport?]

/-- A repair reports the cycles it meets. -/
theorem diagnostics_repair (t : ClassTable) (names : List String) :
    (repair t names).2 =
      ((repair t names).2.filterMap Diagnostic.cycle?).filterMap (cycleReport? t) := by
  induction names generalizing t with
  | nil => rfl
  | cons name rest ih =>
    have hrest := ih (repairFrom t name).1
    rw [cycleReport?_congr (unlinked_repairFrom t name)] at hrest
    unfold repair
    rw [List.filterMap_append, List.filterMap_append, ← hrest, ← diagnostics_repairFrom]

theorem diagnostics_build (classes : List ClassDecl) :
    (build classes).2 = (register builtinTable 0 classes).2 ++
      (linkParents (registeredTable classes)).2 ++
        ((build classes).2.filterMap Diagnostic.cycle?).filterMap
          (cycleReport? (registeredTable classes)) := by
  have hreports := diagnostics_repair (linkedTable classes) (linkedTable classes).names
  rw [filterMap_cycle?_build, ← cycleReport?_congr (unlinked_linkParents (registeredTable classes))]
  exact congrArg (_ ++ ·) hreports

end Hierarchy

end ClassCompiler
