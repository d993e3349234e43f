import ClassCompiler.Proofs.Registration

/-!
# Repairing cycles

The last pass of `Hierarchy.build` walks up from every class and sends the cycles it meets to the
root. The links change while it goes on, so the invariant compares them with the links `g` that
linking left behind: the links in force are those of `g`, except that the cycles reported so far
have been sent to the root as a whole.

Results:
1. `firstRevisited?_some`, `firstRevisited?_none`: a walk finds a name on a cycle, or it ends.
2. `cycleOf_isCycle`, `cycleFrom_eq_cycleOf`: the cycle through a name is listed in full, and a
   larger budget does not change the list.
3. `Repairing.repairFrom`, `Repairing.repair`: one walk and any run of walks keep the invariant, and
   a class that has been walked from leads to the root from then on.
4. `cycle_repair_exact`: after the run exactly the classes on cycles have moved to the root, each
   cycle has been reported once, and the budget of the listing never mattered.
-/

namespace ClassCompiler

open Walk

/-- The class and the members of the cycle that a diagnostic reports, if it reports one. -/
def Diagnostic.cycle? (d : Diagnostic) : Option (String × List String) :=
  match d.cause with
  | some (.fault ⟨.inheritanceCycle cls cycle, _⟩) => some (cls, cycle)
  | _ => none

namespace Hierarchy

/-! ## Walking up -/

section Walks

variable {t : ClassTable}

theorem firstRevisited?_some {steps : Nat} {visited : List String} {name start : String}
    (hvisited : ∀ v ∈ visited, Relation.TransGen (Step t.parent?) v name)
    (h : firstRevisited? t steps visited name = some start) :
    Reaches t.parent? name start ∧ OnCycle t.parent? start := by
  induction steps generalizing visited name with
  | zero => exact nomatch h
  | succ steps ih =>
    unfold firstRevisited? at h
    split at h
    · next hmem =>
      cases h
      exact ⟨.refl, hvisited _ (by simpa using hmem)⟩
    · obtain ⟨parent, hp, h⟩ := Option.bind_eq_some_iff.mp h
      have hvisited' : ∀ v ∈ name :: visited, Relation.TransGen (Step t.parent?) v parent := by
        intro v hv
        rcases List.mem_cons.mp hv with rfl | hv
        · exact .single hp
        · exact (hvisited v hv).tail hp
      obtain ⟨hr, hcycle⟩ := ih hvisited' h
      exact ⟨.head hp hr, hcycle⟩

/-- A walk that meets no name twice ends, since it cannot meet more names than there are. -/
theorem firstRevisited?_none (hc : Closed t.parent? t.names) {steps : Nat} {visited : List String}
    {name : String} (hname : name ∈ t.names) (hnodup : visited.Nodup) (hsub : visited ⊆ t.names)
    (hsteps : t.names.length < steps + visited.length)
    (h : firstRevisited? t steps visited name = none) : ∃ n, EndsIn t.parent? n name := by
  induction steps generalizing visited name with
  | zero =>
    have := hnodup.length_le_of_subset hsub
    omega
  | succ steps ih =>
    unfold firstRevisited? at h
    split at h
    · exact nomatch h
    · next hmem =>
      cases hp : t.parent? name with
      | none => exact ⟨0, .last hp⟩
      | some parent =>
        rw [hp] at h
        have hfresh : name ∉ visited := by simpa using hmem
        obtain ⟨n, hn⟩ := ih (hc name hname parent hp) (List.nodup_cons.mpr ⟨hfresh, hnodup⟩)
          (List.cons_subset.mpr ⟨hname, hsub⟩) (by rw [List.length_cons]; omega) h
        exact ⟨n + 1, .step hp hn⟩

theorem cycleFrom_eq_trail (start : String) (steps : Nat) (name : String) :
    cycleFrom t start steps name = trail (cut t.parent? start) steps name := by
  induction steps generalizing name with
  | zero => rfl
  | succ steps ih =>
    unfold cycleFrom trail
    cases hp : t.parent? name with
    | none => simp [cut, hp]
    | some parent =>
      by_cases hs : parent = start
      · subst hs
        simp [cut_eq_none hp]
      · simp [cut_eq_some.mpr ⟨hp, hs⟩, hs, ih]

theorem names_length (t : ClassTable) : t.names.length = t.size := List.length_map _

theorem cycleOf_isCycle (hc : Closed t.parent? t.names) {start : String} (hmem : start ∈ t.names)
    (h : OnCycle t.parent? start) : IsCycle t.parent? (cycleOf t start) := by
  rw [cycleOf, cycleFrom_eq_trail]
  exact h.isCycle_trail hc hmem (Nat.le_of_eq (names_length t))

/-- The listing of a cycle stops because it comes round, never because its budget is spent. -/
theorem cycleFrom_eq_cycleOf (hc : Closed t.parent? t.names) {start : String}
    (hmem : start ∈ t.names) (h : OnCycle t.parent? start) {budget : Nat} (hb : t.size ≤ budget) :
    cycleFrom t start budget start = cycleOf t start := by
  obtain ⟨n, hn⟩ := h.endsIn_cut
  have hlt := hn.lt_length (hc.cut start) hmem
  rw [names_length] at hlt
  rw [cycleOf, cycleFrom_eq_trail, cycleFrom_eq_trail, hn.trail_eq (by omega), hn.trail_eq hlt]

theorem cycleOf_subset (hc : Closed t.parent? t.names) {start : String} (hmem : start ∈ t.names) :
    cycleOf t start ⊆ t.names := by
  rw [cycleOf, cycleFrom_eq_trail]
  exact trail_subset (hc.cut start) _ hmem

theorem head?_cycleOf {start : String} (hmem : start ∈ t.names) :
    (cycleOf t start).head? = some start := by
  rw [cycleOf, cycleFrom_eq_trail]
  obtain ⟨n, hn⟩ := Nat.exists_eq_add_one_of_ne_zero
    (Nat.ne_of_gt (List.length_pos_of_mem hmem))
  rw [names_length] at hn
  rw [hn, head?_trail]

end Walks

/-! ## Dissolving a cycle -/

theorem dissolve_eq (t : ClassTable) (cycle : List String) :
    dissolve t cycle = t.setParents (cycle.map fun name => (name, objectName)) := by
  rw [ClassTable.setParents, List.foldl_map]
  rfl

theorem parent?_dissolve {t : ClassTable} {cycle : List String} (hsub : cycle ⊆ t.names)
    (hnodup : cycle.Nodup) :
    (dissolve t cycle).parent? = redirect t.parent? cycle objectName := by
  funext name
  rw [dissolve_eq, ClassTable.parent?_setParents]
  · have hlookup : (cycle.map fun name => (name, objectName)).lookup name =
        if name ∈ cycle then some objectName else none := by
      induction cycle with
      | nil => rfl
      | cons a cycle ih =>
        obtain ⟨_, hsub⟩ := List.cons_subset.mp hsub
        rw [List.map_cons, List.lookup_cons, ih hsub (List.nodup_cons.mp hnodup).2]
        by_cases ha : name = a
        · simp [ha]
        · have hbeq : (name == a) = false := by simpa using ha
          simp [hbeq, ha]
    rw [hlookup, redirect]
    split <;> rfl
  · intro link hl
    obtain ⟨a, ha, rfl⟩ := List.mem_map.mp hl
    exact hsub ha
  · simpa [List.map_map, Function.comp_def] using hnodup

theorem mirrored_dissolve {t : ClassTable} (h : Mirrored t) {cycle : List String}
    (hsub : cycle ⊆ t.names) (hroot : objectName ∉ cycle) : Mirrored (dissolve t cycle) := by
  rw [dissolve_eq]
  refine h.setParents fun link hl => ?_
  obtain ⟨a, ha, rfl⟩ := List.mem_map.mp hl
  exact ⟨hsub ha, fun heq => hroot (heq ▸ ha), h.root_mem⟩

/-! ## One walk -/

theorem cycle?_report (e : ClassEntry) (cls : String) (cycle : List String) :
    (report e (.inheritanceCycle cls cycle)).cycle? = some (cls, cycle) := rfl

/-- A walk from a class either ends and changes nothing, or it runs into a cycle, and then this
cycle is reported and dissolved. -/
theorem repairFrom_cases {t : ClassTable} (hm : Mirrored t) {name : String}
    (hname : name ∈ t.names) :
    (repairFrom t name = (t, []) ∧ ∃ n, EndsIn t.parent? n name) ∨
    (∃ start d, start ∈ t.names ∧ OnCycle t.parent? start ∧ Reaches t.parent? name start ∧
      repairFrom t name = (dissolve t (cycleOf t start), [d]) ∧
      d.cycle? = some (start, cycleOf t start)) := by
  unfold repairFrom
  cases hwalk : firstRevisited? t (t.size + 1) [] name with
  | none =>
    refine .inl ⟨rfl, ?_⟩
    refine firstRevisited?_none hm.closed hname List.nodup_nil (List.nil_subset _) ?_ hwalk
    rw [names_length, List.length_nil]
    omega
  | some start =>
    obtain ⟨hr, hcycle⟩ :=
      firstRevisited?_some (fun v hv => absurd hv List.not_mem_nil) hwalk
    obtain ⟨parent, hp⟩ := Option.ne_none_iff_exists'.mp hcycle.ne_none
    have hmem := ClassTable.mem_names_of_parent? hp
    obtain ⟨e, he⟩ := ClassTable.exists_find? hmem
    refine .inr ⟨start, report e (.inheritanceCycle start (cycleOf t start)), hmem, hcycle, hr, ?_,
      ?_⟩
    · simp [he]
    · exact cycle?_report e start (cycleOf t start)

theorem unlinked_repairFrom (t : ClassTable) (name : String) :
    (repairFrom t name).1.entries.map ClassEntry.unlinked = t.entries.map ClassEntry.unlinked := by
  unfold repairFrom
  split
  · rfl
  · next start _ =>
    show (dissolve t (cycleOf t start)).entries.map ClassEntry.unlinked = _
    rw [dissolve_eq, ClassTable.unlinked_setParents]

theorem names_repairFrom (t : ClassTable) (name : String) : (repairFrom t name).1.names = t.names :=
  ClassTable.names_of_unlinked (unlinked_repairFrom t name)

/-- How far the repair of the links `g` has come: the reported cycles have been sent to the root as
a whole, and all else is as in `g`. -/
structure Repairing (g : Links) (reported : List (String × List String)) (t : ClassTable) :
    Prop where
  mirrored : Mirrored t
  linked : ∀ name ∈ t.names, name ≠ objectName → t.parent? name ≠ none
  links : t.parent? = redirect g (reported.flatMap (·.2)) objectName
  cycles : ∀ r ∈ reported, IsCycle g r.2 ∧ r.2.head? = some r.1
  nodup : (reported.flatMap (·.2)).Nodup

namespace Repairing

variable {g : Links} {reported : List (String × List String)} {t : ClassTable}

/-- A class that still is on a cycle has not been touched: one that has been sent to the root leads
nowhere else. -/
theorem untouched (h : Repairing g reported t) {name : String} (hc : OnCycle t.parent? name) :
    name ∉ reported.flatMap (·.2) ∧ t.parent? name = g name := by
  have hnot : name ∉ reported.flatMap (·.2) := by
    intro hmem
    have hroot : Step t.parent? name objectName := by rw [h.links]; simp [Step, redirect, hmem]
    exact (hc.step hroot).1.ne_none h.mirrored.root_parent
  refine ⟨hnot, ?_⟩
  rw [h.links]
  simp [redirect, hnot]

theorem dissolve (h : Repairing g reported t) {start : String} (hmem : start ∈ t.names)
    (hc : OnCycle t.parent? start) :
    Repairing g (reported ++ [(start, cycleOf t start)]) (dissolve t (cycleOf t start)) := by
  have hcycle := cycleOf_isCycle h.mirrored.closed hmem hc
  have hsub := cycleOf_subset h.mirrored.closed hmem
  have hroot : objectName ∉ cycleOf t start :=
    fun hr => (hcycle.onCycle hr).ne_none h.mirrored.root_parent
  have hlinks := parent?_dissolve hsub hcycle.1
  have hmirrored := mirrored_dissolve h.mirrored hsub hroot
  have hmembers : (reported ++ [(start, cycleOf t start)]).flatMap (·.2) =
      reported.flatMap (·.2) ++ cycleOf t start := by simp
  refine ⟨hmirrored, fun name hname hne => ?_, ?_, fun r hr => ?_, ?_⟩
  · have hname' : name ∈ t.names := by
      rwa [dissolve_eq, ClassTable.names_setParents] at hname
    rw [hlinks, redirect]
    split
    · exact Option.some_ne_none _
    · exact h.linked name hname' hne
  · rw [hlinks, h.links, hmembers, redirect_redirect]
  · rcases List.mem_append.mp hr with hr | hr
    · exact h.cycles r hr
    · rw [List.mem_singleton] at hr
      subst hr
      exact ⟨hcycle.congr fun x hx => (h.untouched (hcycle.onCycle hx)).2.symm,
        head?_cycleOf hmem⟩
  · rw [hmembers]
    refine List.nodup_append.mpr ⟨h.nodup, hcycle.1, fun a ha b hb hab => ?_⟩
    exact (h.untouched (hcycle.onCycle hb)).1 (hab ▸ ha)

/-- One walk keeps the invariant; afterwards the class it started from leads to the root, as do all
classes that did so before. -/
theorem repairFrom (h : Repairing g reported t) {name : String} (hname : name ∈ t.names) :
    Repairing g (reported ++ (repairFrom t name).2.filterMap Diagnostic.cycle?)
      (repairFrom t name).1 ∧
    ∀ a, a = name ∨ (∃ n, EndsIn t.parent? n a) →
      ∃ n, EndsIn (Hierarchy.repairFrom t name).1.parent? n a := by
  rcases repairFrom_cases h.mirrored hname with ⟨heq, hend⟩ | ⟨start, d, hmem, hc, hr, heq, hd⟩
  · rw [heq]
    refine ⟨by simpa using h, ?_⟩
    rintro a (rfl | ha)
    · exact hend
    · exact ha
  · have hcycle := cycleOf_isCycle h.mirrored.closed hmem hc
    have hroot : objectName ∉ cycleOf t start :=
      fun hr => (hcycle.onCycle hr).ne_none h.mirrored.root_parent
    rw [heq]
    refine ⟨by simpa [hd] using h.dissolve hmem hc, fun a ha => ?_⟩
    rw [parent?_dissolve (cycleOf_subset h.mirrored.closed hmem) hcycle.1]
    rcases ha with rfl | ⟨n, hn⟩
    · exact endsIn_redirect_of_reaches hroot h.mirrored.root_parent hr
        (List.mem_of_head? (head?_cycleOf hmem))
    · exact ⟨n, hn.redirect hcycle objectName⟩

/-! ## The whole run -/

theorem repair (h : Repairing g reported t) {names : List String} (hnames : names ⊆ t.names) :
    Repairing g (reported ++ (repair t names).2.filterMap Diagnostic.cycle?) (repair t names).1 ∧
    ∀ a, a ∈ names ∨ (∃ n, EndsIn t.parent? n a) →
      ∃ n, EndsIn (Hierarchy.repair t names).1.parent? n a := by
  induction names generalizing t reported with
  | nil =>
    refine ⟨by simpa [Hierarchy.repair] using h, ?_⟩
    rintro a (ha | ha)
    · exact absurd ha List.not_mem_nil
    · exact ha
  | cons name rest ih =>
    obtain ⟨hname, hrest⟩ := List.cons_subset.mp hnames
    obtain ⟨hone, hends⟩ := h.repairFrom hname
    obtain ⟨hall, hends'⟩ := ih hone (by rwa [names_repairFrom])
    unfold Hierarchy.repair
    refine ⟨by simpa using hall, ?_⟩
    rintro a (ha | ha)
    · rcases List.mem_cons.mp ha with rfl | ha
      · exact hends' a (.inr (hends a (.inl rfl)))
      · exact hends' a (.inl ha)
    · exact hends' a (.inr (hends a (.inr ha)))

/-- Once every class leads to the root, the reported classes are those on the cycles of `g`: a cycle
is sent to the root as a whole, so one with a class left would still be in force. -/
theorem mem_reported_iff (h : Repairing g reported t)
    (hends : ∀ name ∈ t.names, ∃ n, EndsIn t.parent? n name)
    (hg : ∀ name, g name ≠ none → name ∈ t.names) {name : String} :
    name ∈ reported.flatMap (·.2) ↔ OnCycle g name := by
  constructor
  · intro hmem
    obtain ⟨r, hr, hname⟩ := List.mem_flatMap.mp hmem
    exact (h.cycles r hr).1.onCycle hname
  · intro hc
    by_contra hnot
    have hsame : ∀ x, Reaches g name x → t.parent? x = g x := by
      intro x hx
      have hxnot : x ∉ reported.flatMap (·.2) := by
        intro hmem
        obtain ⟨r, hr, hxr⟩ := List.mem_flatMap.mp hmem
        have hback := (h.cycles r hr).1.mem_of_reaches hxr (hc.of_reaches hx).2
        exact hnot (List.mem_flatMap.mpr ⟨r, hr, hback⟩)
      rw [h.links, redirect, if_neg hxnot]
    obtain ⟨n, hn⟩ := hends name (hg name hc.ne_none)
    exact hn.not_onCycle (hc.congr hsame)

end Repairing

theorem unlinked_repair (t : ClassTable) (names : List String) :
    (repair t names).1.entries.map ClassEntry.unlinked = t.entries.map ClassEntry.unlinked := by
  induction names generalizing t with
  | nil => rfl
  | cons name rest ih => exact (ih (repairFrom t name).1).trans (unlinked_repairFrom t name)

/-! ## The table that is built -/

theorem cycle?_eq_none_of_register {t : ClassTable} {index : Nat} {classes : List ClassDecl}
    {d : Diagnostic} (hd : d ∈ (register t index classes).2) : d.cycle? = none := by
  induction classes generalizing t index with
  | nil => exact absurd hd List.not_mem_nil
  | cons c rest ih =>
    unfold register at hd
    cases hrej : rejection? t c with
    | none =>
      rw [hrej] at hd
      exact ih hd
    | some problem =>
      rw [hrej] at hd
      rcases List.mem_cons.mp hd with rfl | hd
      · unfold rejection? at hrej
        split at hrej
        · cases hrej
          rfl
        · obtain ⟨e, _, rfl⟩ := Option.map_eq_some_iff.mp hrej
          cases e.isBuiltin <;> rfl
      · exact ih hd

theorem cycle?_eq_none_of_linkParents {t : ClassTable} {d : Diagnostic}
    (hd : d ∈ (linkParents t).2) : d.cycle? = none := by
  obtain ⟨e, _, hd⟩ := List.mem_filterMap.mp hd
  obtain ⟨problem, hp, rfl⟩ := Option.map_eq_some_iff.mp hd
  simp only [parentProblem?] at hp
  split at hp
  · cases hp
    rfl
  · split at hp
    · exact nomatch hp
    · cases hp
      rfl

theorem filterMap_cycle?_build (classes : List ClassDecl) :
    (build classes).2.filterMap Diagnostic.cycle? =
      (repair (linkedTable classes) (linkedTable classes).names).2.filterMap Diagnostic.cycle? := by
  have hnone (ds : List Diagnostic) (h : ∀ d ∈ ds, d.cycle? = none) :
      ds.filterMap Diagnostic.cycle? = [] := List.filterMap_eq_nil_iff.mpr h
  show (_ ++ _ ++ _ : List Diagnostic).filterMap _ = _
  rw [List.filterMap_append, List.filterMap_append, hnone _ fun _ => cycle?_eq_none_of_register,
    hnone _ fun _ => cycle?_eq_none_of_linkParents]
  rfl

theorem unlinked_build (classes : List ClassDecl) :
    (build classes).1.entries.map ClassEntry.unlinked = (registeredTable classes).entries := by
  have hfresh : (registeredTable classes).entries.map ClassEntry.unlinked =
      (registeredTable classes).entries := by
    refine (List.map_congr_left fun e he => ?_).trans (List.map_id _)
    exact ((registered_registeredTable classes).fromDecl e he).unlinked_eq
  calc (build classes).1.entries.map ClassEntry.unlinked
      = (linkedTable classes).entries.map ClassEntry.unlinked := unlinked_repair _ _
    _ = (registeredTable classes).entries.map ClassEntry.unlinked := unlinked_linkParents _
    _ = (registeredTable classes).entries := hfresh

theorem names_build (classes : List ClassDecl) :
    (build classes).1.names = (registeredTable classes).names := by
  rw [ClassTable.names, ClassTable.names, ← unlinked_build, List.map_map]
  rfl

/-- An entry of the table that is built is a registered one, but for its links. -/
theorem find?_registered {classes : List ClassDecl} {name : String} {e : ClassEntry}
    (h : (build classes).1.find? name = some e) :
    (registeredTable classes).find? name = some e.unlinked := by
  have hfind := (build classes).1.find?_map ClassEntry.unlinked (fun _ => rfl) name
  rw [unlinked_build, h] at hfind
  exact hfind

theorem repairing_linkedTable (classes : List ClassDecl) :
    Repairing (resolvedLinks (registeredTable classes)) [] (linkedTable classes) := by
  have hreg := registered_registeredTable classes
  refine ⟨mirrored_linkParents hreg, fun name hname hroot => ?_, ?_, ?_, List.nodup_nil⟩
  · rw [linkedTable, names_linkParents] at hname
    obtain ⟨e, he⟩ := ClassTable.exists_find? hname
    rw [linkedTable, parent?_linkParents hreg]
    simp [resolvedLinks, hroot, he]
  · rw [linkedTable, parent?_linkParents hreg]
    funext name
    simp [redirect]
  · exact fun r hr => absurd hr List.not_mem_nil

theorem repairing_build (classes : List ClassDecl) :
    Repairing (resolvedLinks (registeredTable classes))
      ((build classes).2.filterMap Diagnostic.cycle?) (build classes).1 ∧
    ∀ name ∈ (build classes).1.names, ∃ n, EndsIn (build classes).1.parent? n name := by
  obtain ⟨hrepair, hends⟩ := (repairing_linkedTable classes).repair (List.Subset.refl _)
  rw [filterMap_cycle?_build]
  refine ⟨hrepair, fun name hname => hends name (.inl ?_)⟩
  rwa [linkedTable, names_linkParents, ← names_build]

/-- The links that the declarations ask for: every class but the root is to lead to the class that
its declaration extends, and to the root if it extends none, or one that does not exist. -/
def declaredLinks (classes : List ClassDecl) : Links := fun name =>
  if name = objectName then none
  else ((build classes).1.find? name).bind fun e => (e.origin.decl? classes).map fun c =>
    match c.parent with
    | some parent => if (build classes).1.contains parent then parent else objectName
    | none => objectName

theorem declaredLinks_eq (classes : List ClassDecl) :
    declaredLinks classes = resolvedLinks (registeredTable classes) := by
  funext name
  unfold declaredLinks resolvedLinks
  by_cases hroot : name = objectName
  · simp [hroot]
  rw [if_neg hroot, if_neg hroot]
  cases he : (build classes).1.find? name with
  | none =>
    have hnot := ClassTable.find?_eq_none.mp he
    rw [names_build] at hnot
    simp [ClassTable.find?_eq_none.mpr hnot]
  | some e =>
    have hreg := find?_registered he
    obtain ⟨c, hdecl, _, hparent⟩ := ((registered_registeredTable classes).fromDecl _
      (ClassTable.mem_of_find? hreg)).exists_decl
    have hcontains (p : String) :
        (build classes).1.contains p = (registeredTable classes).contains p := by
      rw [Bool.eq_iff_iff, ClassTable.contains_iff, ClassTable.contains_iff, names_build]
    have hroot_mem : (registeredTable classes).contains objectName = true :=
      ClassTable.contains_iff.mpr (registered_registeredTable classes).root_mem
    have hdecl' : e.origin.decl? classes = some c := hdecl
    rw [hreg, Option.map_some, Option.bind_some, hdecl', Option.map_some, resolvedParent, hparent]
    cases c.parent with
    | some p => simp only [Option.getD_some, hcontains]
    | none => simp [hroot_mem]

/-- Cycle repair is exact. A class that lies on a cycle of the declared links ends up under the
root, every other class under the class its declaration asks for. Each cycle is reported once, by a
list that starts with the reported class and goes round that cycle once. While the repair goes on,
the budget of a listing never cuts it short. -/
theorem cycle_repair_exact (classes : List ClassDecl) :
    let t := (build classes).1
    let g := declaredLinks classes
    let reported := (build classes).2.filterMap Diagnostic.cycle?
    (∀ name ∈ t.names, name ≠ objectName →
      (OnCycle g name → t.parent? name = some objectName) ∧
      (¬ OnCycle g name → t.parent? name = g name)) ∧
    (∀ r ∈ reported, r.2.head? = some r.1 ∧ IsCycle g r.2) ∧
    (reported.flatMap (·.2)).Nodup ∧
    (∀ name, name ∈ reported.flatMap (·.2) ↔ OnCycle g name) ∧
    (∀ before name after start, (linkedTable classes).names = before ++ name :: after →
      let s := (repair (linkedTable classes) before).1
      firstRevisited? s (s.size + 1) [] name = some start →
      (cycleOf s start).length ≤ s.size ∧
      ∀ budget, s.size ≤ budget → cycleFrom s start budget start = cycleOf s start) := by
  intro t g reported
  obtain ⟨hrepair, hends⟩ := repairing_build classes
  have hg : g = resolvedLinks (registeredTable classes) := declaredLinks_eq classes
  have hmem (name : String) : name ∈ reported.flatMap (·.2) ↔ OnCycle g name := by
    rw [hg]
    refine hrepair.mem_reported_iff hends fun a ha => ?_
    rw [names_build]
    unfold resolvedLinks at ha
    split at ha
    · exact absurd rfl ha
    · obtain ⟨e, he⟩ := Option.ne_none_iff_exists'.mp (mt (congrArg _) ha)
      exact ClassTable.mem_names_of_find? he
  refine ⟨fun name _ _ => ?_, fun r hr => ?_, hrepair.nodup, hmem, ?_⟩
  · have hlinks : t.parent? name = redirect g (reported.flatMap (·.2)) objectName name := by
      rw [hg]
      exact congrFun hrepair.links name
    rw [hlinks, redirect, ← hmem]
    exact ⟨fun h => if_pos h, fun h => if_neg h⟩
  · rw [hg]
    exact ⟨(hrepair.cycles r hr).2, (hrepair.cycles r hr).1⟩
  · intro before name after start hsplit s hwalk
    have hsub : before ⊆ (linkedTable classes).names := by
      rw [hsplit]
      exact List.subset_append_left _ _
    have hmirrored := ((repairing_linkedTable classes).repair hsub).1.mirrored
    obtain ⟨_, hcycle⟩ := firstRevisited?_some (fun v hv => absurd hv List.not_mem_nil) hwalk
    obtain ⟨parent, hp⟩ := Option.ne_none_iff_exists'.mp hcycle.ne_none
    have hstart := ClassTable.mem_names_of_parent? hp
    refine ⟨?_, fun budget hb => cycleFrom_eq_cycleOf hmirrored.closed hstart hcycle hb⟩
    rw [← names_length]
    exact (cycleOf_isCycle hmirrored.closed hstart hcycle).1.length_le_of_subset
      (cycleOf_subset hmirrored.closed hstart)

/-- Two cycles, `B` and `C` and the class `D` on its own, and the class `A` that leads into one. -/
def tailedCycles : List ClassDecl :=
  [{ name := "A", parent := some "B" }, { name := "B", parent := some "C" },
    { name := "C", parent := some "B" }, { name := "D", parent := some "D" }]

theorem cycle_repair_exact_tailedCycles :
    OnCycle (declaredLinks tailedCycles) "B" ∧
    (build tailedCycles).1.parent? "B" = some objectName ∧
    ¬ OnCycle (declaredLinks tailedCycles) "A" ∧
    (build tailedCycles).1.parent? "A" = some "B" := by
  obtain ⟨hparents, _, _, hmem, _⟩ := cycle_repair_exact tailedCycles
  have hB : OnCycle (declaredLinks tailedCycles) "B" := (hmem "B").mp (by decide)
  have hA : ¬ OnCycle (declaredLinks tailedCycles) "A" :=
    fun h => absurd ((hmem "A").mpr h) (by decide)
  refine ⟨hB, (hparents "B" (by decide) (by decide)).1 hB, hA, ?_⟩
  exact ((hparents "A" (by decide) (by decide)).2 hA).trans (by decide)

end Hierarchy

end ClassCompiler
