import ClassCompiler.Proofs.DeclaredOnce

/-!
# The first declaration of a member is kept

A class may declare a member more than once, and may use names that are reserved. Two records of an
entry, the list of members and the tables, come to describe the same declarations: the first of each
member. All others are reported.

Results:
1. `Members.memberProblem?_eq_none`: the features without a problem are the first declarations.
2. `Members.KeepsFirsts.keep`, `Members.KeepsFirsts.skip`: what binding one feature does to the
   records; `Members.KeepsFirsts.bindFeatures`: what binding all of them does.
3. `first_declarations_kept`: so it is for every class of the table.
-/

namespace ClassCompiler

/-- The member is a field. -/
def Member.isField : Member → Bool
  | .field _ => true
  | .method _ => false

namespace Members

/-- A feature that comes after the features `before` is the first to declare its member, and may
have its name. -/
def isFirst (before : List Feature) (f : Feature) : Bool :=
  !isReserved f.name && !before.any (·.member = f.member)

/-- The first declarations of all members, in the order of declaration. -/
def firsts (features : List Feature) : List Feature :=
  (features.zipIdx.filter fun f => isFirst (features.take f.2) f.1).map (·.1)

/-- Why a feature that comes after the features `before` is not kept. -/
def memberProblem? (e : ClassEntry) (c : ClassDecl) (before : List Feature) (f : Feature) :
    Option Problem :=
  if isReserved f.name then some (.reservedName (kind f) f.name)
  else ((firsts before).find? (·.member = f.member)).map fun first =>
    .duplicateName (kind f) f.name (location e c first.span)

/-- The report on a feature that is not kept. -/
def memberFault? (e : ClassEntry) (c : ClassDecl) (features : List Feature) (f : Feature × Nat) :
    Option Fault :=
  (memberProblem? e c (features.take f.2) f.1).map (⟨·, f.1.span⟩)

/-- The reports on the members of an entry. -/
def memberReports (classes : List ClassDecl) (e : ClassEntry) : List Diagnostic :=
  match e.origin.decl? classes with
  | none => []
  | some c => (c.features.zipIdx.filterMap (memberFault? e c c.features)).map
      (Fault.diagnostic c.file)

/-! ## First declarations -/

theorem firsts_concat (before : List Feature) (f : Feature) :
    firsts (before ++ [f]) = firsts before ++ if isFirst before f then [f] else [] := by
  have hbefore : (before.zipIdx.filter fun g => isFirst ((before ++ [f]).take g.2) g.1) =
      before.zipIdx.filter fun g => isFirst (before.take g.2) g.1 := by
    refine List.filter_congr fun g hg => ?_
    have hlt : g.2 < before.length := List.snd_lt_of_mem_zipIdx hg
    rw [List.take_append_of_le_length hlt.le]
  have hlast : ([f].zipIdx before.length).filter (fun g => isFirst ((before ++ [f]).take g.2) g.1) =
      if isFirst before f then [(f, before.length)] else [] := by
    rw [List.zipIdx_singleton, List.filter_singleton, List.take_left]
    exact cond_eq_ite ..
  rw [firsts, List.zipIdx_append, List.filter_append, Nat.zero_add, hbefore, hlast, List.map_append,
    ← firsts]
  split <;> rfl

theorem mem_of_mem_firsts {features : List Feature} {f : Feature} (h : f ∈ firsts features) :
    f ∈ features := by
  obtain ⟨p, hp, rfl⟩ := List.mem_map.mp h
  exact List.fst_mem_of_mem_zipIdx (List.mem_filter.mp hp).1

/-- What has been kept stays kept. -/
theorem firsts_prefix (before rest : List Feature) : firsts before <+: firsts (before ++ rest) := by
  induction rest using List.reverseRecOn with
  | nil => exact ⟨[], by rw [List.append_nil, List.append_nil]⟩
  | append_singleton rest f ih =>
    rw [← List.append_assoc, firsts_concat]
    exact ih.trans (List.prefix_append _ _)

theorem name_eq_of_member {f g : Feature} (h : f.member = g.member) : f.name = g.name := by
  have hname (f : Feature) : f.member.name = f.name := by cases f <;> rfl
  rw [← hname, h, hname]

/-- Whatever is declared under a name that is not reserved has a first declaration. -/
theorem exists_first {features : List Feature} {f : Feature} (hf : f ∈ features)
    (hres : isReserved f.name = false) : ∃ first ∈ firsts features, first.member = f.member := by
  -- from the end, where one feature more can only add to the first declarations
  induction features using List.reverseRecOn generalizing f with
  | nil => exact absurd hf List.not_mem_nil
  | append_singleton before last ih =>
    have hbefore {g : Feature} (hg : g ∈ before) (hmember : g.member = f.member) :
        ∃ first ∈ firsts (before ++ [last]), first.member = f.member := by
      obtain ⟨first, hfirst, heq⟩ := ih hg (name_eq_of_member hmember ▸ hres)
      rw [firsts_concat]
      exact ⟨first, List.mem_append_left _ hfirst, heq.trans hmember⟩
    rcases List.mem_append.mp hf with hf | hf
    · exact hbefore hf rfl
    · cases List.mem_singleton.mp hf
      by_cases hany : before.any (·.member = last.member) = true
      · obtain ⟨g, hg, hmember⟩ := List.any_eq_true.mp hany
        exact hbefore hg (of_decide_eq_true hmember)
      · have hfirst : isFirst before last = true := by
          rw [isFirst, hres, eq_false_of_ne_true hany]
          rfl
        rw [firsts_concat, if_pos hfirst]
        exact ⟨last, List.mem_append_right _ List.mem_cons_self, rfl⟩

/-- Features that are not kept are those that have a problem. -/
theorem memberProblem?_eq_none {e : ClassEntry} {c : ClassDecl} {before : List Feature}
    {f : Feature} : memberProblem? e c before f = none ↔ isFirst before f = true := by
  unfold memberProblem? isFirst
  cases hres : isReserved f.name with
  | true => simp
  | false =>
    simp only [Bool.false_eq_true, if_false, Option.map_eq_none_iff, List.find?_eq_none,
      Bool.not_false, Bool.true_and, Bool.not_eq_true', List.any_eq_false, decide_eq_true_eq]
    constructor
    · intro hnone g hg hmember
      obtain ⟨first, hfirst, heq⟩ := exists_first hg (name_eq_of_member hmember ▸ hres)
      exact hnone first hfirst (heq.trans hmember)
    · exact fun hnone g hg => hnone g (mem_of_mem_firsts hg)

/-- A member is declared again after the declaration of it that is kept. -/
theorem exists_first_of_duplicate {e : ClassEntry} {c : ClassDecl} {features : List Feature}
    {f : Feature × Nat} {kind : NameKind} {name : String} {previous : Location} {span : Span}
    (h : memberFault? e c features f = some ⟨.duplicateName kind name previous, span⟩) :
    ∃ first ∈ firsts features, first.member = f.1.member ∧
      previous = location e c first.span := by
  obtain ⟨problem, hproblem, heq⟩ := Option.map_eq_some_iff.mp h
  cases heq
  unfold memberProblem? at hproblem
  split at hproblem
  · cases hproblem
  · obtain ⟨first, hfirst, heq⟩ := Option.map_eq_some_iff.mp hproblem
    cases heq
    have hprefix := firsts_prefix (features.take f.2) (features.drop f.2)
    rw [List.take_append_drop] at hprefix
    have hmember := List.find?_some hfirst
    exact ⟨first, hprefix.subset (List.mem_of_find?_eq_some hfirst), of_decide_eq_true hmember, rfl⟩

theorem firsts_of_problem {e : ClassEntry} {c : ClassDecl} {before : List Feature} {f : Feature}
    {problem : Problem} (h : memberProblem? e c before f = some problem) :
    firsts (before ++ [f]) = firsts before := by
  have hfirst : isFirst before f ≠ true := by
    rw [ne_eq, ← memberProblem?_eq_none (e := e) (c := c), h]
    exact Option.some_ne_none problem
  rw [firsts_concat, if_neg hfirst, List.append_nil]

theorem firsts_of_no_problem {e : ClassEntry} {c : ClassDecl} {before : List Feature} {f : Feature}
    (h : memberProblem? e c before f = none) : firsts (before ++ [f]) = firsts before ++ [f] := by
  rw [firsts_concat, if_pos (memberProblem?_eq_none.mp h)]

end Members

/-! ## Binding -/

theorem Scope.add?_isSome {α : Type} (s : Scope α) (name : String) (value : α) :
    (s.add? name value).isSome = (s.peek? name).isNone := by
  unfold add?
  cases s.peek? name with
  | some old => rfl
  | none =>
    cases s.inner with
    | nil => rfl
    | cons frame rest => rfl

namespace Members

/-- The place where the entry has the member bound that a feature declares. -/
def boundAt? (e : ClassEntry) : Feature → Option Location
  | .field f => (e.fields.peek? f.name).map (·.location)
  | .method m => (e.methods.peek? m.name).map (·.location)

section

variable {c : ClassDecl} {e : ClassEntry} {f : Feature} (hres : isReserved f.name = false)
include hres

theorem bindFeature_of_bound {place : Location} (h : boundAt? e f = some place) :
    bindFeature c e f = .error (.duplicateName (kind f) f.name place) := by
  cases f with
  | field f =>
    obtain ⟨b, hb, rfl⟩ := Option.map_eq_some_iff.mp h
    have hadd : e.fields.add? f.name (fieldBinding e c f) = none := by
      rw [← Option.not_isSome_iff_eq_none, Scope.add?_isSome, hb]
      exact Bool.false_ne_true
    simp only [bindFeature, show isReserved f.name = false from hres, hadd, hb]
    rfl
  | method m =>
    obtain ⟨b, hb, rfl⟩ := Option.map_eq_some_iff.mp h
    have hadd : e.methods.add? m.name (methodBinding e c m) = none := by
      rw [← Option.not_isSome_iff_eq_none, Scope.add?_isSome, hb]
      exact Bool.false_ne_true
    simp only [bindFeature, show isReserved m.name = false from hres, hadd, hb]
    rfl

theorem exists_bindFeature (h : boundAt? e f = none) :
    ∃ e', bindFeature c e f = .ok e' ∧ e'.members = e.members ++ [f.member] := by
  cases f with
  | field f =>
    have hadd : (e.fields.add? f.name (fieldBinding e c f)).isSome = true := by
      rw [Scope.add?_isSome, Option.map_eq_none_iff.mp h]
      rfl
    obtain ⟨fields, hfields⟩ := Option.isSome_iff_exists.mp hadd
    simp only [bindFeature, show isReserved f.name = false from hres, hfields]
    exact ⟨_, rfl, rfl⟩
  | method m =>
    have hadd : (e.methods.add? m.name (methodBinding e c m)).isSome = true := by
      rw [Scope.add?_isSome, Option.map_eq_none_iff.mp h]
      rfl
    obtain ⟨methods, hmethods⟩ := Option.isSome_iff_exists.mp hadd
    simp only [bindFeature, show isReserved m.name = false from hres, hmethods]
    exact ⟨_, rfl, rfl⟩

end

/-- The records of the entry `bound` are those of the first declarations among the features
`before`. -/
structure KeepsFirsts (c : ClassDecl) (e : ClassEntry) (before : List Feature)
    (bound : ClassEntry) : Prop where
  bare_eq : bound.bare = e.bare
  members_eq : bound.members = (firsts before).map Feature.member
  framed : Framed bound ((firsts before).flatMap (fieldPart e c))
    ((firsts before).flatMap (methodPart e c))

/-- A frame made of the parts of features has a name where the first of them declares it. -/
theorem lookup_parts {α : Type} {part : Feature → Frame α} {wrap : String → Member}
    {place : α → Location} {placeOf : Feature → Location} {name : String}
    (hpart : ∀ f, ((part f).lookup name).map place =
      if f.member = wrap name then some (placeOf f) else none) (features : List Feature) :
    ((features.flatMap part).lookup name).map place =
      (features.find? (·.member = wrap name)).map placeOf := by
  induction features with
  | nil => rfl
  | cons f features ih =>
    rw [List.flatMap_cons, List.lookup_append, Option.map_or, hpart, ih]
    by_cases hmember : f.member = wrap name
    · rw [if_pos hmember, List.find?_cons_of_pos (by exact decide_eq_true hmember)]
      rfl
    · rw [if_neg hmember, List.find?_cons_of_neg (by simpa using hmember), Option.none_or]

theorem lookup_fieldPart (e : ClassEntry) (c : ClassDecl) (features : List Feature)
    (name : String) :
    ((features.flatMap (fieldPart e c)).lookup name).map (·.location) =
      (features.find? (·.member = .field name)).map fun f => location e c f.span := by
  refine lookup_parts (fun f => ?_) features
  cases f with
  | field f =>
    by_cases hname : name = f.name
    · simp [fieldPart, Feature.member, hname, fieldBinding, Feature.span]
    · have hlookup : (name == f.name) = false := beq_false_of_ne hname
      simp [fieldPart, Feature.member, List.lookup_cons, hlookup, Ne.symm hname]
  | method m => rfl

theorem lookup_methodPart (e : ClassEntry) (c : ClassDecl) (features : List Feature)
    (name : String) :
    ((features.flatMap (methodPart e c)).lookup name).map (·.location) =
      (features.find? (·.member = .method name)).map fun f => location e c f.span := by
  refine lookup_parts (fun f => ?_) features
  cases f with
  | field f => rfl
  | method m =>
    by_cases hname : name = m.name
    · simp [methodPart, Feature.member, hname, methodBinding, Feature.span]
    · have hlookup : (name == m.name) = false := beq_false_of_ne hname
      simp [methodPart, Feature.member, List.lookup_cons, hlookup, Ne.symm hname]

namespace KeepsFirsts

variable {c : ClassDecl} {e : ClassEntry} {before : List Feature} {bound : ClassEntry}
  (h : KeepsFirsts c e before bound)
include h

/-- What is bound of a member is its first declaration. -/
theorem boundAt?_eq {f : Feature} (hres : isReserved f.name = false) :
    boundAt? bound f =
      ((firsts before).find? (·.member = f.member)).map fun first => location e c first.span := by
  cases f with
  | field f =>
    have hne (name : String) (hname : isReserved name = true) : f.name ≠ name := by
      rintro rfl
      cases hname.symm.trans hres
    have hpeek : bound.fields.peek? f.name =
        ((firsts before).flatMap (fieldPart e c)).lookup f.name := by
      rw [← h.framed.lookup_fields (hne "this" rfl) (hne "super" rfl), h.framed.fields_eq,
        Scope.lookup?_single]
      rfl
    rw [boundAt?, hpeek]
    exact lookup_fieldPart e c _ f.name
  | method m =>
    rw [boundAt?, h.framed.methods_eq]
    exact lookup_methodPart e c _ m.name

/-- A feature with a problem is reported and changes nothing. -/
theorem skip {f : Feature} {problem : Problem} (hf : memberProblem? e c before f = some problem) :
    Members.bindFeature c bound f = .error problem ∧ KeepsFirsts c e (before ++ [f]) bound := by
  constructor
  · unfold memberProblem? at hf
    cases hres : isReserved f.name with
    | true =>
      rw [if_pos hres] at hf
      rw [bindFeature_reserved c bound hres, Option.some.inj hf]
    | false =>
      rw [if_neg (by rw [hres]; exact Bool.false_ne_true)] at hf
      obtain ⟨first, hfirst, rfl⟩ := Option.map_eq_some_iff.mp hf
      exact bindFeature_of_bound hres (by rw [h.boundAt?_eq hres, hfirst, Option.map_some])
  · have hsame := firsts_of_problem hf
    exact ⟨h.bare_eq, by rw [hsame]; exact h.members_eq, by rw [hsame]; exact h.framed⟩

/-- A feature without a problem goes to the end of both records. -/
theorem keep {f : Feature} (hf : memberProblem? e c before f = none) :
    ∃ bound', Members.bindFeature c bound f = .ok bound' ∧
      KeepsFirsts c e (before ++ [f]) bound' := by
  have hfirst := memberProblem?_eq_none.mp hf
  have hres : isReserved f.name = false := by
    rw [isFirst, Bool.and_eq_true, Bool.not_eq_true'] at hfirst
    exact hfirst.1
  have hfree : boundAt? bound f = none := by
    rw [memberProblem?, if_neg (by rw [hres]; exact Bool.false_ne_true),
      Option.map_eq_none_iff] at hf
    rw [h.boundAt?_eq hres, hf, Option.map_none]
  obtain ⟨bound', hok, hmembers⟩ := exists_bindFeature (c := c) hres hfree
  have hbuiltin : bound.isBuiltin = e.isBuiltin := (congrArg ClassEntry.isBuiltin h.bare_eq :)
  have hframed := h.framed.bindFeature hok
  rw [fieldPart_congr hbuiltin rfl, methodPart_congr hbuiltin rfl] at hframed
  refine ⟨bound', hok, (bare_bindFeature hok).trans h.bare_eq, ?_, ?_⟩
  · rw [hmembers, h.members_eq, firsts_of_no_problem hf, List.map_append]
    rfl
  · rw [firsts_of_no_problem hf, List.flatMap_append, List.flatMap_append, List.flatMap_singleton,
      List.flatMap_singleton]
    exact hframed

/-- All features that follow are kept or reported, each by what came before it. -/
theorem bindFeatures (features : List Feature) :
    KeepsFirsts c e (before ++ features) (Members.bindFeatures c bound features).1 ∧
      (Members.bindFeatures c bound features).2 =
        (features.zipIdx before.length).filterMap (memberFault? e c (before ++ features)) := by
  -- a feature that has been dealt with moves to `before`, whether it was kept or not
  induction features generalizing before bound with
  | nil => exact ⟨by rw [List.append_nil]; exact h, rfl⟩
  | cons f rest ih =>
    have hsplit : before ++ f :: rest = before ++ [f] ++ rest := by
      rw [List.append_assoc, List.singleton_append]
    have htake : (before ++ f :: rest).take before.length = before := List.take_left
    have hnext : (before ++ [f]).length = before.length + 1 := List.length_append
    unfold Members.bindFeatures
    rw [List.zipIdx_cons, List.filterMap_cons, memberFault?, htake]
    cases hf : memberProblem? e c before f with
    | some problem =>
      obtain ⟨herror, hskip⟩ := h.skip hf
      obtain ⟨hrest, hfaults⟩ := ih hskip
      rw [herror, hsplit]
      refine ⟨hrest, ?_⟩
      rw [hnext] at hfaults
      exact congrArg (_ :: ·) hfaults
    | none =>
      obtain ⟨bound', hok, hkeep⟩ := h.keep hf
      obtain ⟨hrest, hfaults⟩ := ih hkeep
      rw [hok, hsplit]
      refine ⟨hrest, ?_⟩
      rw [hnext] at hfaults
      exact hfaults

end KeepsFirsts

theorem keepsFirsts_openFrames {e : ClassEntry} (hbare : e.bare = e) (c : ClassDecl) :
    KeepsFirsts c e [] (openFrames e) where
  bare_eq := rfl
  members_eq := by
    rw [← hbare]
    rfl
  framed := framed_openFrames hbare

/-! ## The table -/

theorem memberFault?_congr {e e' : ClassEntry} (h : e'.isBuiltin = e.isBuiltin) (c : ClassDecl) :
    memberFault? e' c = memberFault? e c := by
  have hlocation : location e' c = location e c := by
    funext span
    rw [location, location, h]
  funext features f
  rw [memberFault?, memberFault?, memberProblem?, memberProblem?, hlocation]

/-- An entry is bound to the declaration at its origin, and all else in it is reported. -/
theorem keepsFirsts_bindEntry {classes : List ClassDecl} {e : ClassEntry} (hbare : e.bare = e)
    {c : ClassDecl} (hdecl : e.origin.decl? classes = some c) :
    let bound := bindEntry classes e
    KeepsFirsts c bound.1 c.features bound.1 ∧ bound.2 = memberReports classes bound.1 := by
  intro bound
  have hbound : bound = bindClass c e := by
    show bindEntry classes e = _
    rw [bindEntry, hdecl]
  obtain ⟨hkeeps, hfaults⟩ := (keepsFirsts_openFrames hbare c).bindFeatures c.features
  have hbuiltin : bound.1.isBuiltin = e.isBuiltin :=
    (congrArg ClassEntry.isBuiltin (bare_bindEntry classes e) :)
  constructor
  · refine ⟨rfl, ?_, ?_⟩
    · rw [hbound]
      exact hkeeps.members_eq
    · rw [fieldPart_congr hbuiltin rfl, methodPart_congr hbuiltin rfl, hbound]
      exact hkeeps.framed
  · have hreports : memberReports classes bound.1 =
        (c.features.zipIdx.filterMap (memberFault? e c c.features)).map
          (Fault.diagnostic c.file) := by
      rw [memberReports, origin_bindEntry, hdecl, ← memberFault?_congr hbuiltin]
    rw [hreports, hbound]
    exact congrArg (List.map (Fault.diagnostic c.file)) hfaults

/-- Every field that is kept counts as a declared one. -/
theorem countP_fieldPart (e : ClassEntry) (c : ClassDecl) (features : List Feature) :
    ((features.flatMap (fieldPart e c)).countP fun b => b.2.role = .declared) =
      (features.map Feature.member).countP Member.isField := by
  induction features with
  | nil => rfl
  | cons f features ih =>
    rw [List.flatMap_cons, List.countP_append, ih, List.map_cons, List.countP_cons, Nat.add_comm]
    cases f with
    | field f => rfl
    | method m => rfl

theorem KeepsFirsts.declaredFieldCount_eq {c : ClassDecl} {e : ClassEntry}
    {features : List Feature} (h : KeepsFirsts c e features e) :
    e.declaredFieldCount = e.members.countP Member.isField := by
  have htable : e.fields.toList = pseudoFrame e ++ (firsts features).flatMap (fieldPart e c) := by
    rw [h.framed.fields_eq]
    exact List.append_nil _
  have hcount : e.declaredFieldCount = e.fields.toList.countP fun b => b.2.role = .declared := rfl
  rw [hcount, htable, List.countP_append, countP_fieldPart, h.members_eq]
  exact Nat.zero_add _

end Members

/-- Only the root class has no parent. -/
theorem Rooted.parent_eq_none_iff {t : ClassTable} (h : Rooted t) {e : ClassEntry}
    (he : e ∈ t.entries) : e.parent = none ↔ e.name = objectName := by
  have hparent : t.parent? e.name = e.parent := by
    rw [ClassTable.parent?, ClassTable.find?_of_mem h.nodup he, Option.bind_some]
  rw [← hparent]
  constructor
  · intro hnone
    by_contra hne
    exact h.linked e.name (List.mem_map_of_mem he) hne hnone
  · intro hroot
    rw [hroot]
    exact h.root_parent

open Members

/-- Binding keeps the first declaration of each member. In every class of the table, the members are
the first declarations that are not of reserved names, in order. The two tables hold what those
declarations say, and nothing else but `this`, the class, and `super`, its parent, which only the
root class lacks. The fields among the members are counted as declared. A feature has a problem
unless it is a first declaration; for a member that is declared again, the report names the place of
the declaration that was kept. There is one report for each feature with a problem, in order, and no
other. -/
theorem first_declarations_kept (classes : List ClassDecl) :
    let bound := bind classes (Hierarchy.build classes).1
    (∀ e ∈ bound.1.entries, ∃ c, e.origin.decl? classes = some c ∧ c.name = e.name ∧
      e.members = (firsts c.features).map Feature.member ∧
      e.fields = { inner := [pseudoFrame e ++ (firsts c.features).flatMap (fieldPart e c)] } ∧
      e.methods = { inner := [(firsts c.features).flatMap (methodPart e c)] } ∧
      (e.fields.peek? "this").map (·.typeName) = some e.name ∧
      (e.fields.peek? "super").map (·.typeName) = some (e.parent.getD "") ∧
      (e.parent = none ↔ e.name = objectName) ∧
      e.declaredFieldCount = e.members.countP Member.isField ∧
      ∀ i f, c.features[i]? = some f →
        (memberFault? e c c.features (f, i) = none ↔ isFirst (c.features.take i) f = true) ∧
        ∀ kind name previous,
          memberFault? e c c.features (f, i) = some ⟨.duplicateName kind name previous, f.span⟩ →
            ∃ first ∈ firsts c.features, first.member = f.member ∧
              previous = location e c first.span) ∧
      bound.2 = bound.1.entries.flatMap (memberReports classes) := by
  intro bound
  have hrooted : Rooted bound.1 := rooted_bind classes (rooted_build classes)
  constructor
  · intro e he
    obtain ⟨fresh, hfresh, rfl⟩ := mem_bind.mp he
    obtain ⟨hbare, c, hdecl, hname⟩ := Hierarchy.exists_decl_of_mem hfresh
    obtain ⟨hkeeps, -⟩ := keepsFirsts_bindEntry hbare hdecl
    have hframed := hkeeps.framed
    refine ⟨c, (origin_bindEntry classes fresh).symm ▸ hdecl, ?_, hkeeps.members_eq,
      hframed.fields_eq, hframed.methods_eq, ?_, ?_, hrooted.parent_eq_none_iff he,
      hkeeps.declaredFieldCount_eq, fun i f hf => ⟨?_, ?_⟩⟩
    · exact hname.trans (ClassEntry.name_of_bare (bare_bindEntry classes fresh)).symm
    · rw [hframed.fields_eq]
      rfl
    · rw [hframed.fields_eq]
      rfl
    · rw [memberFault?, Option.map_eq_none_iff, memberProblem?_eq_none]
    · exact fun kind name previous hfault => exists_first_of_duplicate hfault
  · show ((Hierarchy.build classes).1.entries.map (bindEntry classes)).flatMap (·.2) = _
    rw [bind_eq, List.flatMap_map, List.flatMap_map]
    refine List.flatMap_congr fun fresh hfresh => ?_
    obtain ⟨hbare, c, hdecl, -⟩ := Hierarchy.exists_decl_of_mem hfresh
    exact (keepsFirsts_bindEntry hbare hdecl).2

/-- A class that declares `x` as a field and as a method, and both of them again, with reserved
names in between. -/
def shelves : List ClassDecl :=
  [{ name := "Shelf"
     features := [
       .field { name := "super", typeName := "int", span := { first := { line := 2 } } },
       .field { name := "x", typeName := "int", span := { first := { line := 3 } } },
       .method { name := "x", returnName := "void", span := { first := { line := 4 } } },
       .method { name := "null", returnName := "void", span := { first := { line := 5 } } },
       .field { name := "x", typeName := "boolean", span := { first := { line := 6 } } },
       .method { name := "x", returnName := "int", span := { first := { line := 7 } } }] }]

theorem first_declarations_kept_shelves :
    let bound := bind shelves (Hierarchy.build shelves).1
    ∃ e ∈ bound.1.entries, e.members = [.field "x", .method "x"] ∧
      (e.fields.lookup? "x").map (·.typeName) = some "int" ∧
      (e.methods.lookup? "x").map (·.returnName) = some "void" ∧
      e.declaredFieldCount = e.members.countP Member.isField ∧
      bound.2 = bound.1.entries.flatMap (memberReports shelves) ∧
      bound.2.map (·.cause) = [
        some (.fault ⟨.reservedName .field "super", { first := { line := 2 } }⟩),
        some (.fault ⟨.reservedName .method "null", { first := { line := 5 } }⟩),
        some (.fault ⟨.duplicateName .field "x" (.source none { first := { line := 3 } }),
          { first := { line := 6 } }⟩),
        some (.fault ⟨.duplicateName .method "x" (.source none { first := { line := 4 } }),
          { first := { line := 7 } }⟩)] := by
  intro bound
  obtain ⟨hentries, hreports⟩ := first_declarations_kept shelves
  obtain ⟨e, he⟩ : ∃ e, bound.1.find? "Shelf" = some e := ⟨_, rfl⟩
  have hmem := ClassTable.mem_of_find? he
  have hshelf : (bound.1.find? "Shelf").map (fun e =>
      (e.members, (e.fields.lookup? "x").map (·.typeName),
        (e.methods.lookup? "x").map (·.returnName))) =
      some ([.field "x", .method "x"], some "int", some "void") := by decide
  rw [he, Option.map_some, Option.some.injEq, Prod.mk.injEq, Prod.mk.injEq] at hshelf
  obtain ⟨hmembers, hfield, hmethod⟩ := hshelf
  obtain ⟨c, -, -, -, -, -, -, -, -, hcount, -⟩ := hentries e hmem
  exact ⟨e, hmem, hmembers, hfield, hmethod, hcount, hreports, by decide⟩

end ClassCompiler
