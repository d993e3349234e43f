import ClassCompiler.Proofs.Cancellation
import ClassCompiler.Proofs.Linkage

/-!
# The numbers of the classes

The number of a class stands in three places of an assembly: in the template of the class, in the
order of the class name table, and in the label of the record with its name. All three agree, since
the classes are numbered one by one without a gap.

Results:
1. `ClassIds.ofTable_eq`, `ClassIds.isNumbering_ofTable`: when there are numbers, and what they are.
2. `after?_record`, `after?_table`, `after?_template`: what follows the labels of the three places,
   whatever the names of the classes are.
3. `after?_textOf`: the same can be read off the characters if the names are identifiers.
4. `class_numbers_agree`: all of it for the table of a program.
-/

namespace ClassCompiler.Assembly

/-- The table of some classes, before or after their members are bound. -/
def IsTableOf (classes : List ClassDecl) (t : ClassTable) : Prop :=
  t = (Hierarchy.build classes).1 ∨ t = (Members.bind classes (Hierarchy.build classes).1).1

namespace IsTableOf

variable {classes : List ClassDecl} {t : ClassTable}

theorem names_eq (h : IsTableOf classes t) : t.names = (Hierarchy.registeredTable classes).names := by
  rcases h with rfl | rfl
  · exact Hierarchy.names_build classes
  · rw [Members.names_bind, Hierarchy.names_build]

theorem nodup (h : IsTableOf classes t) : t.names.Nodup := by
  rw [h.names_eq]
  exact (Hierarchy.registered_registeredTable classes).nodup

theorem mem_of_builtin (h : IsTableOf classes t) {name : String}
    (hname : name ∈ Hierarchy.builtinTable.names) : name ∈ t.names := by
  rw [h.names_eq]
  exact ((Hierarchy.prefix_registeredTable classes).map _).subset hname

end IsTableOf

/-! ## Numbering -/

/-- The numbers of the classes of a table: the registered classes and the numbers below their count
belong together one by one, and are listed in the order of the numbers. Five classes have fixed
numbers, and the others follow in the order of registration. -/
structure IsNumbering (t : ClassTable) (ids : ClassIds) : Prop where
  size : ids.size = t.size
  total : ∀ name ∈ t.names, ∃ i, ids.id? name = some i
  range : ∀ name i, ids.id? name = some i → name ∈ t.names ∧ i < t.size
  injective : ∀ a b i, ids.id? a = some i → ids.id? b = some i → a = b
  surjective : ∀ i < t.size, ∃ name, ids.id? name = some i
  order : ids.toList.map (·.1) = List.range t.size
  listed : ∀ name i, (i, name) ∈ ids.toList ↔ ids.id? name = some i
  fixed : [objectName, stringName, "Sys", mainClass, "TextIO"].map ids.id? =
    [some 0, some 1, some 2, some 3, some 4]
  others : ∀ name k, (t.names.filter (!fixedClasses.contains ·))[k]? = some name →
    ids.id? name = some (5 + k)

namespace ClassIds

theorem id?_iff {ids : ClassIds} (hnodup : ids.names.Nodup) {name : String} {i : Nat} :
    ids.id? name = some i ↔ ids.names[i]? = some name := by
  rw [id?, List.findIdx?_eq_some_iff_getElem, List.getElem?_eq_some_iff]
  constructor
  · rintro ⟨hi, hname, _⟩
    exact ⟨hi, beq_iff_eq.mp hname⟩
  · rintro ⟨hi, rfl⟩
    refine ⟨hi, beq_self_eq_true _, fun j hji heq => ?_⟩
    exact absurd (hnodup.getElem_inj_iff.mp (beq_iff_eq.mp heq)) (Nat.ne_of_lt hji)

theorem mem_toList {ids : ClassIds} {name : String} {i : Nat} :
    (i, name) ∈ ids.toList ↔ ids.names[i]? = some name := by
  rw [toList, List.mem_map]
  constructor
  · rintro ⟨⟨n, k⟩, hmem, heq⟩
    cases heq
    exact List.mem_zipIdx_iff_getElem?.mp hmem
  · intro hget
    exact ⟨(name, i), List.mem_zipIdx_iff_getElem?.mpr hget, rfl⟩

theorem map_fst_toList (ids : ClassIds) : ids.toList.map (·.1) = List.range ids.size := by
  rw [toList, List.map_map, List.range_eq_range']
  exact List.zipIdx_map_snd 0 ids.names

/-- Of the fixed classes only the main class can be missing. -/
theorem ofTable_eq {classes : List ClassDecl} {t : ClassTable} (h : IsTableOf classes t) :
    ofTable t = if t.contains mainClass = true
      then .ok ⟨fixedClasses ++ t.names.filter (!fixedClasses.contains ·)⟩
      else .error (.missingClass mainClass) := by
  have hbuiltin {name : String} (hname : name ∈ Hierarchy.builtinTable.names) :
      t.contains name = true := ClassTable.contains_iff.mpr (h.mem_of_builtin hname)
  have hobject : t.contains objectName = true := hbuiltin (by decide)
  have hstring : t.contains stringName = true := hbuiltin (by decide)
  have hsys : t.contains "Sys" = true := hbuiltin (by decide)
  have htext : t.contains "TextIO" = true := hbuiltin (by decide)
  cases hmain : t.contains mainClass with
  | true =>
    have hfind : fixedClasses.find? (!t.contains ·) = none := by
      simp [fixedClasses, hobject, hstring, hsys, htext, hmain]
    rw [ofTable, hfind]
    rfl
  | false =>
    have hfind : fixedClasses.find? (!t.contains ·) = some mainClass := by
      simp [fixedClasses, hobject, hstring, hsys, hmain]
    rw [ofTable, hfind]
    rfl

theorem isNumbering_ofTable {classes : List ClassDecl} {t : ClassTable} (h : IsTableOf classes t)
    {ids : ClassIds} (hok : ofTable t = .ok ids) : IsNumbering t ids := by
  have hperm := perm_ofTable h.nodup hok
  have hnodup : ids.names.Nodup := hperm.nodup_iff.mpr h.nodup
  have hsize : ids.size = t.size := by
    rw [size, hperm.length_eq, Hierarchy.names_length]
  have hnames : ids.names = fixedClasses ++ t.names.filter (!fixedClasses.contains ·) := by
    rw [ofTable_eq h] at hok
    split at hok
    · exact (congrArg ClassIds.names (Except.ok.inj hok)).symm
    · cases hok
  have hfixed {k : Nat} {name : String} (hk : fixedClasses[k]? = some name) :
      ids.id? name = some k := by
    rw [id?_iff hnodup, hnames, List.getElem?_append_left (List.getElem?_eq_some_iff.mp hk).1, hk]
  refine ⟨hsize, fun name hname => ?_, fun name i hid => ?_, fun a b i ha hb => ?_,
    fun i hi => ?_, hsize ▸ ids.map_fst_toList, fun name i => ?_, ?_, fun name k hk => ?_⟩
  · obtain ⟨i, hi⟩ := List.getElem?_of_mem (hperm.mem_iff.mpr hname)
    exact ⟨i, (id?_iff hnodup).mpr hi⟩
  · have hget := (id?_iff hnodup).mp hid
    refine ⟨hperm.mem_iff.mp (List.mem_of_getElem? hget), ?_⟩
    rw [← hsize]
    exact (List.getElem?_eq_some_iff.mp hget).1
  · rw [id?_iff hnodup] at ha hb
    exact Option.some.inj (ha.symm.trans hb)
  · rw [← hsize] at hi
    exact ⟨ids.names[i], (id?_iff hnodup).mpr (List.getElem?_eq_getElem hi)⟩
  · rw [mem_toList, id?_iff hnodup]
  · simp only [List.map_cons, List.map_nil]
    rw [hfixed (k := 0) rfl, hfixed (k := 1) rfl, hfixed (k := 2) rfl, hfixed (k := 3) rfl,
      hfixed (k := 4) rfl]
  · rw [id?_iff hnodup, hnames, List.getElem?_append_right (Nat.le_add_right 5 k)]
    rwa [show 5 + k - fixedClasses.length = k from Nat.add_sub_cancel_left 5 k]

end ClassIds

/-! ## What follows a label -/

/-- What follows the first occurrence of an item in a list. -/
def after? {α : Type} [DecidableEq α] (x : α) : List α → Option (List α)
  | [] => none
  | y :: ys => if y = x then some ys else after? x ys

section After

variable {α β : Type} [DecidableEq α] [DecidableEq β]

theorem after?_append_cons {x : α} {before : List α} (h : x ∉ before) (rest : List α) :
    after? x (before ++ x :: rest) = some rest := by
  induction before with
  | nil => exact if_pos rfl
  | cons y before ih =>
    obtain ⟨hne, hbefore⟩ := not_or.mp (mt List.mem_cons.mpr h)
    exact (if_neg (Ne.symm hne)).trans (ih hbefore)

/-- A list starts with two parts that do not have the item, and then has it with a block behind it. -/
theorem after?_of_prefix {x : α} {start before block ls : List α}
    (h : start ++ (before ++ x :: block) <+: ls) (hx : x ∉ start ++ before) :
    ∃ rest, after? x ls = some (block ++ rest) := by
  obtain ⟨rest, rfl⟩ := h
  refine ⟨rest, ?_⟩
  rw [← List.append_assoc start, List.append_assoc, List.cons_append, after?_append_cons hx]

theorem after?_append_left {x : α} {ls rest : List α} (h : after? x ls = some rest) (more : List α) :
    after? x (ls ++ more) = some (rest ++ more) := by
  induction ls with
  | nil => cases h
  | cons y ls ih =>
    rw [List.cons_append, after?]
    rw [after?] at h
    split_ifs at h ⊢ with heq
    · rw [Option.some.inj h]
    · exact ih h

theorem after?_map {f : α → β} {x : α} {ls : List α} (h : ∀ y ∈ ls, f y = f x → y = x) :
    after? (f x) (ls.map f) = (after? x ls).map (List.map f) := by
  induction ls with
  | nil => rfl
  | cons y ls ih =>
    rw [List.map_cons, after?, after?, ih fun z hz => h z (List.mem_cons_of_mem _ hz)]
    by_cases heq : y = x
    · rw [if_pos heq, if_pos (congrArg f heq), Option.map_some]
    · rw [if_neg heq, if_neg (mt (h y List.mem_cons_self) heq)]

end After

theorem key_not_mem_before {α β : Type} {f : α → β} {xs before behind : List α} {x : α}
    (hsplit : xs = before ++ x :: behind) (hnodup : (xs.map f).Nodup) : f x ∉ before.map f := by
  rw [hsplit, List.map_append, List.map_cons] at hnodup
  exact fun hmem => (List.nodup_append.mp hnodup).2.2 _ hmem _ List.mem_cons_self rfl

/-! ## Labels before the dispatch tables -/

/-- `Defines ls symbols`: the labels in some lines are those of the symbols, which are no methods. -/
def Defines (ls : List Line) (symbols : List Symbol) : Prop :=
  (∀ s ∈ symbols, ∀ cls name, s ≠ .method cls name) ∧
    ∀ label, .label label ∈ ls → ∃ s ∈ symbols, s.label = label

namespace Defines

variable {ls ls' : List Line} {symbols symbols' : List Symbol}

theorem append (h : Defines ls symbols) (h' : Defines ls' symbols') :
    Defines (ls ++ ls') (symbols ++ symbols') := by
  refine ⟨fun s hs => (List.mem_append.mp hs).elim (h.1 s) (h'.1 s), fun label hlabel => ?_⟩
  rcases List.mem_append.mp hlabel with hlabel | hlabel
  · obtain ⟨s, hs, heq⟩ := h.2 label hlabel
    exact ⟨s, List.mem_append_left _ hs, heq⟩
  · obtain ⟨s, hs, heq⟩ := h'.2 label hlabel
    exact ⟨s, List.mem_append_right _ hs, heq⟩

theorem flatMap {α : Type} {xs : List α} {lines : α → List Line} {symbol : α → Symbol}
    (h : ∀ x ∈ xs, Defines (lines x) [symbol x]) : Defines (xs.flatMap lines) (xs.map symbol) := by
  induction xs with
  | nil => exact ⟨by simp, by simp⟩
  | cons x xs ih =>
    exact (h x List.mem_cons_self).append (ih fun y hy => h y (List.mem_cons_of_mem _ hy))

/-- The label of a symbol that is not among those defined stands in no line. -/
theorem not_mem (h : Defines ls symbols) {s : Symbol} (hs : ∀ cls name, s ≠ .method cls name)
    (hnew : s ∉ symbols) : .label s.label ∉ ls := by
  intro hmem
  obtain ⟨s', hs', heq⟩ := h.2 _ hmem
  exact hnew (Symbol.label_inj_of_data (h.1 s' hs') hs heq ▸ hs')

end Defines

theorem defines_headerLines (gc : Bool) : Defines (headerLines gc) [.ended "" .gcFlag] := by
  refine ⟨by simp, fun label hlabel => ?_⟩
  simp only [headerLines, Line.count, Line.word, Line.global, List.mem_cons, Line.label.injEq,
    reduceCtorEq, List.not_mem_nil, or_false, false_or] at hlabel
  exact ⟨_, List.mem_singleton_self _, (label_ended_empty .gcFlag).trans hlabel.symm⟩

theorem defines_stringRecord {s : Symbol} (hs : ∀ cls name, s ≠ .method cls name) (value : String) :
    Defines (stringRecord s.label value) [s] := by
  refine ⟨by simpa using hs, fun label hlabel => ?_⟩
  simp only [stringRecord, Line.count, Line.word, List.mem_cons, Line.label.injEq, reduceCtorEq,
    List.not_mem_nil, or_false] at hlabel
  exact ⟨s, List.mem_singleton_self s, hlabel.symm⟩

theorem defines_stringRecords (series : Series) {label : Nat → String}
    (hlabel : ∀ index, label index = (Symbol.numbered series index).label)
    (strings : List (Nat × String)) :
    Defines (stringRecords label strings) (strings.map (.numbered series ·.1)) := by
  refine Defines.flatMap fun x _ => ?_
  show Defines (stringRecord (label x.1) x.2) _
  rw [hlabel]
  exact defines_stringRecord (s := .numbered series x.1) (by simp) x.2

theorem defines_classNameLines (ids : ClassIds) :
    Defines (classNameLines ids) [.ended "" .classNameTable] := by
  refine ⟨by simp, fun label hlabel => ?_⟩
  simp only [classNameLines, Line.word, Line.global, List.mem_append, List.mem_cons, List.mem_map,
    Line.label.injEq, reduceCtorEq, and_false, exists_false, or_false] at hlabel
  exact ⟨_, List.mem_singleton_self _, (label_ended_empty .classNameTable).trans hlabel.symm⟩

theorem defines_templateLines (ids : ClassIds) (e : ClassEntry) :
    Defines (templateLines ids e) [.ended e.name .template] := by
  refine ⟨by simp, fun label hlabel => ?_⟩
  simp only [templateLines, Line.count, Line.word, List.mem_append, List.mem_cons,
    List.mem_replicate, Line.label.injEq, reduceCtorEq, List.not_mem_nil, and_false, or_false]
    at hlabel
  exact ⟨_, List.mem_singleton_self _, hlabel.symm⟩

/-! ## The three places -/

theorem templates_prefix_lines (t : ClassTable) (p : Program) (gc : Bool) (ids : ClassIds) :
    headerLines gc ++ stringLines ids p ++ classNameLines ids
      ++ (entriesById t ids).flatMap (templateLines ids) <+: lines t p gc ids :=
  (List.prefix_append _ _).trans (List.prefix_append _ _)

theorem names_prefix_lines (t : ClassTable) (p : Program) (gc : Bool) (ids : ClassIds) :
    headerLines gc ++ stringLines ids p ++ classNameLines ids <+: lines t p gc ids :=
  (List.prefix_append _ _).trans (templates_prefix_lines t p gc ids)

theorem strings_prefix_lines (t : ClassTable) (p : Program) (gc : Bool) (ids : ClassIds) :
    headerLines gc ++ stringLines ids p <+: lines t p gc ids :=
  (List.prefix_append _ _).trans (names_prefix_lines t p gc ids)

theorem defines_stringLines (ids : ClassIds) (p : Program) :
    Defines (stringLines ids p)
      (ids.toList.map (.numbered .className ·.1)
        ++ (sourceFiles p).toList.map (.numbered .fileName ·.1)
        ++ (literals p).toList.map (.numbered .stringConst ·.1)) :=
  ((defines_stringRecords .className (fun _ => rfl) _).append
    (defines_stringRecords .fileName (fun _ => rfl) _)).append
      (defines_stringRecords .stringConst (fun _ => rfl) _)

section Places

variable {t : ClassTable} {ids : ClassIds} (h : IsNumbering t ids) (p : Program) (gc : Bool)

include h

/-- At the label of a number stands the record with the name of its class. -/
theorem after?_record {name : String} {i : Nat} (hid : ids.id? name = some i) :
    ∃ rest, after? (.label (Label.className i)) (lines t p gc ids) =
      some ((stringRecord (Label.className i) name).tail ++ rest) := by
  obtain ⟨before, behind, hsplit⟩ := List.append_of_mem ((h.listed name i).mpr hid)
  have hnew : i ∉ before.map (·.1) :=
    key_not_mem_before (f := (·.1)) hsplit (h.order ▸ List.nodup_range)
  have hrecord : stringRecords Label.className before ++ stringRecord (Label.className i) name <+:
      stringLines ids p := by
    have hrecords : stringRecords Label.className ids.toList =
        stringRecords Label.className before ++ stringRecord (Label.className i) name
          ++ stringRecords Label.className behind := by
      rw [hsplit, stringRecords, List.flatMap_append, List.flatMap_cons, ← List.append_assoc]
      rfl
    rw [stringLines, hrecords, List.append_assoc, List.append_assoc]
    exact List.prefix_append _ _
  have hrecords : Defines (stringRecords Label.className before)
      (before.map (.numbered .className ·.1)) := defines_stringRecords .className (fun _ => rfl) _
  have hdefines := (defines_headerLines gc).append hrecords
  exact after?_of_prefix
    (((List.prefix_append_right_inj _).mpr hrecord).trans (strings_prefix_lines t p gc ids))
    (hdefines.not_mem (s := .numbered .className i) (by simp) (by simpa using hnew))

/-- The words of the class name table are the labels of the numbers in their order. -/
theorem after?_table :
    ∃ rest, after? (.label Label.classNameTable) (lines t p gc ids) =
      some ((List.range t.size).map (fun i => .word (Label.className i)) ++ rest) := by
  have hwords : ids.toList.map (fun x => Line.word (Label.className x.1)) =
      (List.range t.size).map fun i => .word (Label.className i) := by
    rw [← h.order, List.map_map]
    rfl
  have hdefines := (defines_headerLines gc).append (defines_stringLines ids p)
  rw [← hwords]
  have htable : headerLines gc ++ (stringLines ids p ++ .label Label.classNameTable ::
      ids.toList.map fun x => .word (Label.className x.1)) <+: lines t p gc ids := by
    refine List.IsPrefix.trans ?_ (names_prefix_lines t p gc ids)
    rw [← List.append_assoc]
    exact (List.prefix_append_right_inj _).mpr (List.prefix_append _ _)
  refine after?_of_prefix htable ?_
  rw [← show (Symbol.ended "" .classNameTable).label = Label.classNameTable from
    label_ended_empty .classNameTable]
  exact hdefines.not_mem (by simp) (by simp)

/-- A template starts with the number of its class. -/
theorem after?_template {name : String} {i : Nat} (hid : ids.id? name = some i)
    (hnodup : t.names.Nodup) (hids : ids.names.Perm t.names) :
    ∃ rest, after? (.label (Label.template name)) (lines t p gc ids) =
      some (.word (toString i) :: rest) := by
  have hnames := names_entriesById hids
  have hmem : name ∈ (entriesById t ids).map (·.name) := by
    rw [hnames]
    exact hids.mem_iff.mpr (h.range name i hid).1
  obtain ⟨e, he, rfl⟩ := List.mem_map.mp hmem
  obtain ⟨before, behind, hsplit⟩ := List.append_of_mem he
  have hnew : e.name ∉ before.map (·.name) :=
    key_not_mem_before hsplit (hnames ▸ hids.nodup_iff.mpr hnodup)
  have htemplate : before.flatMap (templateLines ids) ++ templateLines ids e <+:
      (entriesById t ids).flatMap (templateLines ids) := by
    rw [hsplit, List.flatMap_append, List.flatMap_cons, ← List.append_assoc]
    exact List.prefix_append _ _
  have hdefines := (((defines_headerLines gc).append (defines_stringLines ids p)).append
    (defines_classNameLines ids)).append
      (Defines.flatMap fun e (_ : e ∈ before) => defines_templateLines ids e)
  have hblock : templateLines ids e =
      .label (Label.template e.name) :: .word (toString i) :: (templateLines ids e).drop 2 := by
    rw [templateLines, hid]
    rfl
  rw [hblock] at htemplate
  obtain ⟨rest, hrest⟩ := after?_of_prefix
    (((List.prefix_append_right_inj _).mpr htemplate).trans (templates_prefix_lines t p gc ids))
    (hdefines.not_mem (s := .ended e.name .template) (by simp) (by simpa using hnew))
  exact ⟨_, hrest⟩

end Places

/-! ## Reading the text -/

/-- What follows a label in a text is what follows it in the lines. -/
theorem after?_textOf {ls : List Line} (hline : ∀ l ∈ ls, '\n' ∉ l.body) {s : Symbol}
    (hs : s.Plain) {rest : List Line} (h : after? (.label s.label) ls = some rest) :
    after? (s.label.toList ++ [':']) ((textOf ls).toList.splitOn '\n') =
      some (rest.map Line.body ++ [[]]) := by
  obtain ⟨hne, hblank⟩ := isWord_iff.mp (isWord_label hs)
  -- all lines but those of labels start with a tab, which is not part of a label
  have htab (cs : List Char) : '\t' :: cs ≠ s.label.toList ++ [':'] := by
    intro heq
    obtain ⟨c, cs', hlabel⟩ := List.exists_cons_of_ne_nil hne
    rw [hlabel, List.cons_append, List.cons.injEq] at heq
    exact absurd (hblank c (hlabel ▸ List.mem_cons_self)) (heq.1 ▸ by decide)
  have hinj : ∀ l ∈ ls, l.body = (Line.label s.label).body → l = .label s.label := by
    intro l _ heq
    cases l with
    | label name => rw [String.toList_inj.mp (List.append_cancel_right heq)]
    | segment name => exact absurd heq (htab _)
    | directive name argument => exact absurd heq (htab _)
    | comment text => exact absurd heq (htab _)
    | instr text => exact absurd heq (htab _)
  rw [splitOn_textOf hline]
  refine after?_append_left ?_ [[]]
  exact (after?_map hinj).trans (by rw [h, Option.map_some])

theorem IsTableOf.linkable {p : Program} {t : ClassTable} (h : IsTableOf p.classes t)
    (hnames : ∀ c ∈ p.classes, IsIdentifier c.name ∧ ∀ m ∈ c.methods, IsIdentifier m.name) :
    Linkable p t := by
  have hbound := linkable_bind p hnames
  rcases h with rfl | rfl
  · have hempty : ∀ e ∈ (Hierarchy.build p.classes).1.entries, e.declaredMethods = [] := by
      intro e he
      rw [← (Hierarchy.exists_decl_of_mem he).1]
      rfl
    refine ⟨(rooted_build p.classes).nodup, fun e he => ?_, fun e he => ?_, fun e he => ?_,
      fun e he => ?_⟩
    · have hplain := hbound.plain _ (Members.mem_bind.mpr ⟨e, he, rfl⟩)
      rwa [ClassEntry.name_of_bare (Members.bare_bindEntry p.classes e)] at hplain
    · rw [hempty e he]
      exact fun _ hm => absurd hm List.not_mem_nil
    · rw [hempty e he]
      exact List.nodup_nil
    · obtain ⟨_, c, hdecl, hname⟩ := Hierarchy.exists_decl_of_mem he
      rw [hempty e he]
      exact ⟨c, hdecl, hname, fun _ hm => absurd hm List.not_mem_nil⟩
  · exact hbound

/-- The lines of any program stay on their lines if the names in the table are identifiers. -/
theorem oneLine_lines {p q : Program} {t : ClassTable} (h : Linkable p t) (gc : Bool)
    {ids : ClassIds} (hids : ids.names.Perm t.names) : ∀ l ∈ lines t q gc ids, '\n' ∉ l.body := by
  intro l hl
  -- the other parts do not depend on the program
  have hparts : l ∈ lines t p gc ids ∨ l ∈ stringLines ids q ∨
      l ∈ (entriesById t ids).flatMap (stubLines q) := by
    simp only [lines, List.mem_append, List.mem_cons] at hl ⊢
    tauto
  rcases hparts with hl | hl | hl
  · exact (reads_lines h gc hids).oneLine l hl
  · exact (reads_stringLines ids q).oneLine l hl
  · obtain ⟨e, he, hl⟩ := List.mem_flatMap.mp hl
    have hentry := (mem_entriesById h.nodup hids).mp he
    unfold stubLines at hl
    split at hl
    · exact absurd hl List.not_mem_nil
    · obtain ⟨name, hname, hl⟩ := List.mem_flatMap.mp hl
      unfold methodLines at hl
      split at hl
      · exact absurd hl List.not_mem_nil
      · exact (reads_stub ⟨h.plain e hentry, h.plain_methods e hentry name hname⟩ _).oneLine l hl

/-! ## Agreement -/

/-- The number of one of `count` classes stands in all the places. The places are found by their
labels through `at?`, and a line is seen as what `view` makes of it. -/
structure HoldsNumber {α : Type} (at? : String → Option (List α)) (view : Line → α) (count : Nat)
    (name : String) (i : Nat) : Prop where
  template : ∃ rest, at? (Label.template name) = some (view (.word (toString i)) :: rest)
  table : ∃ rest, at? Label.classNameTable =
    some ((List.range count).map (fun k => view (.word (Label.className k))) ++ rest)
  entry : i < count
  record : ∃ rest, at? (Label.className i) =
    some ((stringRecord (Label.className i) name).tail.map view ++ rest)

section Agreement

variable {p q : Program} {t : ClassTable} {ids : ClassIds} (h : IsNumbering t ids)
  (hids : ids.names.Perm t.names) {name : String} {i : Nat} (hid : ids.id? name = some i)

include h hids hid

theorem holdsNumber_lines (hnodup : t.names.Nodup) (gc : Bool) :
    HoldsNumber (fun label => after? (.label label) (lines t q gc ids)) id t.size name i where
  template := after?_template h q gc hid hnodup hids
  table := after?_table h q gc
  entry := (h.range name i hid).2
  record := by
    rw [List.map_id]
    exact after?_record h q gc hid

theorem holdsNumber_text (hlink : Linkable p t) (gc : Bool) :
    HoldsNumber
      (fun label => after? (label.toList ++ [':']) ((textOf (lines t q gc ids)).toList.splitOn '\n'))
      Line.body t.size name i := by
  have hlines := holdsNumber_lines (q := q) h hids hid hlink.nodup gc
  have hread {s : Symbol} (hs : s.Plain) {block rest : List Line}
      (hat : after? (.label s.label) (lines t q gc ids) = some (block ++ rest)) :
      ∃ rest, after? (s.label.toList ++ [':'])
        ((textOf (lines t q gc ids)).toList.splitOn '\n') =
          some (block.map Line.body ++ rest) := by
    refine ⟨rest.map Line.body ++ [[]], ?_⟩
    rw [after?_textOf (oneLine_lines hlink gc hids) hs hat, List.map_append, List.append_assoc]
  obtain ⟨e, he, hname⟩ := List.mem_map.mp (h.range name i hid).1
  obtain ⟨rest, htemplate⟩ := hlines.template
  obtain ⟨rest', htable⟩ := hlines.table
  obtain ⟨rest'', hrecord⟩ := hlines.record
  refine ⟨?_, ?_, hlines.entry, ?_⟩
  · have hplain : (Symbol.ended name .template).Plain := hname ▸ hlink.plain e he
    rw [← List.singleton_append] at htemplate
    exact hread hplain htemplate
  · have hlabel : (Symbol.ended "" .classNameTable).label = Label.classNameTable :=
      label_ended_empty .classNameTable
    rw [← hlabel] at htable
    have hat := hread (plain_empty .classNameTable) htable
    rwa [hlabel, List.map_map] at hat
  · rw [List.map_id] at hrecord
    exact hread (s := .numbered .className i) trivial hrecord

end Agreement

theorem exists_render {classes : List ClassDecl} {t : ClassTable} (ht : IsTableOf classes t)
    (hmain : t.contains mainClass = true) (p : Program) (gc : Bool) :
    ∃ ids, ClassIds.ofTable t = .ok ids ∧
      render t p gc false = .ok (textOf (lines t p gc ids)) := by
  have hids := ClassIds.ofTable_eq ht
  rw [if_pos hmain] at hids
  refine ⟨_, hids, ?_⟩
  rw [render, hids]
  rfl

/-- An analysis without errors has found the main class. -/
theorem contains_main_of_clean {p : Program}
    (h : hasErrors (Analysis.run none p).diagnostics = false) :
    (Members.bind p.classes (Hierarchy.build p.classes).1).1.contains mainClass = true := by
  by_contra hmain
  have hnone := Option.not_isSome_iff_eq_none.mp hmain
  rw [Analysis.run_none, hasErrors, List.any_append, EntryPoint.check, EntryPoint.fault?,
    hnone] at h
  exact absurd h (by simp [EntryPoint.diagnostic, EntryPoint.level, Draft.settle, Draft.withCause,
    Draft.withMessage, Draft.withFile, Level.isError])

theorem exists_render_of_clean {p : Program}
    (h : hasErrors (Analysis.run none p).diagnostics = false) :
    ∃ t, (Analysis.run none p).table = some t ∧
      ∀ q gc, ∃ text, render t q gc false = .ok text := by
  refine ⟨_, congrArg Analysis.table (Analysis.run_none p), fun q gc => ?_⟩
  obtain ⟨ids, -, hrender⟩ := exists_render (.inr rfl) (contains_main_of_clean h) q gc
  exact ⟨_, hrender⟩

/-- The numbers of the classes in a table that was built, and maybe bound. There are none if and only
if the main class is missing. Otherwise they number the classes, rendering succeeds, and in the lines
every class has its number in its template, in the class name table and at the record of its name;
the same can be read off the text if the names are identifiers. So rendering succeeds after every
analysis without errors. -/
theorem class_numbers_agree (classes : List ClassDecl) (t : ClassTable) (ht : IsTableOf classes t)
    (p : Program) (gc : Bool) :
    (t.contains mainClass = false → ClassIds.ofTable t = .error (.missingClass mainClass)) ∧
    (t.contains mainClass = true → ∃ ids ls, ClassIds.ofTable t = .ok ids ∧ IsNumbering t ids ∧
      render t p gc false = .ok (textOf ls) ∧
      ∀ name i, ids.id? name = some i →
        HoldsNumber (fun label => after? (.label label) ls) id t.size name i ∧
        ((∀ c ∈ classes, IsIdentifier c.name ∧ ∀ m ∈ c.methods, IsIdentifier m.name) →
          HoldsNumber (fun label => after? (label.toList ++ [':']) ((textOf ls).toList.splitOn '\n'))
            Line.body t.size name i)) ∧
    (hasErrors (Analysis.run none p).diagnostics = false →
      ∃ table text, (Analysis.run none p).table = some table ∧
        render table (Analysis.run none p).program gc false = .ok text) := by
  refine ⟨fun hmain => ?_, fun hmain => ?_, fun hclean => ?_⟩
  · rw [ClassIds.ofTable_eq ht, hmain]
    rfl
  · obtain ⟨ids, hids, hrender⟩ := exists_render ht hmain p gc
    have hnumbering := ClassIds.isNumbering_ofTable ht hids
    have hperm := ClassIds.perm_ofTable ht.nodup hids
    refine ⟨ids, lines t p gc ids, hids, hnumbering, hrender, fun name i hid => ⟨?_, ?_⟩⟩
    · exact holdsNumber_lines hnumbering hperm hid ht.nodup gc
    · intro hnames
      exact holdsNumber_text (p := { classes }) hnumbering hperm hid
        (IsTableOf.linkable (p := { classes }) ht hnames) gc
  · obtain ⟨table, htable, hrender⟩ := exists_render_of_clean hclean
    obtain ⟨text, htext⟩ := hrender (Analysis.run none p).program gc
    exact ⟨table, text, htable, htext⟩

/-- The main class stands between two others. -/
def wedged : Program where
  classes := [
    { name := "Zed" },
    { name := "Main", features := [Builtin.method "main" "void"] },
    { name := "class_name_5", parent := some "Zed" }]

theorem class_numbers_agree_wedged :
    let t := (Members.bind wedged.classes (Hierarchy.build wedged.classes).1).1
    ClassIds.ofTable (Hierarchy.build []).1 = .error (.missingClass mainClass) ∧
    t.contains mainClass = true ∧ hasErrors (Analysis.run none wedged).diagnostics = false ∧
    (∃ table text, (Analysis.run none wedged).table = some table ∧
      render table (Analysis.run none wedged).program true false = .ok text) ∧
    ∃ ids ls, ClassIds.ofTable t = .ok ids ∧ render t wedged true false = .ok (textOf ls) ∧
      ids.id? "Zed" = some 5 ∧ ids.id? mainClass = some 3 ∧ ids.id? "class_name_5" = some 6 ∧
      HoldsNumber (fun label => after? (label.toList ++ [':']) ((textOf ls).toList.splitOn '\n'))
        Line.body t.size "class_name_5" 6 := by
  intro t
  have hmain : t.contains mainClass = true := by decide
  have hclean : hasErrors (Analysis.run none wedged).diagnostics = false := by decide
  have hnames : ∀ c ∈ wedged.classes, IsIdentifier c.name ∧ ∀ m ∈ c.methods,
      IsIdentifier m.name := by decide
  have hmissing := (class_numbers_agree [] _ (.inl rfl) wedged true).1 (by decide)
  obtain ⟨-, hnumbers, hrenders⟩ := class_numbers_agree wedged.classes t (.inr rfl) wedged true
  obtain ⟨ids, ls, hids, hnumbering, hrender, hholds⟩ := hnumbers hmain
  have hZed := hnumbering.others "Zed" 0 (by decide)
  have hlast := hnumbering.others "class_name_5" 1 (by decide)
  have hfixed := hnumbering.fixed
  simp only [List.map_cons, List.cons.injEq] at hfixed
  exact ⟨hmissing, hmain, hclean, hrenders hclean, ids, ls, hids, hrender, hZed, hfixed.2.2.2.1,
    hlast, (hholds _ _ hlast).2 hnames⟩

end ClassCompiler.Assembly
