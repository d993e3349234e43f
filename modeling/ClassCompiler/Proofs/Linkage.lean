import ClassCompiler.Assembly.Render
import ClassCompiler.Proofs.Dispatch
import ClassCompiler.Proofs.Listing
import ClassCompiler.Proofs.TypingNames

/-!
# Linkage

The labels of a rendered program. What a line names is defined by another one, or it is a method of
a built-in class, which the runtime defines.

Results:
1. `Linkable`, `linkable_bind`: what the table of a program has to offer for that.
2. `reads_lines`: the symbols that the lines define and name, in the order of the lines.
3. `nodup_definedSymbols`, `mem_definedSymbols_of_referred`: no symbol is defined twice, and those
   that are named are defined, the methods of the runtime apart.
4. `render_labels_closed`: the same, read off the text.
-/

namespace ClassCompiler.Assembly

/-! ## The classes of a table -/

/-- What the assembly relies on: names that can be part of a label, distinct classes, distinct
methods in a class, and a declaration behind every class and every method. -/
structure Linkable (p : Program) (t : ClassTable) : Prop where
  nodup : t.names.Nodup
  plain : ∀ e ∈ t.entries, e.name.toList.all isNameChar = true
  plain_methods : ∀ e ∈ t.entries, ∀ m ∈ e.declaredMethods, m.toList.all isNameChar = true
  nodup_methods : ∀ e ∈ t.entries, e.declaredMethods.Nodup
  declared : ∀ e ∈ t.entries, ∃ c, e.origin.decl? p.classes = some c ∧ c.name = e.name ∧
    ∀ name ∈ e.declaredMethods, ∃ m ∈ c.methods, m.name = name

/-- Behind a bound entry there is a declaration, and every method of the entry is in it. -/
theorem exists_decl_of_mem_bind {classes : List ClassDecl} {e : ClassEntry}
    (he : e ∈ (Members.bind classes (Hierarchy.build classes).1).1.entries) :
    ∃ c, e.origin.decl? classes = some c ∧ c.name = e.name ∧
      ∀ name ∈ e.declaredMethods, ∃ m ∈ c.methods, m.name = name := by
  obtain ⟨fresh, hfresh, rfl⟩ := Members.mem_bind.mp he
  obtain ⟨hbare, c, hdecl, hname⟩ := Hierarchy.exists_decl_of_mem hfresh
  obtain ⟨fields, methods, hframed, hfrom⟩ := Members.framed_bindEntry_of_decl hbare hdecl
  have hkept := Members.bare_bindEntry classes fresh
  have horigin : (Members.bindEntry classes fresh).1.origin = fresh.origin :=
    (congrArg ClassEntry.origin hkept :)
  refine ⟨c, by rw [horigin, hdecl], hname.trans (ClassEntry.name_of_bare hkept).symm, ?_⟩
  intro name hmem
  rw [hframed.declared_eq] at hmem
  obtain ⟨b, hb, rfl⟩ := List.mem_map.mp hmem
  obtain ⟨m, hm, rfl⟩ := hfrom b hb
  exact ⟨m, ClassDecl.mem_methods.mpr hm, rfl⟩

theorem linkable_bind (p : Program)
    (hnames : ∀ c ∈ p.classes, IsIdentifier c.name ∧ ∀ m ∈ c.methods, IsIdentifier m.name) :
    Linkable p (Members.bind p.classes (Hierarchy.build p.classes).1).1 := by
  have hbuiltin : ∀ c ∈ builtinClasses, IsIdentifier c.name ∧ ∀ m ∈ c.methods,
      IsIdentifier m.name := by decide
  have hnamed {o : Origin} {c : ClassDecl} (hdecl : o.decl? p.classes = some c) :
      IsIdentifier c.name ∧ ∀ m ∈ c.methods, IsIdentifier m.name := by
    cases o with
    | builtin index => exact hbuiltin c (List.mem_of_getElem? hdecl)
    | user index => exact hnames c (List.mem_of_getElem? hdecl)
  refine ⟨(Members.rooted_bind p.classes (rooted_build p.classes)).nodup, fun e he => ?_,
    fun e he name hname => ?_, fun e he => ?_, fun e he => exists_decl_of_mem_bind he⟩
  · obtain ⟨c, hdecl, hname, _⟩ := exists_decl_of_mem_bind he
    exact hname ▸ (hnamed hdecl).1.2
  · obtain ⟨c, hdecl, _, hmethods⟩ := exists_decl_of_mem_bind he
    obtain ⟨m, hm, rfl⟩ := hmethods name hname
    exact ((hnamed hdecl).2 m hm).2
  · obtain ⟨fresh, hfresh, rfl⟩ := Members.mem_bind.mp he
    obtain ⟨fields, methods, hframed⟩ := Members.framed_bindEntry hfresh
    exact hframed.declared_eq ▸ hframed.nodup_methods

/-- The numbers go to the classes of the table, each to one class. -/
theorem ClassIds.perm_ofTable {t : ClassTable} (hnodup : t.names.Nodup) {ids : ClassIds}
    (hok : ClassIds.ofTable t = .ok ids) : ids.names.Perm t.names := by
  unfold ofTable at hok
  split at hok
  · exact nomatch hok
  · next hfind =>
    obtain rfl := Except.ok.inj hok
    have hfixed : ∀ name ∈ fixedClasses, name ∈ t.names := by
      intro name hname
      have := List.find?_eq_none.mp hfind name hname
      exact ClassTable.contains_iff.mp (by simpa using this)
    have hfixedNodup : fixedClasses.Nodup := by decide
    refine (List.perm_ext_iff_of_nodup ?_ hnodup).mpr fun name => ?_
    · refine List.nodup_append.mpr ⟨hfixedNodup, hnodup.filter _, fun a ha b hb hab => ?_⟩
      subst hab
      simpa [ha] using List.of_mem_filter hb
    · by_cases hmem : name ∈ fixedClasses
      · simp [hmem, hfixed name hmem]
      · simp [hmem]

theorem builtinNames_subset (classes : List ClassDecl) : Hierarchy.builtinTable.names ⊆
    (Members.bind classes (Hierarchy.build classes).1).1.names := by
  rw [Members.names_bind, Hierarchy.names_build]
  exact ((Hierarchy.prefix_registeredTable classes).map _).subset

/-- The fixed classes other than the main class are built in. -/
theorem ClassIds.exists_ofTable {classes : List ClassDecl}
    (hmain : (Members.bind classes (Hierarchy.build classes).1).1.contains mainClass = true) :
    ∃ ids, ClassIds.ofTable (Members.bind classes (Hierarchy.build classes).1).1 = .ok ids := by
  have hfixed : ∀ name ∈ fixedClasses, name = mainClass ∨
      name ∈ Hierarchy.builtinTable.names := by decide
  have hnone : fixedClasses.find? (fun name =>
      !(Members.bind classes (Hierarchy.build classes).1).1.contains name) = none := by
    refine List.find?_eq_none.mpr fun name hname => ?_
    rcases hfixed name hname with rfl | hbuiltin
    · simp [hmain]
    · simp [ClassTable.contains_iff.mpr (builtinNames_subset classes hbuiltin)]
  exact ⟨_, by rw [ofTable, hnone]⟩

theorem mem_entriesById {t : ClassTable} (hnodup : t.names.Nodup) {ids : ClassIds}
    (hids : ids.names.Perm t.names) {e : ClassEntry} :
    e ∈ entriesById t ids ↔ e ∈ t.entries := by
  rw [entriesById, List.mem_filterMap]
  constructor
  · rintro ⟨name, _, hfind⟩
    exact ClassTable.mem_of_find? hfind
  · intro he
    exact ⟨e.name, hids.mem_iff.mpr (List.mem_map_of_mem he), ClassTable.find?_of_mem hnodup he⟩

theorem names_entriesById {t : ClassTable} {ids : ClassIds} (hids : ids.names.Perm t.names) :
    (entriesById t ids).map (·.name) = ids.names :=
  ClassTable.map_name_filterMap hids.subset

theorem ClassIds.map_snd_toList (ids : ClassIds) : ids.toList.map (·.2) = ids.names := by
  rw [toList, List.map_map]
  exact List.zipIdx_map_fst 0 ids.names

/-! ## The symbols of a program -/

/-- The methods of a class that have a stub. -/
def stubSymbols (e : ClassEntry) : List Symbol :=
  if e.isBuiltin then [] else e.declaredMethods.map (.method e.name)

/-- The methods in the dispatch table of a class. -/
def slotSymbols (t : ClassTable) (e : ClassEntry) : List Symbol :=
  (DispatchTable.ofClass t e.name).slots.map fun s => .method s.definer s.method

/-- The symbols that are defined, in the order of the lines and scheme by scheme. -/
def definedParts (t : ClassTable) (p : Program) (ids : ClassIds) : List (List Symbol) :=
  let entries := entriesById t ids
  [[.ended "" .gcFlag],
    ids.toList.map (.numbered .className ·.1),
    (sourceFiles p).toList.map (.numbered .fileName ·.1),
    (literals p).toList.map (.numbered .stringConst ·.1),
    [.ended "" .classNameTable],
    entries.map (.ended ·.name .template),
    entries.map (.ended ·.name .dispatchTable),
    entries.map (.ended ·.name .init),
    entries.flatMap stubSymbols]

def definedSymbols (t : ClassTable) (p : Program) (ids : ClassIds) : List Symbol :=
  (definedParts t p ids).flatten

/-- The symbols that are named, in the order of the lines. -/
def referredSymbols (t : ClassTable) (p : Program) (ids : ClassIds) : List Symbol :=
  let entries := entriesById t ids
  [.ended "" .gcFlag, .ended "" .classNameTable]
    ++ (ids.toList ++ (sourceFiles p).toList ++ (literals p).toList).map
      (fun _ => .ended stringName .dispatchTable)
    ++ (ids.toList.map (.numbered .className ·.1) ++ ids.toList.map (.ended ·.2 .template))
    ++ entries.map (.ended ·.name .dispatchTable)
    ++ entries.flatMap fun e => .ended e.name .dispatchTable :: slotSymbols t e

/-! ## What the lines are read as -/

theorem label_ended_empty (ending : Ending) : (Symbol.ended "" ending).label = ending.text :=
  String.empty_append

theorem plain_empty (ending : Ending) : (Symbol.ended "" ending).Plain := rfl

theorem reads_headerLines (gc : Bool) :
    Reads (headerLines gc) [.ended "" .gcFlag]
      [.ended "" .gcFlag, .ended "" .classNameTable] := by
  have hgc := label_ended_empty .gcFlag
  have htable := label_ended_empty .classNameTable
  have hdefined := Reads.label (plain_empty .gcFlag)
  have hnamed := Reads.reference (.inr rfl) (plain_empty .gcFlag)
  have hnamed' := Reads.reference (.inr rfl) (plain_empty .classNameTable)
  rw [hgc] at hdefined hnamed
  rw [htable] at hnamed'
  have hdata : Reads [.segment ".data"] [] [] :=
    .segment ⟨by decide, by decide⟩ (by decide)
  exact hdata.append (hnamed.append (hnamed'.append (hdefined.append (.count _))))

theorem reads_stringRecord {s : Symbol} (hs : s.Plain) (value : String) :
    Reads (stringRecord s.label value) [s] [.ended stringName .dispatchTable] := by
  have hplain : (Symbol.ended stringName .dispatchTable).Plain := by
    show stringName.toList.all isNameChar = true
    decide
  have hasciiz : Reads [.directive ".asciiz" ("\"" ++ Quoted.encode value ++ "\"")] [] [] :=
    .directive ⟨by decide, by decide⟩ (by decide) (by simp [lineFeed_not_mem_encode])
  have halign : Reads [.directive ".align" "2"] [] [] :=
    .directive ⟨by decide, by decide⟩ (by decide) (by decide)
  exact (Reads.label hs).append <| (Reads.count _).append <| (Reads.count _).append <|
    (Reads.reference (.inl rfl) hplain).append <| (Reads.count _).append <| hasciiz.append halign

theorem reads_stringRecords (series : Series) {label : Nat → String}
    (hlabel : ∀ index, label index = (Symbol.numbered series index).label)
    (strings : List (Nat × String)) :
    Reads (stringRecords label strings) (strings.map (.numbered series ·.1))
      (strings.map fun _ => .ended stringName .dispatchTable) := by
  rw [List.map_eq_flatMap, List.map_eq_flatMap]
  refine Reads.flatMap fun (index, value) _ => ?_
  show Reads (stringRecord (label index) value) _ _
  rw [hlabel]
  exact reads_stringRecord (s := .numbered series index) trivial value

theorem reads_stringLines (ids : ClassIds) (p : Program) :
    Reads (stringLines ids p)
      (ids.toList.map (.numbered .className ·.1)
        ++ (sourceFiles p).toList.map (.numbered .fileName ·.1)
        ++ (literals p).toList.map (.numbered .stringConst ·.1))
      ((ids.toList ++ (sourceFiles p).toList ++ (literals p).toList).map
        fun _ => .ended stringName .dispatchTable) := by
  rw [List.map_append, List.map_append]
  exact ((reads_stringRecords .className (fun _ => rfl) _).append
    (reads_stringRecords .fileName (fun _ => rfl) _)).append
      (reads_stringRecords .stringConst (fun _ => rfl) _)

theorem reads_classNameLines {ids : ClassIds}
    (hplain : ∀ name ∈ ids.names, name.toList.all isNameChar = true) :
    Reads (classNameLines ids) [.ended "" .classNameTable]
      (ids.toList.map (.numbered .className ·.1) ++ ids.toList.map (.ended ·.2 .template)) := by
  have hlabel := Reads.label (plain_empty .classNameTable)
  rw [label_ended_empty] at hlabel
  have hnumbers : Reads (ids.toList.map fun x => .word (Label.className x.1)) []
      (ids.toList.map (.numbered .className ·.1)) :=
    Reads.references (.inl rfl) (fun x : Nat × String => .numbered .className x.1)
      fun _ _ => trivial
  have htemplates : Reads (ids.toList.map fun x => .global (Label.template x.2)) []
      (ids.toList.map (.ended ·.2 .template)) := by
    refine Reads.references (.inr rfl) (fun x : Nat × String => .ended x.2 .template)
      fun x hx => hplain x.2 ?_
    rw [← ClassIds.map_snd_toList]
    exact List.mem_map_of_mem hx
  exact (hlabel.append hnumbers).append htemplates

theorem reads_returnLine : Reads [returnLine] [] [] := by
  have hwords : wordsOf returnLine.body = ["jr".toList, "$ra".toList] := by decide
  exact .other (by decide) hwords (by decide)

theorem reads_stub {cls name : String} (hs : (Symbol.method cls name).Plain) (locals : Nat) :
    Reads [.label (Label.method cls name), .comment ("locals: " ++ toString locals), returnLine]
      [.method cls name] [] := by
  have hcomment : Reads [.comment ("locals: " ++ toString locals)] [] [] := by
    refine .comment ?_
    rw [String.toList_append, List.mem_append]
    rintro (hfeed | hfeed)
    · exact absurd hfeed (by decide)
    · exact (isWord_toString _).not_mem_lineFeed hfeed
  exact (Reads.label hs).append (hcomment.append reads_returnLine)

section Entries

variable {p : Program} {t : ClassTable} (h : Linkable p t) {e : ClassEntry} (he : e ∈ t.entries)

include h he

theorem reads_templateLines (ids : ClassIds) :
    Reads (templateLines ids e) [.ended e.name .template] [.ended e.name .dispatchTable] := by
  have hplain (ending : Ending) : (Symbol.ended e.name ending).Plain := h.plain e he
  have hfields : Reads (List.replicate e.declaredFieldCount (.count 0)) [] [] := by
    induction e.declaredFieldCount with
    | zero => exact .nil
    | succ n ih => exact (Reads.count 0).append ih
  exact ((Reads.label (hplain .template)).append <| (Reads.number _).append <|
    (Reads.count _).append <| Reads.reference (.inl rfl) (hplain .dispatchTable)).append hfields

theorem reads_dispatchLines :
    Reads (dispatchLines t e) [.ended e.name .dispatchTable]
      (.ended e.name .dispatchTable :: slotSymbols t e) := by
  have hplain : (Symbol.ended e.name .dispatchTable).Plain := h.plain e he
  have hslots : Reads ((DispatchTable.ofClass t e.name).slots.map
      fun s => .word (Label.method s.definer s.method)) []
      (slotSymbols t e) := by
    refine Reads.references (.inl rfl) (fun s : Slot => .method s.definer s.method) fun s hs => ?_
    obtain ⟨d, hd, hdefiner, hmethod⟩ := DispatchTable.exists_declared_of_mem hs
    exact ⟨hdefiner ▸ h.plain d hd, h.plain_methods d hd _ hmethod⟩
  exact ((Reads.reference (.inr rfl) hplain).append (Reads.label hplain)).append hslots

theorem reads_initLines : Reads (initLines e) [.ended e.name .init] [] := by
  have hplain : (Symbol.ended e.name .init).Plain := h.plain e he
  exact (Reads.label hplain).append reads_returnLine

theorem reads_methodLines {name : String} (hname : name ∈ e.declaredMethods) :
    Reads (methodLines p e name) [.method e.name name] [] := by
  -- the stub is made from the declaration, and that is where the method was bound from
  obtain ⟨c, hdecl, _, hmethods⟩ := h.declared e he
  obtain ⟨m, hm, hmname⟩ := hmethods name hname
  have hsome : (c.methods.find? (·.name == name)).isSome = true :=
    List.find?_isSome.mpr ⟨m, hm, beq_iff_eq.mpr hmname⟩
  obtain ⟨m, hfind⟩ := Option.isSome_iff_exists.mp hsome
  have hplain : (Symbol.method e.name name).Plain := ⟨h.plain e he, h.plain_methods e he name hname⟩
  rw [methodLines, hdecl, Option.bind_some, hfind]
  exact reads_stub hplain (localCount m)

theorem reads_stubLines : Reads (stubLines p e) (stubSymbols e) [] := by
  unfold stubLines stubSymbols
  split
  · exact .nil
  · rw [List.map_eq_flatMap]
    exact Reads.flatMap_defined fun name hname => reads_methodLines h he hname

end Entries

/-- The lines of a program, in terms of its symbols. -/
theorem reads_lines {p : Program} {t : ClassTable} (h : Linkable p t) (gc : Bool) {ids : ClassIds}
    (hids : ids.names.Perm t.names) :
    Reads (lines t p gc ids) (definedSymbols t p ids) (referredSymbols t p ids) := by
  have hentry {e : ClassEntry} (he : e ∈ entriesById t ids) : e ∈ t.entries :=
    (mem_entriesById h.nodup hids).mp he
  have hplain : ∀ name ∈ ids.names, name.toList.all isNameChar = true := by
    intro name hname
    obtain ⟨e, he, rfl⟩ := List.mem_map.mp (hids.mem_iff.mp hname)
    exact h.plain e he
  have htemplates : Reads ((entriesById t ids).flatMap (templateLines ids))
      ((entriesById t ids).map (.ended ·.name .template))
      ((entriesById t ids).map (.ended ·.name .dispatchTable)) := by
    rw [List.map_eq_flatMap, List.map_eq_flatMap]
    exact .flatMap fun e he => reads_templateLines h (hentry he) ids
  have hdispatch : Reads ((entriesById t ids).flatMap (dispatchLines t))
      ((entriesById t ids).map (.ended ·.name .dispatchTable))
      ((entriesById t ids).flatMap fun e => .ended e.name .dispatchTable :: slotSymbols t e) := by
    rw [List.map_eq_flatMap]
    exact .flatMap fun e he => reads_dispatchLines h (hentry he)
  have hinits : Reads ((entriesById t ids).flatMap initLines)
      ((entriesById t ids).map (.ended ·.name .init)) [] := by
    rw [List.map_eq_flatMap]
    exact .flatMap_defined fun e he => reads_initLines h (hentry he)
  have hstubs : Reads ((entriesById t ids).flatMap (stubLines p))
      ((entriesById t ids).flatMap stubSymbols) [] :=
    .flatMap_defined fun e he => reads_stubLines h (hentry he)
  have htext : Reads [.segment ".text"] [] [] := .segment ⟨by decide, by decide⟩ (by decide)
  have hdata := ((((reads_headerLines gc).append (reads_stringLines ids p)).append
    (reads_classNameLines hplain)).append htemplates).append hdispatch
  have hall := hdata.append (htext.append (hinits.append hstubs))
  simpa only [lines, definedSymbols, definedParts, referredSymbols, List.flatten_cons,
    List.flatten_nil, List.append_nil, List.append_assoc, List.cons_append, List.nil_append]
    using hall

/-! ## The symbols are distinct -/

/-- How the label of a symbol is made. -/
inductive Scheme where
  | numbered (series : Series)
  | ended (ending : Ending)
  | method
deriving DecidableEq

def Symbol.scheme : Symbol → Scheme
  | numbered series _ => .numbered series
  | ended _ ending => .ended ending
  | method _ _ => .method

/-- Distinct symbols of one scheme. -/
def OfScheme (scheme : Scheme) (part : List Symbol) : Prop :=
  part.Nodup ∧ ∀ s ∈ part, s.scheme = scheme

theorem scheme_mem {schemes : List Scheme} {parts : List (List Symbol)}
    (h : List.Forall₂ OfScheme schemes parts) {s : Symbol} (hs : s ∈ parts.flatten) :
    s.scheme ∈ schemes := by
  induction h with
  | nil => exact absurd hs List.not_mem_nil
  | cons hpart _ ih =>
    rcases List.mem_append.mp hs with hs | hs
    · exact hpart.2 s hs ▸ List.mem_cons_self
    · exact List.mem_cons_of_mem _ (ih hs)

/-- Parts of distinct schemes have nothing in common. -/
theorem nodup_flatten_of_schemes {schemes : List Scheme} {parts : List (List Symbol)}
    (h : List.Forall₂ OfScheme schemes parts) (hnodup : schemes.Nodup) : parts.flatten.Nodup := by
  induction h with
  | nil => exact List.nodup_nil
  | cons hpart hrest ih =>
    obtain ⟨hnew, hnodup⟩ := List.nodup_cons.mp hnodup
    refine List.nodup_append.mpr ⟨hpart.1, ih hnodup, fun s hs s' hs' heq => hnew ?_⟩
    rw [← hpart.2 s hs, heq]
    exact scheme_mem hrest hs'

theorem ofScheme_singleton (s : Symbol) : OfScheme s.scheme [s] :=
  ⟨List.nodup_singleton s, fun _ hs => congrArg Symbol.scheme (List.mem_singleton.mp hs)⟩

theorem ofScheme_numbered (series : Series) (strings : List String) :
    OfScheme (.numbered series)
      ((strings.zipIdx.map fun (s, i) => (i, s)).map (.numbered series ·.1)) := by
  have hnumbers : (strings.zipIdx.map (·.2)).Nodup := by
    rw [List.zipIdx_map_snd]
    exact List.nodup_range'
  have hmap := hnumbers.map (f := Symbol.numbered series) fun a b h => (Symbol.numbered.inj h).2
  refine ⟨by rwa [List.map_map] at hmap ⊢, fun s hs => ?_⟩
  obtain ⟨_, _, rfl⟩ := List.mem_map.mp hs
  rfl

theorem ofScheme_ended (ending : Ending) {entries : List ClassEntry}
    (h : (entries.map (·.name)).Nodup) :
    OfScheme (.ended ending) (entries.map (.ended ·.name ending)) := by
  have hmap := h.map (f := (Symbol.ended · ending)) fun a b heq => (Symbol.ended.inj heq).1
  refine ⟨by rwa [List.map_map] at hmap, fun s hs => ?_⟩
  obtain ⟨_, _, rfl⟩ := List.mem_map.mp hs
  rfl

theorem exists_name_of_mem_stubSymbols {e : ClassEntry} {s : Symbol} (hs : s ∈ stubSymbols e) :
    ∃ name, s = .method e.name name := by
  unfold stubSymbols at hs
  split at hs
  · exact absurd hs List.not_mem_nil
  · obtain ⟨name, _, rfl⟩ := List.mem_map.mp hs
    exact ⟨name, rfl⟩

theorem ofScheme_stubs {entries : List ClassEntry} (h : (entries.map (·.name)).Nodup)
    (hmethods : ∀ e ∈ entries, e.declaredMethods.Nodup) :
    OfScheme .method (entries.flatMap stubSymbols) := by
  refine ⟨List.nodup_flatMap.mpr ⟨fun e he => ?_, ?_⟩, fun s hs => ?_⟩
  · unfold stubSymbols
    split
    · exact List.nodup_nil
    · exact (hmethods e he).map fun a b heq => (Symbol.method.inj heq).2
  · refine (List.pairwise_map.mp h).imp fun {e e'} hne s hs hs' => ?_
    obtain ⟨name, rfl⟩ := exists_name_of_mem_stubSymbols hs
    obtain ⟨name', heq⟩ := exists_name_of_mem_stubSymbols hs'
    exact hne (Symbol.method.inj heq).1
  · obtain ⟨e, _, hmem⟩ := List.mem_flatMap.mp hs
    obtain ⟨name, rfl⟩ := exists_name_of_mem_stubSymbols hmem
    rfl

section Table

variable {p : Program} {t : ClassTable} (h : Linkable p t) {ids : ClassIds}
  (hids : ids.names.Perm t.names)

include h hids

theorem nodup_definedSymbols : (definedSymbols t p ids).Nodup := by
  have hnames : ((entriesById t ids).map (·.name)).Nodup := by
    rw [names_entriesById hids]
    exact hids.nodup_iff.mpr h.nodup
  have hmethods : ∀ e ∈ entriesById t ids, e.declaredMethods.Nodup := fun e he =>
    h.nodup_methods e ((mem_entriesById h.nodup hids).mp he)
  have hparts : List.Forall₂ OfScheme
      [.ended .gcFlag, .numbered .className, .numbered .fileName, .numbered .stringConst,
        .ended .classNameTable, .ended .template, .ended .dispatchTable, .ended .init, .method]
      (definedParts t p ids) :=
    .cons (ofScheme_singleton _) <| .cons (ofScheme_numbered _ _) <|
      .cons (ofScheme_numbered _ _) <| .cons (ofScheme_numbered _ _) <|
        .cons (ofScheme_singleton _) <| .cons (ofScheme_ended _ hnames) <|
          .cons (ofScheme_ended _ hnames) <| .cons (ofScheme_ended _ hnames) <|
            .cons (ofScheme_stubs hnames hmethods) .nil
  exact nodup_flatten_of_schemes hparts (by decide)

/-! ## What is named is defined -/

theorem ended_mem_definedSymbols {e : ClassEntry} (he : e ∈ t.entries) :
    .ended e.name .template ∈ definedSymbols t p ids ∧
      .ended e.name .dispatchTable ∈ definedSymbols t p ids := by
  have hmem := (mem_entriesById h.nodup hids).mpr he
  constructor
  · refine List.mem_flatten.mpr ⟨(entriesById t ids).map (.ended ·.name .template), ?_, ?_⟩
    · simp [definedParts]
    · exact List.mem_map_of_mem hmem
  · refine List.mem_flatten.mpr ⟨(entriesById t ids).map (.ended ·.name .dispatchTable), ?_, ?_⟩
    · simp [definedParts]
    · exact List.mem_map_of_mem hmem

/-- A method that a class of the table declares has a stub, or the runtime has it. -/
theorem method_mem_definedSymbols {e : ClassEntry} (he : e ∈ t.entries) {name : String}
    (hname : name ∈ e.declaredMethods) :
    .method e.name name ∈ definedSymbols t p ids ∨
      ∃ c ∈ builtinClasses, ∃ m ∈ c.methods, Symbol.method e.name name = .method c.name m.name := by
  obtain ⟨c, hdecl, hcname, hmethods⟩ := h.declared e he
  cases horigin : e.origin with
  | builtin index =>
    obtain ⟨m, hm, rfl⟩ := hmethods name hname
    rw [horigin] at hdecl
    exact .inr ⟨c, List.mem_of_getElem? hdecl, m, hm, by rw [hcname]⟩
  | user index =>
    have hbuiltin : e.isBuiltin = false := by rw [ClassEntry.isBuiltin, horigin]; rfl
    have hstub : .method e.name name ∈ stubSymbols e := by
      simp [stubSymbols, hbuiltin, hname]
    refine .inl (List.mem_flatten.mpr ⟨(entriesById t ids).flatMap stubSymbols, ?_, ?_⟩)
    · simp [definedParts]
    · exact List.mem_flatMap.mpr ⟨e, (mem_entriesById h.nodup hids).mpr he, hstub⟩

/-- What is named is defined, or it is a method of the runtime. -/
theorem mem_definedSymbols_of_referred (hstring : stringName ∈ t.names) {s : Symbol}
    (hs : s ∈ referredSymbols t p ids) :
    s ∈ definedSymbols t p ids ∨
      ∃ c ∈ builtinClasses, ∃ m ∈ c.methods, s = .method c.name m.name := by
  have hentry {e : ClassEntry} (he : e ∈ entriesById t ids) : e ∈ t.entries :=
    (mem_entriesById h.nodup hids).mp he
  -- the cases are the parts of `referredSymbols` in their order
  simp only [referredSymbols, List.mem_append, List.mem_flatMap] at hs
  rcases hs with (((hs | hs) | hs | hs) | hs) | ⟨e, he, hs⟩
  · refine .inl (List.mem_flatten.mpr ⟨[s], ?_, List.mem_singleton_self s⟩)
    rcases List.mem_pair.mp hs with rfl | rfl <;> simp [definedParts]
  · obtain ⟨_, _, rfl⟩ := List.mem_map.mp hs
    obtain ⟨e, he, hname⟩ := List.mem_map.mp hstring
    exact .inl (hname ▸ (ended_mem_definedSymbols h hids he).2)
  · exact .inl (List.mem_flatten.mpr ⟨_, by simp [definedParts], hs⟩)
  · obtain ⟨x, hx, rfl⟩ := List.mem_map.mp hs
    have hname : x.2 ∈ t.names := by
      rw [← hids.mem_iff, ← ClassIds.map_snd_toList]
      exact List.mem_map_of_mem hx
    obtain ⟨e, he, hname⟩ := List.mem_map.mp hname
    exact .inl (hname ▸ (ended_mem_definedSymbols h hids he).1)
  · obtain ⟨e, he, rfl⟩ := List.mem_map.mp hs
    exact .inl (ended_mem_definedSymbols h hids (hentry he)).2
  · rcases List.mem_cons.mp hs with rfl | hs
    · exact .inl (ended_mem_definedSymbols h hids (hentry he)).2
    · obtain ⟨slot, hslot, rfl⟩ := List.mem_map.mp hs
      obtain ⟨d, hd, hdefiner, hmethod⟩ := DispatchTable.exists_declared_of_mem hslot
      exact hdefiner ▸ method_mem_definedSymbols h hids hd hmethod

theorem mem_referredSymbols {e : ClassEntry} (he : e ∈ t.entries) :
    .ended e.name .template ∈ referredSymbols t p ids ∧
      .ended e.name .dispatchTable ∈ referredSymbols t p ids ∧
      ∀ s ∈ slotSymbols t e, s ∈ referredSymbols t p ids := by
  have hmem := (mem_entriesById h.nodup hids).mpr he
  have hname : e.name ∈ ids.toList.map (·.2) := by
    rw [ClassIds.map_snd_toList, hids.mem_iff]
    exact List.mem_map_of_mem he
  obtain ⟨x, hx, hxname⟩ := List.mem_map.mp hname
  have htemplate : .ended e.name .template ∈ ids.toList.map (Symbol.ended ·.2 .template) :=
    List.mem_map.mpr ⟨x, hx, by rw [hxname]⟩
  have hslots (s : Symbol) (hs : s ∈ .ended e.name .dispatchTable :: slotSymbols t e) :
      s ∈ (entriesById t ids).flatMap fun e => .ended e.name .dispatchTable :: slotSymbols t e :=
    List.mem_flatMap.mpr ⟨e, hmem, hs⟩
  refine ⟨?_, ?_, fun s hs => ?_⟩
  · simp only [referredSymbols, List.mem_append, htemplate, or_true, true_or]
  · exact List.mem_append_right _ (hslots _ List.mem_cons_self)
  · exact List.mem_append_right _ (hslots s (List.mem_cons_of_mem _ hs))

end Table

/-- The assembly of a program. If the names of its classes and methods are identifiers and it has a
main class, then rendering gives a text that defines no label twice. Every label that it names is
defined in it, but for those of the methods of built-in classes. It names the template and the
dispatch table of every class, and every method in a dispatch table. -/
theorem render_labels_closed (p : Program) (gc : Bool)
    (hnames : ∀ c ∈ p.classes, IsIdentifier c.name ∧ ∀ m ∈ c.methods, IsIdentifier m.name)
    (hmain : (Members.bind p.classes (Hierarchy.build p.classes).1).1.contains mainClass = true) :
    let t := (Members.bind p.classes (Hierarchy.build p.classes).1).1
    ∃ text, render t p gc false = .ok text ∧
      (definedLabels text).Nodup ∧
      (∀ label ∈ referredLabels text, label ∈ definedLabels text ∨
        ∃ c ∈ builtinClasses, ∃ m ∈ c.methods, label = Label.method c.name m.name) ∧
      ∀ e ∈ t.entries, Label.template e.name ∈ referredLabels text ∧
        Label.dispatchTable e.name ∈ referredLabels text ∧
        ∀ s ∈ (DispatchTable.ofClass t e.name).slots,
          Label.method s.definer s.method ∈ referredLabels text := by
  intro t
  have hlinkable : Linkable p t := linkable_bind p hnames
  obtain ⟨ids, hok⟩ := ClassIds.exists_ofTable hmain
  have hids := ClassIds.perm_ofTable hlinkable.nodup hok
  have hreads := reads_lines hlinkable gc hids
  have hstring : stringName ∈ t.names := builtinNames_subset p.classes (by decide)
  refine ⟨textOf (lines t p gc ids), ?_, ?_, ?_, ?_⟩
  · rw [render, hok]
    rfl
  · exact hreads.nodup_definedLabels (nodup_definedSymbols hlinkable hids)
  · rw [hreads.definedLabels_textOf, hreads.referredLabels_textOf]
    intro label hlabel
    obtain ⟨s, hs, rfl⟩ := List.mem_map.mp hlabel
    refine (mem_definedSymbols_of_referred hlinkable hids hstring hs).imp ?_ ?_
    · exact List.mem_map_of_mem
    · rintro ⟨c, hc, m, hm, rfl⟩
      exact ⟨c, hc, m, hm, rfl⟩
  · rw [hreads.referredLabels_textOf]
    intro e he
    obtain ⟨htemplate, htable, hslots⟩ := mem_referredSymbols hlinkable hids he
    refine ⟨List.mem_map_of_mem htemplate, List.mem_map_of_mem htable, fun s hs => ?_⟩
    exact List.mem_map_of_mem (hslots _ (List.mem_map_of_mem hs))

/-- Classes whose names look like parts of other labels; `Main` takes one method from `gc` and
overrides the other. -/
def lookalikes : Program where
  classes := [
    { name := "Main", parent := some "gc", file := some "main.btm"
      features := [
        .method { name := "flag", returnName := "String"
                  body := [.ret (some (.stringLit "a:\n\t.word\tb" {})) {}] },
        Builtin.method "main" "void"] },
    { name := "gc", features := [Builtin.method "flag" "String", Builtin.method "init" "int"] },
    { name := "class_name", parent := some "Main" }]

theorem render_labels_closed_lookalikes :
    let t := (Members.bind lookalikes.classes (Hierarchy.build lookalikes.classes).1).1
    (∀ c ∈ lookalikes.classes, IsIdentifier c.name ∧ ∀ m ∈ c.methods, IsIdentifier m.name) ∧
    t.contains mainClass = true ∧
    ∃ text, render t lookalikes true false = .ok text ∧ (definedLabels text).Nodup ∧
      Label.dispatchTable "class_name" ∈ referredLabels text ∧
      Label.method "Object" "clone" ∈ referredLabels text ∧
      Label.method "Main" "flag" ∈ definedLabels text ∧
      Label.method "gc" "init" ∈ definedLabels text := by
  intro t
  have hnames : ∀ c ∈ lookalikes.classes,
      IsIdentifier c.name ∧ ∀ m ∈ c.methods, IsIdentifier m.name := by decide
  have hmain : t.contains mainClass = true := by decide
  obtain ⟨text, hrender, hnodup, hclosed, hnamed⟩ :=
    render_labels_closed lookalikes true hnames hmain
  obtain ⟨e, he, hname⟩ : ∃ e ∈ t.entries, e.name = "class_name" := by decide
  obtain ⟨_, htable, hslots⟩ := hnamed e he
  rw [hname] at htable hslots
  have hown (label : String) (hlabel : label ∈ referredLabels text)
      (hne : ∀ c ∈ builtinClasses, ∀ m ∈ c.methods, label ≠ Label.method c.name m.name) :
      label ∈ definedLabels text :=
    (hclosed label hlabel).resolve_right fun ⟨c, hc, m, hm, heq⟩ => hne c hc m hm heq
  refine ⟨hnames, hmain, text, hrender, hnodup, htable, ?_, ?_, ?_⟩
  · exact hslots ⟨"clone", "Object"⟩ (by decide)
  · exact hown _ (hslots ⟨"flag", "Main"⟩ (by decide)) (by decide)
  · exact hown _ (hslots ⟨"init", "gc"⟩ (by decide)) (by decide)

end ClassCompiler.Assembly
