import ClassCompiler.Command.Run
import ClassCompiler.Proofs.ClassNumbers
import ClassCompiler.Proofs.Rechecking

/-!
# A compilation does all or nothing

A run that has anything to complain about puts nothing out. Files that cannot be loaded end it
before the analysis, errors of the analysis end it before the code is generated, and the assembly is
that of the classes of all files in their order. The analysis notes types on the tree from which the
assembly is made, but none of them gets into it.

Results:
1. `Program.nodes_erase`, `Assembly.render_erase`: notes take no part in rendering.
2. `loadFiles_apply`: what is recorded of the files, and the programs that they hold.
3. `runOn_of_unloaded`, `runOn_of_errors`, `runOn_of_view`, `runOn_of_assembly`: the ways in which a
   compilation ends, with all that it leaves behind.
4. `runOn_early_or_clean`: a run ends early, or its files loaded and have no errors.
5. `run_all_or_nothing`: what a run does with its files.
-/

namespace ClassCompiler

/-! ## Notes and nodes -/

/-- A node without the types noted in it. -/
def Node.erase : Node → Node
  | .program p => .program p.erase
  | .cls c => .cls c.erase
  | .feature f => .feature f.erase
  | .param p => .param p
  | .stmt s => .stmt s.erase
  | .expr e => .expr e.erase

theorem Node.ofExpr_erase (e : Expr) : Node.ofExpr e.erase = (Node.ofExpr e).map Node.erase := by
  rw [ofExpr, ofExpr, Expr.erase, Expr.nodes_mapTy, List.map_map, List.map_map]
  rfl

theorem Node.ofExpr?_erase (e : Option Expr) :
    Node.ofExpr? (e.map Expr.erase) = (Node.ofExpr? e).map Node.erase := by
  cases e with
  | none => rfl
  | some e => exact Node.ofExpr_erase e

theorem Stmt.nodesAll_erase {ss : List Stmt} (ih : ∀ s ∈ ss, s.erase.nodes = s.nodes.map Node.erase) :
    nodesAll (eraseAll ss) = (nodesAll ss).map Node.erase := by
  induction ss with
  | nil => rfl
  | cons s ss ihss =>
    rw [eraseAll, nodesAll, nodesAll, List.map_append, ih s List.mem_cons_self,
      ihss fun s' hs' => ih s' (List.mem_cons_of_mem s hs')]

theorem Stmt.nodes_erase (s : Stmt) : s.erase.nodes = s.nodes.map Node.erase := by
  induction s using Stmt.induction with
  | decl name typeName init span =>
    simp only [erase, nodes, Node.ofExpr?_erase, List.map_cons, Node.erase]
  | expr e span => simp only [erase, nodes, Node.ofExpr_erase, List.map_cons, Node.erase]
  | ifElse cond thenBranch elseBranch span iht ihe =>
    have helse : nodes? (erase? elseBranch) = (nodes? elseBranch).map Node.erase := by
      cases elseBranch with
      | none => rfl
      | some s => exact ihe s rfl
    simp only [erase, nodes, Node.ofExpr_erase, iht, helse, List.map_cons, List.map_append,
      Node.erase]
  | whileLoop cond body span ih =>
    simp only [erase, nodes, Node.ofExpr_erase, ih, List.map_cons, List.map_append, Node.erase]
  | forLoop init cond update body span ih =>
    simp only [erase, nodes, Node.ofExpr?_erase, ih, List.map_cons, List.map_append, Node.erase]
  | breakLoop span => rfl
  | block stmts span ih =>
    simp only [erase, nodes, nodesAll_erase ih, List.map_cons, Node.erase]
  | ret value span => simp only [erase, nodes, Node.ofExpr?_erase, List.map_cons, Node.erase]

/-- A method without the types noted in it. -/
def Method.erase (m : Method) : Method := { m with body := Stmt.eraseAll m.body }

theorem Method.nodes_erase (m : Method) : m.erase.nodes = m.nodes.map Node.erase := by
  rw [nodes, nodes, List.map_append, List.map_map, erase,
    Stmt.nodesAll_erase fun s _ => s.nodes_erase]
  rfl

theorem Feature.nodes_erase (f : Feature) : f.erase.nodes = f.nodes.map Node.erase := by
  cases f with
  | field f => simp only [erase, nodes, Node.ofExpr?_erase, List.map_cons, Node.erase]
  | method m => exact congrArg (_ :: ·) m.nodes_erase

theorem ClassDecl.nodes_erase (c : ClassDecl) : c.erase.nodes = c.nodes.map Node.erase := by
  simp only [nodes, erase, List.map_cons, List.map_flatMap, List.flatMap_map, Feature.nodes_erase,
    Node.erase]

theorem Program.nodes_erase (p : Program) : p.erase.nodes = p.nodes.map Node.erase := by
  simp only [nodes, erase, List.map_cons, List.map_flatMap, List.flatMap_map,
    ClassDecl.nodes_erase, Node.erase]

theorem ClassDecl.methods_erase (c : ClassDecl) : c.erase.methods = c.methods.map Method.erase := by
  simp only [methods, erase, List.filterMap_map, List.map_filterMap]
  refine List.filterMap_congr fun f _ => ?_
  cases f <;> rfl

namespace Assembly

theorem literals_erase (p : Program) : literals p.erase = literals p := by
  have hliteral (n : Node) : (n.erase.expr?).bind literal? = n.expr?.bind literal? := by
    cases n with
    | expr e => cases e <;> rfl
    | _ => rfl
  simp only [literals, Program.exprs, Program.nodes_erase, List.filterMap_map,
    List.filterMap_filterMap]
  exact congrArg _ (List.filterMap_congr fun n _ => hliteral n)

theorem sourceFiles_erase (p : Program) : sourceFiles p.erase = sourceFiles p := by
  simp only [sourceFiles, Program.erase, List.filterMap_map]
  rfl

theorem localCount_erase (m : Method) : localCount m.erase = localCount m := by
  rw [localCount, Method.nodes_erase, List.countP_map]
  refine List.countP_congr fun n _ => ?_
  have hbinds : bindsLocal n.erase = bindsLocal n := by
    cases n with
    | stmt s => cases s <;> rfl
    | _ => rfl
  rw [Function.comp_apply, hbinds]

theorem methodLines_erase (p : Program) (e : ClassEntry) (name : String) :
    methodLines p.erase e name = methodLines p e name := by
  unfold methodLines
  cases e.origin with
  | builtin index => rfl
  | user index =>
    simp only [Origin.decl?, Program.erase, List.getElem?_map]
    cases p.classes[index]? with
    | none => rfl
    | some c =>
      simp only [Option.map_some, Option.bind_some, ClassDecl.methods_erase, List.find?_map]
      have hname : (fun m : Method => m.name == name) ∘ Method.erase = fun m => m.name == name := rfl
      rw [hname]
      cases c.methods.find? fun m => m.name == name with
      | none => rfl
      | some m => simp only [Option.map_some, localCount_erase]

theorem stubLines_erase (p : Program) : stubLines p.erase = stubLines p := by
  funext e
  rw [stubLines, stubLines, funext (methodLines_erase p e)]

/-- What is noted on the tree does not show in the assembly. -/
theorem render_erase (t : ClassTable) (p : Program) (gc cancelled : Bool) :
    render t p.erase gc cancelled = render t p gc cancelled := by
  simp only [render, lines, stringLines, stubLines_erase, literals_erase, sourceFiles_erase]

end Assembly

/-- The analysis leaves its notes on the program and nothing else. -/
theorem Analysis.erase_program (p : Program) : (run none p).program.erase = p.erase := by
  rw [run_none]
  exact congrArg (fun classes => ({ p with classes } : Program)) (Typing.erase_checkClasses _ p.classes)

namespace Command

/-! ## Files -/

section Files

variable (disk : Disk) (load : Loader)

/-- The program in a file, or the error that is reported of it. A class names the file unless it names
another one. -/
def loadOn (name : String) : Except Diagnostic Program :=
  match disk.read name with
  | .error reason =>
    .error
      { level := .error, phase := .analysis, file := none
        message := { text := "could not load file " ++ name }
        cause := some (.outside reason) }
  | .ok text =>
    match load text with
    | .error f =>
      .error
        { level := .error, phase := .reading, file := some name
          message := { span := some f.span, text := "malformed program tree: " ++ f.code }
          cause := some (.outside f.text) }
    | .ok p =>
      .ok { p with classes := p.classes.map fun c => { c with file := some (c.file.getD name) } }

/-- Whether a file cannot be read or has no program in it. -/
def Fails (name : String) : Prop := (loadOn disk load name).isOk = false

instance (name : String) : Decidable (Fails disk load name) := inferInstanceAs (Decidable (_ = _))

/-- What is reported of the files that fail, in their order. -/
def loadReports (files : List String) : List Diagnostic :=
  files.filterMap fun name =>
    match loadOn disk load name with
    | .error d => some d
    | .ok _ => none

/-- The programs in the files that do not fail, in their order. -/
def loadedPrograms (files : List String) : List Program :=
  files.filterMap fun name =>
    match loadOn disk load name with
    | .error _ => none
    | .ok p => some p

/-- The classes of all files, one after the other. -/
def concatenated (files : List String) : Program where
  classes := (loadedPrograms disk load files).flatMap Program.classes

end Files

variable {disk : Disk} {load : Loader}

theorem level_of_loadOn {name : String} {d : Diagnostic} (h : loadOn disk load name = .error d) :
    d.level = .error := by
  unfold loadOn at h
  split at h
  · cases h
    rfl
  · split at h
    · cases h
      rfl
    · cases h

theorem loadReports_eq_nil {files : List String} (h : ∀ name ∈ files, ¬ Fails disk load name) :
    loadReports disk load files = [] := by
  refine List.filterMap_eq_nil_iff.mpr fun name hname => ?_
  cases hload : loadOn disk load name with
  | error d => exact absurd (by rw [Fails, hload]; rfl) (h name hname)
  | ok p => rfl

theorem hasErrors_loadReports {files : List String} (h : ∃ name ∈ files, Fails disk load name) :
    hasErrors (loadReports disk load files) = true := by
  obtain ⟨name, hname, hfails⟩ := h
  cases hload : loadOn disk load name with
  | ok p =>
    rw [Fails, hload] at hfails
    exact Bool.noConfusion hfails
  | error d =>
    have hmem : d ∈ loadReports disk load files :=
      List.mem_filterMap.mpr ⟨name, hname, by rw [hload]⟩
    exact List.any_eq_true.mpr ⟨d, hmem, by rw [level_of_loadOn hload]; rfl⟩

/-! ## Passes -/

namespace Traces

/-- The traces after some diagnostics were recorded. -/
def report (s : Traces) (ds : List Diagnostic) : Traces :=
  s.complain (String.join (ds.map reportText))

@[simp]
theorem report_nil (s : Traces) : s.report [] = s := by
  simp [report, complain]

@[simp]
theorem report_report (s : Traces) (ds es : List Diagnostic) :
    (s.report ds).report es = s.report (ds ++ es) := by
  simp [report, complain, String.append_assoc]

end Traces

/-- A part of a compilation around files and streams that are plain functions. -/
abbrev DiskPass := Pass (StateM Traces)

section

variable {α β : Type} (ds : List Diagnostic) (s : Traces)

@[simp]
theorem bind_apply (x : DiskPass α) (f : α → DiskPass β) :
    (x >>= f) ds s = f (x ds s).1.1 (x ds s).1.2 (x ds s).2 := rfl

@[simp]
theorem pure_apply (a : α) : (pure a : DiskPass α) ds s = ((a, ds), s) := rfl

@[simp]
theorem lift_apply (x : StateM Traces α) :
    (liftM x : DiskPass α) ds s = (((x s).1, ds), (x s).2) := rfl

@[simp]
theorem record_apply (d : Diagnostic) :
    record disk.host d ds s = (((), ds ++ [d]), s.report [d]) := by
  have htext : String.join ([d].map reportText) = reportText d := by simp
  rw [Traces.report, htext]
  rfl

@[simp]
theorem unlessErrors_apply (x : DiskPass Unit) :
    unlessErrors x ds s = if hasErrors ds then (((), ds), s) else x ds s := by
  have hget : (get : DiskPass (List Diagnostic)) ds s = ((ds, ds), s) := rfl
  unfold unlessErrors
  rw [bind_apply, hget]
  cases hasErrors ds <;> rfl

theorem forM_record_apply (new : List Diagnostic) :
    new.forM (record disk.host) ds s = (((), ds ++ new), s.report new) := by
  induction new generalizing ds s with
  | nil => simp
  | cons d new ih =>
    rw [List.forM, bind_apply, record_apply, ih, List.append_assoc, Traces.report_report]
    rfl

theorem loadFile_apply (name : String) :
    loadFile disk.host load name ds s =
      match loadOn disk load name with
      | .error d => ((none, ds ++ [d]), s.report [d])
      | .ok p => ((some p, ds), s) := by
  have hread : disk.host.read name s = (disk.read name, s) := rfl
  unfold loadFile loadOn
  simp only [bind_apply, lift_apply, hread]
  cases disk.read name with
  | error reason =>
    simp only [bind_apply, record_apply, pure_apply]
    rfl
  | ok text =>
    cases hload : load text with
    | error f =>
      simp only [hload, bind_apply, record_apply, pure_apply]
      rfl
    | ok p => simp only [hload, pure_apply]

theorem loadFiles_apply (files : List String) :
    loadFiles disk.host load files ds s =
      ((loadedPrograms disk load files, ds ++ loadReports disk load files),
        s.report (loadReports disk load files)) := by
  induction files generalizing ds s with
  | nil => simp [loadFiles, loadedPrograms, loadReports]
  | cons name files ih =>
    simp only [loadFiles, bind_apply, loadFile_apply]
    cases hload : loadOn disk load name with
    | error d =>
      have hreports : loadReports disk load (name :: files) = d :: loadReports disk load files :=
        List.filterMap_cons_some (by rw [hload])
      have hprograms : loadedPrograms disk load (name :: files) = loadedPrograms disk load files :=
        List.filterMap_cons_none (by rw [hload])
      simp only [ih, hreports, hprograms, pure_apply, Traces.report_report, List.append_assoc]
      rfl
    | ok p =>
      have hreports : loadReports disk load (name :: files) = loadReports disk load files :=
        List.filterMap_cons_none (by rw [hload])
      have hprograms : loadedPrograms disk load (name :: files) =
          p :: loadedPrograms disk load files := List.filterMap_cons_some (by rw [hload])
      simp only [ih, hreports, hprograms, pure_apply]
      rfl

theorem print_apply (text : String) :
    disk.host.print text s = match disk.print text with
      | none => (.ok (), s.print text)
      | some b => (.error b.reason, s.print b.taken) := by
  simp only [Disk.host]
  cases disk.print text <;> rfl

theorem write_apply (path text : String) :
    disk.host.write path text s =
      ((disk.write path text).elim (.ok ()) .error, s.act (.write path text)) := rfl

end

/-! ## What comes out -/

/-- What a compilation has recorded, what it has put on stdout and what it has done to files. -/
abbrev Yield := List Diagnostic × String × List FileAction

/-- A text goes to stdout, after some diagnostics. -/
def printed (disk : Disk) (complaint : String → Diagnostic) (ds : List Diagnostic) (text : String) :
    Yield :=
  match disk.print text with
  | none => (ds, text, [])
  | some b => (ds ++ [complaint b.reason], b.taken, [])

/-- The results of an analysis go to stdout, after some diagnostics. -/
def viewed (disk : Disk) (p : Program) (t : ClassTable) (ds : List Diagnostic) (view : View) :
    Yield :=
  match viewText p t view with
  | .error f => (ds ++ [notDumped f.text], "", [])
  | .ok text => printed disk notDumped ds text

/-- A text goes to a file, after some diagnostics. -/
def written (disk : Disk) (ds : List Diagnostic) (path text : String) : Yield :=
  match disk.write path text with
  | none => (ds, "", [.write path text])
  | some reason => (ds ++ [notWritten reason], "", [.write path text, .remove path])

/-- The end of a pass with a yield. Nothing but reports goes to stderr. -/
def settled (y : Yield) : (Unit × List Diagnostic) × Traces :=
  (((), y.1), ({ stdout := y.2.1, files := y.2.2 } : Traces).report y.1)

section

variable (ds : List Diagnostic) {o : Options} {p : Program} {t : ClassTable} {text : String}

theorem hasErrors_notWritten (reason : String) : hasErrors (ds ++ [notWritten reason]) = true := by
  rw [hasErrors, List.any_append]
  exact Bool.or_true _

theorem print_of_printed (h : hasErrors (printed disk notWritten ds text).1 = false) :
    disk.print text = none := by
  cases hprint : disk.print text with
  | none => rfl
  | some b =>
    rw [printed, hprint, hasErrors_notWritten] at h
    cases h

theorem write_of_written {path : String} (h : hasErrors (written disk ds path text).1 = false) :
    disk.write path text = none := by
  cases hwrite : disk.write path text with
  | none => rfl
  | some reason =>
    rw [written, hwrite, hasErrors_notWritten] at h
    cases h

theorem files_viewed (view : View) : (viewed disk p t ds view).2.2 = [] := by
  unfold viewed printed
  split
  · rfl
  · split
    · rfl
    · rfl

theorem orRecord_print (complaint : String → Diagnostic) (text : String) :
    orRecord disk.host complaint (disk.host.print text) ds (({} : Traces).report ds) =
      settled (printed disk complaint ds text) := by
  simp only [orRecord, bind_apply, lift_apply, print_apply, printed]
  cases disk.print text with
  | none => simp [settled, Traces.report, Traces.print, Traces.complain]
  | some b => simp [settled, Traces.report, Traces.print, Traces.complain]

theorem dump_apply (view : View) :
    dump disk.host p t view ds (({} : Traces).report ds) = settled (viewed disk p t ds view) := by
  unfold dump viewed
  cases viewText p t view with
  | error f => simp [settled]
  | ok text => exact orRecord_print ds notDumped text

variable (h : o.output = .assembly) (htext : Assembly.render t p o.gc false = .ok text)

include h htext

theorem emit_printed (hpath : o.path = none) :
    emit disk.host o p t ds (({} : Traces).report ds) =
      settled (printed disk notWritten ds text) := by
  simp only [emit, h, htext, hpath, deliver]
  exact orRecord_print ds notWritten text

theorem emit_written {path : String} (hpath : o.path = some path) :
    emit disk.host o p t ds (({} : Traces).report ds) = settled (written disk ds path text) := by
  have hremove (s : Traces) : disk.host.remove path s = ((), s.act (.remove path)) := rfl
  simp only [emit, h, htext, hpath, deliver, orRecord, bind_apply, lift_apply, write_apply, written]
  cases disk.write path text with
  | none => simp [settled, Traces.report, Traces.act, Traces.complain]
  | some reason => simp [settled, Traces.report, Traces.act, Traces.complain, hremove]

end

section

variable {o : Options} {a : Analysis}
  (ha : Analysis.run none (concatenated disk load o.files) = a)

theorem compile_of_unloaded (h : ∃ name ∈ o.files, Fails disk load name) :
    compile disk.host load o [] {} = settled (loadReports disk load o.files, "", []) := by
  simp only [compile, bind_apply, loadFiles_apply, unlessErrors_apply, List.nil_append,
    hasErrors_loadReports h, if_true]
  rfl

include ha

theorem compile_of_loaded (h : ∀ name ∈ o.files, ¬ Fails disk load name) :
    ∃ t, a.table = some t ∧ compile disk.host load o [] {} =
      if hasErrors a.diagnostics then settled (a.diagnostics, "", [])
      else emit disk.host o a.program t a.diagnostics (({} : Traces).report a.diagnostics) := by
  obtain ⟨t, ht⟩ : ∃ t, a.table = some t :=
    ⟨_, ha ▸ congrArg Analysis.table (Analysis.run_none _)⟩
  have hmerged : Analysis.run none (merged (loadedPrograms disk load o.files)) = a := ha
  have hnone : hasErrors [] = false := rfl
  refine ⟨t, ht, ?_⟩
  simp only [compile, bind_apply, loadFiles_apply, unlessErrors_apply, loadReports_eq_nil h,
    List.nil_append, hnone, hmerged, ht, forM_record_apply, Traces.report_nil]
  rfl

end

/-! ## Runs -/

/-- The outcome of a compilation with a yield. -/
def Outcome.ofYield (y : Yield) : Outcome :=
  { toEnding := .ofDiagnostics y.1, toTraces := (settled y).2 }

namespace Outcome

variable (y : Yield)

theorem code_ofYield : (ofYield y).code = 0 ↔ hasErrors y.1 = false := by
  unfold ofYield Ending.ofDiagnostics
  cases hasErrors y.1 <;> simp

theorem stderr_ofYield : (ofYield y).stderr = String.join (y.1.map reportText) :=
  String.empty_append

end Outcome

section Runs

variable {arguments : List String} {o : Options} {a : Analysis}
  (hrequest : Request.ofArguments arguments = .ok (.compile o))
  (ha : Analysis.run none (concatenated disk load o.files) = a)

include hrequest

theorem runOn_eq_ofYield {y : Yield} (h : compile disk.host load o [] {} = settled y) :
    runOn disk load arguments = .ofYield y := by
  have hrun : runOn disk load arguments =
      { toEnding := .ofDiagnostics (compile disk.host load o [] {}).1.2
        toTraces := (compile disk.host load o [] {}).2 } := by
    rw [runOn, run, hrequest]
    rfl
  rw [hrun, h]
  rfl

theorem runOn_of_unloaded (h : ∃ name ∈ o.files, Fails disk load name) :
    runOn disk load arguments = .ofYield (loadReports disk load o.files, "", []) :=
  runOn_eq_ofYield hrequest (compile_of_unloaded h)

variable (hloaded : ∀ name ∈ o.files, ¬ Fails disk load name)

include ha hloaded

theorem runOn_of_errors (h : hasErrors a.diagnostics = true) :
    runOn disk load arguments = .ofYield (a.diagnostics, "", []) := by
  obtain ⟨t, -, hcompile⟩ := compile_of_loaded ha hloaded
  rw [if_pos h] at hcompile
  exact runOn_eq_ofYield hrequest hcompile

variable (hclean : hasErrors a.diagnostics = false)

include hclean

theorem runOn_of_view {view : View} (hview : o.output = .analysis view) :
    ∃ t, a.table = some t ∧
      runOn disk load arguments = .ofYield (viewed disk a.program t a.diagnostics view) := by
  obtain ⟨t, ht, hcompile⟩ := compile_of_loaded ha hloaded
  have hemit : emit disk.host o a.program t = dump disk.host a.program t view := by
    rw [emit, hview]
  rw [if_neg (Bool.eq_false_iff.mp hclean), hemit, dump_apply] at hcompile
  exact ⟨t, ht, runOn_eq_ofYield hrequest hcompile⟩

/-- The assembly is made from the program that the analysis has left its notes on, but it is that of
the program itself. -/
theorem runOn_of_assembly (hassembly : o.output = .assembly) :
    ∃ t text, a.table = some t ∧
      Assembly.render t (concatenated disk load o.files) o.gc false = .ok text ∧
      (o.path = none →
        runOn disk load arguments = .ofYield (printed disk notWritten a.diagnostics text)) ∧
      ∀ path, o.path = some path →
        runOn disk load arguments = .ofYield (written disk a.diagnostics path text) := by
  obtain ⟨t, ht, hcompile⟩ := compile_of_loaded ha hloaded
  rw [if_neg (Bool.eq_false_iff.mp hclean)] at hcompile
  subst ha
  obtain ⟨t', ht', hrender⟩ := Assembly.exists_render_of_clean hclean
  obtain rfl : t' = t := Option.some.inj (ht'.symm.trans ht)
  obtain ⟨text, htext⟩ := hrender (concatenated disk load o.files) o.gc
  have hnoted : Assembly.render t' (Analysis.run none (concatenated disk load o.files)).program
      o.gc false = .ok text := by
    rw [← Assembly.render_erase, Analysis.erase_program, Assembly.render_erase, htext]
  refine ⟨t', text, ht, htext, fun hpath => ?_, fun path hpath => ?_⟩
  · exact runOn_eq_ofYield hrequest (hcompile.trans (emit_printed _ hassembly hnoted hpath))
  · exact runOn_eq_ofYield hrequest (hcompile.trans (emit_written _ hassembly hnoted hpath))

omit hloaded hclean

/-- A compilation that ends early records an error, and does nothing else. -/
theorem runOn_early_or_clean :
    (∃ ds, hasErrors ds = true ∧ runOn disk load arguments = .ofYield (ds, "", [])) ∨
      (∀ name ∈ o.files, ¬ Fails disk load name) ∧ hasErrors a.diagnostics = false := by
  by_cases hfails : ∃ name ∈ o.files, Fails disk load name
  · exact .inl ⟨_, hasErrors_loadReports hfails, runOn_of_unloaded hrequest hfails⟩
  · have hloaded : ∀ name ∈ o.files, ¬ Fails disk load name := by simpa using hfails
    cases herrors : hasErrors a.diagnostics with
    | true => exact .inl ⟨_, herrors, runOn_of_errors hrequest ha hloaded herrors⟩
    | false => exact .inr ⟨hloaded, rfl⟩

omit ha

/-- However a compilation ends, it has a yield. -/
theorem exists_runOn_eq_ofYield : ∃ y, runOn disk load arguments = .ofYield y := by
  rcases runOn_early_or_clean hrequest rfl with ⟨ds, -, hrun⟩ | ⟨hloaded, hclean⟩
  · exact ⟨_, hrun⟩
  · cases houtput : o.output with
    | analysis view =>
      obtain ⟨t, -, hrun⟩ := runOn_of_view hrequest rfl hloaded hclean houtput
      exact ⟨_, hrun⟩
    | assembly =>
      obtain ⟨t, text, -, -, hprinted, hwritten⟩ :=
        runOn_of_assembly hrequest rfl hloaded hclean houtput
      cases hpath : o.path with
      | none => exact ⟨_, hprinted hpath⟩
      | some path => exact ⟨_, hwritten path hpath⟩

end Runs

/-- What a run does with the files that a command line names. It succeeds if and only if it has
recorded no error, and stderr has what was recorded and nothing else. If a file cannot be loaded,
there is one report for each such file in their order, and nothing else happens. If all can be
loaded, the classes of all files are analysed as one program, and errors of the analysis end the run.
Otherwise a view of the analysis goes to stdout, or there is an assembly. It is that of this program,
and it goes to stdout or to the file; if it is not taken there, this is recorded, and the file is
removed. So nothing is put on stdout or done to a file unless all files could be loaded and the
analysis has found no error, and nothing is done to a file but to put an assembly into it; and a run
that was to give an assembly succeeds only if the whole of it was taken. -/
theorem run_all_or_nothing (disk : Disk) (load : Loader) (arguments : List String) (o : Options)
    (hrequest : Request.ofArguments arguments = .ok (.compile o)) :
    let r := runOn disk load arguments
    let p := concatenated disk load o.files
    let a := Analysis.run none p
    (r.code = 0 ↔ ∀ d ∈ r.diagnostics, d.level ≠ .error ∧ d.level ≠ .fatal) ∧
    r.stderr = String.join (r.diagnostics.map reportText) ∧
    ((∃ name ∈ o.files, Fails disk load name) →
      (r.diagnostics, r.stdout, r.files) = (loadReports disk load o.files, "", [])) ∧
    ((∀ name ∈ o.files, ¬ Fails disk load name) → hasErrors a.diagnostics = true →
      (r.diagnostics, r.stdout, r.files) = (a.diagnostics, "", [])) ∧
    ((∀ name ∈ o.files, ¬ Fails disk load name) → hasErrors a.diagnostics = false →
      (∀ view, o.output = .analysis view → ∃ t, a.table = some t ∧
        (r.diagnostics, r.stdout, r.files) =
          match viewText a.program t view with
          | .error f => (a.diagnostics ++ [notDumped f.text], "", [])
          | .ok text => match disk.print text with
            | none => (a.diagnostics, text, [])
            | some b => (a.diagnostics ++ [notDumped b.reason], b.taken, [])) ∧
      (o.output = .assembly → ∃ t text, a.table = some t ∧
        Assembly.render t p o.gc false = .ok text ∧
        (o.path = none → (r.diagnostics, r.stdout, r.files) =
          match disk.print text with
          | none => (a.diagnostics, text, [])
          | some b => (a.diagnostics ++ [notWritten b.reason], b.taken, [])) ∧
        ∀ path, o.path = some path → (r.diagnostics, r.stdout, r.files) =
          match disk.write path text with
          | none => (a.diagnostics, "", [.write path text])
          | some reason =>
            (a.diagnostics ++ [notWritten reason], "", [.write path text, .remove path]))) ∧
    (r.stdout ≠ "" ∨ r.files ≠ [] → (∀ name ∈ o.files, ¬ Fails disk load name) ∧
      hasErrors a.diagnostics = false ∧ (r.files ≠ [] → o.output = .assembly)) ∧
    (r.code = 0 → (∀ name ∈ o.files, ¬ Fails disk load name) ∧ hasErrors a.diagnostics = false ∧
      (o.output = .assembly → ∃ t text, a.table = some t ∧
        Assembly.render t p o.gc false = .ok text ∧
        (o.path = none → disk.print text = none ∧ r.stdout = text) ∧
        ∀ path, o.path = some path →
          disk.write path text = none ∧ r.files = [.write path text])) := by
  intro r p a
  have hlevel (l : Level) : l.isError = false ↔ l ≠ .error ∧ l ≠ .fatal := by
    cases l <;> decide
  have hyield {y : Yield} (h : r = .ofYield y) : (r.diagnostics, r.stdout, r.files) = y := by
    rw [h]
    rfl
  have hcode {y : Yield} (h : r = .ofYield y) : r.code = 0 ↔ hasErrors y.1 = false := by
    rw [h, Outcome.code_ofYield]
  obtain ⟨y, hy⟩ : ∃ y, r = .ofYield y := exists_runOn_eq_ofYield hrequest
  have hearly := runOn_early_or_clean hrequest (rfl : Analysis.run none p = a)
  refine ⟨?_, ?_, fun h => hyield (runOn_of_unloaded hrequest h),
    fun hloaded h => hyield (runOn_of_errors hrequest rfl hloaded h),
    fun hloaded hclean => ⟨fun view h => ?_, fun h => ?_⟩, fun hout => ?_, fun hsuccess => ?_⟩
  · rw [hcode hy, hasErrors, List.any_eq_false, hy]
    exact forall₂_congr fun d _ => by rw [Bool.not_eq_true, hlevel]
  · rw [hy]
    exact Outcome.stderr_ofYield y
  · obtain ⟨t, ht, hrun⟩ := runOn_of_view hrequest rfl hloaded hclean h
    exact ⟨t, ht, hyield hrun⟩
  · obtain ⟨t, text, ht, htext, hprinted, hwritten⟩ :=
      runOn_of_assembly hrequest rfl hloaded hclean h
    exact ⟨t, text, ht, htext, fun hpath => hyield (hprinted hpath),
      fun path hpath => hyield (hwritten path hpath)⟩
  · rcases hearly with ⟨ds, -, hrun⟩ | ⟨hloaded, hclean⟩
    · have hnone := hyield hrun
      simp only [Prod.mk.injEq] at hnone
      exact (hout.elim (· hnone.2.1) (· hnone.2.2)).elim
    · refine ⟨hloaded, hclean, fun hfiles => ?_⟩
      cases houtput : o.output with
      | assembly => rfl
      | analysis view =>
        obtain ⟨t, -, hrun⟩ := runOn_of_view hrequest rfl hloaded hclean houtput
        exact absurd ((congrArg (·.2.2) (hyield hrun)).trans (files_viewed _ view)) hfiles
  · rcases hearly with ⟨ds, herrors, hrun⟩ | ⟨hloaded, hclean⟩
    · rw [hcode hrun, herrors] at hsuccess
      cases hsuccess
    · refine ⟨hloaded, hclean, fun h => ?_⟩
      obtain ⟨t, text, ht, htext, hprinted, hwritten⟩ :=
        runOn_of_assembly hrequest rfl hloaded hclean h
      refine ⟨t, text, ht, htext, fun hpath => ?_, fun path hpath => ?_⟩
      · have hprint := print_of_printed _ ((hcode (hprinted hpath)).mp hsuccess)
        have hout := hyield (hprinted hpath)
        rw [printed, hprint] at hout
        exact ⟨hprint, (Prod.mk.inj (Prod.mk.inj hout).2).1⟩
      · have hwrite := write_of_written _ ((hcode (hwritten path hpath)).mp hsuccess)
        have hout := hyield (hwritten path hpath)
        rw [written, hwrite] at hout
        exact ⟨hwrite, (Prod.mk.inj (Prod.mk.inj hout).2).2⟩

/-- A file with a main class, one without classes and one that ends too early. Only one path can be
written, and nobody listens to stdout. -/
def threeFiles : Disk where
  read name :=
    if name = "a.ron" then
      .ok "(classes:[(name:\"Main\",features:[Method((name:\"main\",return_ty:\"void\"))])])"
    else if name = "b.ron" then .ok "(classes:[])"
    else if name = "c.ron" then .ok "(classes:["
    else .error "no such file"
  print _ := some { reason := "broken pipe" }
  write path _ := if path = "out.s" then none else some "read-only"

theorem run_all_or_nothing_threeFiles :
    let p := concatenated threeFiles Program.load ["a.ron", "b.ron"]
    let taken := runOn threeFiles Program.load ["a.ron", "b.ron", "-o", "out.s"]
    let refused := runOn threeFiles Program.load ["a.ron", "b.ron", "-o", "x.s"]
    let unheard := runOn threeFiles Program.load ["a.ron", "b.ron"]
    let failed := runOn threeFiles Program.load ["b.ron", "d.ron", "c.ron"]
    (∃ t text, (Analysis.run none p).table = some t ∧ Assembly.render t p false false = .ok text ∧
      (taken.diagnostics, taken.stdout, taken.files) = ([], "", [.write "out.s" text]) ∧
      (refused.diagnostics, refused.stdout, refused.files) =
        ([notWritten "read-only"], "", [.write "x.s" text, .remove "x.s"]) ∧
      (unheard.diagnostics, unheard.stdout, unheard.files) =
        ([notWritten "broken pipe"], "", [])) ∧
    taken.code = 0 ∧ refused.code ≠ 0 ∧ failed.stdout = "" ∧
    failed.stderr = "ERROR could not load file d.ron\n" ++
      "ERROR c.ron:1:1 malformed program tree: not a program tree\n" := by
  intro p taken refused unheard failed
  let o (path : Option String) : Options := { files := ["a.ron", "b.ron"], path }
  have hloaded : ∀ name ∈ ["a.ron", "b.ron"], ¬ Fails threeFiles Program.load name := by
    decide +kernel
  have hfails : ∃ name ∈ ["b.ron", "d.ron", "c.ron"], Fails threeFiles Program.load name := by
    decide +kernel
  have hnone : (Analysis.run none p).diagnostics = [] := by decide +kernel
  have hclean : hasErrors (Analysis.run none p).diagnostics = false := by rw [hnone]; rfl
  obtain ⟨hcode, -, -, -, hout, -⟩ := run_all_or_nothing threeFiles Program.load
    ["a.ron", "b.ron", "-o", "out.s"] (o (some "out.s")) rfl
  obtain ⟨t, text, ht, htext, -, htaken⟩ := (hout hloaded hclean).2 rfl
  obtain ⟨hcode', -, -, -, hout', -⟩ := run_all_or_nothing threeFiles Program.load
    ["a.ron", "b.ron", "-o", "x.s"] (o (some "x.s")) rfl
  obtain ⟨t', text', ht', htext', -, hrefused⟩ := (hout' hloaded hclean).2 rfl
  obtain ⟨-, -, -, -, hout'', -⟩ := run_all_or_nothing threeFiles Program.load
    ["a.ron", "b.ron"] (o none) rfl
  obtain ⟨_, _, -, -, hunheard, -⟩ := (hout'' hloaded hclean).2 rfl
  obtain ⟨-, hstderr, hfailed, -⟩ := run_all_or_nothing threeFiles Program.load
    ["b.ron", "d.ron", "c.ron"] { files := ["b.ron", "d.ron", "c.ron"] } rfl
  obtain rfl : t' = t := Option.some.inj (ht'.symm.trans ht)
  obtain rfl : text' = text := Except.ok.inj (htext'.symm.trans htext)
  have htaken : (taken.diagnostics, taken.stdout, taken.files) =
      ([], "", [.write "out.s" text']) := (htaken "out.s" rfl).trans (by rw [← hnone]; rfl)
  have hrefused : (refused.diagnostics, refused.stdout, refused.files) =
      ([] ++ [notWritten "read-only"], "", [.write "x.s" text', .remove "x.s"]) :=
    (hrefused "x.s" rfl).trans (by rw [← hnone]; rfl)
  have hunheard : (unheard.diagnostics, unheard.stdout, unheard.files) =
      ([] ++ [notWritten "broken pipe"], "", []) := (hunheard rfl).trans (by rw [← hnone]; rfl)
  have hfailed := hfailed hfails
  simp only [Prod.mk.injEq] at hfailed
  refine ⟨⟨t', text', ht, htext, htaken, hrefused, hunheard⟩, hcode.mpr ?_, fun hzero => ?_,
    hfailed.2.1, ?_⟩
  · rw [(Prod.mk.inj htaken).1]
    exact List.forall_mem_nil _
  · have hmem : notWritten "read-only" ∈ refused.diagnostics := by
      rw [(Prod.mk.inj hrefused).1]
      exact List.mem_singleton_self _
    exact (hcode'.mp hzero _ hmem).2 rfl
  · rw [hstderr, hfailed.1]
    decide +kernel

end Command

end ClassCompiler
