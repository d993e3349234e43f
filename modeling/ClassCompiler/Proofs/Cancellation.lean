import ClassCompiler.Analysis
import ClassCompiler.Proofs.TypingProgram

/-!
# Cancelled analyses

A limit says after how many reports a run is cancelled, and a run looks at it only between phases
and between classes. Whatever the limit, what was done until then is what a run without a limit does
first.

Results:
1. `Typing.checkClasses_some`: a check under a limit either is the check without one, or it stopped
   before some class, after as many reports as the limit allows.
2. `Analysis.run_none`: the phases of a run without a limit.
3. `Analysis.run_some`: the same alternative as for the check, for a whole run.
4. `Analysis.run_limit_prefix`: when a run is cancelled, and what it leaves behind.
-/

namespace ClassCompiler

open Typing

/-! ## The check -/

namespace Typing

/-- The first `k` classes are as in `done`, and the others are as they were before. -/
def IsPartly (k : Nat) (done before result : List ClassDecl) : Prop :=
  ∀ i, result[i]? = if i < k then done[i]? else before[i]?

theorem isPartly_zero (done before : List ClassDecl) : IsPartly 0 done before before :=
  fun _ => rfl

/-- When all classes have been done, none is left as it was. -/
theorem isPartly_length {done before : List ClassDecl} (h : done.length = before.length) :
    IsPartly before.length done before done := by
  intro i
  split
  · rfl
  · next hle => rw [List.getElem?_eq_none (by omega), List.getElem?_eq_none (by omega)]

theorem IsPartly.cons {k : Nat} {done before result : List ClassDecl}
    (h : IsPartly k done before result) (c d : ClassDecl) :
    IsPartly (k + 1) (c :: done) (d :: before) (c :: result) := by
  intro i
  cases i with
  | zero => rfl
  | succ i => simpa using h i

theorem cancelled_some {n reported : Nat} : cancelled (some n) reported = true ↔ n ≤ reported := by
  simp [cancelled]

/-- A check under a limit goes on like a check without one until it stops. It stops only when the
limit has been reached. -/
theorem checkClasses_some (t : ClassTable) (n reported index : Nat) (classes : List ClassDecl) :
    let full := checkClasses t none reported index classes
    let run := checkClasses t (some n) reported index classes
    run = full ∨
      run.finished = false ∧ n ≤ reported + run.diagnostics.length ∧
        run.diagnostics <+: full.diagnostics ∧
        ∃ k, IsPartly k full.classes classes run.classes := by
  induction classes generalizing reported index with
  | nil => exact .inl rfl
  | cons c rest ih =>
    intro full run
    by_cases hstop : n ≤ reported
    · have hrun : run = ⟨c :: rest, [], false⟩ := if_pos (cancelled_some.mpr hstop)
      rw [hrun]
      exact .inr ⟨rfl, hstop, List.nil_prefix, 0, isPartly_zero _ _⟩
    · have hrun : run = _ := if_neg (mt cancelled_some.mp hstop)
      have hfull : full = _ := if_neg Bool.false_ne_true
      rw [hrun, hfull]
      -- both checks do the same with the class and go on with the same number of reports
      rcases ih (reported + (checkClass t index c).2.length) (index + 1) with
        heq | ⟨hfinished, hlimit, hdiagnostics, k, hclasses⟩
      · exact .inl (by simp only [heq])
      · refine .inr ⟨hfinished, ?_, (List.prefix_append_right_inj _).mpr hdiagnostics, k + 1,
          hclasses.cons _ c⟩
        rw [List.length_append]
        omega

theorem length_checkClasses (t : ClassTable) (index : Nat) (classes : List ClassDecl) :
    (checkClasses t none 0 index classes).classes.length = classes.length := by
  rw [checkClasses_none, List.length_map, List.length_zipIdx]

theorem checkClasses_none_reported (t : ClassTable) (reported index : Nat)
    (classes : List ClassDecl) :
    checkClasses t none reported index classes = checkClasses t none 0 index classes := by
  rw [checkClasses_none, checkClasses_none]

/-- A check that came to its end is one that nobody cancelled. -/
theorem checkClasses_of_finished {t : ClassTable} {limit : Option Nat} {reported index : Nat}
    {classes : List ClassDecl}
    (h : (checkClasses t limit reported index classes).finished = true) :
    checkClasses t limit reported index classes = checkClasses t none 0 index classes := by
  rw [← checkClasses_none_reported t reported]
  cases limit with
  | none => rfl
  | some n =>
    refine (checkClasses_some t n reported index classes).resolve_right fun hstopped => ?_
    cases hstopped.1.symm.trans h

end Typing

/-! ## The whole run -/

namespace Analysis

/-- What building, binding and checking report if nobody cancels them. -/
def phaseReports (p : Program) : List Diagnostic :=
  let built := Hierarchy.build p.classes
  let bound := Members.bind p.classes built.1
  built.2 ++ bound.2 ++ (checkClasses bound.1 none 0 0 p.classes).diagnostics

theorem run_none (p : Program) :
    let t := (Members.bind p.classes (Hierarchy.build p.classes).1).1
    run none p =
      { program := { p with classes := (checkClasses t none 0 0 p.classes).classes }
        table := some t
        diagnostics := phaseReports p ++ EntryPoint.check t } := by
  intro t
  have hgo (reported : Nat) : cancelled none reported = false := rfl
  have hfinished (reported : Nat) : (checkClasses t none reported 0 p.classes).finished = true := by
    rw [checkClasses_none]
  simp only [run, hgo, Bool.false_eq_true, if_false, Bool.or_false]
  rw [hfinished, checkClasses_none_reported]
  rfl

/-- What a run leaves behind that stopped in one of the first three phases under the limit `n`. -/
structure Stopped (n : Nat) (p : Program) (r : Analysis) : Prop where
  table : r.table = none
  limit : n ≤ r.diagnostics.length
  diagnostics : r.diagnostics <+: phaseReports p
  span : r.program.span = p.span
  classes : ∃ k, IsPartly k (run none p).program.classes p.classes r.program.classes

theorem stopped_before_check {n : Nat} {p : Program} {reported : List Diagnostic}
    (hlimit : n ≤ reported.length) (hreported : reported <+: phaseReports p) :
    Stopped n p ⟨p, none, reported⟩ where
  table := rfl
  limit := hlimit
  diagnostics := hreported
  span := rfl
  classes := ⟨0, isPartly_zero _ _⟩

/-- A run under a limit is the run without one, if the first three phases do not use it up.
Otherwise it stops in one of them. -/
theorem run_some (p : Program) (n : Nat) :
    run (some n) p = run none p ∧ (phaseReports p).length < n ∨ Stopped n p (run (some n) p) := by
  let built := Hierarchy.build p.classes
  let bound := Members.bind p.classes built.1
  have hbuilt : built.2 <+: phaseReports p :=
    ⟨bound.2 ++ (checkClasses bound.1 none 0 0 p.classes).diagnostics, by
      rw [← List.append_assoc]; rfl⟩
  have hbound : built.2 ++ bound.2 <+: phaseReports p := List.prefix_append _ _
  by_cases hstart : n ≤ 0
  · have hrun : run (some n) p = ⟨p, none, []⟩ := if_pos (cancelled_some.mpr hstart)
    rw [hrun]
    exact .inr (stopped_before_check hstart List.nil_prefix)
  by_cases hbuild : n ≤ built.2.length
  · have hrun : run (some n) p = ⟨p, none, built.2⟩ :=
      (if_neg (mt cancelled_some.mp hstart)).trans (if_pos (cancelled_some.mpr hbuild))
    rw [hrun]
    exact .inr (stopped_before_check hbuild hbuilt)
  by_cases hbind : n ≤ (built.2 ++ bound.2).length
  · have hrun : run (some n) p = ⟨p, none, built.2 ++ bound.2⟩ :=
      (if_neg (mt cancelled_some.mp hstart)).trans <|
        (if_neg (mt cancelled_some.mp hbuild)).trans (if_pos (cancelled_some.mpr hbind))
    rw [hrun]
    exact .inr (stopped_before_check hbind hbound)
  let checked := checkClasses bound.1 (some n) (built.2 ++ bound.2).length 0 p.classes
  have hrun : run (some n) p =
      if (!checked.finished ||
          cancelled (some n) (built.2 ++ bound.2 ++ checked.diagnostics).length) = true then
        ⟨{ p with classes := checked.classes }, none, built.2 ++ bound.2 ++ checked.diagnostics⟩
      else ⟨{ p with classes := checked.classes }, some bound.1,
        built.2 ++ bound.2 ++ checked.diagnostics ++ EntryPoint.check bound.1⟩ :=
    (if_neg (mt cancelled_some.mp hstart)).trans <|
      (if_neg (mt cancelled_some.mp hbuild)).trans (if_neg (mt cancelled_some.mp hbind))
  have hcheck := checkClasses_some bound.1 n (built.2 ++ bound.2).length 0 p.classes
  rw [checkClasses_none_reported] at hcheck
  rcases hcheck with heq | ⟨hfinished, hlimit, hdiagnostics, k, hclasses⟩
  · have hreports : built.2 ++ bound.2 ++ checked.diagnostics = phaseReports p := by
      rw [show checked = _ from heq]
      rfl
    have hfinished : checked.finished = true := by
      rw [show checked = _ from heq, checkClasses_none]
    rw [hreports, hfinished, Bool.not_true, Bool.false_or] at hrun
    by_cases hend : n ≤ (phaseReports p).length
    · rw [if_pos (cancelled_some.mpr hend)] at hrun
      rw [hrun]
      refine .inr ⟨rfl, hend, List.prefix_rfl, rfl, p.classes.length, ?_⟩
      rw [run_none, show checked = _ from heq]
      exact isPartly_length (length_checkClasses _ _ _)
    · rw [if_neg (mt cancelled_some.mp hend)] at hrun
      rw [hrun, run_none, show checked = _ from heq]
      exact .inl ⟨rfl, by omega⟩
  · rw [show checked.finished = false from hfinished, Bool.not_false, Bool.true_or,
      if_pos rfl] at hrun
    rw [hrun]
    refine .inr ⟨rfl, ?_, (List.prefix_append_right_inj _).mpr hdiagnostics, rfl, k, ?_⟩
    · rw [List.length_append]
      exact hlimit
    · rw [run_none]
      exact hclasses

/-- A run with the limit `n`, which is cancelled once `n` diagnostics have been reported, compared
with the run without a limit. It gives no table if and only if building, binding and checking report
`n` diagnostics or more. It reports a beginning of what the other run reports, and at least `n`
diagnostics if there are so many. Of its classes a first part is annotated as by the other run, and
the rest is as it was. If it gives a table, then the two runs do not differ at all. -/
theorem run_limit_prefix (p : Program) (n : Nat) :
    let full := run none p
    let limited := run (some n) p
    (limited.table = none ↔ n ≤ (phaseReports p).length) ∧
      limited.diagnostics <+: full.diagnostics ∧
      min n full.diagnostics.length ≤ limited.diagnostics.length ∧
      limited.program.span = p.span ∧
      (∃ k : Nat, ∀ i : Nat, limited.program.classes[i]? =
        if i < k then full.program.classes[i]? else p.classes[i]?) ∧
      (limited.table ≠ none → limited = full) := by
  intro full limited
  have hreports : phaseReports p <+: full.diagnostics := by
    rw [show full = _ from run_none p]
    exact List.prefix_append _ _
  rcases run_some p n with ⟨heq, hlt⟩ | hstopped
  · have hsome : limited.table ≠ none := by
      rw [show limited = _ from heq, run_none]
      exact Option.some_ne_none _
    have hsame : limited.diagnostics = full.diagnostics := congrArg Analysis.diagnostics heq
    refine ⟨⟨fun hnone => absurd hnone hsome, fun hle => by omega⟩, ?_, ?_, ?_, ?_, fun _ => heq⟩
    · exact hsame ▸ List.prefix_rfl
    · exact hsame ▸ Nat.min_le_right _ _
    · rw [show limited = _ from heq, run_none]
    · refine ⟨p.classes.length, ?_⟩
      rw [show limited = full from heq, show full = _ from run_none p]
      exact isPartly_length (length_checkClasses _ _ _)
  · have hlimit := hstopped.limit.trans hstopped.diagnostics.length_le
    refine ⟨⟨fun _ => hlimit, fun _ => hstopped.table⟩, hstopped.diagnostics.trans hreports, ?_,
      hstopped.span, hstopped.classes, fun hsome => absurd hstopped.table hsome⟩
    exact (Nat.min_le_left _ _).trans hstopped.limit

end Analysis

end ClassCompiler
