import Mathlib.Data.List.Nodup
import ClassCompiler.Assembly.Line
import ClassCompiler.Proofs.Escapes
import ClassCompiler.Proofs.Labels

/-!
# Labels in a text

Which labels an assembly text defines and which it names can be seen from its characters alone. The
text of a list of lines is read back line by line, since only the end of a line is a line feed.

Results:
1. `splitOn_lines`, `splitOn_textOf`: the lines of a text are the lines that it was made of.
2. `Reads.definedLabels_textOf`, `Reads.referredLabels_textOf`: from what lines are read as to what
   their text is read as.
3. `Reads.append`, `Reads.flatMap`: what lines are read as is put together from their parts.
-/

namespace ClassCompiler.Assembly

/-! ## Reading a text -/

/-- The words of a line stand between blanks. -/
def wordsOf (line : List Char) : List (List Char) :=
  (line.splitOnP Char.isWhitespace).filter (!·.isEmpty)

/-- A line defines a label if its first word ends in a colon. -/
def definedLabel? (line : List Char) : Option String :=
  match wordsOf line with
  | [] => none
  | word :: _ => if word.getLast? = some ':' then some (String.ofList word.dropLast) else none

/-- A line with the directive `.word` or `.globl` names its operands, unless they are numbers. -/
def namedLabels (line : List Char) : List String :=
  match wordsOf line with
  | [] => []
  | directive :: operands =>
    if directive = ".word".toList ∨ directive = ".globl".toList then
      (operands.filter (!·.all Char.isDigit)).map String.ofList
    else []

def definedLabels (text : String) : List String :=
  (text.toList.splitOn '\n').filterMap definedLabel?

def referredLabels (text : String) : List String :=
  (text.toList.splitOn '\n').flatMap namedLabels

example : definedLabels "a:\n\t.word\tb\n b: # c:\n" = ["a", "b"] := by decide

example : referredLabels "\t.globl\ta\n\t.word\t7\n\t.word\tb\n\t.asciiz\td" = ["a", "b"] := by decide

/-! ## Words -/

def IsWord (cs : List Char) : Prop := cs ≠ [] ∧ cs.all (!·.isWhitespace) = true

theorem isWord_iff {cs : List Char} :
    IsWord cs ↔ cs ≠ [] ∧ ∀ c ∈ cs, c.isWhitespace = false := by
  simp [IsWord]

theorem wordsOf_append {blank : Char} (h : blank.isWhitespace = true) (x y : List Char) :
    wordsOf (x ++ blank :: y) = wordsOf x ++ wordsOf y := by
  rw [wordsOf, List.splitOnP_append_cons x y h, List.filter_append]
  rfl

theorem wordsOf_word {cs : List Char} (h : IsWord cs) : wordsOf cs = [cs] := by
  rw [wordsOf, List.splitOnP_eq_singleton (isWord_iff.mp h).2]
  simp [h.1]

theorem wordsOf_tab (cs : List Char) : wordsOf ('\t' :: cs) = wordsOf cs :=
  wordsOf_append (x := []) rfl cs

theorem IsWord.append {x y : List Char} (hx : IsWord x) (hy : IsWord y) : IsWord (x ++ y) :=
  ⟨by simp [hx.1], by rw [List.all_append, hx.2, hy.2, Bool.and_self]⟩

theorem isWord_label {s : Symbol} (hs : s.Plain) : IsWord s.label.toList := by
  refine isWord_iff.mpr ⟨fun hnil => ?_, fun c hc => ?_⟩
  · have hunderscore := s.underscore_mem (by simp [hnil])
    exact absurd (hnil ▸ hunderscore) List.not_mem_nil
  · rcases Symbol.isNameChar_of_mem hs hc with hname | ⟨rfl, _⟩
    · exact not_isWhitespace_of_isNameChar hname
    · rfl

theorem isWord_toString (n : Nat) : IsWord (toString n).toList :=
  isWord_iff.mpr ⟨toString_ne_nil n, fun _ hc => not_isWhitespace_of_isNameChar
    (isNameChar_of_isDigit (isDigit_of_mem_toString hc))⟩

theorem IsWord.not_mem_lineFeed {cs : List Char} (h : IsWord cs) : '\n' ∉ cs :=
  fun hmem => absurd ((isWord_iff.mp h).2 _ hmem) (by decide)

/-! ## Lines -/

namespace Line

/-- The characters of a line up to the line feed at its end. -/
def body : Line → List Char
  | segment name => '\t' :: name.toList
  | label name => name.toList ++ [':']
  | directive name argument => '\t' :: (name.toList ++ '\t' :: argument.toList)
  | comment text => '\t' :: '#' :: ' ' :: text.toList
  | instr text => '\t' :: text.toList

theorem toList_text (l : Line) : l.text.toList = l.body ++ ['\n'] := by
  cases l <;> simp [text, body]

end Line

/-- A text in which every line has its line feed is taken apart into the lines. -/
theorem splitOn_lines {lines : List (List Char)} (h : ∀ line ∈ lines, '\n' ∉ line) :
    (lines.flatMap (· ++ ['\n'])).splitOn '\n' = lines ++ [[]] := by
  induction lines with
  | nil => rfl
  | cons line rest ih =>
    rw [List.flatMap_cons, List.append_assoc, List.singleton_append, List.splitOn_append_cons_self,
      List.splitOn_eq_singleton (h line List.mem_cons_self),
      ih fun line' hline' => h line' (List.mem_cons_of_mem _ hline')]
    rfl

theorem splitOn_textOf {ls : List Line} (h : ∀ l ∈ ls, '\n' ∉ l.body) :
    (textOf ls).toList.splitOn '\n' = ls.map Line.body ++ [[]] := by
  have htext : (textOf ls).toList = (ls.map Line.body).flatMap (· ++ ['\n']) := by
    rw [List.flatMap_map]
    simp [textOf, List.flatMap, Function.comp_def, Line.toList_text]
  rw [htext, splitOn_lines (List.forall_mem_map.mpr h)]

/-- What lines are read as: the symbols whose labels they define and name. -/
structure Reads (ls : List Line) (defined named : List Symbol) : Prop where
  oneLine : ∀ l ∈ ls, '\n' ∉ l.body
  plain : ∀ s ∈ defined, s.Plain
  defined : ls.filterMap (definedLabel? ·.body) = defined.map Symbol.label
  named : ls.flatMap (namedLabels ·.body) = named.map Symbol.label

namespace Reads

variable {ls ls' : List Line} {ds ds' ns ns' : List Symbol}

theorem definedLabels_textOf (h : Reads ls ds ns) :
    definedLabels (textOf ls) = ds.map Symbol.label := by
  rw [definedLabels, splitOn_textOf h.oneLine, List.filterMap_append, List.filterMap_map,
    ← h.defined]
  exact List.append_nil _

theorem referredLabels_textOf (h : Reads ls ds ns) :
    referredLabels (textOf ls) = ns.map Symbol.label := by
  rw [referredLabels, splitOn_textOf h.oneLine, List.flatMap_append, List.flatMap_map, ← h.named]
  exact List.append_nil _

theorem nodup_definedLabels (h : Reads ls ds ns) (hnodup : ds.Nodup) :
    (definedLabels (textOf ls)).Nodup := by
  rw [h.definedLabels_textOf]
  exact List.Nodup.map_on
    (fun s hs s' hs' => Symbol.label_inj (h.plain s hs) (h.plain s' hs')) hnodup

theorem nil : Reads [] [] [] where
  oneLine _ hl := absurd hl List.not_mem_nil
  plain _ hs := absurd hs List.not_mem_nil
  defined := rfl
  named := rfl

theorem append (h : Reads ls ds ns) (h' : Reads ls' ds' ns') :
    Reads (ls ++ ls') (ds ++ ds') (ns ++ ns') where
  oneLine l hl := (List.mem_append.mp hl).elim (h.oneLine l) (h'.oneLine l)
  plain s hs := (List.mem_append.mp hs).elim (h.plain s) (h'.plain s)
  defined := by rw [List.filterMap_append, List.map_append, h.defined, h'.defined]
  named := by rw [List.flatMap_append, List.map_append, h.named, h'.named]

theorem flatMap {α : Type} {xs : List α} {lines : α → List Line} {defined named : α → List Symbol}
    (h : ∀ x ∈ xs, Reads (lines x) (defined x) (named x)) :
    Reads (xs.flatMap lines) (xs.flatMap defined) (xs.flatMap named) := by
  induction xs with
  | nil => exact nil
  | cons x xs ih =>
    exact (h x List.mem_cons_self).append (ih fun y hy => h y (List.mem_cons_of_mem _ hy))

theorem flatMap_defined {α : Type} {xs : List α} {lines : α → List Line}
    {defined : α → List Symbol} (h : ∀ x ∈ xs, Reads (lines x) (defined x) []) :
    Reads (xs.flatMap lines) (xs.flatMap defined) [] := by
  have hnone : (xs.flatMap fun _ => ([] : List Symbol)) = [] :=
    List.flatMap_eq_nil_iff.mpr fun _ _ => rfl
  exact hnone ▸ flatMap h

/-! ## What single lines are read as -/

theorem single {l : Line} (hline : '\n' ∉ l.body) (hplain : ∀ s ∈ ds, s.Plain)
    (hdefined : (definedLabel? l.body).toList = ds.map Symbol.label)
    (hnamed : namedLabels l.body = ns.map Symbol.label) : Reads [l] ds ns where
  oneLine l' hl' := List.mem_singleton.mp hl' ▸ hline
  plain := hplain
  defined := by
    rw [← hdefined]
    cases h : definedLabel? l.body <;> simp [h]
  named := by rw [← hnamed, List.flatMap_singleton]

theorem label {s : Symbol} (hs : s.Plain) : Reads [.label s.label] [s] [] := by
  have hcolon : IsWord [':'] := by simp [IsWord]
  have hword := (isWord_label hs).append hcolon
  have hwords : wordsOf (Line.label s.label).body = [s.label.toList ++ [':']] := wordsOf_word hword
  refine single hword.not_mem_lineFeed (by simpa using hs) ?_ ?_
  · simp [definedLabel?, hwords]
  · have hlast (name : List Char) (h : s.label.toList ++ [':'] = name) :
        name.getLast? = some ':' := h ▸ List.getLast?_concat
    rw [namedLabels, hwords]
    exact if_neg fun h => h.elim (fun h => absurd (hlast _ h) (by decide))
      fun h => absurd (hlast _ h) (by decide)

/-- A line whose first word is neither a label nor one of the two directives. -/
theorem other {l : Line} {first : String} {rest : List (List Char)} (hline : '\n' ∉ l.body)
    (hwords : wordsOf l.body = first.toList :: rest)
    (hfirst : first.toList.getLast? ≠ some ':' ∧ first ≠ ".word" ∧ first ≠ ".globl") :
    Reads [l] [] [] := by
  refine single hline (by simp) ?_ ?_
  · simp [definedLabel?, hwords, hfirst.1]
  · rw [namedLabels, hwords]
    exact if_neg fun h => h.elim (fun h => hfirst.2.1 (String.toList_inj.mp h))
      fun h => hfirst.2.2 (String.toList_inj.mp h)

theorem segment {name : String} (hname : IsWord name.toList)
    (hfirst : name.toList.getLast? ≠ some ':' ∧ name ≠ ".word" ∧ name ≠ ".globl") :
    Reads [.segment name] [] [] := by
  have hwords : wordsOf (Line.segment name).body = [name.toList] :=
    (wordsOf_tab _).trans (wordsOf_word hname)
  refine other ?_ hwords hfirst
  exact List.not_mem_cons_of_ne_of_not_mem (by decide) hname.not_mem_lineFeed

theorem comment {text : String} (h : '\n' ∉ text.toList) : Reads [.comment text] [] [] := by
  have hwords : wordsOf (Line.comment text).body = "#".toList :: wordsOf text.toList :=
    (wordsOf_tab _).trans (wordsOf_append (x := ['#']) rfl text.toList)
  exact other (by simp [Line.body, h]) hwords (by decide)

theorem words_directive {name : String} (h : IsWord name.toList) (argument : String) :
    wordsOf (Line.directive name argument).body = name.toList :: wordsOf argument.toList := by
  rw [Line.body, wordsOf_tab, wordsOf_append rfl, wordsOf_word h]
  rfl

theorem directive {name argument : String} (hname : IsWord name.toList)
    (hfirst : name.toList.getLast? ≠ some ':' ∧ name ≠ ".word" ∧ name ≠ ".globl")
    (h : '\n' ∉ argument.toList) : Reads [.directive name argument] [] [] := by
  refine other ?_ (words_directive hname argument) hfirst
  simp [Line.body, h, hname.not_mem_lineFeed]

/-- The two directives name what stands behind them if it is not a number. -/
theorem operand {name : String} (hname : name = ".word" ∨ name = ".globl") {argument : String}
    (h : IsWord argument.toList)
    (hnamed : [argument].filter (!·.toList.all Char.isDigit) = ns.map Symbol.label) :
    Reads [.directive name argument] [] ns := by
  have hword : IsWord name.toList := by
    rcases hname with rfl | rfl <;> exact ⟨by decide, by decide⟩
  have hwords := words_directive hword argument
  rw [wordsOf_word h] at hwords
  refine single ?_ (by simp) ?_ ?_
  · simp [Line.body, h.not_mem_lineFeed, hword.not_mem_lineFeed]
  · have hcolon : name.toList.getLast? ≠ some ':' := by
      rcases hname with rfl | rfl <;> decide
    simp [definedLabel?, hwords, hcolon]
  · have hdirective : name.toList = ".word".toList ∨ name.toList = ".globl".toList :=
      hname.imp (congrArg String.toList) (congrArg String.toList)
    rw [namedLabels, hwords, ← hnamed]
    refine (if_pos hdirective).trans ?_
    cases hdigits : argument.toList.all Char.isDigit <;> simp [hdigits]

theorem reference {name : String} (hname : name = ".word" ∨ name = ".globl") {s : Symbol}
    (hs : s.Plain) : Reads [.directive name s.label] [] [s] :=
  operand hname (isWord_label hs) (by simp [s.exists_not_isDigit])

theorem references {name : String} (hname : name = ".word" ∨ name = ".globl") {α : Type}
    {xs : List α} (symbol : α → Symbol) (h : ∀ x ∈ xs, (symbol x).Plain) :
    Reads (xs.map fun x => .directive name (symbol x).label) [] (xs.map symbol) := by
  induction xs with
  | nil => exact nil
  | cons x xs ih =>
    exact (reference hname (h x List.mem_cons_self)).append
      (ih fun y hy => h y (List.mem_cons_of_mem _ hy))

theorem number (n : Nat) : Reads [.word (toString n)] [] [] := by
  refine operand (.inl rfl) (isWord_toString n) ?_
  have hdigits : (toString n).toList.all Char.isDigit = true :=
    List.all_eq_true.mpr fun _ hc => isDigit_of_mem_toString hc
  rw [List.filter_singleton, hdigits]
  rfl

theorem count (value : UInt64) : Reads [.count value] [] [] := number value.toNat

end Reads

/-! ## Quoted strings -/

/-- A quoted string stays on its line. -/
theorem lineFeed_not_mem_encode (value : String) : '\n' ∉ (Quoted.encode value).toList := by
  intro h
  have hcontrol := Quoted.isControl_of_mem_encode h
  revert hcontrol
  decide

end ClassCompiler.Assembly
