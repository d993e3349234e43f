import Mathlib.Data.List.Infix
import ClassCompiler.Assembly.Line

/-!
# Naming schemes

A label tells what it stands for. The labels of methods are the only ones with a dot. Of the others,
those that are numbered end in a digit and are told apart by their beginning; the rest is told apart
by the ending. So whatever the names of the classes and methods are, two things never share a label.

Results:
1. `Symbol.isNameChar_of_mem`, `Symbol.exists_not_isDigit`: the characters of a label.
2. `Symbol.label_inj`: a label belongs to one symbol, if names are made of name characters;
   `Symbol.label_inj_of_data`: but for methods, this holds for all names.
-/

namespace ClassCompiler

/-- ASCII letters, digits and the underscore. -/
def isNameChar (c : Char) : Bool := c.isAlphanum || c == '_'

/-- A name as the grammar has it. -/
def IsIdentifier (name : String) : Prop := name ≠ "" ∧ name.toList.all isNameChar = true

instance (name : String) : Decidable (IsIdentifier name) := inferInstanceAs (Decidable (_ ∧ _))

theorem isNameChar_of_isDigit {c : Char} (h : c.isDigit = true) : isNameChar c = true := by
  simp [isNameChar, Char.isAlphanum, h]

theorem not_isWhitespace_of_isNameChar {c : Char} (h : isNameChar c = true) :
    c.isWhitespace = false := by
  have hne (blank : Char) (hblank : isNameChar blank = false) : c ≠ blank := by
    rintro rfl
    exact Bool.false_ne_true (hblank.symm.trans h)
  simp [Char.isWhitespace, hne ' ' rfl, hne '\t' rfl, hne '\r' rfl, hne '\n' rfl]

namespace Assembly

/-- The labels that are numbered through. -/
inductive Series where
  | className
  | fileName
  | stringConst
deriving DecidableEq

def Series.stem : Series → String
  | className => "class_name_"
  | fileName => "file_name_"
  | stringConst => "StringConst_"

/-- The labels that are told by their ending. -/
inductive Ending where
  | gcFlag
  | classNameTable
  | template
  | dispatchTable
  | init
deriving DecidableEq

def Ending.text : Ending → String
  | gcFlag => "gc_flag"
  | classNameTable => "class_name_table"
  | template => "_template"
  | dispatchTable => "_dispatch_table"
  | init => "_init"

/-- What a label stands for. -/
inductive Symbol where
  | numbered (series : Series) (number : Nat)
  | ended (stem : String) (ending : Ending)
  | method (cls name : String)
deriving DecidableEq

namespace Symbol

def label : Symbol → String
  | numbered series number => series.stem ++ toString number
  | ended stem ending => stem ++ ending.text
  | method cls name => Label.method cls name

/-- The names in the symbol are made of name characters. -/
def Plain : Symbol → Prop
  | numbered _ _ => True
  | ended stem _ => stem.toList.all isNameChar = true
  | method cls name => cls.toList.all isNameChar = true ∧ name.toList.all isNameChar = true

end Symbol

/-! ## Beginnings and endings -/

/-- The first character tells the series. -/
theorem Series.append_inj {a b : Series} {x y : List Char}
    (h : a.stem.toList ++ x = b.stem.toList ++ y) : a = b ∧ x = y := by
  have hab : a = b := by
    have hhead := congrArg List.head? h
    cases a <;> cases b <;> simp [Series.stem] at hhead ⊢
  subst hab
  exact ⟨rfl, List.append_cancel_left h⟩

/-- No ending is a part of another one. -/
theorem Ending.eq_of_suffix {a b : Ending} (h : a.text.toList <:+ b.text.toList) : a = b := by
  revert h
  cases a <;> cases b <;> decide

theorem Ending.append_inj {a b : Ending} {x y : List Char}
    (h : x ++ a.text.toList = y ++ b.text.toList) : x = y ∧ a = b := by
  have hab : a = b := by
    rcases List.suffix_or_suffix_of_suffix (List.suffix_append x a.text.toList)
      (h ▸ List.suffix_append y b.text.toList) with hs | hs
    · exact Ending.eq_of_suffix hs
    · exact (Ending.eq_of_suffix hs).symm
  subst hab
  exact ⟨List.append_cancel_right h, rfl⟩

theorem digits_inj {m n : Nat} (h : (toString m).toList = (toString n).toList) : m = n := by
  rw [Nat.toString_eq_ofList_toDigits, Nat.toString_eq_ofList_toDigits, String.toList_ofList,
    String.toList_ofList] at h
  rw [← Nat.ofDigitChars_ten_toDigits (n := m), h, Nat.ofDigitChars_ten_toDigits]

theorem toString_ne_nil (n : Nat) : (toString n).toList ≠ [] := by
  rw [Nat.toString_eq_ofList_toDigits, String.toList_ofList]
  exact Nat.toDigits_ne_nil

theorem isDigit_of_mem_toString {n : Nat} {c : Char} (h : c ∈ (toString n).toList) :
    c.isDigit = true := by
  rw [Nat.toString_eq_ofList_toDigits, String.toList_ofList] at h
  exact Nat.isDigit_of_mem_toDigits (by decide) (by decide) h

namespace Symbol

/-! ## The characters of a label -/

theorem dot_mem_method (cls name : String) : '.' ∈ (method cls name).label.toList := by
  simp [label, Label.method]

theorem underscore_mem {s : Symbol} (h : '.' ∉ s.label.toList) : '_' ∈ s.label.toList := by
  cases s with
  | numbered series number =>
    have hstem : '_' ∈ series.stem.toList := by cases series <;> decide
    rw [label, String.toList_append]
    exact List.mem_append_left _ hstem
  | ended stem ending =>
    have hending : '_' ∈ ending.text.toList := by cases ending <;> decide
    rw [label, String.toList_append]
    exact List.mem_append_right _ hending
  | method cls name => exact absurd (dot_mem_method cls name) h

/-- A label is not a number. -/
theorem exists_not_isDigit (s : Symbol) : ∃ c ∈ s.label.toList, c.isDigit = false := by
  by_cases hdot : '.' ∈ s.label.toList
  · exact ⟨'.', hdot, rfl⟩
  · exact ⟨'_', underscore_mem hdot, rfl⟩

/-- But for methods, a label is made of name characters. -/
theorem isNameChar_of_mem {s : Symbol} (hs : s.Plain) {c : Char} (hc : c ∈ s.label.toList) :
    isNameChar c = true ∨ c = '.' ∧ ∃ cls name, s = method cls name := by
  cases s with
  | numbered series number =>
    have hstem : series.stem.toList.all isNameChar = true := by cases series <;> decide
    rw [label, String.toList_append, List.mem_append] at hc
    rcases hc with hc | hc
    · exact .inl (List.all_eq_true.mp hstem c hc)
    · exact .inl (isNameChar_of_isDigit (isDigit_of_mem_toString hc))
  | ended stem ending =>
    have hending : ending.text.toList.all isNameChar = true := by cases ending <;> decide
    rw [label, String.toList_append, List.mem_append] at hc
    rcases hc with hc | hc
    · exact .inl (List.all_eq_true.mp hs c hc)
    · exact .inl (List.all_eq_true.mp hending c hc)
  | method cls name =>
    simp only [label, Label.method, String.toList_append, List.mem_append] at hc
    rcases hc with (hc | hc) | hc
    · exact .inl (List.all_eq_true.mp hs.1 c hc)
    · exact .inr ⟨by simpa using hc, cls, name, rfl⟩
    · exact .inl (List.all_eq_true.mp hs.2 c hc)

theorem dot_not_mem {s : Symbol} (hs : s.Plain) (h : ∀ cls name, s ≠ method cls name) :
    '.' ∉ s.label.toList := by
  intro hdot
  rcases isNameChar_of_mem hs hdot with hname | ⟨_, cls, name, heq⟩
  · exact absurd hname (by decide)
  · exact h cls name heq

/-! ## Labels are distinct -/

theorem numbered_ne_ended (series : Series) (number : Nat) (stem : String) (ending : Ending) :
    (numbered series number).label ≠ (ended stem ending).label := by
  intro h
  -- the last character is a digit on one side only
  obtain ⟨digit, hdigit⟩ :=
    Option.isSome_iff_exists.mp (List.getLast?_isSome.mpr (toString_ne_nil number))
  obtain ⟨last, hlast, hno⟩ :
      ∃ last, ending.text.toList.getLast? = some last ∧ last.isDigit = false := by
    cases ending <;> exact ⟨_, rfl, by decide⟩
  have hchars := congrArg (fun text => text.toList.getLast?) h
  simp only [label, String.toList_append, List.getLast?_append, hdigit, hlast, Option.some_or,
    Option.some.injEq] at hchars
  have hyes := isDigit_of_mem_toString (List.mem_of_getLast? hdigit)
  rw [hchars, hno] at hyes
  exact Bool.false_ne_true hyes

/-- The dot in the label of a method comes after the class. -/
theorem splitOn_method {cls name : String} (hs : (method cls name).Plain) :
    (method cls name).label.toList.splitOn '.' = [cls.toList, name.toList] := by
  have hdot {part : String} (h : part.toList.all isNameChar = true) : '.' ∉ part.toList :=
    fun hmem => absurd (List.all_eq_true.mp h _ hmem) (by decide)
  have hlabel : (method cls name).label.toList = cls.toList ++ '.' :: name.toList := by
    simp [label, Label.method]
  rw [hlabel, List.splitOn_append_cons_self, List.splitOn_eq_singleton (hdot hs.1),
    List.splitOn_eq_singleton (hdot hs.2), List.singleton_append]

/-- But for methods, a label belongs to one symbol only, whatever the names in it are. -/
theorem label_inj_of_data {a b : Symbol} (ha : ∀ cls name, a ≠ method cls name)
    (hb : ∀ cls name, b ≠ method cls name) (h : a.label = b.label) : a = b := by
  have hchars := congrArg String.toList h
  cases a with
  | numbered series number =>
    cases b with
    | numbered series' number' =>
      simp only [label, String.toList_append] at hchars
      obtain ⟨rfl, hdigits⟩ := Series.append_inj hchars
      rw [digits_inj hdigits]
    | ended stem ending => exact absurd h (numbered_ne_ended _ _ _ _)
    | method cls name => exact absurd rfl (hb cls name)
  | ended stem ending =>
    cases b with
    | numbered series number => exact absurd h.symm (numbered_ne_ended _ _ _ _)
    | ended stem' ending' =>
      simp only [label, String.toList_append] at hchars
      obtain ⟨hstem, rfl⟩ := Ending.append_inj hchars
      rw [String.toList_inj.mp hstem]
    | method cls name => exact absurd rfl (hb cls name)
  | method cls name => exact absurd rfl (ha cls name)

/-- A label belongs to one symbol only. -/
theorem label_inj {a b : Symbol} (ha : a.Plain) (hb : b.Plain) (h : a.label = b.label) : a = b := by
  cases a with
  | method cls name =>
    cases b with
    | method cls' name' =>
      have hparts := splitOn_method ha
      rw [h, splitOn_method hb, List.cons.injEq, List.cons.injEq] at hparts
      rw [String.toList_inj.mp hparts.1, String.toList_inj.mp hparts.2.1]
    | _ => exact absurd (h ▸ dot_mem_method cls name) (dot_not_mem hb (by simp))
  | _ =>
    cases b with
    | method cls name => exact absurd (h ▸ dot_mem_method cls name) (dot_not_mem ha (by simp))
    | _ => exact label_inj_of_data (by simp) (by simp) h

end Symbol

end Assembly

end ClassCompiler
