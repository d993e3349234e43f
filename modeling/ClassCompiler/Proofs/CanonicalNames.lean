import Mathlib.Data.List.DropRight
import Mathlib.Data.Set.Function
import ClassCompiler.Proofs.Overriding
import ClassCompiler.Proofs.ProperTypes

/-!
# Canonical names of types

A type can be spelled in several ways, since blanks in front of the brackets do not count. One of
them is the text of the type in messages. Names of classes are arbitrary texts, so some classes have
a name that is read as something else: that of a primitive type, one that ends in brackets, or, as
an element, one that ends in a blank. Such types no text stands for, and among the others the text
of a type leads back to it.

Results:
1. `TypeName.parse_bracketed`, `TypeName.parse_cases`: how a text is read.
2. `ClassTable.isNamed_of_resolve?`: which types have a name.
3. `ClassTable.resolve?_text`: the text of a type that has a name stands for it.
4. `ClassTable.sameTypeName_iff_canonicalName`: names agree if they have the same canonical name.
5. `ClassTable.type_names_canonical`: all of this together.
-/

namespace ClassCompiler

namespace TypeName

/-! ## Reading names -/

/-- The text is read as the name of a class. -/
structure IsPlain (text : String) : Prop where
  not_primitive : text ∉ ["int", "boolean", "void"]
  not_bracketed : ∀ front, text ≠ front ++ "[]"

/-- The text does not end in a blank. -/
def EndsSolid (text : String) : Prop :=
  ∀ h : text.toList ≠ [], ¬ Text.isBlank (text.toList.getLast h) = true

/-- Brackets at the end make an array of what is in front of them, without the blanks there. -/
theorem parse_bracketed (front : String) :
    parse (front ++ "[]") = .array (String.ofList (front.toList.rdropWhile Text.isBlank)) := by
  have hreverse : (front ++ "[]").toList.reverse = ']' :: '[' :: front.toList.reverse := by
    rw [String.toList_append, List.reverse_append]
    rfl
  rw [parse, hreverse]
  rfl

theorem parse_of_not_bracketed {text : String} (h : ∀ front, text ≠ front ++ "[]") :
    parse text = if text = "int" then .int else if text = "boolean" then .boolean
      else if text = "void" then .void else .named text := by
  unfold parse
  split
  · next front hreverse =>
    refine absurd ?_ (h (String.ofList front.reverse))
    rw [← String.toList_inj, ← List.reverse_inj, hreverse, String.toList_append,
      String.toList_ofList, List.reverse_append, List.reverse_reverse]
    rfl
  · rfl

theorem parse_of_isPlain {text : String} (h : IsPlain text) : parse text = .named text := by
  have hprimitive := h.not_primitive
  simp only [List.mem_cons, List.not_mem_nil, or_false, not_or] at hprimitive
  obtain ⟨hint, hboolean, hvoid⟩ := hprimitive
  rw [parse_of_not_bracketed h.not_bracketed, if_neg hint, if_neg hboolean, if_neg hvoid]

theorem parse_cases (text : String) :
    (∃ front, text = front ++ "[]") ∨
      text = "int" ∧ parse text = .int ∨ text = "boolean" ∧ parse text = .boolean ∨
        text = "void" ∧ parse text = .void ∨ IsPlain text ∧ parse text = .named text := by
  by_cases hbracketed : ∃ front, text = front ++ "[]"
  · exact .inl hbracketed
  · by_cases hprimitive : text ∈ ["int", "boolean", "void"]
    · simp only [List.mem_cons, List.not_mem_nil, or_false] at hprimitive
      rcases hprimitive with rfl | rfl | rfl
      · exact .inr (.inl ⟨rfl, by decide⟩)
      · exact .inr (.inr (.inl ⟨rfl, by decide⟩))
      · exact .inr (.inr (.inr (.inl ⟨rfl, by decide⟩)))
    · have hplain : IsPlain text := ⟨hprimitive, not_exists.mp hbracketed⟩
      exact .inr (.inr (.inr (.inr ⟨hplain, parse_of_isPlain hplain⟩)))

theorem exists_of_parse_eq_array {text elem : String} (h : parse text = .array elem) :
    ∃ front, text = front ++ "[]" := by
  by_contra hnone
  rw [parse_of_not_bracketed (not_exists.mp hnone)] at h
  split_ifs at h

end TypeName

namespace Ty

/-- The type has a name without brackets, and there are arrays of it. -/
inductive IsNamedElem (t : ClassTable) : Ty → Prop where
  | int : IsNamedElem t .int
  | boolean : IsNamedElem t .boolean
  | cls {name : String} (hmem : name ∈ t.names) (hplain : TypeName.IsPlain name) :
      IsNamedElem t (.cls name)

/-- Some text stands for the type. -/
inductive IsNamed (t : ClassTable) : Ty → Prop where
  | void : IsNamed t .void
  | elem {ty : Ty} (h : IsNamedElem t ty) : IsNamed t ty
  | array {ty : Ty} (h : IsNamedElem t ty) (hsolid : TypeName.EndsSolid ty.text) :
      IsNamed t (.array ty)

end Ty

namespace ClassTable

variable {t : ClassTable}

/-! ## What names stand for -/

/-- A name without brackets is the text of its type. -/
theorem resolveElem?_parse_iff {text : String} {ty : Ty} :
    t.resolveElem? (TypeName.parse text) = some ty ↔
      ty.text = text ∧ (ty = .void ∨ ty.IsNamedElem t) := by
  constructor
  · intro h
    rcases TypeName.parse_cases text with ⟨front, rfl⟩ | ⟨rfl, hparse⟩ | ⟨rfl, hparse⟩ |
      ⟨rfl, hparse⟩ | ⟨hplain, hparse⟩
    · rw [TypeName.parse_bracketed] at h
      cases h
    · rw [hparse] at h
      cases h
      exact ⟨rfl, .inr .int⟩
    · rw [hparse] at h
      cases h
      exact ⟨rfl, .inr .boolean⟩
    · rw [hparse] at h
      cases h
      exact ⟨rfl, .inl rfl⟩
    · rw [hparse] at h
      obtain ⟨hcontains, heq⟩ := Option.ite_none_right_eq_some.mp h
      cases heq
      exact ⟨rfl, .inr (.cls (contains_iff.mp hcontains) hplain)⟩
  · rintro ⟨rfl, rfl | helem⟩
    · rfl
    · cases helem with
      | int => rfl
      | boolean => rfl
      | cls hmem hplain =>
        rw [Ty.text, TypeName.parse_of_isPlain hplain, resolveElem?,
          if_pos (contains_iff.mpr hmem)]

theorem resolve?_of_resolveElem? {text : String} {ty : Ty}
    (h : t.resolveElem? (TypeName.parse text) = some ty) : t.resolve? text = some ty := by
  unfold resolve?
  split
  · next hparse =>
    rw [hparse] at h
    cases h
  · exact h

/-- The text of a type that has a name stands for the type. -/
theorem resolve?_text {ty : Ty} (h : ty.IsNamed t) : t.resolve? ty.text = some ty := by
  cases h with
  | void => rfl
  | elem helem => exact resolve?_of_resolveElem? (resolveElem?_parse_iff.mpr ⟨rfl, .inr helem⟩)
  | @array elem helem hsolid =>
    have htrim : String.ofList (elem.text.toList.rdropWhile Text.isBlank) = elem.text := by
      rw [List.rdropWhile_eq_self_iff.mpr hsolid, String.ofList_toList]
    have hresolve : t.resolveElem? (TypeName.parse elem.text) = some elem :=
      resolveElem?_parse_iff.mpr ⟨rfl, .inr helem⟩
    have hvoid : elem ≠ .void := by
      rintro rfl
      cases helem
    rw [Ty.text, resolve?, TypeName.parse_bracketed, htrim]
    simp [hresolve, hvoid]

/-- What a text stands for is a type that has a name: blanks are dropped in front of brackets, so a
class whose name ends in one is never taken for the element of an array. -/
theorem isNamed_of_resolve? {text : String} {ty : Ty} (h : t.resolve? text = some ty) :
    ty.IsNamed t := by
  unfold resolve? at h
  split at h
  · next elem hparse =>
    obtain ⟨front, rfl⟩ := TypeName.exists_of_parse_eq_array hparse
    cases (TypeName.parse_bracketed front).symm.trans hparse
    obtain ⟨ty, hfilter, rfl⟩ := Option.map_eq_some_iff.mp h
    obtain ⟨hresolve, hvoid⟩ := Option.filter_eq_some_iff.mp hfilter
    obtain ⟨htext, helem⟩ := resolveElem?_parse_iff.mp hresolve
    refine .array (helem.resolve_left (of_decide_eq_true hvoid)) ?_
    rw [htext, TypeName.EndsSolid, ← List.rdropWhile_eq_self_iff, String.toList_ofList]
    exact List.rdropWhile_idempotent _ _
  · obtain ⟨-, rfl | helem⟩ := resolveElem?_parse_iff.mp h
    · exact .void
    · exact .elem helem

/-! ## Names that agree -/

/-- The one name among all that stand for the same type; a name without a meaning is its own. -/
def canonicalName (t : ClassTable) (text : String) : String :=
  ((t.resolve? text).map Ty.text).getD text

theorem text_injOn : Set.InjOn Ty.text {ty | ∃ text, t.resolve? text = some ty} := by
  rintro ty ⟨text, h⟩ ty' ⟨text', h'⟩ htext
  have hty := resolve?_text (isNamed_of_resolve? h)
  rw [htext, resolve?_text (isNamed_of_resolve? h')] at hty
  exact (Option.some.inj hty).symm

theorem resolve?_canonicalName (text : String) :
    t.resolve? (t.canonicalName text) = t.resolve? text := by
  unfold canonicalName
  cases h : t.resolve? text with
  | none => exact h
  | some ty => exact resolve?_text (isNamed_of_resolve? h)

theorem sameTypeName_iff_canonicalName {a b : String} :
    t.sameTypeName a b = true ↔ t.canonicalName a = t.canonicalName b := by
  rw [sameTypeName_iff]
  constructor
  · rintro (rfl | ⟨ty, ha, hb⟩)
    · rfl
    · rw [canonicalName, canonicalName, ha, hb]
      rfl
  · intro h
    -- A canonical name stands for what the name stands for, so both stand for the same or nothing.
    have hresolve : t.resolve? a = t.resolve? b := by
      rw [← resolve?_canonicalName a, h, resolve?_canonicalName]
    cases hb : t.resolve? b with
    | none =>
      rw [canonicalName, canonicalName, hresolve, hb] at h
      exact .inl h
    | some ty => exact .inr ⟨ty, hresolve.trans hb, rfl⟩

/-- Whatever classes there are, a text stands for `void`, for a number, a boolean or a class, or for
an array of such but `void`, and the text of that type stands for it too. So the types that can be
named at all have different texts. Names agree if they have the same canonical name. This is an
equivalence, by which each name with a meaning agrees with the text of its type. -/
theorem type_names_canonical (t : ClassTable) :
    (∀ text ty, t.resolve? text = some ty → ty.IsNamed t ∧ t.resolve? ty.text = some ty) ∧
    (∀ ty, ty.IsNamed t → t.resolve? ty.text = some ty) ∧
    Set.InjOn Ty.text {ty | ∃ text, t.resolve? text = some ty} ∧
    Equivalence (fun a b => t.sameTypeName a b = true) ∧
    (∀ text ty, t.resolve? text = some ty → t.sameTypeName text ty.text = true) ∧
    ∀ a b, t.sameTypeName a b = true ↔ t.canonicalName a = t.canonicalName b := by
  refine ⟨fun text ty h => ⟨isNamed_of_resolve? h, resolve?_text (isNamed_of_resolve? h)⟩,
    fun ty h => resolve?_text h, text_injOn, ?_, fun text ty h => ?_,
    fun a b => sameTypeName_iff_canonicalName⟩
  · simp only [sameTypeName_iff_canonicalName]
    exact ⟨fun a => rfl, fun h => h.symm, fun h h' => h.trans h'⟩
  · exact sameTypeName_iff.mpr (.inr ⟨ty, h, resolve?_text (isNamed_of_resolve? h)⟩)

/-- A class with a name that is read as an array of another one, and a class with a name that is cut
short in front of brackets. -/
def oddNames : List ClassDecl := [{ name := "A" }, { name := "A[]" }, { name := "B " }]

/-- The blanks of `A \t[]` do not count, so that it stands for an array of `A` and not for the class
`A[]`, which no text stands for. The class `B ` has a name, but arrays of it have none. -/
theorem type_names_canonical_oddNames :
    let t := (Hierarchy.build oddNames).1
    ("A[]" ∈ t.names ∧ ¬ (Ty.cls "A[]").IsNamed t) ∧
    (t.resolve? "A \t[]" = some (.array (.cls "A")) ∧
      t.resolve? (Ty.array (.cls "A")).text = some (.array (.cls "A")) ∧
      t.sameTypeName "A \t[]" "A[]" = true) ∧
    t.resolve? "B " = some (.cls "B ") ∧ (Ty.cls "B ").IsNamed t ∧
      ¬ (Ty.array (.cls "B ")).IsNamed t := by
  intro t
  obtain ⟨hcanonical, hnamed, -, -, hsame, -⟩ := type_names_canonical t
  have harray : t.resolve? "A \t[]" = some (.array (.cls "A")) := by decide
  have hblank : t.resolve? "B " = some (.cls "B ") := by decide
  refine ⟨⟨by decide, fun h => ?_⟩, ⟨harray, (hcanonical _ _ harray).2, hsame _ _ harray⟩, hblank,
    (hcanonical _ _ hblank).1, fun h => ?_⟩
  · exact absurd (hnamed _ h) (by decide)
  · exact absurd (hnamed _ h) (by decide)

end ClassTable

end ClassCompiler
