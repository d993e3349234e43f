import ClassCompiler.Proofs.CleanTable
import ClassCompiler.Typing.Expr

/-!
# Look-ups and rules

At a place in a clean program, each look-up and each test of the checker says what a rule of the
type system says.

Results:
1. `Declares.resolve?_iff`, `Declares.isSubtype_iff`: type names and subtyping.
2. `Declares.memberTy`, `Located.nameTy`, `Located.targetTy`: what has a type by the rules is found,
   with that type.
3. `Declares.memberTyped`, `Located.nameTyped`, `Located.targetTyped`: what is found has a type, if
   all declared types have a meaning.
4. `Declares.binaryFaults_iff`, `Declares.argMatches_iff` and the like: operators and arguments.
-/

namespace ClassCompiler

open Walk Rules Typing

/-! ## Type names and subtyping -/

namespace Declares

variable {P : List ClassDecl} {t : ClassTable} (h : Declares P t)
include h

theorem resolveElem?_iff (n : TypeName) (ty : Ty) :
    t.resolveElem? n = some ty ↔ ∃ τ, NamesElem P n τ ∧ τ.toTy = ty := by
  constructor
  · intro hr
    cases n with
    | int => exact ⟨.int, .int, Option.some.inj hr⟩
    | boolean => exact ⟨.boolean, .boolean, Option.some.inj hr⟩
    | void => exact ⟨.void, .void, Option.some.inj hr⟩
    | named name =>
      simp only [ClassTable.resolveElem?] at hr
      split at hr
      · next hc =>
        exact ⟨.cls name, .cls (h.mem_names_iff.mp (ClassTable.contains_iff.mp hc)),
          Option.some.inj hr⟩
      · exact nomatch hr
    | array elem => exact nomatch hr
  · rintro ⟨τ, hτ, rfl⟩
    cases hτ with
    | int | boolean | void => rfl
    | cls hc =>
      have hcontains := ClassTable.contains_iff.mpr (h.mem_names_iff.mpr hc)
      simp only [ClassTable.resolveElem?, hcontains, if_true]
      rfl

theorem resolve?_iff (text : String) (ty : Ty) :
    t.resolve? text = some ty ↔ ∃ τ, Names P text τ ∧ τ.toTy = ty := by
  unfold ClassTable.resolve?
  split
  · next elem hparse =>
    constructor
    · intro hr
      obtain ⟨x, hx, rfl⟩ := Option.map_eq_some_iff.mp hr
      obtain ⟨hx, hvoid⟩ := Option.filter_eq_some_iff.mp hx
      obtain ⟨τ, hτ, rfl⟩ := (h.resolveElem?_iff _ _).mp hx
      refine ⟨.array τ, .array hparse hτ ?_, rfl⟩
      rintro rfl
      simp [KnownTy.toTy] at hvoid
    · rintro ⟨τ, hτ, rfl⟩
      cases hτ with
      | simple hτ =>
        rw [hparse] at hτ
        exact nomatch hτ
      | @array elem' τ hparse' hτ hvoid =>
        cases hparse.symm.trans hparse'
        rw [(h.resolveElem?_iff _ _).mpr ⟨τ, hτ, rfl⟩]
        have hne : τ.toTy ≠ .void := fun heq => hvoid (KnownTy.toTy_injective (τ := .void) heq)
        simp [Option.filter, hne, KnownTy.toTy]
  · next hparse =>
    rw [h.resolveElem?_iff]
    constructor
    · rintro ⟨τ, hτ, rfl⟩
      exact ⟨τ, .simple hτ, rfl⟩
    · rintro ⟨τ, hτ, rfl⟩
      cases hτ with
      | simple hτ => exact ⟨τ, hτ, rfl⟩
      | array hparse' _ _ => exact absurd hparse' (hparse _)

theorem resolve?_of_names {text : String} {τ : KnownTy} (hτ : Names P text τ) :
    t.resolve? text = some τ.toTy :=
  (h.resolve?_iff text τ.toTy).mpr ⟨τ, hτ, rfl⟩

theorem names_unique {text : String} {σ τ : KnownTy} (hσ : Names P text σ) (hτ : Names P text τ) :
    σ = τ :=
  KnownTy.toTy_injective (Option.some.inj
    ((h.resolve?_of_names hσ).symm.trans (h.resolve?_of_names hτ)))

theorem subclass_iff (a b : String) : Subclass P a b ↔ Reaches t.parent? a b := by
  have hstep : Extends P = Step t.parent? := by
    funext a b
    exact propext (h.parent a b).symm
  rw [Subclass, hstep]
  rfl

theorem isSubclass_or_eq_iff (a b : String) :
    (a = b ∨ t.isSubclass a b = true) ↔ Subclass P a b := by
  rw [h.subclass_iff]
  constructor
  · rintro (rfl | hsub)
    · exact .refl
    · by_cases ha : a ∈ t.names
      · exact (h.rooted.isSubclass_iff ha).mp hsub
      · rw [ClassTable.isSubclass, ClassTable.ancestors,
          ClassTable.chain_of_find?_eq_none (ClassTable.find?_eq_none.mpr ha)] at hsub
        cases hsub
  · intro hr
    cases hr using Relation.ReflTransGen.head_induction_on with
    | refl => exact .inl rfl
    | head hs hr =>
      have ha := ClassTable.mem_names_of_parent? hs
      exact .inr ((h.rooted.isSubclass_iff ha).mpr (.head hs hr))

theorem isSubtype_iff (σ τ : KnownTy) : t.isSubtype σ.toTy τ.toTy = true ↔ Sub P σ τ := by
  unfold ClassTable.isSubtype
  rw [Bool.or_eq_true, decide_eq_true_eq, KnownTy.toTy_inj]
  constructor
  · rintro (rfl | hsub)
    · exact .refl σ
    · cases σ with
      | null =>
        cases τ with
        | cls name => exact .nullCls name
        | array elem => exact .nullArray elem
        | _ => exact nomatch hsub
      | cls a =>
        cases τ with
        | cls b => exact .cls ((h.isSubclass_or_eq_iff a b).mp (.inr hsub))
        | _ => exact nomatch hsub
      | array elem =>
        cases τ with
        | cls b =>
          have hb : b = objectName := by
            cases elem <;> simpa [KnownTy.toTy] using hsub
          exact hb ▸ .arrayObject elem
        | array elem' =>
          cases elem with
          | cls a =>
            cases elem' with
            | cls b => exact .array ((h.isSubclass_or_eq_iff a b).mp (.inr hsub))
            | _ => exact nomatch hsub
          | _ => cases elem' <;> exact nomatch hsub
        | _ => cases elem <;> exact nomatch hsub
      | _ => cases τ <;> exact nomatch hsub
  · intro hsub
    cases hsub with
    | refl => exact .inl rfl
    | nullCls name => exact .inr rfl
    | nullArray elem => exact .inr rfl
    | @cls a b hab =>
      rcases (h.isSubclass_or_eq_iff a b).mpr hab with rfl | hab
      · exact .inl rfl
      · exact .inr hab
    | arrayObject elem => cases elem <;> exact .inr rfl
    | @array a b hab =>
      rcases (h.isSubclass_or_eq_iff a b).mpr hab with rfl | hab
      · exact .inl rfl
      · exact .inr hab

end Declares

/-! ## Places -/

/-- The locals of the checker are those of the rules, and the base frame is empty. -/
structure Matches (locals : Scope Local) (Γ : List (Frame KnownTy)) : Prop where
  base_eq : locals.base = []
  inner_eq : locals.inner.map (·.map fun b => (b.1, b.2.ty)) =
    Γ.map (·.map fun b => (b.1, b.2.toTy))

/-- A class of a clean program that extends another one, so it is not the root. -/
structure Resident (P : List ClassDecl) (t : ClassTable) (cls : String) : Prop where
  declares : Declares P t
  named : ∀ c ∈ P, c.name ≠ ""
  home : ∃ parent, Extends P cls parent

/-- A place in such a class, with the locals of `Γ`. -/
structure Located (P : List ClassDecl) (Γ : List (Frame KnownTy)) (env : Env) : Prop
    extends Resident P env.table env.cls where
  locals : Matches env.locals Γ

/-- The texts by which a member declares types. -/
def Feature.typeNames : Feature → List String
  | field f => [f.typeName]
  | method m => m.returnName :: m.params.map (·.typeName)

/-- All types that a program declares have a meaning. -/
def TypesKnown (P : List ClassDecl) : Prop :=
  ∀ c ∈ P, ∀ f ∈ c.features, ∀ text ∈ f.typeNames, ∃ τ, Names P text τ

theorem ClassDecl.mem_fields {c : ClassDecl} {f : Field} :
    f ∈ c.fields ↔ Feature.field f ∈ c.features := by
  constructor
  · intro hf
    obtain ⟨feature, hmem, hfeature⟩ := List.mem_filterMap.mp hf
    cases feature with
    | field g => exact Option.some.inj hfeature ▸ hmem
    | method m => exact nomatch hfeature
  · exact fun hf => List.mem_filterMap.mpr ⟨_, hf, rfl⟩

theorem ClassDecl.mem_methods {c : ClassDecl} {m : Method} :
    m ∈ c.methods ↔ Feature.method m ∈ c.features := by
  constructor
  · intro hm
    obtain ⟨feature, hmem, hfeature⟩ := List.mem_filterMap.mp hm
    cases feature with
    | field f => exact nomatch hfeature
    | method m' => exact Option.some.inj hfeature ▸ hmem
  · exact fun hm => List.mem_filterMap.mpr ⟨_, hm, rfl⟩

namespace TypesKnown

variable {P : List ClassDecl} (h : TypesKnown P) {c : ClassDecl} (hc : c ∈ P)
include h hc

theorem field {f : Field} (hf : f ∈ c.fields) : ∃ τ, Names P f.typeName τ :=
  h c hc _ (ClassDecl.mem_fields.mp hf) _ List.mem_cons_self

theorem returned {m : Method} (hm : m ∈ c.methods) : ∃ τ, Names P m.returnName τ :=
  h c hc _ (ClassDecl.mem_methods.mp hm) _ List.mem_cons_self

theorem param {m : Method} (hm : m ∈ c.methods) {p : Param} (hp : p ∈ m.params) :
    ∃ τ, Names P p.typeName τ :=
  h c hc _ (ClassDecl.mem_methods.mp hm) _ (List.mem_cons_of_mem _ (List.mem_map_of_mem hp))

end TypesKnown

namespace Scope

variable {α : Type}

theorem lookup?_eq (s : Scope α) (name : String) :
    s.lookup? name = (s.inner.findSome? (·.lookup name)).or (s.base.lookup name) := by
  have hsearch (frames : List (Frame α)) :
      (lookupLevel?.search s name frames).map (·.2) =
        (frames.findSome? (·.lookup name)).or (s.base.lookup name) := by
    induction frames with
    | nil =>
      rw [lookupLevel?.search, Option.map_map]
      exact Option.map_id'
    | cons frame rest ih =>
      rw [lookupLevel?.search, List.findSome?_cons]
      cases frame.lookup name with
      | some value => rfl
      | none => exact ih
  exact hsearch s.inner

end Scope

namespace Matches

variable {locals : Scope Local} {Γ : List (Frame KnownTy)}

theorem lookup? (h : Matches locals Γ) (name : String) :
    (locals.lookup? name).map (·.ty) = (visible? Γ name).map KnownTy.toTy := by
  have hfind {α : Type} (frames : List (Frame α)) (f : α → Ty) :
      (frames.findSome? (·.lookup name)).map f =
        (frames.map (·.map fun b => (b.1, f b.2))).findSome? (·.lookup name) := by
    rw [List.map_findSome?, List.findSome?_map]
    refine congrArg (frames.findSome? ·) (funext fun frame => ?_)
    exact (lookup_map_snd frame f name).symm
  rw [Scope.lookup?_eq, h.base_eq, List.lookup_nil, Option.or_none, hfind, h.inner_eq, visible?,
    hfind]

theorem lookup?_of_visible (h : Matches locals Γ) {name : String} {τ : KnownTy}
    (hv : visible? Γ name = some τ) : ∃ l, locals.lookup? name = some l ∧ l.ty = τ.toTy := by
  have heq := h.lookup? name
  rw [hv] at heq
  exact Option.map_eq_some_iff.mp heq

theorem lookup?_eq_none (h : Matches locals Γ) {name : String} :
    locals.lookup? name = none ↔ visible? Γ name = none := by
  have heq := h.lookup? name
  rw [← Option.map_eq_none_iff (f := (·.ty)), heq, Option.map_eq_none_iff]

end Matches

theorem Rules.Inherits.exists_own {α : Type} {P : List ClassDecl} {own : ClassDecl → List α}
    {key : α → String} {cls : String} {a : α} (h : Inherits P own key cls a) :
    IsClass P cls ∧ ∃ c ∈ P, a ∈ own c := by
  induction h with
  | @own c a hc ha => exact ⟨⟨c, hc, rfl⟩, c, hc, ha⟩
  | @parent c parent a hc _ _ _ ih => exact ⟨⟨c, hc, rfl⟩, ih.2⟩

theorem Rules.Extends.isClass {P : List ClassDecl} {a b : String} (h : Extends P a b) :
    IsClass P a := by
  cases h with
  | declared hc _ => exact ⟨_, hc, rfl⟩
  | root hc _ _ => exact ⟨_, hc, rfl⟩

/-! ## Fields -/

theorem memberTy_cls (t : ClassTable) (c name : String) :
    memberTy t (.cls c) name =
      match t.declaredField? c name with
      | some text => .ok ((t.resolve? text).getD .untyped)
      | none => .error (.noSuchField (.cls c) name) := by
  unfold memberTy ClassTable.declaredField?
  cases hf : t.lookupField? c name with
  | none => simp [hf]
  | some r =>
    by_cases hrole : r.2.role = .declared
    · simp [Option.filter, fieldTy?, hf, hrole]
    · simp [Option.filter, hf, hrole]

namespace Declares

variable {P : List ClassDecl} {t : ClassTable} (h : Declares P t)
include h

theorem fieldTy?_of_ne (cls : String) {name : String} (hthis : name ≠ "this")
    (hsuper : name ≠ "super") :
    fieldTy? t cls name = (t.declaredField? cls name).map fun text =>
      (t.resolve? text).getD .untyped := by
  unfold fieldTy? ClassTable.declaredField?
  cases hf : t.lookupField? cls name with
  | none => rfl
  | some r =>
    have hrole := h.role_of_lookupField? hthis hsuper hf
    simp [Option.filter, hrole]

theorem fieldTy?_this {cls : String} (hcls : IsClass P cls) (hne : cls ≠ "") :
    fieldTy? t cls "this" = some (.cls cls) := by
  obtain ⟨e, he⟩ := ClassTable.exists_find? (h.mem_names_iff.mpr hcls)
  obtain ⟨c, _, hholds⟩ := h.decl cls e he
  have hname := ClassTable.name_of_find? he
  rw [fieldTy?, h.lookupField?_pseudo he hholds.lookup_this]
  simp [hname, hne]

theorem fieldTy?_super {cls parent : String} (hext : Extends P cls parent) (hne : parent ≠ "") :
    fieldTy? t cls "super" = some (.cls parent) := by
  obtain ⟨e, he⟩ := ClassTable.exists_find? (h.mem_names_iff.mpr hext.isClass)
  obtain ⟨c, _, hholds⟩ := h.decl cls e he
  have hparent := (h.parent cls parent).mpr hext
  rw [ClassTable.parent?, he, Option.bind_some] at hparent
  rw [fieldTy?, h.lookupField?_pseudo he hholds.lookup_super]
  simp [hparent, hne]

theorem isClass_of_extends {a b : String} (hext : Extends P a b) : IsClass P b :=
  h.mem_names_iff.mp (h.rooted.closed a (h.mem_names_iff.mpr hext.isClass) b
    ((h.parent a b).mpr hext))

/-- What has a type as a member is found as one. -/
theorem memberTy {σ τ : KnownTy} {name : String} (hm : MemberTyped P σ name τ) :
    Typing.memberTy t σ.toTy name = .ok τ.toTy := by
  cases hm with
  | length elem => rfl
  | @field c f τ hf hτ =>
    have hdeclared := (h.declaredField?_iff c f.name f.typeName).mpr ⟨f, hf, rfl, rfl⟩
    rw [KnownTy.toTy, memberTy_cls, hdeclared]
    simp only [h.resolve?_of_names hτ, Option.getD_some]

/-- What is found as a member has a type, if the declared types have a meaning. -/
theorem memberTyped (hP : TypesKnown P) {σ : KnownTy} {name : String} {ty : Ty}
    (hm : Typing.memberTy t σ.toTy name = .ok ty) : ∃ τ, MemberTyped P σ name τ := by
  cases σ with
  | array elem =>
    simp only [KnownTy.toTy, Typing.memberTy] at hm
    split at hm
    · next hname => exact ⟨.int, hname ▸ .length elem⟩
    · exact nomatch hm
  | cls c =>
    rw [KnownTy.toTy, memberTy_cls] at hm
    split at hm
    · next text htext =>
      obtain ⟨f, hf, rfl, rfl⟩ := (h.declaredField?_iff c name text).mp htext
      obtain ⟨_, d, hd, hmem⟩ := hf.exists_own
      obtain ⟨τ, hτ⟩ := hP.field hd hmem
      exact ⟨τ, .field hf hτ⟩
    · exact nomatch hm
  | _ => exact nomatch hm

end Declares

/-! ## Names and targets -/

namespace Located

variable {P : List ClassDecl} {Γ : List (Frame KnownTy)} {env : Env} (h : Located P Γ env)
include h

theorem ne_empty {name : String} (hc : IsClass P name) : name ≠ "" := by
  obtain ⟨c, hc, rfl⟩ := hc
  exact h.named c hc

theorem isClass_home : IsClass P env.cls := by
  obtain ⟨parent, hext⟩ := h.home
  exact hext.isClass

/-- The part of a name's look-up after the locals. -/
theorem nameTy_of_not_visible {name : String} (hnull : name ≠ "null")
    (hv : visible? Γ name = none) {ty : Ty} (hf : fieldTy? env.table env.cls name = some ty) :
    env.nameTy name = .ok ty := by
  rw [Env.nameTy, if_neg hnull, h.locals.lookup?_eq_none.mpr hv]
  simp only [hf]

theorem nameTy {name : String} {τ : KnownTy} (hn : NameTyped P env.cls Γ name τ) :
    env.nameTy name = .ok τ.toTy := by
  cases hn with
  | null => rfl
  | localVar hnull hv =>
    obtain ⟨l, hl, hty⟩ := h.locals.lookup?_of_visible hv
    rw [Env.nameTy, if_neg hnull, hl]
    simp only [hty]
  | this hv =>
    refine h.nameTy_of_not_visible (by decide) hv ?_
    exact h.declares.fieldTy?_this h.isClass_home (h.ne_empty h.isClass_home)
  | super hv hext =>
    refine h.nameTy_of_not_visible (by decide) hv ?_
    exact h.declares.fieldTy?_super hext (h.ne_empty (h.declares.isClass_of_extends hext))
  | @field f τ hnull hv hf hτ =>
    obtain ⟨hthis, hsuper⟩ := h.declares.ne_pseudo_of_hasField hf
    refine h.nameTy_of_not_visible hnull hv ?_
    rw [h.declares.fieldTy?_of_ne env.cls hthis hsuper,
      (h.declares.declaredField?_iff env.cls f.name f.typeName).mpr ⟨f, hf, rfl, rfl⟩]
    simp only [Option.map_some, h.declares.resolve?_of_names hτ, Option.getD_some]

theorem nameTyped (hP : TypesKnown P) {name : String} {ty : Ty} (hn : env.nameTy name = .ok ty) :
    ∃ τ, NameTyped P env.cls Γ name τ := by
  by_cases hnull : name = "null"
  · exact ⟨.null, hnull ▸ .null⟩
  · rw [Env.nameTy, if_neg hnull] at hn
    cases hv : visible? Γ name with
    | some τ => exact ⟨τ, .localVar hnull hv⟩
    | none =>
      rw [h.locals.lookup?_eq_none.mpr hv] at hn
      by_cases hthis : name = "this"
      · subst hthis
        exact ⟨.cls env.cls, .this hv⟩
      by_cases hsuper : name = "super"
      · subst hsuper
        obtain ⟨parent, hext⟩ := h.home
        exact ⟨.cls parent, .super hv hext⟩
      rw [h.declares.fieldTy?_of_ne env.cls hthis hsuper] at hn
      cases htext : env.table.declaredField? env.cls name with
      | none =>
        rw [htext] at hn
        exact nomatch hn
      | some text =>
        obtain ⟨f, hf, rfl, rfl⟩ := (h.declares.declaredField?_iff env.cls name text).mp htext
        obtain ⟨_, c, hc, hmem⟩ := hf.exists_own
        obtain ⟨τ, hτ⟩ := hP.field hc hmem
        exact ⟨τ, .field hnull hv hf hτ⟩

theorem targetTy {q : Option Qualifier} {name : String} {τ : KnownTy}
    (ht : TargetTyped P env.cls Γ q name τ) : env.targetTy q name = .ok τ.toTy := by
  cases ht with
  | plain hres hn =>
    rw [Env.targetTy, hres]
    exact h.nameTy hn
  | this hm => exact h.declares.memberTy hm
  | @super parent _ _ hext hm =>
    rw [Env.targetTy, (h.declares.parent env.cls parent).mpr hext]
    exact h.declares.memberTy hm

theorem targetTyped (hP : TypesKnown P) {q : Option Qualifier} {name : String} {ty : Ty}
    (ht : env.targetTy q name = .ok ty) : ∃ τ, TargetTyped P env.cls Γ q name τ := by
  cases q with
  | none =>
    rw [Env.targetTy] at ht
    split at ht
    · exact nomatch ht
    · next hres =>
      obtain ⟨τ, hτ⟩ := h.nameTyped hP ht
      exact ⟨τ, .plain (by simpa using hres) hτ⟩
  | some q =>
    cases q with
    | this =>
      obtain ⟨τ, hτ⟩ := h.declares.memberTyped (σ := .cls env.cls) hP ht
      exact ⟨τ, .this hτ⟩
    | super =>
      obtain ⟨parent, hext⟩ := h.home
      rw [Env.targetTy, (h.declares.parent env.cls parent).mpr hext] at ht
      obtain ⟨τ, hτ⟩ := h.declares.memberTyped (σ := .cls parent) hP ht
      exact ⟨τ, .super hext hτ⟩

end Located

/-! ## Tests of the checker -/

theorem faultsOf_eq_nil {α : Type} {span : Span} {r : Except Problem α} :
    faultsOf span r = [] ↔ ∃ a, r = .ok a := by
  cases r with
  | ok a => exact ⟨fun _ => ⟨a, rfl⟩, fun _ => rfl⟩
  | error problem => exact ⟨fun hr => (nomatch hr), fun ⟨a, ha⟩ => nomatch ha⟩

theorem elemTy_iff {name : String} {σ : KnownTy} {ty : Ty} :
    elemTy name σ.toTy = .ok ty ↔ ∃ τ, σ = .array τ ∧ τ.toTy = ty := by
  cases σ with
  | array elem =>
    refine ⟨fun he => ⟨elem, rfl, Except.ok.inj he⟩, ?_⟩
    rintro ⟨τ, hτ, rfl⟩
    cases hτ
    rfl
  | _ => exact ⟨fun he => (nomatch he), fun ⟨τ, hτ, _⟩ => nomatch hτ⟩

theorem operandFits_iff {expected σ : KnownTy} :
    operandFits expected.toTy σ.toTy = true ↔ σ = expected := by
  have hknown : σ.toTy.isUntyped = false := by cases σ <;> rfl
  rw [operandFits, hknown, Bool.or_false, decide_eq_true_eq, KnownTy.toTy_inj]

theorem operandsFit_iff {t : ClassTable} {op : BinaryOp} {σ τ : KnownTy} (expected : KnownTy)
    (hop : op.operandTy? = some expected.toTy) :
    operandsFit t op σ.toTy τ.toTy = true ↔ σ = expected ∧ τ = expected := by
  rw [operandsFit, hop]
  simp only [Bool.and_eq_true, operandFits_iff]

/-- A test that reports at most one fault. -/
theorem ite_fault_eq_nil {b : Bool} {f : Fault} : (if b then [] else [f]) = [] ↔ b = true := by
  cases b <;> simp

theorem unaryFaults_iff {span : Span} {op : UnaryOp} {σ : KnownTy} :
    unaryFaults span op σ.toTy = [] ↔ UnaryRule op σ := by
  rw [unaryFaults, ite_fault_eq_nil]
  cases op with
  | not =>
    rw [show UnaryOp.not.ty = KnownTy.boolean.toTy from rfl, operandFits_iff]
    exact ⟨fun hσ => hσ ▸ .not, fun hr => by cases hr with | not => rfl | number hop => simp at hop⟩
  | negate | increment | decrement =>
    rw [show UnaryOp.ty _ = KnownTy.int.toTy from rfl, operandFits_iff]
    exact ⟨fun hσ => hσ ▸ .number (by decide), fun hr => by cases hr with | number => rfl⟩

theorem Rules.UnaryRule.ty_eq {op : UnaryOp} {τ : KnownTy} (h : UnaryRule op τ) :
    op.ty = τ.toTy := by
  cases h with
  | not => rfl
  | number hop =>
    cases op with
    | not => simp at hop
    | negate | increment | decrement => rfl

theorem Rules.BinaryRule.resultTy_eq {P : List ClassDecl} {op : BinaryOp} {σ τ ρ : KnownTy}
    (h : BinaryRule P op σ τ ρ) : op.resultTy = ρ.toTy := by
  cases h with
  | arithmetic hop => cases op <;> first | rfl | simp at hop
  | relational hop => cases op <;> first | rfl | simp at hop
  | equality hop _ => cases op <;> first | rfl | simp at hop
  | logical hop => cases op <;> first | rfl | simp at hop

theorem Rules.sub_int {P : List ClassDecl} {σ : KnownTy} : Sub P σ .int ↔ σ = .int :=
  ⟨fun h => by cases h with | refl => rfl, fun h => h ▸ .refl _⟩

theorem Rules.sub_boolean {P : List ClassDecl} {σ : KnownTy} : Sub P σ .boolean ↔ σ = .boolean :=
  ⟨fun h => by cases h with | refl => rfl, fun h => h ▸ .refl _⟩

theorem mustEqual_iff {τ : KnownTy} : τ.toTy.mustEqual = true ↔ Exact τ := by
  cases τ <;> simp [KnownTy.toTy, Ty.mustEqual, Exact]

namespace Declares

variable {P : List ClassDecl} {t : ClassTable} (h : Declares P t)
include h

theorem conformFaults_iff {span : Span} {σ τ : KnownTy} :
    conformFaults t span σ.toTy τ.toTy = [] ↔ Sub P σ τ := by
  rw [conformFaults, ite_fault_eq_nil, h.isSubtype_iff]

theorem binaryFaults_iff {span : Span} {op : BinaryOp} {σ τ : KnownTy} :
    binaryFaults t span op σ.toTy τ.toTy = [] ↔ ∃ ρ, BinaryRule P op σ τ ρ := by
  rw [binaryFaults, ite_fault_eq_nil]
  -- the operators come in four groups, and each group has one rule
  cases op with
  | equals | notEquals =>
    simp only [operandsFit, BinaryOp.operandTy?, Bool.or_eq_true, h.isSubtype_iff]
    constructor
    · exact fun hsub => ⟨.boolean, .equality (by decide) hsub⟩
    · rintro ⟨ρ, hr⟩
      cases hr with
      | equality _ hsub => exact hsub
      | arithmetic hop | relational hop | logical hop => simp at hop
  | and | or =>
    rw [operandsFit_iff .boolean rfl]
    constructor
    · rintro ⟨rfl, rfl⟩
      exact ⟨.boolean, .logical (by decide)⟩
    · rintro ⟨ρ, hr⟩
      cases hr with
      | logical _ => exact ⟨rfl, rfl⟩
      | arithmetic hop | relational hop | equality hop _ => simp at hop
  | add | subtract | multiply | divide | modulus =>
    rw [operandsFit_iff .int rfl]
    constructor
    · rintro ⟨rfl, rfl⟩
      exact ⟨.int, .arithmetic (by decide)⟩
    · rintro ⟨ρ, hr⟩
      cases hr with
      | arithmetic _ => exact ⟨rfl, rfl⟩
      | relational hop | equality hop _ | logical hop => simp at hop
  | lessThan | greaterThan | lessEquals | greaterEquals =>
    rw [operandsFit_iff .int rfl]
    constructor
    · rintro ⟨rfl, rfl⟩
      exact ⟨.boolean, .relational (by decide)⟩
    · rintro ⟨ρ, hr⟩
      cases hr with
      | relational _ => exact ⟨rfl, rfl⟩
      | arithmetic hop | equality hop _ | logical hop => simp at hop

theorem argMatches_iff {σ τ : KnownTy} : argMatches t σ.toTy τ.toTy = true ↔ ArgFits P σ τ := by
  have hknown (ρ : KnownTy) : ρ.toTy.isUntyped = false := by cases ρ <;> rfl
  rw [argMatches, hknown, hknown, Bool.false_or, Bool.false_or]
  by_cases hexact : Exact τ
  · rw [mustEqual_iff.mpr hexact, if_pos rfl, decide_eq_true_eq, KnownTy.toTy_inj]
    constructor
    · rintro rfl
      exact .exact hexact
    · intro hfits
      cases hfits with
      | exact _ => rfl
      | sub hnot _ => exact absurd hexact hnot
  · rw [if_neg (mt mustEqual_iff.mp hexact), h.isSubtype_iff]
    constructor
    · exact fun hsub => .sub hexact hsub
    · intro hfits
      cases hfits with
      | exact hyes => exact absurd hyes hexact
      | sub _ hsub => exact hsub

theorem namedTy_iff {typeName : String} {ty : Ty} :
    namedTy t typeName = .ok ty ↔ ∃ τ, Names P typeName τ ∧ τ.toTy = ty := by
  rw [← h.resolve?_iff, namedTy]
  cases t.resolve? typeName <;> simp

theorem newTy_iff {typeName : String} {ty : Ty} :
    newTy t typeName = .ok ty ↔ ∃ name, Names P typeName (.cls name) ∧ ty = .cls name := by
  constructor
  · intro hn
    unfold newTy at hn
    split at hn
    · next name hr =>
      obtain ⟨τ, hτ, heq⟩ := (h.resolve?_iff _ _).mp hr
      cases KnownTy.toTy_injective (τ := .cls name) heq
      exact ⟨name, hτ, (Except.ok.inj hn).symm⟩
    · exact nomatch hn
  · rintro ⟨name, hτ, rfl⟩
    rw [newTy, h.resolve?_of_names hτ]
    rfl

theorem newArrayTy_iff {elemName : String} {ty : Ty} :
    newArrayTy t elemName = .ok ty ↔
      ∃ τ, Names P elemName τ ∧ τ ≠ .void ∧ (∀ σ, τ ≠ .array σ) ∧ ty = .array τ.toTy := by
  constructor
  · intro hn
    unfold newArrayTy at hn
    split at hn
    · exact nomatch hn
    · exact nomatch hn
    · exact nomatch hn
    · next elem hvoid harray hr =>
      obtain ⟨τ, hτ, rfl⟩ := (h.resolve?_iff _ _).mp hr
      refine ⟨τ, hτ, ?_, ?_, (Except.ok.inj hn).symm⟩
      · rintro rfl
        exact hvoid rfl
      · rintro σ rfl
        exact harray σ.toTy rfl
  · rintro ⟨τ, hτ, hvoid, harray, rfl⟩
    rw [newArrayTy, h.resolve?_of_names hτ]
    cases τ with
    | void => exact absurd rfl hvoid
    | array σ => exact absurd rfl (harray σ)
    | _ => rfl

theorem instanceOfFaults_iff {span : Span} {σ τ : KnownTy} :
    instanceOfFaults t span σ.toTy (.ok τ.toTy) = [] ↔ Sub P τ σ := by
  rw [instanceOfFaults, ite_fault_eq_nil, h.isSubtype_iff]

theorem castFaults_iff {span : Span} {σ τ : KnownTy} :
    castFaults t span σ.toTy (.ok τ.toTy) = [] ↔ Sub P σ τ ∨ Sub P τ σ := by
  rw [castFaults, ite_fault_eq_nil, Bool.or_eq_true, h.isSubtype_iff, h.isSubtype_iff]

/-! ## Calls -/

theorem callee_of_hasMethod {σ : KnownTy} {owner : String} {m : Method} (hr : Receives σ owner)
    (hm : HasMethod P owner m) :
    ∃ b, callee t σ.toTy m.name = .method b ∧ b.signature = m.signature := by
  obtain ⟨r, hfound, hsig⟩ := Option.map_eq_some_iff.mp
    ((h.lookupMethod?_iff owner m.name m.signature).mpr ⟨m, hm, rfl, rfl⟩)
  refine ⟨r.2, ?_, hsig⟩
  have howner : receiverClass? t σ.toTy = some owner := by
    cases hr with
    | cls =>
      have hcontains := ClassTable.contains_iff.mpr (h.mem_names_iff.mpr hm.exists_own.1)
      simp only [KnownTy.toTy, receiverClass?, hcontains, if_true]
    | array elem => rfl
  rw [callee, if_neg σ.toTy_ne_untyped, howner]
  simp only [hfound]

/-- A call without a fault leads to a method. -/
theorem exists_method_of_callFaults {span : Span} {σ : KnownTy} {method : String}
    {args : List (Ty × Span)} (hf : callFaults t span method args (callee t σ.toTy method) = []) :
    ∃ owner m, Receives σ owner ∧ HasMethod P owner m ∧ m.name = method := by
  rw [callee, if_neg σ.toTy_ne_untyped] at hf
  cases howner : receiverClass? t σ.toTy with
  | none =>
    rw [howner] at hf
    exact nomatch hf
  | some owner =>
    rw [howner] at hf
    have hreceives : Receives σ owner := by
      cases σ with
      | cls name =>
        simp only [KnownTy.toTy, receiverClass?] at howner
        split at howner
        · exact Option.some.inj howner ▸ .cls name
        · exact nomatch howner
      | array elem => exact Option.some.inj howner ▸ .array elem
      | _ => exact nomatch howner
    cases hfound : t.lookupMethod? owner method with
    | none =>
      simp only [hfound] at hf
      exact nomatch hf
    | some r =>
      obtain ⟨m, hm, hname, _⟩ := (h.lookupMethod?_iff owner method r.2.signature).mp
        (by rw [hfound, Option.map_some])
      exact ⟨owner, m, hreceives, hm, hname⟩

end Declares

end ClassCompiler
