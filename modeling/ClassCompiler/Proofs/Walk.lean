import Mathlib.Data.List.Chain
import Mathlib.Logic.Relation

/-!
# Walks along links

A link function gives every name at most one successor, as the parent links of a class table do. A
walk follows the links from a name. Either it comes to an end, or it runs into a cycle.

Results:
1. `EndsIn.nodup_trail`, `EndsIn.trail_eq`: a walk that ends visits no name twice, and a budget
   beyond its length changes nothing; `EndsIn.lt_length` bounds the length by the number of names.
2. `EndsIn.not_onCycle`: no walk that ends starts on a cycle.
3. `OnCycle.isCycle_trail`: cutting the links back to a name on a cycle turns the cycle into a walk
   that ends, and this walk lists the cycle.
4. `EndsIn.redirect`, `endsIn_redirect_of_reaches`: sending a whole cycle to a name without a
   successor keeps the walks that ended before and ends those that ran into the cycle.
-/

namespace ClassCompiler.Walk

/-- The successor of every name that has one. -/
abbrev Links := String → Option String

/-- `Step g a b`: the link of `a` leads to `b`. -/
def Step (g : Links) (a b : String) : Prop := g a = some b

/-- `Reaches g a b`: the links lead from `a` to `b`, in any number of steps. -/
def Reaches (g : Links) : String → String → Prop := Relation.ReflTransGen (Step g)

/-- The links lead from a name back to itself. -/
def OnCycle (g : Links) (a : String) : Prop := Relation.TransGen (Step g) a a

/-- `EndsIn g n a`: the walk from `a` comes to its end after exactly `n` steps. -/
inductive EndsIn (g : Links) : Nat → String → Prop
  | last {a : String} : g a = none → EndsIn g 0 a
  | step {n : Nat} {a b : String} : g a = some b → EndsIn g n b → EndsIn g (n + 1) a

/-- The names met on a walk, the first one included, as far as the budget goes. -/
def trail (g : Links) : (budget : Nat) → String → List String
  | 0, _ => []
  | budget + 1, a =>
    a :: match g a with
      | some b => trail g budget b
      | none => []

/-- The names are closed under the links. -/
def Closed (g : Links) (names : List String) : Prop :=
  ∀ a ∈ names, ∀ b, g a = some b → b ∈ names

/-! ## Trails -/

variable {g : Links}

theorem head?_trail (budget : Nat) (a : String) : (trail g (budget + 1) a).head? = some a := rfl

theorem isChain_trail (budget : Nat) (a : String) : (trail g budget a).IsChain (Step g) := by
  induction budget generalizing a with
  | zero => exact .nil
  | succ budget ih =>
    unfold trail
    cases hb : g a with
    | none => exact .singleton a
    | some b =>
      refine (ih b).cons fun y hy => ?_
      cases budget with
      | zero => simp [trail] at hy
      | succ k =>
        rw [head?_trail, Option.mem_some_iff] at hy
        exact hy ▸ hb

theorem trail_subset {names : List String} (hc : Closed g names) (budget : Nat) {a : String}
    (ha : a ∈ names) : trail g budget a ⊆ names := by
  induction budget generalizing a with
  | zero => exact List.nil_subset names
  | succ budget ih =>
    refine List.cons_subset.mpr ⟨ha, ?_⟩
    cases hb : g a with
    | none => exact List.nil_subset names
    | some b => exact ih (hc a ha b hb)

theorem reaches_of_mem_trail {budget : Nat} {a x : String} (hx : x ∈ trail g budget a) :
    Reaches g a x := by
  induction budget generalizing a with
  | zero => exact absurd hx List.not_mem_nil
  | succ budget ih =>
    unfold trail at hx
    rcases List.mem_cons.mp hx with rfl | hx
    · exact .refl
    · cases hb : g a with
      | none => simp [hb] at hx
      | some b =>
        rw [hb] at hx
        exact .head hb (ih hx)

/-! ## Walks that end -/

namespace EndsIn

theorem unique {n m : Nat} {a : String} (hn : EndsIn g n a) (hm : EndsIn g m a) : n = m := by
  induction hn generalizing m with
  | last ha =>
    cases hm with
    | last => rfl
    | step hb _ => exact nomatch ha.symm.trans hb
  | step hb _ ih =>
    cases hm with
    | last ha => exact nomatch ha.symm.trans hb
    | step hc hm =>
      cases hb.symm.trans hc
      rw [ih hm]

theorem of_step {n : Nat} {a b : String} (h : EndsIn g n a) (hs : Step g a b) :
    ∃ m, m < n ∧ EndsIn g m b := by
  cases h with
  | last ha => exact nomatch ha.symm.trans hs
  | step hb h =>
    cases hb.symm.trans hs
    exact ⟨_, Nat.lt_succ_self _, h⟩

theorem of_reaches {n : Nat} {a b : String} (h : EndsIn g n a) (hr : Reaches g a b) :
    ∃ m, m ≤ n ∧ EndsIn g m b := by
  induction hr with
  | refl => exact ⟨n, Nat.le_refl n, h⟩
  | tail _ hs ih =>
    obtain ⟨m, hm, h⟩ := ih
    obtain ⟨k, hk, h⟩ := h.of_step hs
    exact ⟨k, by omega, h⟩

/-- A walk that ends never comes back: each step shortens what is left of it. -/
theorem not_onCycle {n : Nat} {a : String} (h : EndsIn g n a) : ¬ OnCycle g a := by
  intro hc
  obtain ⟨b, hs, hr⟩ := Relation.TransGen.head'_iff.mp hc
  obtain ⟨m, hm, hb⟩ := h.of_step hs
  obtain ⟨k, hk, ha⟩ := hb.of_reaches hr
  have := h.unique ha
  omega

/-- Once the budget covers the whole walk, more of it changes nothing. -/
theorem trail_eq {n : Nat} {a : String} (h : EndsIn g n a) {budget : Nat} (hn : n < budget) :
    trail g budget a = trail g (n + 1) a := by
  induction h generalizing budget with
  | last ha =>
    obtain ⟨k, rfl⟩ := Nat.exists_eq_add_one_of_ne_zero (Nat.ne_of_gt hn)
    simp [trail, ha]
  | step hb _ ih =>
    obtain ⟨k, rfl⟩ := Nat.exists_eq_add_one_of_ne_zero (Nat.ne_zero_of_lt hn)
    unfold trail
    rw [hb]
    exact congrArg _ (ih (by omega))

theorem length_trail {n : Nat} {a : String} (h : EndsIn g n a) :
    (trail g (n + 1) a).length = n + 1 := by
  induction h with
  | last ha => simp [trail, ha]
  | step hb _ ih =>
    unfold trail
    rw [hb]
    exact congrArg (· + 1) ih

theorem nodup_trail {n : Nat} {a : String} (h : EndsIn g n a) (budget : Nat) :
    (trail g budget a).Nodup := by
  induction budget generalizing n a with
  | zero => exact List.nodup_nil
  | succ budget ih =>
    unfold trail
    cases hb : g a with
    | none => simp
    | some b =>
      obtain ⟨m, hm, hb'⟩ := h.of_step hb
      refine List.nodup_cons.mpr ⟨fun ha => ?_, ih hb'⟩
      -- the walk from `a` is longer than what is left of it at any later name
      obtain ⟨k, hk, ha'⟩ := hb'.of_reaches (reaches_of_mem_trail ha)
      have := h.unique ha'
      omega

theorem getLast?_trail {n : Nat} {a : String} (h : EndsIn g n a) :
    ∃ z, (trail g (n + 1) a).getLast? = some z ∧ g z = none := by
  induction h with
  | @last a ha => exact ⟨a, by simp [trail, ha], ha⟩
  | @step n a b hb _ ih =>
    obtain ⟨z, hz, hnone⟩ := ih
    refine ⟨z, ?_, hnone⟩
    unfold trail
    rw [hb, List.getLast?_cons, hz]
    rfl

theorem lt_length {n : Nat} {a : String} (h : EndsIn g n a) {names : List String}
    (hc : Closed g names) (ha : a ∈ names) : n < names.length := by
  have hle := (h.nodup_trail (n + 1)).length_le_of_subset (trail_subset hc (n + 1) ha)
  rw [h.length_trail] at hle
  omega

end EndsIn

theorem endsIn_of_reaches {a z : String} (hr : Reaches g a z) (hz : g z = none) :
    ∃ n, EndsIn g n a := by
  induction hr using Relation.ReflTransGen.head_induction_on with
  | refl => exact ⟨0, .last hz⟩
  | head hs _ ih =>
    obtain ⟨n, hn⟩ := ih
    exact ⟨n + 1, .step hs hn⟩

theorem Reaches.congr {g' : Links} {a b : String} (h : Reaches g a b)
    (heq : ∀ x, Reaches g a x → g' x = g x) : Reaches g' a b := by
  induction h with
  | refl => exact .refl
  | @tail b c hb hbc ih => exact ih.tail ((heq b hb).trans hbc)

/-! ## Cycles -/

/-- A list of names goes round a cycle once: each name links to the next and the last one to the
first. -/
def IsCycle (g : Links) (cycle : List String) : Prop :=
  cycle.Nodup ∧ cycle.IsChain (Step g) ∧
    ∃ first last, cycle.head? = some first ∧ cycle.getLast? = some last ∧ Step g last first

/-- The links without those that lead to `start`. -/
def cut (g : Links) (start : String) : Links := fun a => (g a).filter (· ≠ start)

theorem cut_eq_some {start a b : String} : cut g start a = some b ↔ g a = some b ∧ b ≠ start := by
  simp [cut, Option.filter_eq_some_iff]

theorem cut_eq_none {start a : String} (h : Step g a start) : cut g start a = none := by
  rw [cut, show g a = some start from h]
  simp

theorem Reaches.of_cut {start a b : String} (h : Reaches (cut g start) a b) : Reaches g a b := by
  induction h with
  | refl => exact .refl
  | tail _ hs ih => exact ih.tail (cut_eq_some.mp hs).1

theorem Reaches.cut {start b : String} (h : Reaches g start b) : Reaches (cut g start) start b := by
  induction h with
  | refl => exact .refl
  | @tail b c _ hs ih =>
    by_cases hc : c = start
    · exact hc ▸ .refl
    · exact ih.tail (cut_eq_some.mpr ⟨hs, hc⟩)

theorem Closed.cut {names : List String} (hc : Closed g names) (start : String) :
    Closed (cut g start) names :=
  fun a ha b hb => hc a ha b (cut_eq_some.mp hb).1

namespace OnCycle

theorem step {a b : String} (h : OnCycle g a) (hs : Step g a b) : OnCycle g b ∧ Reaches g b a := by
  obtain ⟨c, hs', hr⟩ := Relation.TransGen.head'_iff.mp h
  cases hs.symm.trans hs'
  exact ⟨Relation.TransGen.tail' hr hs, hr⟩

theorem of_reaches {a b : String} (h : OnCycle g a) (hr : Reaches g a b) :
    OnCycle g b ∧ Reaches g b a := by
  induction hr with
  | refl => exact ⟨h, .refl⟩
  | tail _ hs ih =>
    obtain ⟨hb, hba⟩ := ih
    obtain ⟨hc, hcb⟩ := hb.step hs
    exact ⟨hc, hcb.trans hba⟩

theorem ne_none {a : String} (h : OnCycle g a) : g a ≠ none := by
  obtain ⟨b, hs, _⟩ := Relation.TransGen.head'_iff.mp h
  exact fun hn => nomatch hn.symm.trans hs

/-- Links that agree with `g` on everything reached from a cycle of `g` have that cycle too. -/
theorem congr {g' : Links} {a : String} (h : OnCycle g a)
    (heq : ∀ x, Reaches g a x → g' x = g x) : OnCycle g' a := by
  obtain ⟨z, hr, hs⟩ := Relation.TransGen.tail'_iff.mp h
  exact Relation.TransGen.tail' (Reaches.congr hr heq) ((heq z hr).trans hs)

/-- Without the links back to its start a cycle is a walk that ends. -/
theorem endsIn_cut {a : String} (h : OnCycle g a) : ∃ n, EndsIn (Walk.cut g a) n a := by
  obtain ⟨z, hr, hs⟩ := Relation.TransGen.tail'_iff.mp h
  exact endsIn_of_reaches (Reaches.cut hr) (cut_eq_none hs)

/-- The names met from `a` until the links lead back to it go round its cycle. -/
theorem isCycle_trail {a : String} (h : OnCycle g a) {names : List String} (hc : Closed g names)
    (ha : a ∈ names) {budget : Nat} (hb : names.length ≤ budget) :
    IsCycle g (trail (Walk.cut g a) budget a) := by
  obtain ⟨n, hn⟩ := h.endsIn_cut
  have hlt := hn.lt_length (hc.cut a) ha
  obtain ⟨z, hz, hnone⟩ := hn.getLast?_trail
  have hzmem := List.mem_of_getLast? hz
  -- the last name has a link, and the cut took it away, so it leads to `a`
  obtain ⟨hzc, _⟩ := h.of_reaches (reaches_of_mem_trail hzmem).of_cut
  obtain ⟨b, hs⟩ := Option.ne_none_iff_exists'.mp hzc.ne_none
  have hba : b = a := by
    by_contra hne
    exact nomatch hnone.symm.trans (cut_eq_some.mpr ⟨hs, hne⟩)
  rw [hn.trail_eq (by omega)]
  refine ⟨hn.nodup_trail _, (isChain_trail _ a).imp fun _ _ h => (cut_eq_some.mp h).1, a, z, ?_⟩
  exact ⟨head?_trail n a, hz, hba ▸ hs⟩

end OnCycle

namespace IsCycle

theorem reaches_last {cycle : List String} (hchain : cycle.IsChain (Step g)) {x z : String}
    (hx : x ∈ cycle) (hz : cycle.getLast? = some z) : Reaches g x z := by
  induction cycle generalizing x with
  | nil => exact absurd hx List.not_mem_nil
  | cons a rest ih =>
    cases rest with
    | nil =>
      simp only [List.mem_singleton] at hx
      simp only [List.getLast?_singleton, Option.some.injEq] at hz
      exact hx ▸ hz ▸ .refl
    | cons b rest =>
      have hz' : (b :: rest).getLast? = some z := by simpa using hz
      obtain ⟨hab, htail⟩ := List.isChain_cons_cons.mp hchain
      rcases List.mem_cons.mp hx with rfl | hx
      · exact .head hab (ih htail List.mem_cons_self hz')
      · exact ih htail hx hz'

theorem reaches_of_head {cycle : List String} (hchain : cycle.IsChain (Step g)) {a x : String}
    (ha : cycle.head? = some a) (hx : x ∈ cycle) : Reaches g a x := by
  induction cycle generalizing a with
  | nil => exact absurd hx List.not_mem_nil
  | cons b rest ih =>
    simp only [List.head?_cons, Option.some.injEq] at ha
    subst ha
    rcases List.mem_cons.mp hx with rfl | hx
    · exact .refl
    · cases rest with
      | nil => exact absurd hx List.not_mem_nil
      | cons c rest =>
        obtain ⟨hbc, htail⟩ := List.isChain_cons_cons.mp hchain
        exact .head hbc (ih htail rfl hx)

theorem onCycle {cycle : List String} (h : IsCycle g cycle) {x : String} (hx : x ∈ cycle) :
    OnCycle g x := by
  obtain ⟨_, hchain, first, last, hf, hl, hs⟩ := h
  exact (Relation.TransGen.tail' (reaches_last hchain hx hl) hs).trans_left
    (reaches_of_head hchain hf hx)

theorem mem_of_step {cycle : List String} (h : IsCycle g cycle) {x y : String} (hx : x ∈ cycle)
    (hs : Step g x y) : y ∈ cycle := by
  obtain ⟨_, hchain, first, last, hf, hl, hback⟩ := h
  by_cases hxl : x = last
  · subst hxl
    cases hs.symm.trans hback
    exact List.mem_of_head? hf
  · obtain ⟨before, after, rfl⟩ := List.append_of_mem hx
    cases after with
    | nil => simp at hl; exact absurd hl hxl
    | cons z after =>
      have hxz : Step g x z := (List.isChain_cons_cons.mp hchain.right_of_append).1
      cases hs.symm.trans hxz
      simp

theorem mem_of_reaches {cycle : List String} (h : IsCycle g cycle) {x y : String} (hx : x ∈ cycle)
    (hr : Reaches g x y) : y ∈ cycle := by
  induction hr with
  | refl => exact hx
  | tail _ hs ih => exact h.mem_of_step ih hs

theorem congr {g' : Links} {cycle : List String} (h : IsCycle g cycle)
    (heq : ∀ x ∈ cycle, g' x = g x) : IsCycle g' cycle := by
  obtain ⟨hnodup, hchain, first, last, hf, hl, hs⟩ := h
  refine ⟨hnodup, hchain.imp_of_mem_imp fun x y hx _ hxy => ?_, first, last, hf, hl, ?_⟩
  · exact (heq x hx).trans hxy
  · exact (heq last (List.mem_of_getLast? hl)).trans hs

end IsCycle

/-! ## Sending a cycle elsewhere -/

/-- The links after every name of `cycle` has been sent to `root`. -/
def redirect (g : Links) (cycle : List String) (root : String) : Links :=
  fun a => if a ∈ cycle then some root else g a

theorem redirect_redirect (c d : List String) (root : String) :
    redirect (redirect g c root) d root = redirect g (c ++ d) root := by
  funext a
  simp only [redirect, List.mem_append]
  by_cases hc : a ∈ c <;> by_cases hd : a ∈ d <;> simp [hc, hd]

/-- A walk that ends never meets a cycle, so sending the cycle elsewhere leaves it alone. -/
theorem EndsIn.redirect {cycle : List String} (hcycle : IsCycle g cycle) {n : Nat} {a : String}
    (h : EndsIn g n a) (root : String) : EndsIn (redirect g cycle root) n a := by
  induction h with
  | @last a ha =>
    have hmem : a ∉ cycle := fun hm => (hcycle.onCycle hm).ne_none ha
    exact .last (by simp [Walk.redirect, hmem, ha])
  | @step n a b hb hrest ih =>
    have hmem : a ∉ cycle := fun hm => (EndsIn.step hb hrest).not_onCycle (hcycle.onCycle hm)
    exact .step (by simp [Walk.redirect, hmem, hb]) ih

/-- A walk that runs into a cycle ends once the cycle has been sent to a name without a link. -/
theorem endsIn_redirect_of_reaches {cycle : List String} {root : String} (hroot : root ∉ cycle)
    (hnone : g root = none) {a x : String} (hr : Reaches g a x) (hx : x ∈ cycle) :
    ∃ n, EndsIn (redirect g cycle root) n a := by
  have hend : EndsIn (redirect g cycle root) 0 root := .last (by simp [Walk.redirect, hroot, hnone])
  induction hr using Relation.ReflTransGen.head_induction_on with
  | refl => exact ⟨1, .step (by simp [Walk.redirect, hx]) hend⟩
  | @head a b hs _ ih =>
    by_cases ha : a ∈ cycle
    · exact ⟨1, .step (by simp [Walk.redirect, ha]) hend⟩
    · obtain ⟨n, hn⟩ := ih
      exact ⟨n + 1, .step (by rw [Walk.redirect, if_neg ha, hs]) hn⟩

end ClassCompiler.Walk
