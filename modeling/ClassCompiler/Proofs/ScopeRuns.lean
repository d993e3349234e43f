import ClassCompiler.Proofs.FirstDeclarations
import ClassCompiler.Proofs.ProperTypes

/-!
# Scopes as stacks

Frames are entered and left and names are bound in any order. Leaving the base frame and binding a
name of the innermost frame again are refused and have no effect, so a run of operations can never
fail. Over any such run a scope is a stack of environments.

Results:
1. `frames_enter`, `frames_exit`, `frames_add?`: what the operations do to the list of frames.
2. `distinct_run`: no frame has a name twice, whatever was done.
3. `lookupLevel?_eq_some_iff`: a look-up finds the highest frame with the name.
4. `OnTop.run`: a run that never leaves more frames than it entered does not touch those below.
5. `runs_are_stacks`: all of this together.
-/

namespace ClassCompiler.Scope

variable {α : Type}

/-- What can be done to a scope. -/
inductive Op (α : Type) where
  | enter
  | exit
  | add (name : String) (value : α)

namespace Op

def isEnter : Op α → Bool
  | .enter => true
  | _ => false

def isExit : Op α → Bool
  | .exit => true
  | _ => false

end Op

/-- The scope after an operation. What is refused has no effect. -/
def step (s : Scope α) : Op α → Scope α
  | .enter => s.enter
  | .exit => s.exit
  | .add name value => (s.add? name value).getD s

/-- The scope after one operation after the other. -/
def run (s : Scope α) (ops : List (Op α)) : Scope α := ops.foldl step s

/-- As many frames are left as are entered, and at no time more. -/
structure Balanced (ops : List (Op α)) : Prop where
  exits_le : ∀ before, before <+: ops → before.countP Op.isExit ≤ before.countP Op.isEnter
  exits_eq : ops.countP Op.isExit = ops.countP Op.isEnter

/-! ## The list of frames -/

theorem length_frames (s : Scope α) : s.frames.length = s.level + 1 := by
  rw [frames, List.length_cons, List.length_reverse, level]

theorem frames_eq_concat (s : Scope α) : s.frames = s.frames.dropLast ++ [s.innermost] := by
  obtain ⟨base, inner⟩ := s
  cases inner with
  | nil => rfl
  | cons frame rest =>
    simp only [frames, innermost, List.headD_cons, List.reverse_cons, ← List.cons_append,
      List.dropLast_concat]

theorem innermost_mem_frames (s : Scope α) : s.innermost ∈ s.frames := by
  rw [frames_eq_concat]
  exact List.mem_append_right _ List.mem_cons_self

theorem frames_injective : Function.Injective (frames (α := α)) := by
  intro s s' h
  obtain ⟨hbase, hinner⟩ := List.cons.inj h
  obtain ⟨base, inner⟩ := s
  exact congrArg₂ Scope.mk hbase (List.reverse_injective hinner)

theorem frames_enter (s : Scope α) : s.enter.frames = s.frames ++ [[]] := by
  rw [frames, enter, List.reverse_cons, frames, List.cons_append]

theorem frames_exit {s : Scope α} (h : 0 < s.level) : s.exit.frames = s.frames.dropLast := by
  obtain ⟨base, inner⟩ := s
  cases inner with
  | nil => exact absurd h (Nat.lt_irrefl 0)
  | cons frame rest =>
    simp only [frames, exit, List.tail_cons, List.reverse_cons, ← List.cons_append,
      List.dropLast_concat]

theorem exit_of_level_eq_zero {s : Scope α} (h : s.level = 0) : s.exit = s := by
  obtain ⟨base, inner⟩ := s
  cases List.length_eq_zero_iff.mp h
  rfl

theorem exited?_of_pos {s : Scope α} (h : 0 < s.level) : s.exited? = some s.innermost := by
  obtain ⟨base, inner⟩ := s
  cases inner with
  | nil => exact absurd h (Nat.lt_irrefl 0)
  | cons frame rest => rfl

theorem frames_add? {s s' : Scope α} {name : String} {value : α}
    (h : s.add? name value = some s') :
    s'.frames = s.frames.dropLast ++ [s.innermost ++ [(name, value)]] := by
  obtain ⟨hbelow, -, hinnermost⟩ := sameBelow_add? h
  rw [frames_eq_concat, hbelow.below_eq, hinnermost]

theorem add?_eq_none_iff {s : Scope α} {name : String} {value : α} :
    s.add? name value = none ↔ name ∈ s.innermost.map (·.1) := by
  rw [← Option.not_isSome_iff_eq_none, add?_isSome, Option.isNone_iff_eq_none,
    ← not_iff_not, not_not]
  exact lookup_eq_none_iff_not_mem

/-! ## Names are bound once -/

/-- No frame has a name twice. -/
def Distinct (s : Scope α) : Prop := ∀ frame ∈ s.frames, (frame.map (·.1)).Nodup

theorem Distinct.step {s : Scope α} (h : Distinct s) (op : Op α) : Distinct (s.step op) := by
  intro frame hframe
  cases op with
  | enter =>
    rcases List.mem_append.mp (frames_enter s ▸ hframe) with hold | hnew
    · exact h frame hold
    · rw [List.mem_singleton.mp hnew]
      exact List.nodup_nil
  | exit =>
    rcases Nat.eq_zero_or_pos s.level with hzero | hpos
    · exact h frame (exit_of_level_eq_zero hzero ▸ hframe)
    · exact h frame (List.dropLast_subset _ (frames_exit hpos ▸ hframe))
  | add name value =>
    rw [Scope.step] at hframe
    cases hadd : s.add? name value with
    | none =>
      rw [hadd] at hframe
      exact h frame hframe
    | some s' =>
      rw [hadd, Option.getD_some, frames_add? hadd] at hframe
      rcases List.mem_append.mp hframe with hold | hnew
      · exact h frame (List.dropLast_subset _ hold)
      · rw [List.mem_singleton.mp hnew]
        exact nodup_names_append (sameBelow_add? hadd).2.1 (h _ s.innermost_mem_frames) value

theorem Distinct.run {s : Scope α} (h : Distinct s) (ops : List (Op α)) : Distinct (s.run ops) := by
  induction ops generalizing s with
  | nil => exact h
  | cons op ops ih => exact ih (h.step op)

theorem distinct_run (ops : List (Op α)) : Distinct (run {} ops) := by
  refine Distinct.run (fun frame hframe => ?_) ops
  rw [List.mem_singleton.mp hframe]
  exact List.nodup_nil

/-! ## Look-up -/

/-- The frame with this number binds the name to the value, and no frame with a greater number has
the name. -/
def BoundHighest (frames : List (Frame α)) (name : String) (i : Nat) (value : α) : Prop :=
  ∃ frame, frames[i]? = some frame ∧ frame.lookup name = some value ∧
    ∀ j higher, i < j → frames[j]? = some higher → higher.lookup name = none

theorem getElem?_concat_eq_some {β : Type} {l : List β} {last x : β} {i : Nat} :
    (l ++ [last])[i]? = some x ↔ l[i]? = some x ∨ i = l.length ∧ last = x := by
  rcases Nat.lt_trichotomy i l.length with hlt | rfl | hgt
  · simp [List.getElem?_append_left hlt, Nat.ne_of_lt hlt]
  · simp
  · have hlength : (l ++ [last]).length ≤ i := by
      rwa [List.length_append, List.length_singleton]
    simp [List.getElem?_eq_none hlength, List.getElem?_eq_none (Nat.le_of_lt hgt),
      Nat.ne_of_gt hgt]

theorem boundHighest_concat {frames : List (Frame α)} {last : Frame α} {name : String} {i : Nat}
    {value : α} :
    BoundHighest (frames ++ [last]) name i value ↔
      i = frames.length ∧ last.lookup name = some value ∨
        last.lookup name = none ∧ BoundHighest frames name i value := by
  constructor
  · rintro ⟨frame, hframe, hlookup, hhigher⟩
    rcases getElem?_concat_eq_some.mp hframe with hframe | ⟨rfl, rfl⟩
    · have hlt : i < frames.length := (List.getElem?_eq_some_iff.mp hframe).1
      have hlast := hhigher _ last hlt (getElem?_concat_eq_some.mpr (.inr ⟨rfl, rfl⟩))
      refine .inr ⟨hlast, frame, hframe, hlookup, fun j higher hj hget => ?_⟩
      exact hhigher j higher hj (getElem?_concat_eq_some.mpr (.inl hget))
    · exact .inl ⟨rfl, hlookup⟩
  · rintro (⟨rfl, hlookup⟩ | ⟨hlast, frame, hframe, hlookup, hhigher⟩)
    · refine ⟨last, getElem?_concat_eq_some.mpr (.inr ⟨rfl, rfl⟩), hlookup, ?_⟩
      intro j higher hj hget
      have hlt := (List.getElem?_eq_some_iff.mp hget).1
      rw [List.length_append, List.length_singleton] at hlt
      exact absurd hj (Nat.not_lt.mpr (Nat.le_of_lt_succ hlt))
    · refine ⟨frame, getElem?_concat_eq_some.mpr (.inl hframe), hlookup, ?_⟩
      intro j higher hj hget
      rcases getElem?_concat_eq_some.mp hget with hget | ⟨-, rfl⟩
      · exact hhigher j higher hj hget
      · exact hlast

theorem lookupLevel?_eq_some_iff {s : Scope α} {name : String} {i : Nat} {value : α} :
    s.lookupLevel? name = some (i, value) ↔ BoundHighest s.frames name i value := by
  -- The search goes down the frames from the highest one, so the induction takes off the last.
  have hsearch (inner : List (Frame α)) : lookupLevel?.search s name inner = some (i, value) ↔
      BoundHighest (s.base :: inner.reverse) name i value := by
    induction inner with
    | nil =>
      have hempty : ¬ BoundHighest [] name i value := by
        rintro ⟨frame, hframe, -⟩
        cases hframe
      have hbase : [s.base] = [] ++ [s.base] := rfl
      rw [List.reverse_nil, hbase, boundHighest_concat, lookupLevel?.search]
      cases s.base.lookup name with
      | some found => simp [@eq_comm _ i]
      | none => simp [hempty]
    | cons frame rest ih =>
      rw [List.reverse_cons, ← List.cons_append, boundHighest_concat, ← ih, lookupLevel?.search,
        List.length_cons, List.length_reverse]
      cases frame.lookup name with
      | some found => simp [@eq_comm _ i]
      | none => simp
  exact hsearch s.inner

theorem lookupLevel?_eq_none_iff {s : Scope α} {name : String} :
    s.lookupLevel? name = none ↔ ∀ frame ∈ s.frames, frame.lookup name = none := by
  have hlookup : s.lookupLevel? name = none ↔ s.lookup? name = none :=
    Option.map_eq_none_iff.symm
  rw [hlookup, lookup?_eq, Option.or_eq_none_iff, List.findSome?_eq_none_iff, frames,
    List.forall_mem_cons, And.comm]
  simp only [List.mem_reverse]

/-! ## Runs above a scope -/

/-- The second scope has the frames of the first one, and so many more on top of them. -/
structure OnTop (s : Scope α) (count : Nat) (r : Scope α) : Prop where
  below : s.frames <+: r.frames
  level_eq : r.level = s.level + count

namespace OnTop

variable {s r : Scope α} {count : Nat}

theorem refl (s : Scope α) : OnTop s 0 s := ⟨List.prefix_rfl, rfl⟩

theorem eq (h : OnTop s 0 r) : r = s := by
  have hlength : s.frames.length = r.frames.length := by
    rw [length_frames, length_frames, h.level_eq, Nat.add_zero]
  exact frames_injective (h.below.eq_of_length hlength).symm

theorem enter (h : OnTop s count r) : OnTop s (count + 1) r.enter where
  below := frames_enter r ▸ h.below.trans (List.prefix_append _ _)
  level_eq := congrArg (· + 1) h.level_eq

/-- The frames of the first scope end before the innermost frame of the second. -/
theorem below_dropLast (h : OnTop s (count + 1) r) : s.frames <+: r.frames.dropLast := by
  have hlength : s.frames.length ≤ r.frames.dropLast.length := by
    rw [List.length_dropLast, length_frames, length_frames, h.level_eq]
    omega
  exact List.prefix_of_prefix_length_le h.below (List.dropLast_prefix _) hlength

theorem exit (h : OnTop s (count + 1) r) : OnTop s count r.exit where
  below := by
    have hpos : 0 < r.level := h.level_eq ▸ Nat.succ_pos _
    rw [frames_exit hpos]
    exact h.below_dropLast
  level_eq := by
    have hlevel : r.exit.level = r.level - 1 := List.length_tail
    rw [hlevel, h.level_eq]
    rfl

theorem add (h : OnTop s (count + 1) r) (name : String) (value : α) :
    OnTop s (count + 1) (r.step (.add name value)) := by
  rw [step]
  cases hadd : r.add? name value with
  | none => exact h
  | some r' =>
    refine ⟨?_, (sameBelow_add? hadd).1.level_eq.trans h.level_eq⟩
    rw [Option.getD_some, frames_add? hadd]
    exact h.below_dropLast.trans (List.prefix_append _ _)

/-- With one frame on top to begin with, a run that never leaves more frames than there are keeps
one, so that no name is bound further below. -/
theorem run (h : OnTop s (count + 1) r) {ops : List (Op α)}
    (hops : ∀ before, before <+: ops →
      before.countP Op.isExit ≤ count + before.countP Op.isEnter) :
    ∃ left, OnTop s (left + 1) (r.run ops) ∧
      left + ops.countP Op.isExit = count + ops.countP Op.isEnter := by
  induction ops generalizing r count with
  | nil => exact ⟨count, h, rfl⟩
  | cons op ops ih =>
    have hcons (before : List (Op α)) (hbefore : before <+: ops) :=
      hops (op :: before) (List.cons_prefix_cons.mpr ⟨rfl, hbefore⟩)
    cases op with
    | enter =>
      simp only [List.countP_cons, Op.isExit, Op.isEnter, Bool.false_eq_true, if_true, if_false]
        at hcons ⊢
      obtain ⟨left, honTop, hleft⟩ := ih h.enter fun before hbefore => by
        have hle := hcons before hbefore
        omega
      exact ⟨left, honTop, by omega⟩
    | exit =>
      simp only [List.countP_cons, Op.isExit, Op.isEnter, Bool.false_eq_true, if_true, if_false]
        at hcons ⊢
      -- There is a frame to leave besides the one that stays, by the shortest beginning.
      have hpos : 0 + 1 ≤ count + 0 := hcons [] List.nil_prefix
      obtain ⟨count, rfl⟩ := Nat.exists_eq_add_of_le' hpos
      obtain ⟨left, honTop, hleft⟩ := ih h.exit fun before hbefore => by
        have hle := hcons before hbefore
        omega
      exact ⟨left, honTop, by omega⟩
    | add name value =>
      simp only [List.countP_cons, Op.isExit, Op.isEnter, Bool.false_eq_true, if_false,
        Nat.add_zero] at hcons ⊢
      exact ih (h.add name value) hcons

end OnTop

theorem run_enter_exit {ops : List (Op α)} (h : Balanced ops) (s : Scope α) :
    s.run (.enter :: ops ++ [.exit]) = s := by
  have hrun : s.run (.enter :: ops ++ [.exit]) = (s.enter.run ops).exit := by
    simp only [run, List.cons_append, List.foldl_cons, List.foldl_append, List.foldl_nil, step]
  have hops (before : List (Op α)) (hbefore : before <+: ops) :
      before.countP Op.isExit ≤ 0 + before.countP Op.isEnter := by
    rw [Nat.zero_add]
    exact h.exits_le before hbefore
  obtain ⟨left, honTop, hleft⟩ := (OnTop.refl s).enter.run hops
  -- All that was entered is left again, so the frame on top is the one to begin with.
  have hzero : left = 0 := by
    have hexits := h.exits_eq
    omega
  subst hzero
  exact hrun.trans honTop.exit.eq

/-! ## The stack -/

/-- The operations on a scope are those of a stack of environments, where `last` is on top of the
others. -/
structure ActsAsStack (s : Scope α) (below : List (Frame α)) (last : Frame α) : Prop where
  enter : (s.step .enter).frames = below ++ [last, []]
  exit : below ≠ [] → s.exited? = some last ∧ (s.step .exit).frames = below
  exit_base : below = [] → s.exited? = none ∧ s.step .exit = s
  add : ∀ name value, name ∉ last.map (·.1) →
    (s.step (.add name value)).frames = below ++ [last ++ [(name, value)]]
  add_refused : ∀ name value, name ∈ last.map (·.1) →
    s.add? name value = none ∧ s.step (.add name value) = s

theorem actsAsStack {s : Scope α} {below : List (Frame α)} {last : Frame α}
    (h : s.frames = below ++ [last]) : ActsAsStack s below last := by
  obtain ⟨hbelow, hlast⟩ : s.frames.dropLast = below ∧ s.innermost = last := by
    have hconcat := s.frames_eq_concat.symm.trans h
    simpa using List.append_inj' hconcat rfl
  have hlevel : s.level = below.length := by
    have hlength := s.length_frames
    rw [h, List.length_append, List.length_singleton] at hlength
    exact Nat.succ.inj hlength.symm
  refine ⟨?_, fun hne => ?_, fun hnil => ?_, fun name value hnew => ?_, fun name value hold => ?_⟩
  · rw [step, frames_enter, h, List.append_assoc]
    rfl
  · have hpos : 0 < s.level := hlevel ▸ List.length_pos_iff.mpr hne
    exact ⟨hlast ▸ exited?_of_pos hpos, (frames_exit hpos).trans hbelow⟩
  · have hzero : s.level = 0 := by rw [hlevel, hnil, List.length_nil]
    have hinner : s.inner = [] := List.length_eq_zero_iff.mp hzero
    exact ⟨List.head?_eq_none_iff.mpr hinner, exit_of_level_eq_zero hzero⟩
  · obtain ⟨s', hadd⟩ := Option.ne_none_iff_exists'.mp
      (mt add?_eq_none_iff.mp (hlast ▸ hnew) : s.add? name value ≠ none)
    rw [step, hadd, Option.getD_some, frames_add? hadd, hbelow, hlast]
  · have hadd : s.add? name value = none := add?_eq_none_iff.mpr (hlast ▸ hold)
    exact ⟨hadd, by rw [step, hadd, Option.getD_none]⟩

/-- A scope is a stack of environments, whatever is done to it from the beginning. There is always a
frame, no frame has a name twice, and a name is looked up in the highest frame that has it. Leaving
the base frame and binding a name again change nothing. What is done in a balanced way between
entering a frame and leaving it leaves no trace. -/
theorem runs_are_stacks :
    (∀ ops : List (Op α),
      let s := run {} ops
      s.frames ≠ [] ∧
      (∀ frame ∈ s.frames, (frame.map (·.1)).Nodup) ∧
      (∀ name i value, s.lookupLevel? name = some (i, value) ↔
        ∃ frame, s.frames[i]? = some frame ∧ (name, value) ∈ frame ∧
          ∀ j higher, i < j → s.frames[j]? = some higher → name ∉ higher.map (·.1)) ∧
      ∀ name, s.lookupLevel? name = none ↔ ∀ frame ∈ s.frames, name ∉ frame.map (·.1)) ∧
    (∀ (s : Scope α) below last, s.frames = below ++ [last] → ActsAsStack s below last) ∧
    ∀ (s : Scope α) (ops : List (Op α)), Balanced ops → s.run (.enter :: ops ++ [.exit]) = s := by
  refine ⟨fun ops => ?_, fun s below last h => actsAsStack h, fun s ops h => run_enter_exit h s⟩
  intro s
  have hdistinct : Distinct s := distinct_run ops
  refine ⟨List.cons_ne_nil _ _, hdistinct, fun name i value => ?_, fun name => ?_⟩
  · rw [lookupLevel?_eq_some_iff]
    simp only [BoundHighest, lookup_eq_none_iff_not_mem]
    refine exists_congr fun frame => and_congr_right fun hframe => ?_
    rw [lookup_eq_some_iff_mem (hdistinct frame (List.mem_of_getElem? hframe))]
  · simp only [lookupLevel?_eq_none_iff, lookup_eq_none_iff_not_mem]

/-- Operations that bind `x` and `y` again in the frames above, and try some of it twice. -/
def excursion : List (Op Nat) :=
  [.add "x" 4, .enter, .add "x" 5, .add "x" 6, .add "y" 7, .exit, .add "y" 8]

theorem balanced_excursion : Balanced excursion where
  exits_le := by
    have hinits : ∀ before ∈ excursion.inits,
        before.countP Op.isExit ≤ before.countP Op.isEnter := by decide
    exact fun before hbefore => hinits before ((List.mem_inits before excursion).mpr hbefore)
  exits_eq := by decide

/-- A scope of two frames, after leaving the base frame and binding `x` twice in it. -/
theorem runs_are_stacks_excursion :
    let s : Scope Nat := run {} [.exit, .add "x" 1, .add "x" 2, .enter, .add "y" 3]
    (s.frames = [[("x", 1)], [("y", 3)]] ∧ s.step (.add "y" 9) = s ∧
      (s.step (.add "x" 9)).frames = [[("x", 1)], [("y", 3), ("x", 9)]]) ∧
    ((s.step .enter).run excursion).lookupLevel? "x" = some (2, 4) ∧
    (Balanced excursion ∧ s.run (.enter :: excursion ++ [.exit]) = s) ∧
    s.lookupLevel? "x" = some (0, 1) ∧ ∃ frame, s.frames[0]? = some frame ∧ ("x", 1) ∈ frame ∧
      ∀ j higher, 0 < j → s.frames[j]? = some higher → "x" ∉ higher.map (·.1) := by
  intro s
  obtain ⟨hruns, hacts, hbalanced⟩ := runs_are_stacks (α := Nat)
  obtain ⟨-, -, hfound, -⟩ := hruns [.exit, .add "x" 1, .add "x" 2, .enter, .add "y" 3]
  have hstack : ActsAsStack s [[("x", 1)]] [("y", 3)] := hacts s _ _ (by decide)
  have hlookup : s.lookupLevel? "x" = some (0, 1) := by decide
  refine ⟨⟨by decide, ?_, hstack.add "x" 9 (by decide)⟩, by decide, ?_, hlookup, ?_⟩
  · exact (hstack.add_refused "y" 9 (by decide)).2
  · exact ⟨balanced_excursion, hbalanced s excursion balanced_excursion⟩
  · exact (hfound "x" 0 1).mp hlookup

end ClassCompiler.Scope
