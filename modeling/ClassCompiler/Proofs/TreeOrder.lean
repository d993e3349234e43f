import Mathlib.Data.List.Basic

/-!
# Tree order

A tree is given by the children of each node. A list of numbers is a path that leads from a node to
one below it: each number picks a child. Tree order goes from left to right, each node before what
is below it. It is the lexicographic order of the paths.

Results:
1. `Lists.node`: a tree is listed by its root and the lists of the trees below it.
2. `IsListing.parent_before`: between a node and its parent there are only nodes of greater depth.
-/

namespace ClassCompiler.TreeOrder

/-- The node that a path leads to. -/
def at? {α : Type} (children : α → List α) : α → List Nat → Option α
  | a, [] => some a
  | a, i :: path => (children a)[i]?.bind (at? children · path)

/-- All nodes from the root down, with their paths and in the order of them. -/
structure IsListing {α : Type} (children : α → List α) (root : α) (listing : List (List Nat × α)) :
    Prop where
  sorted : listing.Pairwise (·.1 < ·.1)
  mem_iff : ∀ path a, (path, a) ∈ listing ↔ at? children root path = some a

/-- The nodes from the root down in tree order. -/
def Lists {α : Type} (children : α → List α) (root : α) (nodes : List α) : Prop :=
  ∃ listing, IsListing children root listing ∧ listing.map (·.2) = nodes

variable {α : Type} {children : α → List α}

/-! ## Putting lists together -/

/-- The trees below neighbouring nodes, of which the first is child `first` of its parent. -/
theorem exists_forest {f : α → List α} {nodes : List α}
    (h : ∀ a ∈ nodes, Lists children a (f a)) (first : Nat) :
    ∃ listing : List (List Nat × α), listing.Pairwise (·.1 < ·.1) ∧
      (∀ path a, (path, a) ∈ listing ↔
        ∃ i rest, path = (first + i) :: rest ∧ nodes[i]?.bind (at? children · rest) = some a) ∧
      listing.map (·.2) = nodes.flatMap f := by
  induction nodes generalizing first with
  | nil => exact ⟨[], .nil, by simp, rfl⟩
  | cons node nodes ih =>
    obtain ⟨tree, htree, hnodes⟩ := h node List.mem_cons_self
    obtain ⟨forest, hsorted, hmem, hmap⟩ :=
      ih (fun a ha => h a (List.mem_cons_of_mem _ ha)) (first + 1)
    refine ⟨tree.map (fun x => (first :: x.1, x.2)) ++ forest, ?_, fun path a => ?_, ?_⟩
    · refine List.pairwise_append.mpr ⟨?_, hsorted, ?_⟩
      · rw [List.pairwise_map]
        exact htree.sorted.imp fun hlt => List.cons_lt_cons_iff.mpr (.inr ⟨rfl, hlt⟩)
      · rintro x hx ⟨path, a⟩ hy
        obtain ⟨x, -, rfl⟩ := List.mem_map.mp hx
        obtain ⟨i, rest, rfl, -⟩ := (hmem path a).mp hy
        exact List.cons_lt_cons_iff.mpr (.inl (by omega))
    · rw [List.mem_append, hmem]
      constructor
      · rintro (hin | ⟨i, rest, rfl, hat⟩)
        · obtain ⟨x, hx, heq⟩ := List.mem_map.mp hin
          obtain ⟨rfl, rfl⟩ := Prod.mk.inj heq
          exact ⟨0, x.1, rfl, (htree.mem_iff x.1 x.2).mp hx⟩
        · exact ⟨i + 1, rest, by rw [Nat.add_right_comm, Nat.add_assoc], hat⟩
      · rintro ⟨i, rest, rfl, hat⟩
        cases i with
        | zero =>
          exact .inl (List.mem_map.mpr ⟨(rest, a), (htree.mem_iff rest a).mpr hat, rfl⟩)
        | succ i => exact .inr ⟨i, rest, by rw [Nat.add_right_comm, Nat.add_assoc], hat⟩
    · rw [List.map_append, List.map_map, hmap, List.flatMap_cons, ← hnodes]
      rfl

/-- The root comes first, and then the trees below it from left to right. -/
theorem Lists.node {root : α} {f : α → List α}
    (h : ∀ a ∈ children root, Lists children a (f a)) :
    Lists children root (root :: (children root).flatMap f) := by
  obtain ⟨forest, hsorted, hmem, hmap⟩ := exists_forest h 0
  refine ⟨([], root) :: forest, ⟨?_, fun path a => ?_⟩, by rw [List.map_cons, hmap]⟩
  · refine List.pairwise_cons.mpr ⟨?_, hsorted⟩
    rintro ⟨path, a⟩ hin
    obtain ⟨i, rest, rfl, -⟩ := (hmem path a).mp hin
    exact List.nil_lt_cons _ _
  · rw [List.mem_cons, hmem]
    cases path with
    | nil => simp [at?, eq_comm]
    | cons i rest =>
      simp only [at?, Nat.zero_add, Prod.mk.injEq, reduceCtorEq, false_and, false_or]
      constructor
      · rintro ⟨j, rest', heq, hat⟩
        obtain ⟨rfl, rfl⟩ := List.cons.inj heq
        exact hat
      · exact fun hat => ⟨i, rest, rfl, hat⟩

/-! ## Parents in a list -/

theorem at?_concat (root : α) (path : List Nat) (i : Nat) :
    at? children root (path ++ [i]) = (at? children root path).bind fun a => (children a)[i]? := by
  induction path generalizing root with
  | nil =>
    simp only [List.nil_append, at?, Option.bind_some]
    exact Option.bind_fun_some _
  | cons j path ih =>
    simp only [List.cons_append, at?]
    cases (children root)[j]? with
    | none => rfl
    | some child => exact ih child

/-- A path between another one and that of a child lies below the other one. -/
theorem length_lt_of_between {path between : List Nat} {i : Nat} (h : path < between)
    (h' : between < path ++ [i]) : path.length < between.length := by
  induction path generalizing between with
  | nil =>
    cases between with
    | nil => exact absurd h (List.lt_irrefl _)
    | cons j rest => exact Nat.succ_pos _
  | cons j path ih =>
    cases between with
    | nil => exact absurd h (List.not_lt_nil _)
    | cons k rest =>
      rw [List.cons_append] at h'
      rcases List.cons_lt_cons_iff.mp h with hlt | ⟨rfl, hlt⟩
      · rcases List.cons_lt_cons_iff.mp h' with hgt | ⟨rfl, -⟩ <;> omega
      · rcases List.cons_lt_cons_iff.mp h' with hgt | ⟨-, hgt⟩
        · omega
        · exact Nat.succ_lt_succ (ih hlt hgt)

theorem lt_concat (path : List Nat) (i : Nat) : path < path ++ [i] := by
  induction path with
  | nil => exact List.nil_lt_cons _ _
  | cons j path ih => exact List.cons_lt_cons_iff.mpr (.inr ⟨rfl, ih⟩)

/-- The parent of a node stands before it, and only nodes further down stand between them. -/
theorem IsListing.parent_before {root : α} {listing : List (List Nat × α)}
    (h : IsListing children root listing) {before after : List (List Nat × α)} {path : List Nat}
    {i : Nat} {a b : α} (hsplit : listing = before ++ (path ++ [i], b) :: after)
    (ha : at? children root path = some a) :
    ∃ left right, before = left ++ (path, a) :: right ∧
      ∀ x ∈ right, path.length < x.1.length := by
  have hmem := (h.mem_iff path a).mpr ha
  have hsorted := h.sorted
  rw [hsplit] at hmem hsorted
  obtain ⟨hbefore, hafter, hacross⟩ := List.pairwise_append.mp hsorted
  rcases List.mem_append.mp hmem with hin | hin
  · obtain ⟨left, right, rfl⟩ := List.append_of_mem hin
    refine ⟨left, right, rfl, fun x hx => ?_⟩
    have hright := (List.pairwise_cons.mp (List.pairwise_append.mp hbefore).2.1).1 x hx
    exact length_lt_of_between hright (hacross x (by simp [hx]) _ List.mem_cons_self)
  · -- the path of the parent is smaller, so it cannot come later
    have hlt := lt_concat path i
    rcases List.mem_cons.mp hin with heq | hin
    · exact absurd (congrArg (·.1.length) heq) (by simp)
    · exact absurd ((List.pairwise_cons.mp hafter).1 _ hin) (List.lt_asymm hlt)

end ClassCompiler.TreeOrder
