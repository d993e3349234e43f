import ClassCompiler.Proofs.ClassTree
import ClassCompiler.Proofs.Listing
import ClassCompiler.Proofs.TreeOrder

/-!
# The hierarchy as text

The text of a hierarchy can be written in one loop. It keeps a stack of classes with their depths;
the class on top is written, and its children take its place. No class is marked as written, so that
each comes once and in the right place rests on the child lists alone. A guard keeps the loop from
going deeper than there are classes.

Results:
1. `Writer.steps_outline`: the loop comes to its end and has written the outline, whatever the links
   of the table are.
2. `Rooted.lists_outline`, `Rooted.perm_names_outline`: in a tree the outline has every class once,
   in tree order.
3. `Rooted.shownParent?_eq`: the parent of a class can be read off the outline.
4. `hierarchyText_faithful`: the same for the table of a program.
-/

namespace ClassCompiler

open Walk TreeOrder

/-! ## Lines -/

/-- The line of a class that stands at a depth. -/
def lineText (x : Nat × String) : String :=
  String.ofList (List.replicate (2 * x.1) ' ') ++ x.2 ++ "\n"

def linesText (lines : List (Nat × String)) : String := String.join (lines.map lineText)

theorem linesText_append (lines lines' : List (Nat × String)) :
    linesText (lines ++ lines') = linesText lines ++ linesText lines' := by
  simp [linesText]

theorem hierarchyText_eq (t : ClassTable) :
    t.hierarchyText = linesText (t.outline (t.size + 1) 0 objectName) := rfl

/-- A line back as depth and name. -/
def readLine (line : List Char) : Nat × String :=
  ((line.takeWhile (· = ' ')).length / 2, String.ofList (line.dropWhile (· = ' ')))

def readLines (text : String) : List (Nat × String) :=
  (text.toList.splitOn '\n').dropLast.map readLine

/-- A name that can be told from the indentation before it and the end of the line after it. -/
def Legible (name : String) : Prop := '\n' ∉ name.toList ∧ name.toList.head? ≠ some ' '

instance (name : String) : Decidable (Legible name) := inferInstanceAs (Decidable (_ ∧ _))

/-- The parent of a class as lines show it: the class of the last line above that is indented
less. -/
def shownParent? (lines : List (Nat × String)) (name : String) : Option String :=
  match lines.dropWhile (·.2 ≠ name) with
  | [] => none
  | x :: _ => ((lines.takeWhile (·.2 ≠ name)).reverse.find? (·.1 < x.1)).map (·.2)

theorem shownParent?_of_split {before after : List (Nat × String)} {x : Nat × String}
    (h : ∀ y ∈ before, y.2 ≠ x.2) :
    shownParent? (before ++ x :: after) x.2 =
      (before.reverse.find? (·.1 < x.1)).map (·.2) := by
  have hbefore : ∀ y ∈ before, decide (y.2 ≠ x.2) = true := fun y hy => decide_eq_true (h y hy)
  unfold shownParent?
  rw [List.dropWhile_append_of_pos hbefore, List.takeWhile_append_of_pos hbefore,
    List.dropWhile_cons_of_neg (by simp), List.takeWhile_cons_of_neg (by simp), List.append_nil]

theorem readLine_body (depth : Nat) {name : String} (h : name.toList.head? ≠ some ' ') :
    readLine (List.replicate (2 * depth) ' ' ++ name.toList) = (depth, name) := by
  have htake : name.toList.takeWhile (fun c => c = ' ') = [] := by
    cases hname : name.toList with
    | nil => rfl
    | cons c cs =>
      rw [hname, List.head?_cons, ne_eq, Option.some.injEq] at h
      rw [List.takeWhile_cons_of_neg (by simpa using h)]
  have hdrop : name.toList.dropWhile (fun c => c = ' ') = name.toList := by
    have hsplit := List.takeWhile_append_dropWhile (p := fun c => decide (c = ' '))
      (l := name.toList)
    rwa [htake, List.nil_append] at hsplit
  have hblank : ∀ c ∈ List.replicate (2 * depth) ' ', decide (c = ' ') = true := by
    intro c hc
    rw [List.eq_of_mem_replicate hc]
    rfl
  rw [readLine, List.takeWhile_append_of_pos hblank, List.dropWhile_append_of_pos hblank, htake,
    hdrop, List.append_nil, List.length_replicate, String.ofList_toList]
  simp

/-- Lines with legible names are read back from their text. -/
theorem readLines_linesText {lines : List (Nat × String)} (h : ∀ x ∈ lines, Legible x.2) :
    readLines (linesText lines) = lines := by
  have htext : (linesText lines).toList =
      (lines.map fun x => List.replicate (2 * x.1) ' ' ++ x.2.toList).flatMap (· ++ ['\n']) := by
    rw [List.flatMap_map]
    simp [linesText, lineText, List.flatMap, Function.comp_def]
  have hfeed : ∀ line ∈ lines.map fun x => List.replicate (2 * x.1) ' ' ++ x.2.toList,
      '\n' ∉ line := by
    refine List.forall_mem_map.mpr fun x hx => ?_
    simp [(h x hx).1, List.mem_replicate]
  rw [readLines, htext, Assembly.splitOn_lines hfeed, List.dropLast_concat, List.map_map]
  exact (List.map_congr_left fun x hx => readLine_body x.1 (h x hx).2).trans (List.map_id lines)

/-! ## The loop -/

/-- A text under way: the classes on the stack with their depths, the top first, and what has been
written. -/
structure Writer where
  pending : List (Nat × String) := [(0, objectName)]
  written : String := ""

namespace Writer

/-- Writes the class on top of the stack and pushes its children, the last one first. -/
def next? (t : ClassTable) (w : Writer) : Option Writer :=
  match w.pending with
  | [] => none
  | (depth, name) :: rest =>
    match t.find? name with
    | none => some { w with pending := rest }
    | some e => some
      { pending :=
          if depth < t.size then
            e.children.reverse.foldl (fun stack child => (depth + 1, child) :: stack) rest
          else rest
        written := w.written ++ lineText (depth, e.name) }

/-- Some number of rounds leads from one state to another. -/
def Steps (t : ClassTable) : Writer → Writer → Prop :=
  Relation.ReflTransGen fun w w' => w.next? t = some w'

variable {t : ClassTable}

theorem push_children (depth : Nat) (children : List String) (stack : List (Nat × String)) :
    children.reverse.foldl (fun stack child => (depth + 1, child) :: stack) stack =
      children.map (depth + 1, ·) ++ stack := by
  rw [List.foldl_reverse]
  induction children with
  | nil => rfl
  | cons child children ih => rw [List.foldr_cons, ih, List.map_cons, List.cons_append]

theorem next?_of_find? {name : String} {e : ClassEntry} (he : t.find? name = some e) (depth : Nat)
    (rest : List (Nat × String)) (written : String) :
    next? t ⟨(depth, name) :: rest, written⟩ =
      some ⟨(if depth < t.size then e.children.map (depth + 1, ·) else []) ++ rest,
        written ++ lineText (depth, name)⟩ := by
  simp only [next?, he, push_children, ClassTable.name_of_find? he]
  split <;> rfl

theorem steps_forest {depth : Nat} {f : String → List (Nat × String)} {children : List String}
    (h : ∀ child ∈ children, ∀ rest written,
      Steps t ⟨(depth, child) :: rest, written⟩ ⟨rest, written ++ linesText (f child)⟩)
    (rest : List (Nat × String)) (written : String) :
    Steps t ⟨children.map (depth, ·) ++ rest, written⟩
      ⟨rest, written ++ linesText (children.flatMap f)⟩ := by
  induction children generalizing written with
  | nil =>
    have hnil : written ++ linesText [] = written := by simp [linesText]
    rw [List.flatMap_nil, hnil]
    exact .refl
  | cons child children ih =>
    rw [List.flatMap_cons, linesText_append, ← String.append_assoc]
    exact (h child List.mem_cons_self _ _).trans
      (ih (fun c hc => h c (List.mem_cons_of_mem _ hc)) _)

/-- The loop takes a class off the stack together with all that it pushes for it, and writes the
outline of the class. -/
theorem steps_outline {levels depth : Nat} (hlevels : levels + depth = t.size) (name : String) :
    ∀ rest written, Steps t ⟨(depth, name) :: rest, written⟩
      ⟨rest, written ++ linesText (t.outline (levels + 1) depth name)⟩ := by
  -- the guard is open for as long as the outline has levels left
  induction levels generalizing depth name with
  | zero =>
    intro rest written
    refine .single ?_
    cases he : t.find? name with
    | none =>
      simp [next?, ClassTable.outline, he, linesText]
    | some e =>
      have houtline : t.outline (0 + 1) depth name = [(depth, name)] := by
        rw [ClassTable.outline, he]
        exact congrArg _ (List.flatMap_eq_nil_iff.mpr fun _ _ => rfl)
      rw [next?_of_find? he, if_neg (by omega), houtline]
      simp [linesText]
  | succ levels ih =>
    intro rest written
    cases he : t.find? name with
    | none =>
      refine .single ?_
      simp [next?, ClassTable.outline, he, linesText]
    | some e =>
      have hnext := next?_of_find? he depth rest written
      rw [if_pos (by omega)] at hnext
      have houtline : linesText (t.outline (levels + 1 + 1) depth name) = lineText (depth, name) ++
          linesText (e.children.flatMap (t.outline (levels + 1) (depth + 1))) := by
        rw [ClassTable.outline, he, linesText, List.map_cons, String.join_cons]
        rfl
      rw [houtline, ← String.append_assoc]
      exact .head hnext (steps_forest (fun child _ => ih (by omega) child) rest _)

/-- Whatever holds of the root and is passed on to children holds of all that is ever pushed. -/
theorem forall_mem_pending {P : Nat × String → Prop} (hroot : P (0, objectName))
    (hstep : ∀ x e, P x → t.find? x.2 = some e → ∀ child ∈ e.children, P (x.1 + 1, child))
    {w : Writer} (hw : Steps t {} w) : ∀ x ∈ w.pending, P x := by
  induction hw with
  | refl => exact List.forall_mem_singleton.mpr hroot
  | @tail w w' _ hnext ih =>
    obtain ⟨pending, written⟩ := w
    cases pending with
    | nil => cases hnext
    | cons x rest =>
      obtain ⟨hx, hrest⟩ := List.forall_mem_cons.mp ih
      cases he : t.find? x.2 with
      | none =>
        simp only [next?, he, Option.some.injEq] at hnext
        rw [← hnext]
        exact hrest
      | some e =>
        rw [next?_of_find? he, Option.some.injEq] at hnext
        rw [← hnext]
        refine List.forall_mem_append.mpr ⟨?_, hrest⟩
        split
        · exact List.forall_mem_map.mpr fun child hchild => hstep x e hx he child hchild
        · exact fun _ hy => absurd hy List.not_mem_nil

end Writer

/-! ## Outlines of trees -/

namespace ClassTable

/-- The children of a class that stands at a depth, one level further down. -/
def below (t : ClassTable) (x : Nat × String) : List (Nat × String) :=
  ((t.find? x.2).elim [] (·.children)).map (x.1 + 1, ·)

/-- The class stands as deep as it has proper ancestors. -/
def Placed (t : ClassTable) (x : Nat × String) : Prop :=
  x.2 ∈ t.names ∧ (t.ancestors x.2).length = x.1 + 1

theorem length_chain_le (t : ClassTable) (steps : Nat) (name : String) :
    (t.chain steps name).length ≤ steps := by
  induction steps generalizing name with
  | zero => exact Nat.le_refl 0
  | succ steps ih =>
    cases he : t.find? name with
    | none => rw [chain_of_find?_eq_none he]; exact Nat.zero_le _
    | some e =>
      rw [chain_of_find? he, List.length_cons]
      refine Nat.succ_le_succ ?_
      cases e.parent with
      | none => exact Nat.zero_le _
      | some parent => exact ih parent

theorem Placed.lt_size {t : ClassTable} {x : Nat × String} (h : t.Placed x) : x.1 < t.size := by
  have hle := t.length_chain_le t.size x.2
  have hlength := h.2
  unfold ancestors at hlength
  omega

theorem mem_below {t : ClassTable} {x y : Nat × String} :
    y ∈ t.below x ↔ ∃ e, t.find? x.2 = some e ∧ y.2 ∈ e.children ∧ y.1 = x.1 + 1 := by
  unfold below
  cases t.find? x.2 with
  | none => simp
  | some e =>
    obtain ⟨depth, name⟩ := y
    simp [eq_comm, and_comm]

theorem outline_of_find? {t : ClassTable} {name : String} {e : ClassEntry}
    (he : t.find? name = some e) (levels depth : Nat) :
    t.outline (levels + 1) depth name =
      (depth, name) :: (t.below (depth, name)).flatMap fun x => t.outline levels x.1 x.2 := by
  rw [outline, he, below, he, Option.elim_some, List.flatMap_map]

end ClassTable

namespace Rooted

variable {t : ClassTable}

theorem mem_children_iff (h : Rooted t) {name child : String} {e : ClassEntry}
    (he : t.find? name = some e) : child ∈ e.children ↔ t.parent? child = some name := by
  rw [← List.count_pos_iff, h.count_children e (ClassTable.mem_of_find? he),
    ClassTable.name_of_find? he]
  split <;> simp_all

theorem mem_below_iff (h : Rooted t) {x y : Nat × String} :
    y ∈ t.below x ↔ t.parent? y.2 = some x.2 ∧ y.1 = x.1 + 1 := by
  rw [ClassTable.mem_below]
  constructor
  · rintro ⟨e, he, hchild, hdepth⟩
    exact ⟨(h.mem_children_iff he).mp hchild, hdepth⟩
  · rintro ⟨hparent, hdepth⟩
    obtain ⟨e, he⟩ := ClassTable.exists_find?
      (h.closed _ (ClassTable.mem_names_of_parent? hparent) _ hparent)
    exact ⟨e, he, (h.mem_children_iff he).mpr hparent, hdepth⟩

theorem nodup_below (h : Rooted t) (x : Nat × String) : ((t.below x).map (·.2)).Nodup := by
  unfold ClassTable.below
  cases he : t.find? x.2 with
  | none => exact List.nodup_nil
  | some e =>
    rw [Option.elim_some, List.map_map]
    refine (List.map_id e.children).symm ▸ List.nodup_iff_count_le_one.mpr fun name => ?_
    rw [h.count_children e (ClassTable.mem_of_find? he)]
    split <;> omega

theorem placed_root (h : Rooted t) : t.Placed (0, objectName) := by
  obtain ⟨e, he⟩ := ClassTable.exists_find? h.root_mem
  have hparent : e.parent = none := by
    have hroot := h.root_parent
    rwa [ClassTable.parent?, he, Option.bind_some] at hroot
  refine ⟨h.root_mem, ?_⟩
  rw [h.ancestors_eq he, hparent]
  rfl

/-- A child has one ancestor more than its parent. -/
theorem placed_below (h : Rooted t) {x y : Nat × String} (hx : t.Placed x) (hy : y ∈ t.below x) :
    t.Placed y := by
  obtain ⟨hparent, hdepth⟩ := h.mem_below_iff.mp hy
  have hmem := ClassTable.mem_names_of_parent? hparent
  obtain ⟨e, he⟩ := ClassTable.exists_find? hmem
  have hentry : e.parent = some x.2 := by
    rwa [ClassTable.parent?, he, Option.bind_some] at hparent
  refine ⟨hmem, ?_⟩
  rw [h.ancestors_eq he, hentry, Option.map_some, Option.getD_some, List.length_cons, hx.2, hdepth]

/-- If there are levels enough for all classes, the outline has all of them. -/
theorem lists_outline (h : Rooted t) {levels : Nat} {x : Nat × String} (hx : t.Placed x)
    (hlevels : t.size ≤ levels + x.1) : Lists t.below x (t.outline levels x.1 x.2) := by
  induction levels generalizing x with
  | zero => exact absurd hx.lt_size (by omega)
  | succ levels ih =>
    obtain ⟨e, he⟩ := ClassTable.exists_find? hx.1
    rw [ClassTable.outline_of_find? he]
    refine Lists.node fun y hy => ih (h.placed_below hx hy) ?_
    have hdepth := (h.mem_below_iff.mp hy).2
    omega

/-! ## Paths of classes -/

theorem placed_of_at? (h : Rooted t) {path : List Nat} {x : Nat × String}
    (hat : at? t.below (0, objectName) path = some x) : t.Placed x ∧ x.1 = path.length := by
  induction path using List.reverseRecOn generalizing x with
  | nil =>
    cases hat
    exact ⟨h.placed_root, rfl⟩
  | append_singleton path i ih =>
    rw [at?_concat] at hat
    obtain ⟨y, hy, hi⟩ := Option.bind_eq_some_iff.mp hat
    have hmem := List.mem_of_getElem? hi
    obtain ⟨hplaced, hdepth⟩ := ih hy
    refine ⟨h.placed_below hplaced hmem, ?_⟩
    rw [(h.mem_below_iff.mp hmem).2, hdepth, List.length_append, List.length_singleton]

/-- The last step of a path goes from the parent of a class to the class. -/
theorem parent_of_at? (h : Rooted t) {path : List Nat} {i : Nat} {x : Nat × String}
    (hat : at? t.below (0, objectName) (path ++ [i]) = some x) :
    ∃ y, at? t.below (0, objectName) path = some y ∧ (t.below y)[i]? = some x ∧
      t.parent? x.2 = some y.2 := by
  rw [at?_concat] at hat
  obtain ⟨y, hy, hi⟩ := Option.bind_eq_some_iff.mp hat
  exact ⟨y, hy, hi, (h.mem_below_iff.mp (List.mem_of_getElem? hi)).1⟩

/-- Only one path leads to a class. -/
theorem path_unique (h : Rooted t) {path path' : List Nat} {x x' : Nat × String}
    (hat : at? t.below (0, objectName) path = some x)
    (hat' : at? t.below (0, objectName) path' = some x') (hname : x.2 = x'.2) : path = path' := by
  have hroot {path : List Nat} {i : Nat} {x : Nat × String}
      (hat : at? t.below (0, objectName) (path ++ [i]) = some x) : x.2 ≠ objectName := by
    intro heq
    obtain ⟨y, -, -, hparent⟩ := h.parent_of_at? hat
    rw [heq, h.root_parent] at hparent
    cases hparent
  induction path using List.reverseRecOn generalizing path' x x' with
  | nil =>
    cases hat
    cases path' using List.reverseRecOn with
    | nil => rfl
    | append_singleton path' j => exact absurd hname.symm (hroot hat')
  | append_singleton path i ih =>
    cases path' using List.reverseRecOn with
    | nil =>
      cases hat'
      exact absurd hname (hroot hat)
    | append_singleton path' j =>
      obtain ⟨y, hy, hi, hparent⟩ := h.parent_of_at? hat
      obtain ⟨y', hy', hj, hparent'⟩ := h.parent_of_at? hat'
      rw [hname, hparent', Option.some.injEq] at hparent
      obtain rfl := ih hy hy' hparent.symm
      obtain rfl := Option.some.inj (hy.symm.trans hy')
      have hindex : i = j := by
        refine (List.getElem?_inj ?_ (h.nodup_below y)).mp ?_
        · rw [List.length_map]
          exact (List.getElem?_eq_some_iff.mp hi).1
        · rw [List.getElem?_map, List.getElem?_map, hi, hj, Option.map_some, Option.map_some, hname]
      rw [hindex]

/-- A path leads to every class. -/
theorem exists_path (h : Rooted t) {name : String} (hname : name ∈ t.names) :
    ∃ path x, at? t.below (0, objectName) path = some x ∧ x.2 = name := by
  obtain ⟨n, hends⟩ := h.ends name hname
  induction hends with
  | @last a hnone =>
    have hroot : a = objectName := by
      by_contra hne
      exact h.linked a hname hne hnone
    exact ⟨[], (0, objectName), rfl, hroot.symm⟩
  | @step n a b hparent _ ih =>
    obtain ⟨path, y, hy, rfl⟩ := ih (h.closed a hname b hparent)
    have hmem : (y.1 + 1, a) ∈ t.below y := h.mem_below_iff.mpr ⟨hparent, rfl⟩
    obtain ⟨i, hi⟩ := List.getElem?_of_mem hmem
    exact ⟨path ++ [i], (y.1 + 1, a), by rw [at?_concat, hy, Option.bind_some, hi], rfl⟩

section

variable (h : Rooted t) {listing : List (List Nat × (Nat × String))}
  (hlisting : IsListing t.below (0, objectName) listing)

include h hlisting

theorem nodup_names_listing : ((listing.map (·.2)).map (·.2)).Nodup := by
  rw [List.map_map, List.Nodup, List.pairwise_map]
  refine hlisting.sorted.imp_of_mem fun {x y} hx hy hlt hname => ?_
  have hpath := h.path_unique ((hlisting.mem_iff x.1 x.2).mp hx) ((hlisting.mem_iff y.1 y.2).mp hy)
    hname
  exact List.lt_irrefl _ (hpath ▸ hlt)

/-- The listing has every class once. -/
theorem perm_names_listing : ((listing.map (·.2)).map (·.2)).Perm t.names := by
  refine (List.perm_ext_iff_of_nodup (h.nodup_names_listing hlisting) h.nodup).mpr fun name => ?_
  rw [List.map_map]
  constructor
  · intro hmem
    obtain ⟨x, hx, rfl⟩ := List.mem_map.mp hmem
    exact (h.placed_of_at? ((hlisting.mem_iff x.1 x.2).mp hx)).1.1
  · intro hname
    obtain ⟨path, x, hat, rfl⟩ := h.exists_path hname
    exact List.mem_map.mpr ⟨(path, x), (hlisting.mem_iff path x).mpr hat, rfl⟩

/-- The parent of a class is the last one above it that is indented less. -/
theorem shownParent?_eq {name : String} (hname : name ∈ t.names) :
    shownParent? (listing.map (·.2)) name = t.parent? name := by
  obtain ⟨path, x, hat, rfl⟩ := h.exists_path hname
  obtain ⟨before, after, hsplit⟩ := List.append_of_mem ((hlisting.mem_iff path x).mpr hat)
  have hdepth := (h.placed_of_at? hat).2
  have hnodup := h.nodup_names_listing hlisting
  rw [hsplit, List.map_append, List.map_append] at hnodup
  -- no line before that of the class has its name
  have hbefore : ∀ y ∈ before.map (·.2), y.2 ≠ x.2 := fun y hy =>
    (List.nodup_append.mp hnodup).2.2 y.2 (List.mem_map_of_mem hy) x.2 (by simp)
  rw [hsplit, List.map_append, List.map_cons, shownParent?_of_split hbefore]
  cases path using List.reverseRecOn with
  | nil =>
    cases hat
    have hnone : (before.map (·.2)).reverse.find? (fun y => decide (y.1 < 0)) = none :=
      List.find?_eq_none.mpr (by simp)
    rw [hnone, h.root_parent, Option.map_none]
  | append_singleton path i =>
    obtain ⟨y, hy, -, hparent⟩ := h.parent_of_at? hat
    obtain ⟨left, right, rfl, hright⟩ := hlisting.parent_before hsplit hy
    have hbetween : (right.map (·.2)).reverse.find? (fun z => decide (z.1 < x.1)) = none := by
      refine List.find?_eq_none.mpr fun z hz hlt => ?_
      obtain ⟨z, hzmem, rfl⟩ := List.mem_map.mp (List.mem_reverse.mp hz)
      have hin : z ∈ listing := by rw [hsplit]; simp [hzmem]
      have hzdepth := (h.placed_of_at? ((hlisting.mem_iff z.1 z.2).mp hin)).2
      have hdeep := hright z hzmem
      rw [List.length_append, List.length_singleton] at hdepth
      simp only [decide_eq_true_eq] at hlt
      omega
    have hydepth := (h.placed_of_at? hy).2
    have hfound (rest : List (Nat × String)) :
        (y :: rest).find? (fun z => decide (z.1 < x.1)) = some y := by
      refine List.find?_cons_of_pos (decide_eq_true ?_)
      rw [hydepth, hdepth, List.length_append]
      exact Nat.lt_succ_self _
    rw [List.map_append, List.map_cons, List.reverse_append, List.reverse_cons, List.append_assoc,
      List.find?_append, hbetween, Option.none_or, List.singleton_append, hfound, Option.map_some,
      hparent]

end

end Rooted

/-- The text of the hierarchy of a program. The loop that writes it comes to its end, and on the way
its guard is never closed. The lines are those of the classes in tree order from the root, with the
children of a class in the order of its list; each class has one line, indented by two blanks for
each of its proper ancestors. So the parent of every class can be read off the lines, and the lines
off the text if names can be told from indentation. -/
theorem hierarchyText_faithful (classes : List ClassDecl) :
    let t := (Hierarchy.build classes).1
    let lines := t.outline (t.size + 1) 0 objectName
    Writer.Steps t {} ⟨[], t.hierarchyText⟩ ∧
      (∀ w, Writer.Steps t {} w → ∀ x ∈ w.pending, x.1 < t.size) ∧
      t.hierarchyText = linesText lines ∧
      Lists t.below (0, objectName) lines ∧
      (lines.map (·.2)).Perm t.names ∧
      (∀ x ∈ lines, (t.ancestors x.2).length = x.1 + 1) ∧
      (∀ name ∈ t.names, shownParent? lines name = t.parent? name) ∧
      ((∀ c ∈ classes, Legible c.name) → readLines t.hierarchyText = lines) := by
  intro t lines
  have h : Rooted t := rooted_build classes
  have hlists : Lists t.below (0, objectName) lines := h.lists_outline h.placed_root (Nat.le_succ _)
  obtain ⟨listing, hlisting, hlines⟩ := hlists
  have hperm := h.perm_names_listing hlisting
  rw [hlines] at hperm
  refine ⟨?_, fun w hw x hx => ?_, hierarchyText_eq t, ⟨listing, hlisting, hlines⟩, hperm,
    fun x hx => ?_, fun name hname => ?_, fun hlegible => ?_⟩
  · rw [hierarchyText_eq, ← String.empty_append (s := linesText _)]
    exact Writer.steps_outline (Nat.add_zero _) objectName [] ""
  · have hplaced := Writer.forall_mem_pending h.placed_root (fun x e hx he child hchild =>
      h.placed_below hx (ClassTable.mem_below.mpr ⟨e, he, hchild, rfl⟩)) hw x hx
    exact hplaced.lt_size
  · rw [← hlines] at hx
    obtain ⟨y, hy, rfl⟩ := List.mem_map.mp hx
    exact (h.placed_of_at? ((hlisting.mem_iff y.1 y.2).mp hy)).1.2
  · have hshown := h.shownParent?_eq hlisting hname
    rwa [hlines] at hshown
  · rw [hierarchyText_eq]
    refine readLines_linesText fun x hx => ?_
    have hbuiltin : ∀ c ∈ builtinClasses, Legible c.name := by decide
    have hname := hperm.subset (List.mem_map_of_mem hx)
    rcases ((build_isTree classes).2 x.2).mp hname with ⟨c, hc, hname⟩ | ⟨-, c, hc, hname⟩
    · exact hname ▸ hbuiltin c hc
    · exact hname ▸ hlegible c hc

/-- Classes that are declared before their parents, and a cycle. -/
def twigs : List ClassDecl :=
  [{ name := "Leaf", parent := some "Main" }, { name := "Main" },
    { name := "Loop", parent := some "Pool" }, { name := "Twig", parent := some "Leaf" },
    { name := "Pool", parent := some "Loop" }, { name := "Bud", parent := some "Main" }]

theorem hierarchyText_faithful_twigs :
    let t := (Hierarchy.build twigs).1
    let lines := [(0, "Object"), (1, "String"), (1, "Sys"), (1, "TextIO"), (1, "Main"), (2, "Leaf"),
      (3, "Twig"), (2, "Bud"), (1, "Loop"), (1, "Pool")]
    (∀ c ∈ twigs, Legible c.name) ∧ readLines t.hierarchyText = lines ∧
      "Twig" ∈ t.names ∧ shownParent? lines "Bud" = some "Main" ∧
      shownParent? lines "Twig" = t.parent? "Twig" ∧ (t.ancestors "Twig").length = 4 ∧
      Writer.Steps t {} ⟨[], linesText lines⟩ := by
  intro t lines
  have hlines : t.outline (t.size + 1) 0 objectName = lines := by decide
  have hlegible : ∀ c ∈ twigs, Legible c.name := by decide
  have hnames : "Twig" ∈ t.names := by decide
  obtain ⟨hsteps, -, htext, -, -, hdepths, hparents, hread⟩ := hierarchyText_faithful twigs
  refine ⟨hlegible, (hread hlegible).trans hlines, hnames, rfl, ?_, ?_, ?_⟩
  · have hshown := hparents "Twig" hnames
    rwa [hlines] at hshown
  · exact hdepths (3, "Twig") (by rw [hlines]; decide)
  · rw [htext, hlines] at hsteps
    exact hsteps

end ClassCompiler
