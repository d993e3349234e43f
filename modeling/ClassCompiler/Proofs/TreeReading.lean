import Mathlib.Data.List.Nodup
import ClassCompiler.Proofs.TreeTokens
import ClassCompiler.Tree.Reading

/-!
# Levels of reading

Reading a written tree takes a number of levels that can be told from the tree: as many as it is
deep, but two for every case of an enumeration, with or without a value. With that many levels left,
or more, the value that was written is read, and with fewer nothing is.

Results:
1. `Written.depth_le_readLevels`: what can be read can be written.
2. `Finds.below`, `Finds.and_then`: the levels of two readings, one further down or both side by side.
3. `Reads.option`, `Reads.list`, `Reads.bareCase`, `Reader.finds_case`, `Reader.finds_tail`: the levels of
   each kind of value.
-/

namespace ClassCompiler.Tree

mutual

/-- The levels that reading a written tree takes: one for a value that may be missing or for a list,
one more for an item of a list, and two for a case or for a record with its fields. -/
def readLevels : Tree → Nat
  | .present t => 1 + readLevels t
  | .word _ => 2
  | .list items => 1 + itemsReadLevels 1 items
  | .tuple _ items => 2 + itemsReadLevels 0 items
  | .record _ fields => 2 + fieldsReadLevels fields
  | _ => 0

def itemsReadLevels (down : Nat) : List Tree → Nat
  | [] => 0
  | t :: ts => max (down + readLevels t) (itemsReadLevels down ts)

def fieldsReadLevels : List (String × Tree) → Nat
  | [] => 0
  | f :: fs => max (fieldReadLevels f) (fieldsReadLevels fs)

def fieldReadLevels : String × Tree → Nat
  | (_, t) => readLevels t

end

theorem fieldsReadLevels_append (fs gs : List (String × Tree)) :
    fieldsReadLevels (fs ++ gs) = max (fieldsReadLevels fs) (fieldsReadLevels gs) := by
  induction fs with
  | nil => exact (Nat.zero_max _).symm
  | cons f fs ih => rw [List.cons_append, fieldsReadLevels, fieldsReadLevels, ih, Nat.max_assoc]

theorem itemsDepth_le {items : List Tree} (h : ∀ t ∈ items, t.depth ≤ t.readLevels) (down : Nat) :
    itemsDepth down items ≤ itemsReadLevels down items := by
  induction items with
  | nil => exact Nat.le_refl _
  | cons t items ih =>
    have ht := h t List.mem_cons_self
    have hitems := ih fun t ht => h t (List.mem_cons_of_mem _ ht)
    rw [itemsDepth, itemsReadLevels]
    omega

theorem fieldsDepth_le {fields : List (String × Tree)} (h : ∀ f ∈ fields, f.2.depth ≤ f.2.readLevels) :
    fieldsDepth fields ≤ 1 + fieldsReadLevels fields := by
  induction fields with
  | nil => exact Nat.zero_le _
  | cons f fields ih =>
    obtain ⟨key, t⟩ := f
    have ht : t.depth ≤ t.readLevels := h (key, t) List.mem_cons_self
    have hfields := ih fun f hf => h f (List.mem_cons_of_mem _ hf)
    rw [fieldsDepth, fieldsReadLevels, fieldDepth, fieldReadLevels]
    omega

/-- Reading takes no fewer levels than writing. -/
theorem Written.depth_le_readLevels {t : Tree} (h : Written t) : t.depth ≤ t.readLevels := by
  induction h with
  | number | text | flag | absent | word => simp [depth]
  | present h ih =>
    rw [depth, readLevels]
    omega
  | list h ih =>
    have := itemsDepth_le ih 1
    rw [depth, readLevels]
    omega
  | @case name t hname h ih =>
    have := @itemsDepth_le [t] (by simpa using ih) 0
    rw [depth, readLevels]
    omega
  | record hname hne hkeys h ih =>
    have := fieldsDepth_le ih
    rw [depth, readLevels]
    omega

/-! ## Readings that take levels -/

/-- A reading finds a value if `needed` levels are left, and nothing otherwise. -/
def Finds {α : Type} (found : Option α) (needed left : Nat) (a : α) : Prop :=
  found = if needed ≤ left then some a else none

namespace Finds

variable {α β : Type} {found : Option α} {next : α → Option β} {a : α} {b : β} {k m n : Nat}

theorem pure (a : α) (n : Nat) : Finds (some a) 0 n a := by simp [Finds]

theorem cast (h : Finds found k n a) (hk : k = m) : Finds found m n a := hk ▸ h

theorem map (h : Finds found k n a) (f : α → β) : Finds (found.map f) k n (f a) := by
  rw [Finds] at h
  rw [Finds, h]
  split <;> rfl

theorem bind {l left : Nat} (hl : l ≤ n ↔ k ≤ n ∧ m ≤ left) (h : Finds found k n a)
    (hnext : k ≤ n → Finds (next a) m left b) : Finds (found >>= next) l n b := by
  rw [Finds] at h
  by_cases hk : k ≤ n
  · rw [Finds, h, if_pos hk, if_congr (hl.trans (and_iff_right hk)) rfl rfl]
    exact hnext hk
  · rw [Finds, h, if_neg hk, if_neg fun hle => hk (hl.mp hle).1]
    rfl

/-- The first reading takes its levels, and the second has the others left. -/
theorem below (h : Finds found k n a) (hnext : k ≤ n → Finds (next a) m (n - k) b) :
    Finds (found >>= next) (k + m) n b :=
  h.bind (by omega) hnext

/-- Both readings have the same levels left. -/
theorem and_then (h : Finds found k n a) (hnext : Finds (next a) m n b) :
    Finds (found >>= next) (max k m) n b :=
  h.bind (by omega) fun _ => hnext

end Finds

/-- A reader finds a value in its tree, as far as the levels left are enough for the tree. -/
def Reads {α : Type} (read : Reader α) (left : Nat) (t : Tree) (a : α) : Prop :=
  Finds (read { levels := left } t) t.readLevels left a

theorem finds_down (k n : Nat) :
    Finds (({ levels := n } : Reading).down? k) k n { levels := n - k } := rfl

theorem finds_mapM {α : Type} {write : α → Tree} {xs : List α} {item : Tree → Option α} {n : Nat}
    (h : ∀ a ∈ xs, Finds (item (write a)) (1 + (write a).readLevels) n a) :
    Finds ((xs.map write).mapM item) (itemsReadLevels 1 (xs.map write)) n xs := by
  induction xs with
  | nil => exact Finds.pure [] n
  | cons a xs ih =>
    rw [List.map_cons, List.mapM_cons, itemsReadLevels]
    have htail := ih fun a ha => h a (List.mem_cons_of_mem _ ha)
    exact (h a List.mem_cons_self).and_then <|
      (htail.and_then (Finds.pure (a :: xs) n)).cast (Nat.max_zero _)

theorem int32?_ofInt32 (i : Int32) : int32? (.ofInt32 i) = some i := by
  have hlow : -2147483648 ≤ i.toInt := i.minValue_le_toInt
  have hhigh : i.toInt ≤ 2147483647 := i.toInt_le
  rw [ofInt32]
  split
  next hneg =>
    have habs : -(i.toInt.natAbs : Int) = i.toInt := by omega
    have hfits : i.toInt.natAbs ≤ Int32.size / 2 := by
      change _ ≤ 2147483648
      omega
    rw [int32?, if_pos hfits, habs, Int32.ofInt_toInt]
  next hpos =>
    have habs : (i.toInt.natAbs : Int) = i.toInt := by omega
    have hfits : i.toInt.natAbs < Int32.size / 2 := by
      change _ < 2147483648
      omega
    rw [int32?, if_pos hfits, habs, Int32.ofInt_toInt]
    simp

namespace Reads

variable {α : Type} {read : Reader α} {n : Nat}

theorem text (s : String) : Reads .text n (.text s) s := by
  simp [Reads, Finds, readLevels, Reader.text, Reader.plain, text?]

theorem flag (b : Bool) : Reads .flag n (.flag b) b := by
  simp [Reads, Finds, readLevels, Reader.flag, Reader.plain, flag?]

theorem word (w : UInt64) : Reads .word n (.ofUInt64 w) w := by
  simp [Reads, Finds, readLevels, Reader.word, Reader.plain, uint64?, ofUInt64, w.toNat_lt]

theorem int (i : Int32) : Reads .int n (.ofInt32 i) i := by
  have hlevels : (ofInt32 i).readLevels = 0 := by
    rw [ofInt32]
    split <;> rfl
  rw [Reads, hlevels, Reader.int, Reader.plain, int32?_ofInt32]
  exact Finds.pure i n

theorem bareCase {label : α → String} {cases : List α} {a : α}
    (h : cases.find? (label · == label a) = some a) :
    Reads (.bareCase label cases) n (.word (label a)) a := by
  rw [Reads, Finds, readLevels, Reader.bareCase, Reading.down?, h]
  split <;> rfl

theorem option {write : α → Tree} {o : Option α}
    (h : ∀ a ∈ o, 1 ≤ n → Reads read (n - 1) (write a) a) :
    Reads (.option read) n (ofOption write o) o := by
  cases o with
  | none => simp [Reads, Finds, readLevels, ofOption, Reader.option]
  | some a =>
    rw [Reads, ofOption, Reader.option, readLevels]
    exact (finds_down 1 n).below fun hn => (h a rfl hn).map some

theorem list {write : α → Tree} {xs : List α}
    (h : ∀ a ∈ xs, 2 ≤ n → Reads read (n - 2) (write a) a) :
    Reads (.list read) n (ofList write xs) xs := by
  rw [Reads, ofList, Reader.list, readLevels]
  refine (finds_down 1 n).below fun hn => finds_mapM fun a ha => ?_
  have hitem (hn : 1 ≤ n - 1) : Finds (read { levels := n - 1 - 1 } (write a)) _ (n - 1 - 1) a :=
    h a ha (by omega)
  exact (finds_down 1 (n - 1)).below hitem

/-- Where the levels left bound the fuel, the fuel does not run out. -/
theorem of_fuel {read : Nat → Reader α} {t : Tree} {a : α}
    (h : ∀ fuel n, n ≤ fuel → Reads (read (fuel + 1)) n t a) {fuel n : Nat} (hfuel : n < fuel) :
    Reads (read fuel) n t a := by
  cases fuel with
  | zero => exact absurd hfuel (Nat.not_lt_zero n)
  | succ fuel => exact h fuel n (Nat.le_of_lt_succ hfuel)

end Reads

/-! ## Fields of records -/

namespace Fields

variable {α : Type} {read : Reader α} {entries : List (String × Tree)} {key : String} {t : Tree}
  {a : α} {n : Nat}

theorem finds_need (hkey : entries.lookup key = some t) (h : Reads read n t a) :
    Finds (need? { reading := { levels := n }, entries } key read) t.readLevels n a := by
  rw [need?, hkey]
  exact h

theorem finds_getD (hkey : entries.lookup key = some t) (default : α) (h : Reads read n t a) :
    Finds (getD? { reading := { levels := n }, entries } key default read) t.readLevels n a := by
  rw [getD?, hkey]
  exact h

end Fields

namespace Reader

/-- A record with its own name and just the known fields, each of them once. -/
theorem isRecordOf_self {name : String} {known : List String} {entries : List (String × Tree)}
    (hkeys : entries.map (·.1) = known) (hnodup : known.Nodup) (r : Reading) :
    isRecordOf name known r (some name) entries = true := by
  have honce : ∀ key ∈ known, entries.countP (·.1 == key) ≤ 1 := by
    intro key _
    rw [← hkeys] at hnodup
    have := List.nodup_iff_count_le_one.mp hnodup key
    rwa [List.count, List.countP_map] at this
  have hknown : ∀ f ∈ entries, known.contains f.1 = true := by
    intro f hf
    rw [List.contains_iff_mem, ← hkeys]
    exact List.mem_map_of_mem hf
  simp only [isRecordOf, Option.all_some, beq_self_eq_true, Bool.true_and, Bool.and_eq_true,
    List.all_eq_true, decide_eq_true_eq, Bool.or_eq_true]
  exact ⟨honce, fun f hf => .inl (hknown f hf)⟩

theorem finds_fields {name : String} {known : List String} {entries : List (String × Tree)}
    (hkeys : entries.map (·.1) = known) (hnodup : known.Nodup) (hne : known ≠ []) (n : Nat) :
    Finds (Reader.fields name known { levels := n } (.record (some name) entries)) 2 n
      { reading := { levels := n - 2 }, entries } := by
  have hempty : entries.isEmpty = false := by
    rw [List.isEmpty_eq_false_iff]
    rintro rfl
    exact hne hkeys.symm
  simp only [Reader.fields, hempty, isRecordOf_self hkeys hnodup, Bool.false_eq_true, if_false,
    if_true, Reading.down?, Finds]
  split <;> rfl

theorem finds_recordCase (case : String) (t : Tree) (n : Nat) :
    Finds (Reader.recordCase { levels := n } (.tuple (some case) [t])) 2 n
      (case, { levels := n - 2 }, t) := by
  rw [Reader.recordCase, Reading.down?, Finds]
  split <;> rfl

section

variable {α β : Type} {name : String} {entries tail : List (String × Tree)} {n : Nat}

/-- A record whose last fields are read first. -/
theorem finds_tail {known : List String} {common : Fields → Option β} {b : β}
    {next : Fields × β → Option α} {a : α} (hkeys : (entries ++ tail).map (·.1) = known)
    (hnodup : known.Nodup) (hne : known ≠ [])
    (htail : Finds (common { reading := { levels := n - 2 }, entries := entries ++ tail })
      (fieldsReadLevels tail) (n - 2) b)
    (hnext : Finds (next ({ reading := { levels := n - 2 }, entries := entries ++ tail }, b))
      (fieldsReadLevels entries) (n - 2) a) :
    Finds ((Reader.fields name known { levels := n } (.record (some name) (entries ++ tail)) >>=
        fun fs => common fs >>= fun b => some (fs, b)) >>= next)
      (2 + fieldsReadLevels (entries ++ tail)) n a := by
  rw [bind_assoc]
  refine .below (Reader.finds_fields hkeys hnodup hne n) fun _ => ?_
  rw [bind_assoc, Tree.fieldsReadLevels_append, Nat.max_comm]
  exact .and_then htail hnext

/-- A case with a record in it takes four levels besides those of the fields. -/
theorem finds_case {case : String} {next : String × Reading × Tree → Option α} {a : α}
    (h : 2 ≤ n → Finds (next (case, { levels := n - 2 }, .record (some name) entries))
      (2 + fieldsReadLevels entries) (n - 2) a) :
    Finds (Reader.recordCase { levels := n } (.ofCase case name entries) >>= next)
      (Tree.ofCase case name entries).readLevels n a := by
  refine .cast (.below (Reader.finds_recordCase case _ n) h) ?_
  simp [Tree.ofCase, Tree.readLevels, Tree.itemsReadLevels]

end

end Reader

end ClassCompiler.Tree
