/-!
# Value trees

The common shape of the text formats in which programs are dumped and read. A value tree knows
names, fields and lists, but nothing of programs.
-/

namespace ClassCompiler

inductive Sign where
  | plus | minus
deriving DecidableEq

inductive Tree where
  | number (sign : Option Sign) (magnitude : Nat)
  /-- A number that is no integer, as it is written. -/
  | fraction (written : String)
  | char (value : Char)
  | text (value : String)
  | flag (value : Bool)
  /-- No value where there may be one. -/
  | absent
  /-- A value where there may be none. -/
  | present (value : Tree)
  /-- A value with `Some` right before it, such as `SomeLength(1)`: a value where there may be none.
  Elsewhere the two are one name, if the value starts with a plain name. -/
  | joined (isName : Bool) (value : Tree)
  /-- A name on its own, which stands for a case of an enumeration. -/
  | word (name : String)
  /-- Parentheses with nothing between them, not even a blank. -/
  | unit
  | list (items : List Tree)
  /-- Keys with their values. -/
  | map (entries : List (Tree × Tree))
  /-- Values in parentheses, usually one value after a name, such as `Length(1)`. -/
  | tuple (name : Option String) (items : List Tree)
  /-- Named values in parentheses, such as `Point(x: 1, y: 2)`. -/
  | record (name : Option String) (fields : List (String × Tree))

namespace Tree

mutual

/-- The number of levels below a value: entering a bracket is a level, and so is entering an item of
a list, a field of a record or an entry of a map. An item of a tuple is on the level of its tuple. -/
def depth : Tree → Nat
  | number .. | fraction _ | char _ | text _ | flag _ | absent | word _ | unit => 0
  | present t | joined _ t => 1 + depth t
  | list items => 1 + itemsDepth 1 items
  | map entries => 1 + entriesDepth entries
  | tuple _ items => 1 + itemsDepth 0 items
  | record _ fields => 1 + fieldsDepth fields

/-- The levels below the deepest of some items, each of which is so many levels down. -/
def itemsDepth (down : Nat) : List Tree → Nat
  | [] => 0
  | t :: ts => max (down + depth t) (itemsDepth down ts)

def entriesDepth : List (Tree × Tree) → Nat
  | [] => 0
  | e :: es => max (1 + entryDepth e) (entriesDepth es)

def entryDepth : Tree × Tree → Nat
  | (key, t) => max (depth key) (depth t)

def fieldsDepth : List (String × Tree) → Nat
  | [] => 0
  | f :: fs => max (1 + fieldDepth f) (fieldsDepth fs)

def fieldDepth : String × Tree → Nat
  | (_, t) => depth t

end

/-- Trees with more levels than this are neither written nor read. -/
def maxDepth : Nat := 128

/-! ## Values -/

def ofUInt64 (n : UInt64) : Tree := .number none n.toNat

/-- An unsigned number that fits into 64 bits. -/
def uint64? : Tree → Option UInt64
  | .number none n => if n < UInt64.size then some n.toUInt64 else none
  | _ => none

def ofInt32 (i : Int32) : Tree :=
  if i.toInt < 0 then .number (some .minus) i.toInt.natAbs else .number none i.toInt.natAbs

/-- A number in the range of literals, with or without a sign. -/
def int32? : Tree → Option Int32
  | .number (some .minus) n =>
    if n ≤ Int32.size / 2 then some (Int32.ofInt (-(n : Int))) else none
  | .number _ n => if n < Int32.size / 2 then some (Int32.ofInt (n : Int)) else none
  | _ => none

def text? : Tree → Option String
  | .text s => some s
  | _ => none

def flag? : Tree → Option Bool
  | .flag b => some b
  | _ => none

def ofOption {α : Type} (write : α → Tree) : Option α → Tree
  | none => .absent
  | some a => .present (write a)

def ofList {α : Type} (write : α → Tree) (xs : List α) : Tree := .list (xs.map write)

/-- A case of an enumeration with a record in it. -/
def ofCase (case name : String) (fields : List (String × Tree)) : Tree :=
  .tuple (some case) [.record (some name) fields]

end Tree

end ClassCompiler
