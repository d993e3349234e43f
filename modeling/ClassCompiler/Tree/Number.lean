import ClassCompiler.Tree
import ClassCompiler.Tree.Quoted

/-!
# Written numbers

An integer has an optional sign and digits of base 10, 16, 2 or 8, with underscores after the first
digit. It fits into 64 bits, signed if it has a sign. A fraction has digits before or after a point
and an optional exponent, and no underscores; decimal integers that are too large count as fractions.
-/

namespace ClassCompiler.Tree.Number

def splitSign : List Char → Option Sign × List Char
  | '+' :: cs => (some .plus, cs)
  | '-' :: cs => (some .minus, cs)
  | cs => (none, cs)

/-- The value of digits, with underscores between them. -/
def magnitude? (base : Nat) : (value : Nat) → List Char → Option Nat
  | value, [] => some value
  | value, c :: cs =>
    if c = '_' then magnitude? base value cs
    else match Quoted.hexDigit? c with
      | none => none
      | some d => if d < base then magnitude? base (base * value + d) cs else none

/-- The base of a number and what follows the mark of the base. -/
def splitBase : List Char → Nat × List Char
  | '0' :: 'x' :: cs => (16, cs)
  | '0' :: 'b' :: cs => (2, cs)
  | '0' :: 'o' :: cs => (8, cs)
  | cs => (10, cs)

/-- Whether a number fits into 64 bits. -/
def fits : Option Sign → Nat → Bool
  | none, n => n < UInt64.size
  | some .plus, n => n < Int64.size / 2
  | some .minus, n => n ≤ Int64.size / 2

/-- The sign and the magnitude of an integer. -/
def integer? (cs : List Char) : Option (Option Sign × Nat) :=
  let (sign, cs) := splitSign cs
  let (base, digits) := splitBase cs
  if digits.isEmpty || digits.head? == some '_' then none
  else (magnitude? base 0 digits).bind fun n => if fits sign n then some (sign, n) else none

/-- Whether some characters are an exponent, or nothing. -/
def isExponent : List Char → Bool
  | [] => true
  | c :: cs =>
    let digits := (splitSign cs).2
    (c == 'e' || c == 'E') && !digits.isEmpty && digits.all Char.isDigit

/-- Whether some characters are a fraction without its sign. -/
def isUnsignedFraction (cs : List Char) : Bool :=
  let whole := cs.takeWhile Char.isDigit
  match cs.dropWhile Char.isDigit with
  | '.' :: rest =>
    !(whole ++ rest.takeWhile Char.isDigit).isEmpty && isExponent (rest.dropWhile Char.isDigit)
  | rest => !whole.isEmpty && isExponent rest

/-- The names of numbers that have no digits. -/
def isNamed (name : String) : Bool := name == "inf" || name == "NaN"

/-- Whether some characters are a fraction. -/
def isFraction (cs : List Char) : Bool :=
  let (_, cs) := splitSign cs
  isNamed (String.ofList cs) || isUnsignedFraction cs

end ClassCompiler.Tree.Number
