import ClassCompiler.Tree.Extension

/-!
# Reading value trees

Lists, maps, tuples and records may end with a comma. A name before a parenthesis names the tuple or
record; what is inside decides which of the two it is, and parentheses with only blanks in them are a
record.
-/

namespace ClassCompiler.Tree

/-- The value of a word that does not stand for a case. -/
def special? : String → Option Tree
  | "true" => some (.flag true)
  | "false" => some (.flag false)
  | "None" => some .absent
  | "inf" => some (.fraction "inf")
  | "NaN" => some (.fraction "NaN")
  | _ => none

/-- What follows `Some` in a longer name. -/
def afterSome? (name : String) : Option String :=
  match name.toList with
  | 'S' :: 'o' :: 'm' :: 'e' :: c :: cs => some (String.ofList (c :: cs))
  | _ => none

mutual

/-- The value at the start of some tokens, and the other tokens. A bracket takes one of the levels,
and so does `Some`. -/
def value? (x : Extensions) : (fuel levels : Nat) → List Token → Option (Tree × List Token)
  | 0, _, _ => none
  | fuel + 1, levels, ts =>
    match ts with
    | .number sign n :: rest => some (.number sign n, rest)
    | .fraction s :: rest => some (.fraction s, rest)
    | .char c :: rest => some (.char c, rest)
    | .text s :: rest => some (.text s, rest)
    | .emptyParens :: rest => some (.unit, rest)
    | .openBracket :: rest =>
      if levels = 0 then none
      else (items? x fuel (levels - 1) .closeBracket rest).map fun (items, rest) => (.list items, rest)
    | .openBrace :: rest =>
      if levels = 0 then none
      else (entries? x fuel (levels - 1) rest).map fun (entries, rest) => (.map entries, rest)
    | .openParen :: rest => if levels = 0 then none else inside? x fuel (levels - 1) none rest
    | .joinedSome :: rest => (value? x fuel levels rest).map fun (t, rest) => (.joined false t, rest)
    | .name true n :: rest => named? x fuel levels n rest
    | .name false n :: rest =>
      if n = "Some" then
        if levels = 0 then none
        else (optional? x fuel (levels - 1) rest).map fun (t, rest) => (.present t, rest)
      else match special? n, afterSome? n with
        | some t, _ => some (t, rest)
        | none, some n => (named? x fuel levels n rest).map fun (t, rest) => (.joined true t, rest)
        | none, none => named? x fuel levels n rest
    | _ => none

/-- A name with what follows it in parentheses, if anything does. -/
def named? (x : Extensions) :
    (fuel levels : Nat) → (name : String) → List Token → Option (Tree × List Token)
  | 0, _, _, _ => none
  | fuel + 1, levels, name, ts =>
    match ts with
    | .emptyParens :: rest => some (.record (some name) [], rest)
    | .openParen :: rest => if levels = 0 then none else inside? x fuel (levels - 1) (some name) rest
    | _ => some (.word name, ts)

/-- What follows `Some`: a value in parentheses, or one without them if that is allowed. -/
def optional? (x : Extensions) : (fuel levels : Nat) → List Token → Option (Tree × List Token)
  | 0, _, _ => none
  | fuel + 1, levels, ts =>
    match ts with
    | .emptyParens :: _ => none
    | .openParen :: rest =>
      match value? x fuel levels rest with
      | some (t, .closeParen :: rest) | some (t, .comma :: .closeParen :: rest) => some (t, rest)
      | _ => none
    | _ => if x.implicitSome then value? x fuel levels ts else none

/-- What follows an opening parenthesis. -/
def inside? (x : Extensions) :
    (fuel levels : Nat) → (name : Option String) → List Token → Option (Tree × List Token)
  | 0, _, _, _ => none
  | fuel + 1, levels, name, ts =>
    match ts with
    | .closeParen :: rest => some (.record name [], rest)
    | .name _ _ :: .colon :: _ =>
      (fields? x fuel levels ts).map fun (fields, rest) => (.record name fields, rest)
    | _ => (items? x fuel levels .closeParen ts).map fun (items, rest) => (.tuple name items, rest)

/-- Items up to a closing token. -/
def items? (x : Extensions) :
    (fuel levels : Nat) → (close : Token) → List Token → Option (List Tree × List Token)
  | 0, _, _, _ => none
  | fuel + 1, levels, close, ts =>
    if ts.head? = some close then some ([], ts.tail)
    else match value? x fuel levels ts with
      | none => none
      | some (t, .comma :: rest) =>
        (items? x fuel levels close rest).map fun (items, rest) => (t :: items, rest)
      | some (t, rest) => if rest.head? = some close then some ([t], rest.tail) else none

/-- Fields up to a closing parenthesis. -/
def fields? (x : Extensions) :
    (fuel levels : Nat) → List Token → Option (List (String × Tree) × List Token)
  | 0, _, _ => none
  | fuel + 1, levels, ts =>
    match ts with
    | .closeParen :: rest => some ([], rest)
    | .name _ key :: .colon :: rest =>
      match value? x fuel levels rest with
      | some (t, .comma :: rest) =>
        (fields? x fuel levels rest).map fun (fields, rest) => ((key, t) :: fields, rest)
      | some (t, .closeParen :: rest) => some ([(key, t)], rest)
      | _ => none
    | _ => none

/-- Keys and values up to a closing brace. -/
def entries? (x : Extensions) :
    (fuel levels : Nat) → List Token → Option (List (Tree × Tree) × List Token)
  | 0, _, _ => none
  | fuel + 1, levels, ts =>
    match ts with
    | .closeBrace :: rest => some ([], rest)
    | _ =>
      match value? x fuel levels ts with
      | some (key, .colon :: rest) =>
        match value? x fuel levels rest with
        | some (t, .comma :: rest) =>
          (entries? x fuel levels rest).map fun (entries, rest) => ((key, t) :: entries, rest)
        | some (t, .closeBrace :: rest) => some ([(key, t)], rest)
        | _ => none
      | _ => none

end

/-- The extensions of a text and the tree that it stands for: one value and nothing after it. -/
def parse? (s : String) : Option (Extensions × Tree) := do
  let (x, ts) ← Extensions.ofTokens? (← Token.read? s)
  match value? x (3 * ts.length + 3) maxDepth ts with
  | some (t, []) => some (x, t)
  | _ => none

end ClassCompiler.Tree
