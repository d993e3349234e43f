import ClassCompiler.Tree.Token

/-!
# Extensions

A text may start with attributes such as `#![enable(implicit_some)]`, which allow it to leave out
some of what is written otherwise.
-/

namespace ClassCompiler.Tree

/-- What a text may leave out. -/
structure Extensions where
  /-- A value where there may be none stands without `Some` around it. -/
  implicitSome : Bool := false
  /-- A record in a case shares the parentheses of the case. -/
  unwrapsCases : Bool := false
deriving DecidableEq

namespace Extensions

/-- The extensions with one more, if there is one of that name. The extension `unwrap_newtypes` is
about values that no program holds. -/
def add? (x : Extensions) : String → Option Extensions
  | "implicit_some" => some { x with implicitSome := true }
  | "unwrap_variant_newtypes" => some { x with unwrapsCases := true }
  | "unwrap_newtypes" => some x
  | _ => none

/-- Adds the extensions up to the end of an attribute, of which there is at least one. A comma may
follow the last one. -/
def names? (x : Extensions) : List Token → Option (Extensions × List Token)
  | .name _ n :: .comma :: .closeParen :: .closeBracket :: ts
  | .name _ n :: .closeParen :: .closeBracket :: ts => (x.add? n).map fun x => (x, ts)
  | .name _ n :: .comma :: ts =>
    match x.add? n with
    | none => none
    | some x => names? x ts
  | _ => none

/-- Adds the extensions of so many attributes at most. -/
def attributesWithin? (x : Extensions) : (fuel : Nat) → List Token → Option (Extensions × List Token)
  | fuel + 1, .hash :: .bang :: .openBracket :: .name false "enable" :: .openParen :: ts =>
    match names? x ts with
    | none => none
    | some (x, ts) => attributesWithin? x fuel ts
  | _, ts => some (x, ts)

/-- The extensions that some tokens start with, and the other tokens. -/
def ofTokens? (ts : List Token) : Option (Extensions × List Token) :=
  attributesWithin? {} ts.length ts

end Extensions

end ClassCompiler.Tree
