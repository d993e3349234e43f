import ClassCompiler.Text.Character

/-!
# Quoted text

Text stands between double quotes. Characters that cannot be seen, and those that would merge with
the character before them, are written by their number in braces; a few have shorter escapes.
-/

namespace ClassCompiler.Tree.Quoted

def openBrace : Char := '\x7b'

def closeBrace : Char := '\x7d'

/-- The escape with one letter. An apostrophe is escaped only where asked for. -/
def shortEscape? (apostrophe : Bool) (c : Char) : Option Char :=
  if c = '\x00' then some '0'
  else if c = '\t' then some 't'
  else if c = '\r' then some 'r'
  else if c = '\n' then some 'n'
  else if c = '"' then some '"'
  else if c = '\\' then some '\\'
  else if c = '\'' && apostrophe then some '\''
  else none

def encodeChar (apostrophe : Bool) (c : Char) : List Char :=
  match shortEscape? apostrophe c with
  | some e => ['\\', e]
  | none =>
    if Text.isPrintable c then [c]
    else ['\\', 'u', openBrace] ++ Nat.toDigits 16 c.toNat ++ [closeBrace]

/-- A text with its quotes. -/
def encode (apostrophe : Bool) (s : String) : String :=
  "\"" ++ String.ofList (s.toList.flatMap (encodeChar apostrophe)) ++ "\""

def hexDigit? (c : Char) : Option Nat :=
  if c.isDigit then some (c.toNat - '0'.toNat)
  else if 'a' ≤ c ∧ c ≤ 'f' then some (c.toNat - 'a'.toNat + 10)
  else if 'A' ≤ c ∧ c ≤ 'F' then some (c.toNat - 'A'.toNat + 10)
  else none

/-- The character of a number, if there is one. -/
def char? (n : Nat) : Option Char := if n.isValidChar then some (Char.ofNat n) else none

/-- The digits between braces, so many at most, and what follows the closing brace. -/
def codePoint? : (digits value : Nat) → List Char → Option (Nat × List Char)
  | digits, value, c :: cs =>
    if c = closeBrace then some (value, cs)
    else match digits with
      | 0 => none
      | digits + 1 =>
        match hexDigit? c with
        | none => none
        | some d => codePoint? digits (16 * value + d) cs
  | _, _, [] => none

/-- The character meant by what follows a backslash, and the rest. -/
def escaped? : List Char → Option (Char × List Char)
  | '\'' :: cs => some ('\'', cs)
  | '"' :: cs => some ('"', cs)
  | '\\' :: cs => some ('\\', cs)
  | 'n' :: cs => some ('\n', cs)
  | 'r' :: cs => some ('\r', cs)
  | 't' :: cs => some ('\t', cs)
  | '0' :: cs => some ('\x00', cs)
  | 'x' :: c :: d :: cs => do
    some (Char.ofNat (16 * (← hexDigit? c) + (← hexDigit? d)), cs)
  | 'u' :: b :: c :: cs => do
    if b != openBrace || c == closeBrace then none
    else
      let (n, rest) ← codePoint? 6 0 (c :: cs)
      some (← char? n, rest)
  | _ => none

/-- Reads up to the closing quote. The characters read so far come last first; the fuel is at least
the number of characters left. -/
def decodeWithin : (fuel : Nat) → (read : List Char) → List Char → Option (String × List Char)
  | 0, _, _ => none
  | fuel + 1, read, cs =>
    match cs with
    | [] => none
    | '"' :: rest => some (String.ofList read.reverse, rest)
    | '\\' :: rest =>
      match escaped? rest with
      | none => none
      | some (c, rest) => decodeWithin fuel (c :: read) rest
    | c :: rest => decodeWithin fuel (c :: read) rest

/-- The text that starts after an opening quote, and what follows its closing quote. -/
def decode (cs : List Char) : Option (String × List Char) := decodeWithin cs.length [] cs

/-- The character between apostrophes that starts after the first of them, and what follows. -/
def literal? : List Char → Option (Char × List Char)
  | '\\' :: cs =>
    match escaped? cs with
    | some (c, '\'' :: rest) => some (c, rest)
    | _ => none
  | c :: '\'' :: rest => if c = '\'' then none else some (c, rest)
  | _ => none

/-- The text up to a quote with so many number signs after it. Nothing is escaped. -/
def raw? (signs : Nat) : (read : List Char) → List Char → Option (String × List Char)
  | _, [] => none
  | read, c :: cs =>
    if c == '"' && cs.take signs == List.replicate signs '#' then
      some (String.ofList read.reverse, cs.drop signs)
    else raw? signs (c :: read) cs

end ClassCompiler.Tree.Quoted
