import ClassCompiler.Tree.Number

/-!
# Tokens of written value trees

Tokens are separated by blanks and comments. A line comment ends with its line, block comments nest.
Characters of names and numbers that stand next to each other belong to one token.
-/

namespace ClassCompiler.Tree

inductive Token where
  | number (sign : Option Sign) (magnitude : Nat)
  | fraction (written : String)
  | char (value : Char)
  | text (value : String)
  /-- A raw name, such as `r#None`, is never a special word. -/
  | name (raw : Bool) (name : String)
  /-- The word `Some` with a raw text or a raw name right after it. -/
  | joinedSome
  | openParen | closeParen
  /-- An opening parenthesis with the closing one right after it. -/
  | emptyParens
  | openBracket | closeBracket
  | openBrace | closeBrace
  | colon | comma | hash | bang
deriving DecidableEq

namespace Token

def isSpace (c : Char) : Bool := c == ' ' || c == '\t' || c == '\n' || c == '\r'

def isNameStart (c : Char) : Bool := c.isAlpha || c == '_'

def isNamePart (c : Char) : Bool := c.isAlphanum || c == '_'

/-- The characters of raw names and of numbers. -/
def isRawPart (c : Char) : Bool := isNamePart c || c == '.' || c == '+' || c == '-'

def punctuation? (c : Char) : Option Token :=
  if c = '(' then some openParen
  else if c = ')' then some closeParen
  else if c = '[' then some openBracket
  else if c = ']' then some closeBracket
  else if c = Quoted.openBrace then some openBrace
  else if c = Quoted.closeBrace then some closeBrace
  else if c = ':' then some colon
  else if c = ',' then some comma
  else if c = '#' then some hash
  else if c = '!' then some bang
  else none

/-! ## Comments -/

/-- What follows a block comment that is open so many times. -/
def afterBlock? : (nesting : Nat) → List Char → Option (List Char)
  | 0, cs => some cs
  | nesting + 1, '*' :: '/' :: cs => afterBlock? nesting cs
  | nesting + 1, '/' :: '*' :: cs => afterBlock? (nesting + 2) cs
  | nesting + 1, _ :: cs => afterBlock? (nesting + 1) cs
  | _ + 1, [] => none

/-- What follows a comment, given what comes after its first slash. -/
def afterComment? : List Char → Option (List Char)
  | '/' :: cs => some (cs.dropWhile (· != '\n'))
  | '*' :: cs => afterBlock? 1 cs
  | _ => none

/-! ## Reading -/

/-- The token that a run of characters of numbers makes up. -/
def ofNumber? (cs : List Char) : Option Token :=
  match Number.integer? cs with
  | some (sign, n) => some (number sign n)
  | none => if Number.isFraction cs then some (fraction (String.ofList cs)) else none

/-- The token that a name makes up, given what follows it. Only `Some` can have a number right after
it. -/
def ofName? (word : String) (rest : List Char) : Option (Token × List Char) :=
  if word = "Somer" && (rest.head? == some '"' || rest.head? == some '#') then
    some (joinedSome, 'r' :: rest)
  else if word != "Some" && rest.head?.any isRawPart then none
  else some (name false word, rest)

/-- The text or the name after the letter of a raw one, and the rest. A raw text has number signs, a
quote, and everything up to a quote with as many number signs; a raw name has one number sign. -/
def raw? (cs : List Char) : Option (Token × List Char) :=
  let rest := cs.dropWhile (· == '#')
  match (cs.takeWhile (· == '#')).length, rest with
  | signs, '"' :: rest => (Quoted.raw? signs [] rest).map fun (s, rest) => (text s, rest)
  | 1, c :: _ =>
    if isRawPart c then
      some (name true (String.ofList (rest.takeWhile isRawPart)), rest.dropWhile isRawPart)
    else none
  | _, _ => none

/-- The token that starts with a character, and the rest. -/
def first? (c : Char) (cs : List Char) : Option (Token × List Char) :=
  match punctuation? c with
  | some t => if t = openParen && cs.head? == some ')' then some (emptyParens, cs.tail) else some (t, cs)
  | none =>
    if c = '"' then (Quoted.decode cs).map fun (s, rest) => (text s, rest)
    else if c = '\'' then (Quoted.literal? cs).map fun (c, rest) => (char c, rest)
    else if c = 'r' && (cs.head? == some '"' || cs.head? == some '#') then raw? cs
    else if isNameStart c then
      ofName? (String.ofList ((c :: cs).takeWhile isNamePart)) ((c :: cs).dropWhile isNamePart)
    else if isRawPart c then
      (ofNumber? ((c :: cs).takeWhile isRawPart)).map fun t => (t, (c :: cs).dropWhile isRawPart)
    else none

/-- Reads all tokens. The tokens read so far come last first; the fuel is more than the number of
characters left. -/
def readWithin : (fuel : Nat) → (read : List Token) → List Char → Option (List Token)
  | 0, _, _ => none
  | fuel + 1, read, cs =>
    match cs with
    | [] => some read.reverse
    | c :: cs =>
      if isSpace c then readWithin fuel read cs
      else if c = '/' then
        match afterComment? cs with
        | none => none
        | some rest => readWithin fuel read rest
      else match first? c cs with
        | none => none
        | some (t, rest) => readWithin fuel (t :: read) rest

/-- The tokens of a text, if it is made of tokens. -/
def read? (s : String) : Option (List Token) := readWithin (s.toList.length + 1) [] s.toList

end Token

end ClassCompiler.Tree
