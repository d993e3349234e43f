/-!
# Control sequences

Text that has gone through a terminal's hands: control sequences, such as those for colours, and
control characters are taken out. Only tabs, line feeds, form feeds and carriage returns remain.
-/

namespace ClassCompiler.Text

/-- Where in a control sequence a text is. -/
inductive SequencePlace where
  | outside
  /-- After the escape character, and further on in a sequence of two parts. -/
  | escape | escapePart
  /-- In a sequence with parameters, which ends with a letter or a similar sign. -/
  | parameters
  /-- In a command such as a window title, which ends with the bell. -/
  | command
  /-- At the start of what comes before a message to the device, in its parameters, and after them. -/
  | messageHead | messageParameters | messagePart
  /-- In a message. -/
  | message
deriving DecidableEq

/-- Controls that move the cursor as blanks do. -/
def isBlankControl (c : Char) : Bool := c == '\t' || c == '\n' || c == '\x0c' || c == '\r'

def isControl (c : Char) : Bool := c < ' ' || c == '\x7f'

namespace SequencePlace

/-- The place after a character. A message ends with the byte 9C, also within a character. -/
def next (p : SequencePlace) (c : Char) : SequencePlace :=
  if c = '\x1b' then escape
  else if c = '\x18' || c = '\x1a' then outside
  else match p with
    | outside => outside
    | escape =>
      if c = '[' then parameters
      else if c = ']' then command
      else if c = 'P' then messageHead
      else if c = 'X' || c = '^' || c = '_' then message
      else if ' ' ≤ c && c ≤ '/' then escapePart
      else if '0' ≤ c && c ≤ '~' then outside
      else escape
    | escapePart => if '0' ≤ c && c ≤ '~' then outside else escapePart
    | parameters => if '@' ≤ c && c ≤ '~' then outside else parameters
    | command => if c = '\x07' then outside else command
    | messageHead =>
      if ' ' ≤ c && c ≤ '/' then messagePart
      else if '0' ≤ c && c ≤ '?' then messageParameters
      else if '@' ≤ c && c ≤ '~' then message
      else messageHead
    | messageParameters =>
      if ' ' ≤ c && c ≤ '/' then messagePart
      else if '<' ≤ c && c ≤ '~' then message
      else messageParameters
    | messagePart => if '0' ≤ c && c ≤ '~' then message else messagePart
    | message => if (String.utf8EncodeChar c).contains 0x9C then outside else message

/-- Whether a character is kept at a place. Blanks are kept in sequences that have no text. -/
def keeps (p : SequencePlace) (c : Char) : Bool :=
  match p with
  | outside => isBlankControl c || !isControl c
  | escape | escapePart | parameters => isBlankControl c
  | command | messageHead | messageParameters | messagePart | message => false

end SequencePlace

/-- The characters that are kept. A blank within a sequence interrupts it: what follows is kept up to
the next control character, where the sequence goes on, and a character that is not ASCII ends it. -/
def keptChars (p : SequencePlace) (interrupted : Bool) : List Char → List Char
  | [] => []
  | c :: cs =>
    if interrupted && SequencePlace.outside.keeps c then
      c :: keptChars (if c < '\x80' then p else .outside) true cs
    else if p.keeps c then c :: keptChars p true cs
    else keptChars (p.next c) false cs

/-- A text without its control sequences. -/
def withoutControls (s : String) : String := String.ofList (keptChars .outside false s.toList)

end ClassCompiler.Text
