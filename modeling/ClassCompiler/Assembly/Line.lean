/-!
# Lines of assembly

What the lines of an assembly are made of: labels, sizes in memory and strings.
-/

namespace ClassCompiler.Assembly

namespace Label

def gcFlag : String := "gc_flag"

def classNameTable : String := "class_name_table"

def className (id : Nat) : String := "class_name_" ++ toString id

def stringConst (index : Nat) : String := "StringConst_" ++ toString index

def fileName (index : Nat) : String := "file_name_" ++ toString index

def template (cls : String) : String := cls ++ "_template"

def dispatchTable (cls : String) : String := cls ++ "_dispatch_table"

def init (cls : String) : String := cls ++ "_init"

def method (cls name : String) : String := cls ++ "." ++ name

end Label

/-! ## Sizes in memory

Sizes are machine words of 64 bits, as the compiler computes them; the target has words of four
bytes.
-/

/-- Rounds up to a multiple of `align`, a power of two. -/
def alignUp (value align : UInt64) : UInt64 := (value + align - 1) &&& ~~~(align - 1)

/-- The bytes of a word. -/
def wordSize : UInt64 := 4

/-- The header of an object: class id, size, and the address of its dispatch table. -/
def headerSize : UInt64 := 12

/-- A string object without its characters: header, length word, and the final NUL. -/
def stringBaseSize : UInt64 := headerSize + wordSize + 1

/-- The size of a string object that holds so many bytes. -/
def stringObjectSize (bytes : UInt64) : UInt64 := alignUp (stringBaseSize + bytes) wordSize

/-- The size of an object with so many fields. -/
def instanceSize (fields : UInt64) : UInt64 := headerSize + wordSize * fields

/-! ## Strings in directives

A string stands between double quotes on one line. Line feed, tab, quote and backslash have escapes
of two characters; the other ASCII control characters are written as a backslash and three octal
digits. All other characters stand for themselves.
-/

namespace Quoted

/-- An octal digit. -/
def octalDigit (n : Nat) : Char := Char.ofNat ('0'.toNat + n % 8)

def octal (n : Nat) : List Char := [octalDigit (n / 64), octalDigit (n / 8), octalDigit n]

def isControl (c : Char) : Bool := c.toNat < 0x20 || c.toNat == 0x7F

def encodeChar (c : Char) : List Char :=
  if c = '\n' then ['\\', 'n']
  else if c = '\t' then ['\\', 't']
  else if c = '"' then ['\\', '"']
  else if c = '\\' then ['\\', '\\']
  else if isControl c then '\\' :: octal c.toNat
  else [c]

def encode (text : String) : String := String.ofList (text.toList.flatMap encodeChar)

end Quoted

/-! ## Lines -/

inductive Line where
  | segment (name : String)
  | label (name : String)
  | directive (name argument : String)
  | comment (text : String)
  | instr (text : String)
deriving DecidableEq

namespace Line

def word (value : String) : Line := .directive ".word" value

def count (value : UInt64) : Line := word (toString value.toNat)

def global (label : String) : Line := .directive ".globl" label

def text : Line → String
  | segment name => "\t" ++ name ++ "\n"
  | label name => name ++ ":\n"
  | directive name argument => "\t" ++ name ++ "\t" ++ argument ++ "\n"
  | comment text => "\t# " ++ text ++ "\n"
  | instr text => "\t" ++ text ++ "\n"

end Line

def textOf (lines : List Line) : String := String.join (lines.map Line.text)

end ClassCompiler.Assembly
