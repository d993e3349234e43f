/-!
# Positions, spans and locations

Every node of a program tree carries the stretch of source text it came from. Positions are plain
machine words: nothing computes with them, they are only carried along and shown.
-/

namespace ClassCompiler

/-- A place in a source file. Lines and columns count from one, bytes from zero. -/
structure Position where
  byte : UInt64 := 0
  line : UInt64 := 1
  col : UInt64 := 1
deriving DecidableEq

instance : Inhabited Position := ⟨{}⟩

/-- Shown as `line:col`; the byte offset is not shown. -/
def Position.text (p : Position) : String :=
  toString p.line.toNat ++ ":" ++ toString p.col.toNat

/-- A stretch of source text, both ends included. -/
structure Span where
  first : Position := {}
  last : Position := {}
deriving DecidableEq

instance : Inhabited Span := ⟨{}⟩

namespace Span

/-- The line a span starts on. -/
def line (s : Span) : UInt64 := s.first.line

/-- A span of one position is shown as that position. The byte offsets take part in the
comparison, so two ends that look alike may still be shown as a range. -/
def text (s : Span) : String :=
  if s.first = s.last then s.first.text else s.first.text ++ "-" ++ s.last.text

end Span

/-- Where a class or member was defined: by the language itself or in a source file. -/
inductive Location where
  | builtin
  | source (file : Option String) (span : Span)
deriving DecidableEq

namespace Location

def span? : Location → Option Span
  | builtin => none
  | source _ span => some span

def file? : Location → Option String
  | builtin => none
  | source file _ => file

/-- The span of a location; the default span for what the language defines. -/
def span (l : Location) : Span := l.span?.getD {}

end Location

end ClassCompiler
