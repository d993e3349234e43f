import ClassCompiler.Assembly.Render

/-!
# Writing assembly

The whole text is offered to a sink, which may take it piece by piece or refuse it. Nothing is
offered unless the text is complete.
-/

namespace ClassCompiler.Assembly

/-- Something that takes bytes. -/
structure Sink where
  /-- How many of so many offered bytes are taken, or why none can be. -/
  accept : Nat → Except String Nat
  /-- Makes sure that what was taken has arrived. -/
  flush : Except String Unit

/-- How many bytes a sink took, and what went wrong. -/
structure Written where
  bytes : Nat
  fault : Option OutputFault

/-- Offers the remaining bytes again and again. A sink that takes none of them has failed. -/
def offer (sink : Sink) : (rounds remaining : Nat) → (taken : Nat) → Written
  | 0, _, taken => ⟨taken, none⟩
  | rounds + 1, remaining, taken =>
    if remaining = 0 then ⟨taken, none⟩
    else match sink.accept remaining with
      | .error reason => ⟨taken, some (.notWritten reason)⟩
      | .ok 0 => ⟨taken, some (.notWritten "failed to write whole buffer")⟩
      | .ok n => offer sink rounds (remaining - n) (taken + min n remaining)

/-- Writes a rendered text to a sink. -/
def write (sink : Sink) : Except OutputFault String → Written
  | .error fault => ⟨0, some fault⟩
  | .ok text =>
    let offered := offer sink text.utf8ByteSize text.utf8ByteSize 0
    match offered.fault, sink.flush with
    | none, .error reason => ⟨offered.bytes, some (.notWritten reason)⟩
    | _, _ => offered

end ClassCompiler.Assembly
