import ClassCompiler.Analysis
import ClassCompiler.Assembly.Sink
import ClassCompiler.Command.Run
import ClassCompiler.Main
import ClassCompiler.Proofs.Cancellation
import ClassCompiler.Proofs.CanonicalNames
import ClassCompiler.Proofs.ClassNumbers
import ClassCompiler.Proofs.Compilation
import ClassCompiler.Proofs.DataRecords
import ClassCompiler.Proofs.Dispatch
import ClassCompiler.Proofs.ExprParts
import ClassCompiler.Proofs.FirstDeclarations
import ClassCompiler.Proofs.Labels
import ClassCompiler.Proofs.LexicalScopes
import ClassCompiler.Proofs.Linkage
import ClassCompiler.Proofs.Literals
import ClassCompiler.Proofs.LocalSlots
import ClassCompiler.Proofs.Outline
import ClassCompiler.Proofs.Overriding
import ClassCompiler.Proofs.ProperTypes
import ClassCompiler.Proofs.Rechecking
import ClassCompiler.Proofs.RejectedTypes
import ClassCompiler.Proofs.Reordering
import ClassCompiler.Proofs.RoundTrip
import ClassCompiler.Proofs.ScopeRuns
import ClassCompiler.Proofs.Subtyping
import ClassCompiler.Proofs.TypingProgram
import ClassCompiler.Proofs.UnknownTypes
import ClassCompiler.Syntax.Annotation
import ClassCompiler.Syntax.Node
import ClassCompiler.Syntax.Text
