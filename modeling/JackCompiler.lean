import JackCompiler.Main
import JackCompiler.Proofs.Grammar.Unambiguity
import JackCompiler.Proofs.Grammar.Violation
import JackCompiler.Proofs.Grammar.ViolationOrder
import JackCompiler.Proofs.Grammar.Rules
import JackCompiler.Proofs.Grammar.Code
import JackCompiler.Proofs.Token.Reader
import JackCompiler.Proofs.Codegen.Run
import JackCompiler.Proofs.Codegen.Derivation
import JackCompiler.Proofs.Codegen.BlockDerivation
import JackCompiler.Proofs.Codegen.ClassDerivation
import JackCompiler.Proofs.Codegen.Success
import JackCompiler.Proofs.Codegen.Meeting
import JackCompiler.Proofs.Codegen.Checks
import JackCompiler.Proofs.Codegen.BlockChecks
import JackCompiler.Proofs.Codegen.ClassChecks
import JackCompiler.Proofs.Compilation.Reference
import JackCompiler.Proofs.Grammar.Occurrence
import JackCompiler.Proofs.Compilation.Language
import JackCompiler.Proofs.Machine.Basic
import JackCompiler.Proofs.Machine.Evaluation
import JackCompiler.Proofs.Machine.ExpressionCode
import JackCompiler.Proofs.Machine.Execution
import JackCompiler.Proofs.Machine.Labels
import JackCompiler.Proofs.Machine.StatementCode
import JackCompiler.Proofs.Compilation.Meaning
import JackCompiler.Proofs.Vm.Block
import JackCompiler.Proofs.Vm.Depth
import JackCompiler.Proofs.Grammar.Lines
import JackCompiler.Proofs.Grammar.Balance
import JackCompiler.Proofs.Grammar.Arguments
import JackCompiler.Proofs.Grammar.Jumps
import JackCompiler.Proofs.Grammar.Addresses
import JackCompiler.Proofs.Compilation.GeneratedCode
import JackCompiler.Proofs.Token.LexicalGrammar
import JackCompiler.Proofs.Token.Scanning
import JackCompiler.Proofs.Machine.Height
import JackCompiler.Proofs.Grammar.Constants
import JackCompiler.Proofs.Grammar.Renumbering
import JackCompiler.Proofs.Token.Spelling
import JackCompiler.Proofs.Token.Upcoming
import JackCompiler.Proofs.Codegen.Advance
import JackCompiler.Proofs.Codegen.Lockstep
import JackCompiler.Proofs.Codegen.ClassLockstep
import JackCompiler.Proofs.Compilation.Written
import JackCompiler.Proofs.Compilation.FirstViolation
import JackCompiler.Proofs.Compilation.Constants
import JackCompiler.Proofs.Compilation.Layout
import JackCompiler.Proofs.Compilation.Subroutines
import JackCompiler.Proofs.Compilation.Lookahead
import JackCompiler.Proofs.Output.Replay
import JackCompiler.Proofs.Token.Listing
import JackCompiler.Proofs.Compilation.Truncation
import JackCompiler.Proofs.Grammar.Respelling
import JackCompiler.Proofs.Grammar.Renaming
import JackCompiler.Proofs.Token.Replacement
import JackCompiler.Proofs.Compilation.Renaming
import JackCompiler.Proofs.Token.Continuation
import JackCompiler.Proofs.Grammar.Viability
import JackCompiler.Proofs.Codegen.Following
import JackCompiler.Proofs.Codegen.ClassFollowing
import JackCompiler.Proofs.Compilation.FirstMismatch
import JackCompiler.Proofs.Variable.History
import JackCompiler.Proofs.Token.Requests
import JackCompiler.Proofs.Token.ListingReader
import JackCompiler.Proofs.Token.LexerRequests
import JackCompiler.Proofs.Vm.InstructionReader
import JackCompiler.Proofs.Grammar.CalledNames
import JackCompiler.Proofs.Compilation.Encoding
import JackCompiler.Proofs.Files.FirstFailure
import JackCompiler.Proofs.Grammar.Nesting
import JackCompiler.Proofs.Token.Usable
import JackCompiler.Proofs.Codegen.CountedPass
import JackCompiler.Proofs.Codegen.Watch
import JackCompiler.Proofs.Codegen.Agreement
import JackCompiler.Proofs.Codegen.ClassAgreement
import JackCompiler.Proofs.Compilation.Counting
import JackCompiler.Proofs.Compilation.Safety
import JackCompiler.Proofs.Token.Excerpt
import JackCompiler.Proofs.Codegen.Phrase
import JackCompiler.Proofs.Compilation.PhraseRuns
import JackCompiler.Proofs.Compilation.Nesting
import JackCompiler.Proofs.Token.Printing
import JackCompiler.Proofs.Token.Asking
import JackCompiler.Proofs.Token.ListingLines
import JackCompiler.Proofs.Files.Independence
import JackCompiler.Proofs.Files.Report
import JackCompiler.Proofs.Grammar.MissingValue
import JackCompiler.Proofs.Codegen.Quiet
import JackCompiler.Proofs.Codegen.Warnings
import JackCompiler.Proofs.Compilation.Warnings
