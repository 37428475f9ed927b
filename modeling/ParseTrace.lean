import ParseTrace.Automaton
import ParseTrace.Main
import ParseTrace.Proofs.Arborescence
import ParseTrace.Proofs.Arena
import ParseTrace.Proofs.Attachment
import ParseTrace.Proofs.Automaton
import ParseTrace.Proofs.Builder
import ParseTrace.Proofs.Calls
import ParseTrace.Proofs.Check
import ParseTrace.Proofs.Density
import ParseTrace.Proofs.Description
import ParseTrace.Proofs.Dot
import ParseTrace.Proofs.Identifiers
import ParseTrace.Proofs.Interleaving
import ParseTrace.Proofs.Isomorphism
import ParseTrace.Proofs.Json.Fields
import ParseTrace.Proofs.Json.Layout
import ParseTrace.Proofs.Json.Reader
import ParseTrace.Proofs.Json.Record
import ParseTrace.Proofs.Json.Spelling
import ParseTrace.Proofs.Json.Text
import ParseTrace.Proofs.Json.Value
import ParseTrace.Proofs.Lockstep
import ParseTrace.Proofs.Lookahead
import ParseTrace.Proofs.Malformed
import ParseTrace.Proofs.Numbering
import ParseTrace.Proofs.Outline.Lines
import ParseTrace.Proofs.Outline.Reading
import ParseTrace.Proofs.Outline.Recursion
import ParseTrace.Proofs.Permanence
import ParseTrace.Proofs.PostOrder
import ParseTrace.Proofs.Productions
import ParseTrace.Proofs.Recording
import ParseTrace.Proofs.Refusals
import ParseTrace.Proofs.Registration
import ParseTrace.Proofs.Replay
import ParseTrace.Proofs.ResultsStack
import ParseTrace.Proofs.RootMark
import ParseTrace.Proofs.RoundTrip
import ParseTrace.Proofs.Script.Declared
import ParseTrace.Proofs.Script.Diagnostics
import ParseTrace.Proofs.Script.Encoded
import ParseTrace.Proofs.Script.FirstFault
import ParseTrace.Proofs.Script.Form
import ParseTrace.Proofs.Script.Json
import ParseTrace.Proofs.Script.Layout
import ParseTrace.Proofs.Script.Part
import ParseTrace.Proofs.Script.Passes
import ParseTrace.Proofs.Script.Run
import ParseTrace.Proofs.Script.Sentence
import ParseTrace.Proofs.Script.Statement
import ParseTrace.Proofs.Script.Text
import ParseTrace.Proofs.Sessions
import ParseTrace.Proofs.Slices
import ParseTrace.Proofs.Stacked
import ParseTrace.Proofs.SymbolTable
import ParseTrace.Proofs.SyntaxErrors
import ParseTrace.Proofs.Termination
import ParseTrace.Proofs.Traversal
import ParseTrace.Proofs.Unfolding
import ParseTrace.Proofs.Verdict
import ParseTrace.Proofs.Yield
import ParseTrace.Yaml.Cursor
import ParseTrace.Yaml.Node
import ParseTrace.Yaml.Property
import ParseTrace.Yaml.Scalar
import ParseTrace.Yaml.Token
