import RuleDesk.Files.Space
import RuleDesk.Main
import RuleDesk.Proofs.Filter.OperatorText
import RuleDesk.Proofs.Filter.Merging
import RuleDesk.Proofs.Console.Mirror
import RuleDesk.Proofs.Filter.Grammar
import RuleDesk.Proofs.Filter.Reading
import RuleDesk.Proofs.Command.Answer
import RuleDesk.Proofs.Command.Words
import RuleDesk.Proofs.Command.Spelling
import RuleDesk.Proofs.Command.Addresses
import RuleDesk.Proofs.Console.Failure
import RuleDesk.Proofs.Capture.Routing
import RuleDesk.Proofs.Files.ByteLines
import RuleDesk.Proofs.Files.Encoding
import RuleDesk.Proofs.Files.OpenFiles
import RuleDesk.Proofs.Files.Streams
import RuleDesk.Proofs.Files.Faults
import RuleDesk.Proofs.Files.Spellings
import RuleDesk.Proofs.Capture.FileSink
import RuleDesk.Proofs.Capture.Keys
import RuleDesk.Proofs.Capture.Steps
import RuleDesk.Proofs.Capture.SharedFile
import RuleDesk.Proofs.Capture.Replay
import RuleDesk.Proofs.Console.Subscriptions
import RuleDesk.Proofs.Console.Replay
import RuleDesk.Proofs.Console.Loops
import RuleDesk.Proofs.Console.HandleRules
import RuleDesk.Proofs.Console.RuleNames
import RuleDesk.Proofs.Console.Script
import RuleDesk.Proofs.Console.Conversation
import RuleDesk.Proofs.Rule.Issued
import RuleDesk.Proofs.Rule.Admission
import RuleDesk.Proofs.Rule.Settled
import RuleDesk.Proofs.Rule.Requests
import RuleDesk.Proofs.Handle.Requests
import RuleDesk.Proofs.Rule.Merge
import RuleDesk.Proofs.Rule.Generated
import RuleDesk.Proofs.Console.Sync
import RuleDesk.Proofs.Rule.Names
import RuleDesk.Proofs.Console.Addressing
import RuleDesk.Proofs.Console.Adding
import RuleDesk.Proofs.Console.Deleting
import RuleDesk.Proofs.Capture.Trace
import RuleDesk.Proofs.Capture.Limit
import RuleDesk.Proofs.Command.Pieces
import RuleDesk.Proofs.Command.Quoting
import RuleDesk.Proofs.Filter.Printing
import RuleDesk.Proofs.Filter.Operators
import RuleDesk.Proofs.Filter.Composition
import RuleDesk.Proofs.Filter.Parentheses
import RuleDesk.Proofs.Command.Binding
import RuleDesk.Proofs.Command.HelpEntries
import RuleDesk.Proofs.Rule.Suffixes
import RuleDesk.Proofs.Capture.Reread
