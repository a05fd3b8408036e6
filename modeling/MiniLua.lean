import MiniLua.Cursor
import MiniLua.Report
import MiniLua.Source
import MiniLua.Proofs.Layers.Climbing
import MiniLua.Proofs.Syntax.Complete
import MiniLua.Proofs.Errors.Earliest
import MiniLua.Proofs.Canonical.RoundTrip
import MiniLua.Proofs.Nesting.LoneArguments
import MiniLua.Proofs.Errors.EndOfInput
import MiniLua.Proofs.Reading.Juxtaposition
import MiniLua.Proofs.Reading.Chains
import MiniLua.Proofs.Scanning.Tiling
import MiniLua.Proofs.Scanning.Faults
import MiniLua.Proofs.Scanning.Joining
import MiniLua.Proofs.Nesting.Limit
import MiniLua.Proofs.Trees.Height
import MiniLua.Proofs.Trees.Size
import MiniLua.Proofs.Calls.Depth
import MiniLua.Proofs.Nesting.Parentheses
import MiniLua.Proofs.Trees.WellFormed
import MiniLua.Proofs.Trees.Contents
import MiniLua.Proofs.Cursors.Discipline
import MiniLua.Proofs.Scanning.Strings
import MiniLua.Proofs.Scanning.Numbers
import MiniLua.Proofs.Scanning.Cutting
import MiniLua.Proofs.Scanning.Mending
import MiniLua.Proofs.Reports.Caret
import MiniLua.Proofs.Reports.Header
import MiniLua.Proofs.Reading.Tables
import MiniLua.Proofs.Scanning.Resuming
import MiniLua.Proofs.Reports.Offsets
import MiniLua.Proofs.Errors.Fallbacks
