import ProcessMemory.Address
import ProcessMemory.Charset
import ProcessMemory.Datum
import ProcessMemory.Enumeration
import ProcessMemory.Error
import ProcessMemory.Fixture
import ProcessMemory.Journal
import ProcessMemory.Journal.Event
import ProcessMemory.Journal.Filter
import ProcessMemory.Json
import ProcessMemory.Linux.Host
import ProcessMemory.Linux.Layout
import ProcessMemory.Linux.MapEntry
import ProcessMemory.Main
import ProcessMemory.Mapping
import ProcessMemory.OsError
import ProcessMemory.Outcome
import ProcessMemory.Pattern
import ProcessMemory.Pattern.Budget
import ProcessMemory.Pattern.Class
import ProcessMemory.Pattern.Escape
import ProcessMemory.Pattern.Flags
import ProcessMemory.Pattern.Haystack
import ProcessMemory.Pattern.Node
import ProcessMemory.Pattern.Parser
import ProcessMemory.Pattern.Program
import ProcessMemory.Pattern.Simplify
import ProcessMemory.ProcessInfo
import ProcessMemory.Proofs.Crossings
import ProcessMemory.Proofs.Enumeration
import ProcessMemory.Proofs.Enumeration.Remapping
import ProcessMemory.Proofs.Enumeration.Session
import ProcessMemory.Proofs.Layouts
import ProcessMemory.Proofs.Linux.Grammar
import ProcessMemory.Proofs.Linux.Lookup
import ProcessMemory.Proofs.Linux.Printing
import ProcessMemory.Proofs.Lookup
import ProcessMemory.Proofs.Mapping
import ProcessMemory.Proofs.Memory
import ProcessMemory.Proofs.Origins
import ProcessMemory.Proofs.Pattern.Follow
import ProcessMemory.Proofs.Pattern.Literal
import ProcessMemory.Proofs.Pattern.Words
import ProcessMemory.Proofs.Reads
import ProcessMemory.Proofs.Regions
import ProcessMemory.Proofs.Search.Course
import ProcessMemory.Proofs.Search.Deeds
import ProcessMemory.Proofs.Search.Jobs
import ProcessMemory.Proofs.Search.Literal
import ProcessMemory.Proofs.Search.Orders
import ProcessMemory.Proofs.Search.Parallel
import ProcessMemory.Proofs.Search.Parts
import ProcessMemory.Proofs.Search.Stateless
import ProcessMemory.Proofs.Search.Text
import ProcessMemory.Proofs.Search.Unfailing
import ProcessMemory.Proofs.Search.Words
import ProcessMemory.Proofs.Segmented
import ProcessMemory.Proofs.Settings
import ProcessMemory.Proofs.Text.Address
import ProcessMemory.Proofs.Text.Bounds
import ProcessMemory.Proofs.Text.Checked
import ProcessMemory.Proofs.Text.Codec
import ProcessMemory.Proofs.Text.Decoding
import ProcessMemory.Proofs.Text.Fields
import ProcessMemory.Proofs.Text.Matches
import ProcessMemory.Proofs.Text.Numeral
import ProcessMemory.Proofs.Text.Overlaps
import ProcessMemory.Proofs.Text.Partition
import ProcessMemory.Proofs.Text.Runs
import ProcessMemory.Proofs.Text.Utf8
import ProcessMemory.Proofs.Walk.Agreement
import ProcessMemory.Proofs.Walk.Choices
import ProcessMemory.Proofs.Walk.Chunks
import ProcessMemory.Proofs.Walk.Course
import ProcessMemory.Proofs.Walk.Coverage
import ProcessMemory.Proofs.Walk.Disjoint
import ProcessMemory.Proofs.Walk.Faults
import ProcessMemory.Proofs.Walk.Foretold
import ProcessMemory.Proofs.Walk.Ledger
import ProcessMemory.Proofs.Walk.Parts
import ProcessMemory.Proofs.Walk.Plan
import ProcessMemory.Proofs.Walk.Receivers
import ProcessMemory.Proofs.Walk.Reliable
import ProcessMemory.Proofs.Walk.Safety
import ProcessMemory.Proofs.Walk.Sliding
import ProcessMemory.Proofs.Walk.SoftErrors
import ProcessMemory.Proofs.Walk.Spans
import ProcessMemory.Proofs.Walk.Termination
import ProcessMemory.Proofs.Walk.Transient
import ProcessMemory.Proofs.Windows.Blocks
import ProcessMemory.Proofs.Windows.Listing
import ProcessMemory.Proofs.Windows.Paths
import ProcessMemory.Region
import ProcessMemory.Release
import ProcessMemory.Search
import ProcessMemory.Search.Parallel
import ProcessMemory.Settings
import ProcessMemory.Settings.File
import ProcessMemory.Settings.Record
import ProcessMemory.Target
import ProcessMemory.Target.Scripted
import ProcessMemory.Target.Segmented
import ProcessMemory.Text.Blank
import ProcessMemory.Text.CaseFold
import ProcessMemory.Text.CharSet
import ProcessMemory.Text.Classes.Alphabetic
import ProcessMemory.Text.Classes.Digit
import ProcessMemory.Text.Classes.Numeric
import ProcessMemory.Text.Classes.Unprintable
import ProcessMemory.Text.Classes.Word
import ProcessMemory.Text.Encoding
import ProcessMemory.Text.Letter
import ProcessMemory.Text.Lines
import ProcessMemory.Text.Numeral
import ProcessMemory.Text.Quoted
import ProcessMemory.Text.Utf8
import ProcessMemory.Text.Utf8Ranges
import ProcessMemory.TextRun
import ProcessMemory.Toml
import ProcessMemory.Toml.Number
import ProcessMemory.Toml.Print
import ProcessMemory.Toml.Text
import ProcessMemory.Toml.Tree
import ProcessMemory.Walk
import ProcessMemory.Walk.Walker
import ProcessMemory.Walk.Window
import ProcessMemory.Windows.Api
import ProcessMemory.Windows.Block
import ProcessMemory.Windows.BlockWalk
import ProcessMemory.Windows.ErrorCode
import ProcessMemory.Windows.Listing
import ProcessMemory.Windows.Machine
import ProcessMemory.Windows.Wide
