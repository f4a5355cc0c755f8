import PropCatalog.Main
import PropCatalog.Proofs.Assoc
import PropCatalog.Proofs.Component.Inheritance
import PropCatalog.Proofs.Usage.Combinations
import PropCatalog.Proofs.Usage.Enumeration
import PropCatalog.Proofs.Usage.Filling
import PropCatalog.Proofs.Usage.Exclusion
import PropCatalog.Proofs.Path
import PropCatalog.Proofs.Disk
import PropCatalog.Proofs.Value.Writable
import PropCatalog.Proofs.Catalog.Session
import PropCatalog.Proofs.Value.Json
import PropCatalog.Proofs.Catalog.FileRun
import PropCatalog.Proofs.Catalog.Agreement
import PropCatalog.Proofs.Usage.Visibility
import PropCatalog.Proofs.Usage.ClosedValues
import PropCatalog.Proofs.Component.Reachability
import PropCatalog.Proofs.Component.Indirection
import PropCatalog.Proofs.Pattern.Glob
import PropCatalog.Proofs.Catalog.Discovery
import PropCatalog.Proofs.Pattern.Wildcard
import PropCatalog.Proofs.Catalog.SharedPatterns
import PropCatalog.Proofs.Catalog.Outcome
import PropCatalog.Proofs.Catalog.Accounting
import PropCatalog.Proofs.Catalog.Isolation
import PropCatalog.Proofs.Catalog.Failures
import PropCatalog.Proofs.Command.Handling
import PropCatalog.Proofs.Number.Decimal
import PropCatalog.Proofs.Number.Rounding
import PropCatalog.Proofs.Number.Shortest
import PropCatalog.Proofs.Number.Numeral
import PropCatalog.Proofs.Number.Layout
import PropCatalog.Proofs.Value.Grammar
import PropCatalog.Proofs.Value.Reading
import PropCatalog.Proofs.Value.RoundTrip
import PropCatalog.Proofs.Value.Unquoted
import PropCatalog.Proofs.Settings.Numbers
import PropCatalog.Proofs.Usage.AssignedValues
import PropCatalog.Proofs.Catalog.RecordValues
import PropCatalog.Proofs.Catalog.WrittenRecords
import PropCatalog.Proofs.Text.Lines
import PropCatalog.Proofs.Docs.Blocks
import PropCatalog.Proofs.Outline.Trailing
import PropCatalog.Proofs.Settings.Validation
import PropCatalog.Proofs.Docs.PlainComments
import PropCatalog.Proofs.Outline.Grouping
import PropCatalog.Proofs.Outline.StringLiterals
import PropCatalog.Proofs.Component.Revisits
import PropCatalog.Proofs.Component.Attempts
import PropCatalog.Proofs.Number.NumeralTexts
import PropCatalog.Proofs.Usage.Literals
import PropCatalog.Proofs.Usage.LongIntegers
import PropCatalog.Proofs.Component.AnnotatedFunctions
import PropCatalog.Proofs.Usage.Attributes
import PropCatalog.Proofs.Style.Merging
import PropCatalog.Proofs.Style.DocBlocks
import PropCatalog.Proofs.Style.Fallbacks
import PropCatalog.Proofs.Usage.Templates
import PropCatalog.Proofs.Pattern.Braces
import PropCatalog.Proofs.Catalog.RecursivePatterns
import PropCatalog.Proofs.Catalog.Selection
import PropCatalog.Proofs.Usage.Counts
import PropCatalog.Proofs.Command.Inspection
import PropCatalog.Proofs.Text.Runs
import PropCatalog.Proofs.Component.Candidates
import PropCatalog.Proofs.Tsx.Faults
import PropCatalog.Proofs.Docs.LineEndings
import PropCatalog.Proofs.Command.Reading
import PropCatalog.Proofs.Command.Placement
import PropCatalog.Proofs.Component.ExclusionLists
