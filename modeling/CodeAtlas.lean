import CodeAtlas.Api.Address
import CodeAtlas.Api.Answer
import CodeAtlas.Api.IndexOrder
import CodeAtlas.Api.Route
import CodeAtlas.Api.Service
import CodeAtlas.Boundary
import CodeAtlas.Boundary.Tables
import CodeAtlas.Decimal.Binary64
import CodeAtlas.Decimal.Shortest
import CodeAtlas.Decimal.Written
import CodeAtlas.Digest.Sha256
import CodeAtlas.Gathering
import CodeAtlas.Graph.Batch
import CodeAtlas.Graph.Contract
import CodeAtlas.Graph.CrossFile
import CodeAtlas.Graph.Structure
import CodeAtlas.Identity
import CodeAtlas.Import.Edges
import CodeAtlas.Import.KnownPaths
import CodeAtlas.Import.Statement
import CodeAtlas.Import.Target
import CodeAtlas.Json.Basic
import CodeAtlas.Json.Reader
import CodeAtlas.Json.Writer
import CodeAtlas.Language.CFamily.Declarations
import CodeAtlas.Language.CFamily.Imports
import CodeAtlas.Language.CSharp.Declarations
import CodeAtlas.Language.CSharp.Imports
import CodeAtlas.Language.Extension
import CodeAtlas.Language.Go.Declarations
import CodeAtlas.Language.Go.Imports
import CodeAtlas.Language.Java.Declarations
import CodeAtlas.Language.Java.Imports
import CodeAtlas.Language.Php.Declarations
import CodeAtlas.Language.Php.Imports
import CodeAtlas.Language.Python.Declarations
import CodeAtlas.Language.Python.Imports
import CodeAtlas.Language.Registry
import CodeAtlas.Language.Ruby.Declarations
import CodeAtlas.Language.Ruby.Imports
import CodeAtlas.Language.Rust.Declarations
import CodeAtlas.Language.Rust.Imports
import CodeAtlas.Language.TypeScript.Declarations
import CodeAtlas.Language.TypeScript.Imports
import CodeAtlas.Log.Event
import CodeAtlas.Log.Level
import CodeAtlas.Path
import CodeAtlas.Pattern.Basic
import CodeAtlas.Pattern.Match
import CodeAtlas.Proofs.Boundary
import CodeAtlas.Proofs.Graph.Batch
import CodeAtlas.Proofs.Graph.Conformance
import CodeAtlas.Proofs.Graph.Containment
import CodeAtlas.Proofs.Graph.Contract
import CodeAtlas.Proofs.Graph.CrossFileCalls
import CodeAtlas.Proofs.Graph.PackageImports
import CodeAtlas.Proofs.Graph.ResolvedImports
import CodeAtlas.Proofs.Graph.Structure
import CodeAtlas.Proofs.Identity
import CodeAtlas.Proofs.Import.CallsInFile
import CodeAtlas.Proofs.Import.DeclarationFile
import CodeAtlas.Proofs.Import.DeclarationLine
import CodeAtlas.Proofs.Import.Declarations
import CodeAtlas.Proofs.Import.Edges
import CodeAtlas.Proofs.Import.FoundDeclaration
import CodeAtlas.Proofs.Import.KnownPaths
import CodeAtlas.Proofs.Import.LogicalLine
import CodeAtlas.Proofs.Import.Lookup
import CodeAtlas.Proofs.Import.Merging
import CodeAtlas.Proofs.Import.ModuleTree
import CodeAtlas.Proofs.Import.PythonStatements
import CodeAtlas.Proofs.Import.Relative
import CodeAtlas.Proofs.Import.RelativeModule
import CodeAtlas.Proofs.Import.Reordering
import CodeAtlas.Proofs.Import.Resolved
import CodeAtlas.Proofs.Import.StatementLine
import CodeAtlas.Proofs.Import.SymbolList
import CodeAtlas.Proofs.Import.TypeScriptStatements
import CodeAtlas.Proofs.Language.BaseClasses
import CodeAtlas.Proofs.Language.Braces
import CodeAtlas.Proofs.Language.Enclosing
import CodeAtlas.Proofs.Language.EndScopes
import CodeAtlas.Proofs.Language.Indented
import CodeAtlas.Proofs.Language.Lines
import CodeAtlas.Proofs.Language.MemberCalls
import CodeAtlas.Proofs.Language.Members
import CodeAtlas.Proofs.Language.Reading
import CodeAtlas.Proofs.Moved.Braces
import CodeAtlas.Proofs.Moved.Import
import CodeAtlas.Proofs.Moved.Lines
import CodeAtlas.Proofs.Moved.Pattern
import CodeAtlas.Proofs.Moved.Reading
import CodeAtlas.Proofs.Moved.Scan
import CodeAtlas.Proofs.Moved.Statements
import CodeAtlas.Proofs.Moved.Unbraced
import CodeAtlas.Proofs.Moved.Walk
import CodeAtlas.Proofs.NormalPath
import CodeAtlas.Proofs.Path
import CodeAtlas.Proofs.Path.Stack
import CodeAtlas.Proofs.Pattern.Fits
import CodeAtlas.Proofs.Pattern.Lines
import CodeAtlas.Proofs.Pattern.Reads
import CodeAtlas.Proofs.Source.Block
import CodeAtlas.Proofs.Source.BlockComment
import CodeAtlas.Proofs.Source.BraceMatching
import CodeAtlas.Proofs.Source.BraceSearch
import CodeAtlas.Proofs.Source.CallScan
import CodeAtlas.Proofs.Source.CallSites
import CodeAtlas.Proofs.Source.Calls
import CodeAtlas.Proofs.Source.EndKeyword
import CodeAtlas.Proofs.Source.Indentation
import CodeAtlas.Proofs.Source.Nesting
import CodeAtlas.Proofs.Source.Noise
import CodeAtlas.Proofs.Source.Parameters
import CodeAtlas.Proofs.Source.Recording
import CodeAtlas.Proofs.Source.Scan
import CodeAtlas.Proofs.Source.Scope
import CodeAtlas.Proofs.Source.Steps
import CodeAtlas.Proofs.Source.Walk
import CodeAtlas.Proofs.Source.WithinFile
import CodeAtlas.Proofs.Store.Audit
import CodeAtlas.Proofs.Store.Batches
import CodeAtlas.Proofs.Store.Calls
import CodeAtlas.Proofs.Store.Delivery
import CodeAtlas.Proofs.Store.Integrity
import CodeAtlas.Proofs.Store.Overlap
import CodeAtlas.Proofs.Store.Replacement
import CodeAtlas.Proofs.Store.Retry
import CodeAtlas.Proofs.Store.Rows
import CodeAtlas.Proofs.Store.Runs
import CodeAtlas.Proofs.Store.Tags
import CodeAtlas.Proofs.Store.Writing
import CodeAtlas.Proofs.SymbolIndex.Attribution
import CodeAtlas.Proofs.SymbolIndex.Bounds
import CodeAtlas.Proofs.SymbolIndex.Containers
import CodeAtlas.Proofs.SymbolIndex.DocumentOrder
import CodeAtlas.Proofs.SymbolIndex.Encoding
import CodeAtlas.Proofs.SymbolIndex.Framing
import CodeAtlas.Proofs.SymbolIndex.Names
import CodeAtlas.Proofs.SymbolIndex.Offsets
import CodeAtlas.Proofs.SymbolIndex.References
import CodeAtlas.Proofs.SymbolIndex.Resolve
import CodeAtlas.Proofs.SymbolIndex.RoundTrip
import CodeAtlas.Proofs.SymbolIndex.Truncation
import CodeAtlas.Proofs.SymbolIndex.WellFormed
import CodeAtlas.Proofs.SymbolIndex.Wire
import CodeAtlas.Proofs.Text.Brackets
import CodeAtlas.Proofs.Text.Spelling
import CodeAtlas.Proofs.Text.Split
import CodeAtlas.Proofs.Text.Trim
import CodeAtlas.Proofs.Text.Utf8
import CodeAtlas.Proofs.Workspace.Names
import CodeAtlas.Proofs.Workspace.Packages
import CodeAtlas.Record
import CodeAtlas.Run.Findings
import CodeAtlas.Run.Precise
import CodeAtlas.Run.Reading
import CodeAtlas.Run.Report
import CodeAtlas.Settings.Database
import CodeAtlas.Settings.Indexer
import CodeAtlas.Settings.Value
import CodeAtlas.Source.Block
import CodeAtlas.Source.Calls
import CodeAtlas.Source.Doc
import CodeAtlas.Source.Header
import CodeAtlas.Source.Noise
import CodeAtlas.Source.Scan
import CodeAtlas.Source.Scope
import CodeAtlas.Source.Walk
import CodeAtlas.Store.Bolt
import CodeAtlas.Store.Delivery
import CodeAtlas.Store.Generation
import CodeAtlas.Store.Memory
import CodeAtlas.Store.Query
import CodeAtlas.Store.Rows
import CodeAtlas.Store.RunTag
import CodeAtlas.Store.Service
import CodeAtlas.Store.Session
import CodeAtlas.SymbolIndex.Descriptor
import CodeAtlas.SymbolIndex.Document
import CodeAtlas.SymbolIndex.Indexer
import CodeAtlas.SymbolIndex.Package
import CodeAtlas.SymbolIndex.Resolve
import CodeAtlas.SymbolIndex.Wire
import CodeAtlas.Text.Basic
import CodeAtlas.Text.CaseTable
import CodeAtlas.Text.Letter
import CodeAtlas.Text.LetterTable
import CodeAtlas.Text.Lines
import CodeAtlas.Text.Quoted
import CodeAtlas.Text.Utf8
import CodeAtlas.Workspace.Ignore
import CodeAtlas.Workspace.Manifest
import CodeAtlas.Workspace.Packages
import CodeAtlas.Workspace.Scan
import CodeAtlas.Workspace.Tree
import CodeAtlas.Yaml.Reader
import CodeAtlas.Yaml.Scalar
