import UConfig.Library.Emission
import UConfig.Library.Loop
import UConfig.Library.SlotStack
import UConfig.Library.HashTrie
import UConfig.Library.TrieMap
import UConfig.Library.ThreeWay
import UConfig.Library.Transcode
import UConfig.Library.Unicode
import UConfig.Library.Memory
import UConfig.Library.LinkedList
import UConfig.Library.Carving
import UConfig.Library.GraphSearch
import UConfig.Library.GraphReach
import UConfig.Library.GraphOrder
import UConfig.Library.GraphDepth
import UConfig.Library.GraphStack
import UConfig.Program.S8
import UConfig.Program.Wide
import UConfig.Program.Cmdline
import UConfig.Program.PathCode
import UConfig.Program.Version
import UConfig.Program.Failure
import UConfig.Program.Env
import UConfig.Program.Package
import UConfig.Program.ParsePackage
import UConfig.Program.CheckedScan
import UConfig.Program.ExpandLoop
import UConfig.Proof.Expand.Recursive
import UConfig.Proof.Expand.Simulation
import UConfig.Program.Expand
import UConfig.Proof.Expand.Refinement
import UConfig.Proof.Expand.References
import UConfig.Program.FindPackage
import UConfig.Program.List
import UConfig.Program.SearchPath
import UConfig.Program.Dequote
import UConfig.Program.Output
import UConfig.Program.Console
import UConfig.Program.Alloc
import UConfig.Program.Fields
import UConfig.Program.WriteArgs
import UConfig.Proof.Dequote.Escapes
import UConfig.Proof.Dequote.Words
import UConfig.Proof.Dequote.FieldWords
import UConfig.Proof.Dequote.OneWord
import UConfig.Proof.Dequote.DoubleQuotes
import UConfig.Proof.Dequote.Eval
import UConfig.Proof.Components
import UConfig.Proof.Fields.Dedup
import UConfig.Proof.Fields.Framework
import UConfig.Proof.Fields.Filters
import UConfig.Proof.Fields.OnlyWords
import UConfig.Proof.Fields.SysPaths
import UConfig.Proof.Fields.FieldArgs
import UConfig.Proof.Output
import UConfig.Proof.Alloc
import UConfig.Program.Process
import UConfig.Program.Variable
import UConfig.Proof.Process.Load
import UConfig.Proof.Process.PkgSet
import UConfig.Proof.Process.Stops
import UConfig.Proof.Tries
import UConfig.Proof.Process.Represents
import UConfig.Proof.Process.Simulation
import UConfig.Proof.Process.Universe
import UConfig.Proof.Process.Traversal
import UConfig.Proof.Process.Versions
import UConfig.Proof.Process.Depth
import UConfig.Proof.Process.Stack
import UConfig.Proof.Process.Flat
import UConfig.Proof.Process.Failures
import UConfig.Proof.ParsePackage.Entries
import UConfig.Proof.ParsePackage.ScanEntry
import UConfig.Proof.ParsePackage.RoundTrip
import UConfig.Proof.ParsePackage.Values
import UConfig.Proof.ParsePackage.FileEntries
import UConfig.Proof.ParsePackage.CheckedScan
import UConfig.Proof.Specs
import UConfig.Proof.FindPackage
import UConfig.Proof.SearchPath
import UConfig.Proof.Paths.Prefix
import UConfig.Proof.Paths.Variable
import UConfig.Proof.Version.Order
import UConfig.Proof.Version.Dotted
import UConfig.Proof.List.Agreement
import UConfig.Proof.Wide.Utf8
import UConfig.Proof.Wide.Conversion
import UConfig.Proof.Console
import UConfig.Proof.Cmdline.Scan
import UConfig.Proof.Cmdline.Simulation
import UConfig.Proof.Cmdline.Run
import UConfig.Proof.Cmdline.Collision
import UConfig.Proof.Cmdline.Quoting
import UConfig.Program.Options
import UConfig.Program.Main
import UConfig.Program.Posix
import UConfig.Program.Linux
import UConfig.Proof.Process.Packages
import UConfig.Proof.Options.Reading
import UConfig.Proof.Main.Exit
import UConfig.Proof.Main.Run
import UConfig.Proof.Options.Frame
import UConfig.Proof.Main.Operands
import UConfig.Proof.Main.Silence
import UConfig.Proof.Options.Paths
import UConfig.Proof.Options.Variables
import UConfig.Proof.Main.Returns
import UConfig.Proof.Main.Contract
import UConfig.Proof.Main.Queries
import UConfig.Proof.Main.Flags
import UConfig.Proof.Main.FlagQueries
import UConfig.Proof.Main.FlagCompose
import UConfig.Proof.Main.Existence
import UConfig.Proof.Posix.Transfers
import UConfig.Proof.Posix.Processes
import UConfig.Proof.Posix.Directories
import UConfig.Proof.Posix.Environment
import UConfig.Proof.Posix.Agreement
