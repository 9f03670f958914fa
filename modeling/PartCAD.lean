import PartCAD.Lib.Text
import PartCAD.Lib.Dict
import PartCAD.Lib.Walk
import PartCAD.Lib.Tally
import PartCAD.Lib.Value
import PartCAD.Lib.Repr
import PartCAD.Lib.Base64
import PartCAD.Lib.Json
import PartCAD.Lib.Rotation
import PartCAD.Lib.Euler
import PartCAD.Lib.Run
import PartCAD.Lib.Loops
import PartCAD.Lib.PostOrder
import PartCAD.Lib.Bytes
import PartCAD.Lib.Program
import PartCAD.Lib.Concurrent
import PartCAD.Lib.Answers
import PartCAD.Lib.Forest
import PartCAD.Lib.RootedTree
import PartCAD.Lib.Outline
import PartCAD.Lib.Repeats
import PartCAD.Lib.Decimal
import PartCAD.Lib.Quantity
import PartCAD.Lib.Significant
import PartCAD.Lib.Copies
import PartCAD.Lib.Nested
import PartCAD.Lib.Lazy
import PartCAD.Lib.Substrings
import PartCAD.Lib.Outermost
import PartCAD.Lib.Lexemes
import PartCAD.Lib.Regex
import PartCAD.Lib.Pieces
import PartCAD.Lib.Along
import PartCAD.Lib.BreadthFirst
import PartCAD.Lib.Chase
import PartCAD.Lib.FirstFound
import PartCAD.Lib.Firsts
import PartCAD.Lib.Gathered
import PartCAD.Lib.HtmlTokens
import PartCAD.Lib.Modal
import PartCAD.Lib.Offsets
import PartCAD.Lib.Semaphore
import PartCAD.Lib.SortedBy
import PartCAD.Lib.Turns
import PartCAD.Tolerance.Blocks
import PartCAD.Tolerance.Reading
import PartCAD.Tolerance.Places
import PartCAD.Tolerance.Chunked
import PartCAD.Document.Html
import PartCAD.Document.HtmlTags
import PartCAD.Step.Metadata
import PartCAD.Step.Records
import PartCAD.Step.Scanned
import PartCAD.Geometry.Location
import PartCAD.Geometry.Packed
import PartCAD.Geometry.Rounded
import PartCAD.Geometry.Rigid
import PartCAD.Package.Paths
import PartCAD.Package.Normalize
import PartCAD.Package.Relocate
import PartCAD.Package.Lookup
import PartCAD.Package.Names
import PartCAD.Package.Canonical
import PartCAD.Package.Objects
import PartCAD.Package.DerivedParts
import PartCAD.Package.GitClone
import PartCAD.Package.GitRecovery
import PartCAD.Package.GitCache
import PartCAD.Package.External
import PartCAD.Package.InstanceNames
import PartCAD.Package.TarCache
import PartCAD.Package.FileFactory
import PartCAD.Package.Spelling
import PartCAD.Ports.Inherit
import PartCAD.Ports.Hierarchy
import PartCAD.Ports.Instances
import PartCAD.Ports.Frames
import PartCAD.Ports.Mating
import PartCAD.Ports.Governing
import PartCAD.Ports.Candidates
import PartCAD.Ports.Lineage
import PartCAD.Ports.Movement
import PartCAD.Ports.Inherited
import PartCAD.Assembly.Connect
import PartCAD.Assembly.Bom
import PartCAD.Assembly.BomAgree
import PartCAD.Assembly.PortTree
import PartCAD.Assembly.Guide
import PartCAD.Assembly.MappedPorts
import PartCAD.Assembly.Endpoints
import PartCAD.Assembly.Instantiate
import PartCAD.Assembly.Illustrations
import PartCAD.Assembly.SectionCounts
import PartCAD.Assembly.ConnectHow
import PartCAD.Supply.Cart
import PartCAD.Supply.Refines
import PartCAD.Supply.Record
import PartCAD.Envelope.Codec
import PartCAD.Envelope.Layers
import PartCAD.Cache.Tiers
import PartCAD.Cache.Hash
import PartCAD.Cache.Shape
import PartCAD.Cache.Pool
import PartCAD.Cache.PoolRuns
import PartCAD.Cache.PoolEnds
import PartCAD.Sandbox.Lock
import PartCAD.Sandbox.CacheKey
import PartCAD.Sandbox.Requirements
import PartCAD.Sandbox.Runtime
import PartCAD.Sandbox.Guarded
import PartCAD.Sandbox.Installs
import PartCAD.Sandbox.JsSession
import PartCAD.Sandbox.Reconciled
import PartCAD.Sandbox.HostPaths
import PartCAD.Sandbox.Mounts
import PartCAD.Sandbox.Rewritten
import PartCAD.Service.Framing
import PartCAD.Service.Server
import PartCAD.Service.UserConfig
import PartCAD.Service.Handover
import PartCAD.Service.Staging
import PartCAD.Service.StagedBuilds
import PartCAD.Service.Contexts
import PartCAD.Service.BuiltOnce
import PartCAD.Render.Merge
import PartCAD.Render.Implementation
import PartCAD.Export.UrdfCommon
import PartCAD.Export.Urdf
import PartCAD.Export.UrdfTree
import PartCAD.Export.UrdfPlaced
import PartCAD.Export.Readers
import PartCAD.Export.UrdfOrigin
import PartCAD.Convert.JointTree
import PartCAD.Convert.Interfaces
import PartCAD.Convert.Assy
import PartCAD.Convert.Placed
import PartCAD.Convert.BasePart
import PartCAD.Convert.BaseChain
import PartCAD.Imported.Links
import PartCAD.Imported.LinkWalk
import PartCAD.Imported.LinkPaths
import PartCAD.Imported.Registry
import PartCAD.Imported.SceneFiles
import PartCAD.Imported.OwnParts
import PartCAD.Expression.Syntax
import PartCAD.Expression.Numbers
import PartCAD.Expression.Evaluate
import PartCAD.Expression.Arithmetic
import PartCAD.Expression.Texts
import PartCAD.Expression.Runtime
import PartCAD.Expression.Sizes
import PartCAD.Expression.Operations
import PartCAD.Expression.Executed
import PartCAD.Expression.Lengths
import PartCAD.Manufacturing.Units
import PartCAD.Manufacturing.Job
import PartCAD.Manufacturing.Machines
import PartCAD.Manufacturing.Recorded
import PartCAD.Gcode.Program
import PartCAD.Gcode.Order
import PartCAD.Gcode.Milling
import PartCAD.Gcode.Drilling
import PartCAD.Gcode.Bores
import PartCAD.Gcode.Pecks
import PartCAD.Analysis.Config
import PartCAD.Analysis.Ports
import PartCAD.Simulation.Offset
import PartCAD.Brep.Topology
import PartCAD.Brep.Section
import PartCAD.Checks.Declarations
import PartCAD.Checks.Cached
import PartCAD.Checks.Questions
import PartCAD.Checks.Remembered
import PartCAD.Checks.Overlaps
import PartCAD.Checks.Connectivity
import PartCAD.Checks.Gate
import PartCAD.Checks.Template
