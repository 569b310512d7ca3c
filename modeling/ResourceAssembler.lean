import ResourceAssembler.Command.Basic
import ResourceAssembler.Command.Build
import ResourceAssembler.Command.Init
import ResourceAssembler.Command.Line
import ResourceAssembler.Command.Plain
import ResourceAssembler.Command.Run
import ResourceAssembler.Container.Classic
import ResourceAssembler.Container.Encode
import ResourceAssembler.Container.Extended
import ResourceAssembler.Container.Fault
import ResourceAssembler.Container.Name
import ResourceAssembler.Container.Rez
import ResourceAssembler.Failure
import ResourceAssembler.Field
import ResourceAssembler.Format
import ResourceAssembler.Host.Basic
import ResourceAssembler.Host.Disk
import ResourceAssembler.Host.Fault
import ResourceAssembler.Host.Sketch
import ResourceAssembler.Image.Crc32
import ResourceAssembler.Image.Deflate.Bits
import ResourceAssembler.Image.Deflate.Block
import ResourceAssembler.Image.Deflate.Code
import ResourceAssembler.Image.Deflate.Stream
import ResourceAssembler.Image.Fault
import ResourceAssembler.Image.Png.Chunk
import ResourceAssembler.Image.Png.Decode
import ResourceAssembler.Image.Png.Frame
import ResourceAssembler.Image.Png.Header
import ResourceAssembler.Image.Png.Intake
import ResourceAssembler.Image.Png.Lines
import ResourceAssembler.Image.Png.Preamble
import ResourceAssembler.Image.Png.Sampling
import ResourceAssembler.Image.Surface
import ResourceAssembler.Json.Basic
import ResourceAssembler.Json.Form
import ResourceAssembler.Json.Printer
import ResourceAssembler.Listing.Assemble
import ResourceAssembler.Listing.Form
import ResourceAssembler.Location
import ResourceAssembler.Main
import ResourceAssembler.Manifest
import ResourceAssembler.Notice
import ResourceAssembler.Paths.Text
import ResourceAssembler.Record
import ResourceAssembler.ResourceFile
import ResourceAssembler.Settings
import ResourceAssembler.Target.Build
import ResourceAssembler.Target.Error
import ResourceAssembler.Target.Paths
import ResourceAssembler.Toml.Cursor
import ResourceAssembler.Toml.Document
import ResourceAssembler.Toml.Moment
import ResourceAssembler.Toml.Number
import ResourceAssembler.Toml.Table
import ResourceAssembler.Toml.Text
import ResourceAssembler.Toml.Value
import ResourceAssembler.TypeCode
import ResourceAssembler.Word
import ResourceAssembler.Proofs.Container.Classic.Layout
import ResourceAssembler.Proofs.Container.Classic.Reading
import ResourceAssembler.Proofs.Container.Extended.Layout
import ResourceAssembler.Proofs.Container.Extended.Reading
import ResourceAssembler.Proofs.Container.Fork
import ResourceAssembler.Proofs.Container.Placement
import ResourceAssembler.Proofs.Container.Rez.Layout
import ResourceAssembler.Proofs.Container.Rez.Reading
import ResourceAssembler.Proofs.ResourceFile.History
import ResourceAssembler.Proofs.ResourceFile.Repetition
import ResourceAssembler.Proofs.Settings.ManifestPath
import ResourceAssembler.Proofs.TypeCode
import ResourceAssembler.Proofs.Paths.Denotation
import ResourceAssembler.Proofs.Paths.Home
import ResourceAssembler.Proofs.Target.SourceFile
import ResourceAssembler.Proofs.Target.Save
import ResourceAssembler.Proofs.Target.Session
import ResourceAssembler.Proofs.Target.Artifact
import ResourceAssembler.Proofs.Host.Disk
import ResourceAssembler.Proofs.Listing.Contribution
import ResourceAssembler.Proofs.Listing.Repetition
import ResourceAssembler.Proofs.Listing.Frame
import ResourceAssembler.Proofs.Command.Keeping
import ResourceAssembler.Proofs.Command.Preparation
import ResourceAssembler.Proofs.Command.FailedBuild
import ResourceAssembler.Proofs.Host.Steady
import ResourceAssembler.Proofs.Settings.Seen
import ResourceAssembler.Proofs.Command.DryRun
import ResourceAssembler.Proofs.Host.Merging
import ResourceAssembler.Proofs.Target.Scenario
import ResourceAssembler.Proofs.Command.Scenario
import ResourceAssembler.Proofs.Container.Measures
import ResourceAssembler.Proofs.Container.Classic.Limits
import ResourceAssembler.Proofs.Container.Limits
import ResourceAssembler.Proofs.Listing.Places
import ResourceAssembler.Proofs.Listing.Joining
import ResourceAssembler.Proofs.Container.Blame
import ResourceAssembler.Proofs.Container.Classic.DataArea
import ResourceAssembler.Proofs.Record.Reading
import ResourceAssembler.Proofs.Container.Region
import ResourceAssembler.Proofs.Container.Survey
import ResourceAssembler.Proofs.Container.Tiling
import ResourceAssembler.Proofs.Container.Coverage
import ResourceAssembler.Proofs.Listing.Declaration
import ResourceAssembler.Proofs.Location
import ResourceAssembler.Proofs.Listing.Offence
import ResourceAssembler.Proofs.Paths.Splitting
import ResourceAssembler.Proofs.Target.Destination
import ResourceAssembler.Proofs.Host.Chart
import ResourceAssembler.Proofs.Target.Rebuilding
import ResourceAssembler.Proofs.Paths.Parent
import ResourceAssembler.Proofs.Target.SourceRoot
import ResourceAssembler.Proofs.Settings.InputDirectory
import ResourceAssembler.Proofs.Target.ScenarioRoot
import ResourceAssembler.Proofs.Host.Directories
import ResourceAssembler.Proofs.Target.Creation
import ResourceAssembler.Proofs.Image.Payload
import ResourceAssembler.Proofs.Manifest.Search
import ResourceAssembler.Proofs.Toml.Line
import ResourceAssembler.Proofs.Manifest.Template
import ResourceAssembler.Proofs.Toml.Spelling
import ResourceAssembler.Proofs.Toml.Standing
import ResourceAssembler.Proofs.TypeCode.Number
import ResourceAssembler.Proofs.Target.Choices
import ResourceAssembler.Proofs.Json.Basic
import ResourceAssembler.Proofs.Json.Form
