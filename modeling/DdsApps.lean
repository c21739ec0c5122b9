import DdsApps.Config.ConfigPath
import DdsApps.Config.Init
import DdsApps.Config.Timer
import DdsApps.Config.Yaml
import DdsApps.Entities.Lifecycle
import DdsApps.ImageTest.ByteMat
import DdsApps.ImageTest.Encoding
import DdsApps.ImageTest.Mat
import DdsApps.ImageTest.Prefixes
import DdsApps.ImageTest.SwapTable
import DdsApps.Infra.Blocks
import DdsApps.Infra.Bytes
import DdsApps.Infra.CLib
import DdsApps.Infra.CStrings
import DdsApps.Infra.CircularBuffer
import DdsApps.Infra.Codec
import DdsApps.Infra.Fuel
import DdsApps.Infra.Loops
import DdsApps.Infra.Machine
import DdsApps.Infra.Numerals
import DdsApps.Infra.RefStore
import DdsApps.Infra.Ring
import DdsApps.Infra.Simulation
import DdsApps.Infra.Split
import DdsApps.Options.Argv
import DdsApps.Options.ArgvMain
import DdsApps.Options.Help
import DdsApps.Options.HelpText
import DdsApps.Options.LineWrapper
import DdsApps.Options.Main
import DdsApps.Options.Parser
import DdsApps.Options.PartIterator
import DdsApps.Options.Passes
import DdsApps.Options.PrintUsage
import DdsApps.Options.Store
import DdsApps.Properties.AllArrive
import DdsApps.Properties.ArgvMains
import DdsApps.Properties.ArgvPasses
import DdsApps.Properties.BoundedPublishing
import DdsApps.Properties.ByteSwap
import DdsApps.Properties.ConfigPath
import DdsApps.Properties.Cycles
import DdsApps.Properties.EncodingGrammar
import DdsApps.Properties.EndToEnd
import DdsApps.Properties.EntityRelease
import DdsApps.Properties.ExampleTopics
import DdsApps.Properties.LineWrapping
import DdsApps.Properties.MatBounds
import DdsApps.Properties.MatShape
import DdsApps.Properties.MatchedCount
import DdsApps.Properties.Meeting
import DdsApps.Properties.NumericOptions
import DdsApps.Properties.PartOrder
import DdsApps.Properties.PixelValue
import DdsApps.Properties.PositionalSyntax
import DdsApps.Properties.PrintedUsage
import DdsApps.Properties.ProgramHelp
import DdsApps.Properties.PublishAtomic
import DdsApps.Properties.SampleFilters
import DdsApps.Properties.SamplesTaken
import DdsApps.Properties.ScreenWidth
import DdsApps.Properties.Stopping
import DdsApps.Properties.TailMarker
import DdsApps.Properties.TimerInterval
import DdsApps.Properties.TopicName
import DdsApps.Properties.TypeLookup
import DdsApps.Properties.WaitingGate
import DdsApps.Properties.WireFormat
import DdsApps.Threads.Instance
import DdsApps.Threads.Listener
import DdsApps.Threads.Publish
import DdsApps.Threads.Publisher
import DdsApps.Threads.RunCyclic
import DdsApps.Threads.RunSamples
import DdsApps.Threads.SharedMem
import DdsApps.Threads.TakeSamples
import DdsApps.Threads.Topic
import DdsApps.Types.FastCdr
import DdsApps.Types.HelloWorld
