import Llamad.Chat.ContentDelivery
import Llamad.Chat.FinalCalls
import Llamad.Chat.Format
import Llamad.Chat.FullPattern
import Llamad.Chat.RawFallback
import Llamad.Chat.SchemaTurn
import Llamad.Chat.ShownContent
import Llamad.Chat.Stream
import Llamad.Client.Conversation
import Llamad.Client.Daemon
import Llamad.Client.Delivery
import Llamad.Engine.Backend
import Llamad.Engine.Budgets
import Llamad.Engine.Cache
import Llamad.Engine.CacheRecord
import Llamad.Engine.CacheTransparency
import Llamad.Engine.CallbackAgreement
import Llamad.Engine.CallbackOrder
import Llamad.Engine.Candidates
import Llamad.Engine.ChunkBoundary
import Llamad.Engine.Contract
import Llamad.Engine.DecodeReports
import Llamad.Engine.Devices
import Llamad.Engine.Drawing
import Llamad.Engine.Draws
import Llamad.Engine.EagerGrammar
import Llamad.Engine.Embed
import Llamad.Engine.EmbedAlone
import Llamad.Engine.Generate
import Llamad.Engine.GreedySampling
import Llamad.Engine.Loading
import Llamad.Engine.PrefillTokens
import Llamad.Engine.PrefixReuse
import Llamad.Engine.RequestFaults
import Llamad.Engine.SampleFreshness
import Llamad.Engine.Sampler
import Llamad.Engine.Sections
import Llamad.Engine.Seeding
import Llamad.Engine.StreamFilter
import Llamad.Engine.StreamSegmentation
import Llamad.Engine.StreamTruncation
import Llamad.Engine.TopK
import Llamad.Engine.TriggerWords
import Llamad.Engine.Vocabulary
import Llamad.Engine.Withheld
import Llamad.Grammar.Json
import Llamad.Grammar.Pattern
import Llamad.Logical.Guided
import Llamad.Logical.History
import Llamad.Logical.Occurrence
import Llamad.Logical.Ranking
import Llamad.Logical.Regex
import Llamad.Logical.Utf8
import Llamad.Semantics.Agreement
import Llamad.Semantics.Mutex
import Llamad.Semantics.Ownership
import Llamad.Semantics.Program
import Llamad.Semantics.Transition
import Llamad.Service.Assembly
import Llamad.Service.Batches
import Llamad.Service.Blame
import Llamad.Service.CallArguments
import Llamad.Service.Cancellation
import Llamad.Service.ChatDelivery
import Llamad.Service.CommandLine
import Llamad.Service.Concurrency
import Llamad.Service.Delivery
import Llamad.Service.EmbedWhole
import Llamad.Service.Flags
import Llamad.Service.Rpc
import Llamad.Service.SeededSampling
import Llamad.Service.Shutdown
import Llamad.Service.SocketPath
import Llamad.Service.Startup
import Llamad.Service.Statelessness
import Llamad.Service.StreamShape
import Llamad.Service.WholeCalls
import Llamad.Service.Wire
