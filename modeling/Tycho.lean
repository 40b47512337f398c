import Tycho.Indexer.ServedState
import Tycho.Indexer.Pagination
import Tycho.Indexer.Gap
import Tycho.Common.PartialOrder
import Tycho.Indexer.Timestamps
import Tycho.Indexer.BufferCalls
import Tycho.Dci.Journal
import Tycho.Dci.Retries
import Tycho.Dci.EndOfBlock
import Tycho.Storage.BlockReplay
import Tycho.Storage.OpenVersions
import Tycho.Client.TvlFilter
import Tycho.Client.LateSnapshots
import Tycho.Client.HistorySize
import Tycho.Client.LaggingStreams
import Tycho.Client.Subscriptions
import Tycho.Execution.FeeSettings
import Tycho.Execution.Consent
import Tycho.Execution.Signatures
import Tycho.Encoding.ExecutionOrder
import Tycho.Encoding.GroupedTrade
import Tycho.Simulation.StepRounding
import Tycho.Simulation.Observations
import Tycho.Simulation.SwapToPrice
import Tycho.Simulation.UniswapV2
import Tycho.Simulation.Pending
import Tycho.Simulation.Fluid
import Tycho.Encoding.PrefixLength
import Tycho.Encoding.RouterFlow
import Tycho.Execution.DeltaCounter
