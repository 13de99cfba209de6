import TileXR.Plan.Agreement
import TileXR.Plan.DuplicateOrder
import TileXR.Plan.TokenIds
import TileXR.Plan.Workspace
import TileXR.Plan.Int32
import TileXR.Plan.Received
import TileXR.Plan.Rounds
import TileXR.Plan.Search
import TileXR.Commit.Safety
import TileXR.MoonEpCombineV2.Credits
import TileXR.MoonEpV1.Barrier
import TileXR.MoonEpV1.Planned
import TileXR.ReduceGrad.Accumulate
import TileXR.ReduceGrad.Barrier
import TileXR.ReduceGrad.QpShare
import TileXR.ReduceGrad.Clear
import TileXR.Udma.Quiet
import TileXR.Udma.QpConfig
import TileXR.Checker.Ordering
import TileXR.Checker.Coverage
import TileXR.DispatchUrma.Coverage
import TileXR.DispatchUrma.Layout
import TileXR.DispatchUrma.LocalCopy
import TileXR.DispatchUrma.Posting
import TileXR.DispatchUrma.QpSplit
import TileXR.Ep.UdmaWorkspace
import TileXR.EpMemory.Mask
import TileXR.EpMemory.SendOrder
import TileXR.EpMemory.CombineBuffers
import TileXR.EpMemory.DispatchBuffers
import TileXR.EpMemory.Window
import TileXR.ReduceGrad.Stall
