import ScadaCommon.Events.EventAckQueueRuns
import ScadaCommon.Events.EventStorageIndex
import ScadaCommon.Events.EventMirror
import ScadaCommon.Events.ObserverLoops
import ScadaCommon.Events.AcknowledgeGroup
import ScadaCommon.Events.EventFetcherRuns
import ScadaCommon.Common.Aggregation
import ScadaCommon.Common.AggregationSafety
import ScadaCommon.Common.AggregationBuckets
import ScadaCommon.Common.MasterDataServices
import ScadaCommon.TimedData.HistoryReadiness
import ScadaCommon.TimedData.Retention
import ScadaCommon.TimedData.UpdateBatch
import ScadaCommon.TimedData.ExpressionCallbackRuns
import ScadaCommon.TimedData.FetcherProtocol
import ScadaCommon.TimedData.PagedReadiness
import ScadaCommon.TimedData.ContinuationPoints
import ScadaCommon.TimedData.AliasTimedData
import ScadaCommon.Common.FormulaUtil
import ScadaCommon.Common.Format
import ScadaCommon.AddressSpace.NodeStateXml
import ScadaCommon.TimedData.TimedDataSpec
import ScadaCommon.TimedData.GapFinding
import ScadaCommon.TimedData.BatchWrites
import ScadaCommon.TimedData.ReadyFrom
import ScadaCommon.TimedData.PointQuery
import ScadaCommon.NodeService.V3.FetchRequests
import ScadaCommon.NodeService.V3.Tombstones
import ScadaCommon.NodeService.V3.KeepAlive
import ScadaCommon.NodeService.V3.CompletionOrder
import ScadaCommon.NodeService.V3.InverseReferences
import ScadaCommon.NodeService.V3.SupertypeWalks
import ScadaCommon.NodeService.Static.StaticAnswers
import ScadaCommon.NodeService.RequestAccounting
import ScadaCommon.NodeService.FetchQueue
import ScadaCommon.NodeService.NodeChildrenFetcher
import ScadaCommon.NodeService.FetchCallbacks
import ScadaCommon.NodeService.FetchRecursive
import ScadaCommon.NodeService.V3.PendingNodes
import ScadaCommon.AddressSpace.AddressSpaceImpl
import ScadaCommon.AddressSpace.BrowsePaths
import ScadaCommon.AddressSpace.CreateNodeAtomicity
import ScadaCommon.AddressSpace.DeletedSubtrees
import ScadaCommon.AddressSpace.FieldPaths
import ScadaCommon.AddressSpace.FileOrder
import ScadaCommon.AddressSpace.GetAllNodes
import ScadaCommon.AddressSpace.NodeFactoryUtil
import ScadaCommon.Model.NestedNodeIds
import ScadaCommon.OpcuaBridge.DateTimes
import ScadaCommon.OpcuaBridge.ServerAdapters
import ScadaCommon.NodeService.NodeSubscriptionTable
import ScadaCommon.AddressSpace.Notifications
import ScadaCommon.Common.NodeState
import ScadaCommon.TimedData.AlertingData
import ScadaCommon.AddressSpace.VariableHandle
import ScadaCommon.TimedData.TimedDataView
import ScadaCommon.AddressSpace.UaNodeSet
import ScadaCommon.Model.GenerateModelHeaders
import ScadaCommon.AddressSpace.MakeNodeState
import ScadaCommon.AddressSpace.SavedSpaces
