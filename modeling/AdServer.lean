import AdServer.Billing.Caps
import AdServer.Billing.CountsConservation
import AdServer.BillingClient.KeepsSpend
import AdServer.BillingClient.Reactivation
import AdServer.UserInfo.Lifecycle
import AdServer.UserInfo.HistoryDays
import AdServer.RequestInfo.WaitingServers
import AdServer.RequestInfo.PoolStorage
import AdServer.RequestInfo.BillingBalance
import AdServer.RequestInfo.MovedRequest
import AdServer.RequestInfo.Passback
import AdServer.UserBind.BadEvents
import AdServer.RequestInfo.TagBanks
import AdServer.RequestInfo.TagGroupRuns
import AdServer.RequestInfo.FraudRuns
import AdServer.ProfilingCommons.TransactionMap
import AdServer.Reach.ColoReachRuns
import AdServer.SyncLogs.MoveTaskScheduler
import AdServer.LogCommons.FieldRoundTrip
import AdServer.SyncLogs.FeedRouteProcessor
import AdServer.LogCommons.FileReceiverFacade
import AdServer.RequestInfo.TriggerMatchRuns
import AdServer.LogCommons.StatCollectorRuns
import AdServer.Grpc.CoalesceTimer
import AdServer.Grpc.InflightLimiter
import AdServer.Grpc.RefPool
import AdServer.Commons.AsyncCacheLru
import AdServer.Commons.AsyncMutex
import AdServer.Commons.GranularContainer
import AdServer.Commons.KafkaProducer
import AdServer.Commons.LimitedMTQueue
import AdServer.CampaignManager.TextMaxSum
import AdServer.CampaignManager.TextCreatives
import AdServer.CampaignManager.DisplayHonours
import AdServer.RequestInfo.ResendOrder
import AdServer.RequestInfo.CappedCosts
import AdServer.RequestInfo.ClickedActions
import AdServer.LogCommons.FileNames
import AdServer.SyncLogs.SourceRemoval
import AdServer.SyncLogs.PendingTasks
import AdServer.ChannelServer.PageUrls
import AdServer.ChannelServer.UidUpdate
import AdServer.UserInfo.CandidateMerge
import AdServer.UserInfo.TrimmedStamps
import AdServer.UserInfo.SeqOrders
import AdServer.FastJson.SubProcessors
import AdServer.FastJson.StringEscapes
import AdServer.LogCommons.HitsFilter
import AdServer.UserBind.ExternalIds
import AdServer.UserInfo.ExcessVisits
import AdServer.Billing.Replaced
import AdServer.Billing.AddOverflow
import AdServer.Billing.ConfiguredLimits
import AdServer.Billing.FreePlan
import AdServer.RequestInfo.IndexSampling
import AdServer.ChannelServer.TriggerBytes
import AdServer.Commons.ExtractDecimal
import AdServer.CampaignManager.CategoryChannels
import AdServer.CampaignManager.PlatformPriorities
import AdServer.CampaignServer.ChannelMatching
