import SwiftBite.Archival.Calendar
import SwiftBite.Archival.Worker
import SwiftBite.CoreClient.Cache
import SwiftBite.Data.Enums
import SwiftBite.Data.Schema
import SwiftBite.Data.Shared
import SwiftBite.Data.Texts
import SwiftBite.Http.CursorText
import SwiftBite.Http.Idempotency
import SwiftBite.Http.IdempotencyInTime
import SwiftBite.Http.IsoDates
import SwiftBite.Http.Keyset
import SwiftBite.Http.LocalTime
import SwiftBite.Http.Pagination
import SwiftBite.Http.Records
import SwiftBite.Http.ResponseCache
import SwiftBite.Http.WebSocket
import SwiftBite.Messaging.BranchEvents
import SwiftBite.Messaging.CoreEvents
import SwiftBite.Messaging.OutboxDrain
import SwiftBite.Payments.Kashier
import SwiftBite.Repository.Delivery
import SwiftBite.Repository.Payment
import SwiftBite.Service.Agent
import SwiftBite.Service.Delivery
import SwiftBite.Service.Finance
import SwiftBite.Service.Operations
import SwiftBite.Service.Order
import SwiftBite.Service.OrderDetail
import SwiftBite.Service.OrderLists
import SwiftBite.Store.Added
import SwiftBite.Store.Backlog
import SwiftBite.Store.BatchNumbers
import SwiftBite.Store.Batches
import SwiftBite.Store.Beside
import SwiftBite.Store.Decisive
import SwiftBite.Store.Descent
import SwiftBite.Store.Follow
import SwiftBite.Store.Footprint
import SwiftBite.Store.Growing
import SwiftBite.Store.Inside
import SwiftBite.Store.Journal
import SwiftBite.Store.Machine
import SwiftBite.Store.Merge
import SwiftBite.Store.Once
import SwiftBite.Store.Possible
import SwiftBite.Store.Program
import SwiftBite.Store.RelyGuarantee
import SwiftBite.Store.Rules
import SwiftBite.Store.Serial
import SwiftBite.Store.SerialRules
import SwiftBite.Store.Shortlist
import SwiftBite.Store.Soundness
import SwiftBite.Store.Statement
import SwiftBite.Store.Table
import SwiftBite.Verified.Accounts
import SwiftBite.Verified.AckedEvents
import SwiftBite.Verified.Alone
import SwiftBite.Verified.AloneCalls
import SwiftBite.Verified.AloneStatus
import SwiftBite.Verified.ArchivalKeys
import SwiftBite.Verified.ArchivalLock
import SwiftBite.Verified.ArchivalLoss
import SwiftBite.Verified.ArchivalPasses
import SwiftBite.Verified.ArchivalReruns
import SwiftBite.Verified.ArchivalRows
import SwiftBite.Verified.ArchivalUpdates
import SwiftBite.Verified.ArchivedDetail
import SwiftBite.Verified.ArchivedOrders
import SwiftBite.Verified.ArchivedRefunds
import SwiftBite.Verified.Assignment
import SwiftBite.Verified.BarredBranches
import SwiftBite.Verified.Board
import SwiftBite.Verified.BranchAccess
import SwiftBite.Verified.BusyAgents
import SwiftBite.Verified.CacheInvalidation
import SwiftBite.Verified.CachedAnswers
import SwiftBite.Verified.Cancellations
import SwiftBite.Verified.Captures
import SwiftBite.Verified.Chains
import SwiftBite.Verified.Checkouts
import SwiftBite.Verified.CoveredSettlements
import SwiftBite.Verified.CrashCuts
import SwiftBite.Verified.CursorTexts
import SwiftBite.Verified.CustomerHistory
import SwiftBite.Verified.DateRouting
import SwiftBite.Verified.DeliverySteps
import SwiftBite.Verified.DoubleBooking
import SwiftBite.Verified.DrainProgress
import SwiftBite.Verified.DrainSteps
import SwiftBite.Verified.DrainedOnce
import SwiftBite.Verified.DroppedSuccesses
import SwiftBite.Verified.EarningsPages
import SwiftBite.Verified.FailedPlacements
import SwiftBite.Verified.FinancePages
import SwiftBite.Verified.Footprints
import SwiftBite.Verified.Forgery
import SwiftBite.Verified.Fulfilment
import SwiftBite.Verified.Funding
import SwiftBite.Verified.HandedOver
import SwiftBite.Verified.Ledger
import SwiftBite.Verified.LegalMoves
import SwiftBite.Verified.Lifecycle
import SwiftBite.Verified.LifecycleCalls
import SwiftBite.Verified.LifecyclePayments
import SwiftBite.Verified.LiveSessions
import SwiftBite.Verified.MoneySums
import SwiftBite.Verified.Offline
import SwiftBite.Verified.OneActive
import SwiftBite.Verified.OneHandler
import SwiftBite.Verified.OneSettlement
import SwiftBite.Verified.Overfetch
import SwiftBite.Verified.PageVisits
import SwiftBite.Verified.PassedOver
import SwiftBite.Verified.PaymentSteps
import SwiftBite.Verified.Payouts
import SwiftBite.Verified.Placement
import SwiftBite.Verified.RecordPages
import SwiftBite.Verified.Records
import SwiftBite.Verified.Redelivery
import SwiftBite.Verified.RedisScan
import SwiftBite.Verified.References
import SwiftBite.Verified.RefundOutcome
import SwiftBite.Verified.Refunds
import SwiftBite.Verified.RejectedRefunds
import SwiftBite.Verified.Runs
import SwiftBite.Verified.SendOrder
import SwiftBite.Verified.Settlement
import SwiftBite.Verified.SignatureHeader
import SwiftBite.Verified.StatusRequests
import SwiftBite.Verified.StockCheck
import SwiftBite.Verified.StoreContract
import SwiftBite.Verified.Story
import SwiftBite.Verified.StraddlingLists
import SwiftBite.Verified.Stranded
import SwiftBite.Verified.TaskPages
import SwiftBite.Verified.TimeZones
import SwiftBite.Verified.ToldStatuses
import SwiftBite.Verified.UserIsolation
import SwiftBite.Verified.Wages
import SwiftBite.Verified.WebSocketAccess
import SwiftBite.Verified.WebhookAlone
import SwiftBite.Verified.Webhooks
import SwiftBite.Verified.WriteCatalogue
