import ShortQ.LabelledRuns
import ShortQ.ListDecisions
import ShortQ.RowTable
import ShortQ.GoText
import ShortQ.Runes
import ShortQ.GoTime
import ShortQ.DecimalText
import ShortQ.PdfText
import ShortQ.CivilDates
import ShortQ.TimeText
import ShortQ.CsvText
import ShortQ.JsonValues
import ShortQ.JsonText
import ShortQ.Base64
import ShortQ.SignedTokens
import ShortQ.CursorPages
import ShortQ.DistinctOn
import ShortQ.Chunks
import ShortQ.Transaction
import ShortQ.Models
import ShortQ.Schema
import ShortQ.GoUrl
import ShortQ.AddressText
import ShortQ.UrlEscapes
import ShortQ.UrlHosts
import ShortQ.UrlRoundTrip
import ShortQ.UrlQuery
import ShortQ.LinkValidation
import ShortQ.LinkStore
import ShortQ.LinkScopes
import ShortQ.LinkCalls
import ShortQ.LinkClients
import ShortQ.LinkPayload
import ShortQ.LinkWrites
import ShortQ.AcceptedLinks
import ShortQ.WriteSuccess
import ShortQ.LinkEdits
import ShortQ.LinkInvariants
import ShortQ.WrittenLinks
import ShortQ.ImportWrites
import ShortQ.LostUpdates
import ShortQ.Hosts
import ShortQ.HttpRequest
import ShortQ.AccountRows
import ShortQ.ChunkedLoads
import ShortQ.AuditLog
import ShortQ.AuditedHandlers
import ShortQ.Overview
import ShortQ.LinkHandlers
import ShortQ.ShortURLs
import ShortQ.CsvLinks
import ShortQ.CsvCells
import ShortQ.CsvTags
import ShortQ.AdminHandlers
import ShortQ.Authentication
import ShortQ.KeyAuthority
import ShortQ.KeyRevocation
import ShortQ.TenantDomains
import ShortQ.LinkLineage
import ShortQ.SlugHistory
import ShortQ.LinkReads
import ShortQ.LinkResponses
import ShortQ.BulkEdits
import ShortQ.PartialEdits
import ShortQ.AuditTrail
import ShortQ.CsvImports
import ShortQ.CsvMeanings
import ShortQ.ClickStore
import ShortQ.ClickBatch
import ShortQ.ClickLedger
import ShortQ.ClickRows
import ShortQ.ClickRetention
import ShortQ.LocalDays
import ShortQ.PagedLists
import ShortQ.CsvRoundTrips
import ShortQ.ReportDays
import ShortQ.ReportFigures
import ShortQ.ReportRetention
import ShortQ.RedirectCache
import ShortQ.DomainChecks
import ShortQ.CacheCoherence
import ShortQ.CacheHistories
import ShortQ.RedirectTargets
import ShortQ.StoredQueries
import ShortQ.RedirectHandler
import ShortQ.RedirectEvents
import ShortQ.RedirectAccounts
import ShortQ.PublicRoutes
import ShortQ.PasswordGate
import ShortQ.ClickLimit
import ShortQ.StaleLimits
import ShortQ.ClickWire
import ShortQ.CachedHits
import ShortQ.AnalyticsWorker
import ShortQ.WorkerRuns
import ShortQ.WorkerCounters
import ShortQ.WorkerFlush
import ShortQ.FlushRounds
import ShortQ.BatchNeighbours
import ShortQ.RetryBounds
import ShortQ.ConfirmLine
import ShortQ.RetryConfirms
import ShortQ.ClickPublisher
import ShortQ.PublisherConfirms
import ShortQ.MessageBroker
import ShortQ.ClickPipeline
import ShortQ.ClickCustody
import ShortQ.BrowserNumbers
import ShortQ.FormControls
import ShortQ.LinkEditor
import ShortQ.LongTail
import ShortQ.HostSpelling
import ShortQ.Placeholders
import ShortQ.StoreStatements
import ShortQ.CasMaximum
import ShortQ.InFlight
import ShortQ.MaskedRuns
import ShortQ.GatedTargets
import ShortQ.GateMemory
import ShortQ.SessionRoots
import ShortQ.GroupSums
import ShortQ.RollupAnalytics
import ShortQ.Markup
import ShortQ.DashboardViews
import ShortQ.DashboardDocuments
import ShortQ.ReportViews
import ShortQ.LinkPager
import ShortQ.TransactionMetrics
import ShortQ.ReportDownloads
import ShortQ.TenantIsolation
import ShortQ.WireFormat
import ShortQ.PersistencePaths
import ShortQ.StorableClicks
