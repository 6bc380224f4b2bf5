import BeastServer.Machines
import BeastServer.CacheSections
import BeastServer.PicturePreviews
import BeastServer.SequentialCalls
import BeastServer.LostPictures
import BeastServer.PublishedGroups
import BeastServer.ConcurrentCalls
import BeastServer.Patterns
import BeastServer.UriRouters
import BeastServer.PreviewStores
import BeastServer.AdvertisedUrls
import BeastServer.HttpMessages
import BeastServer.HttpSessions
import BeastServer.HttpPipelines
import BeastServer.HttpSoundness
import BeastServer.HttpSequences
import BeastServer.Base64
import BeastServer.JsonValues
import BeastServer.PictureJson
import BeastServer.DecoderBounds
import BeastServer.DecodedPictures
import BeastServer.Utf8
import BeastServer.JsonLexers
import BeastServer.JsonParsers
import BeastServer.JsonSerializers
import BeastServer.JsonApi
import BeastServer.AnsweredRequests
import BeastServer.Feeds
import BeastServer.PreviewRuns
import BeastServer.PreviewPolls
import BeastServer.Custody
import BeastServer.PublishedOnce
import BeastServer.CompletedGroups
import BeastServer.DisclosedBytes
import BeastServer.Mailboxes
import BeastServer.MultiBuffers
import BeastServer.WebsocketSessions
import BeastServer.WebsocketReads
import BeastServer.WebsocketQueues
import BeastServer.DecoderErrors
import BeastServer.ExactNumbers
import BeastServer.Rfc4648
import BeastServer.EncodedPictures
import BeastServer.FailedCalls
import BeastServer.EraseLoops
import BeastServer.FreshPreviews
import BeastServer.Paths
import BeastServer.PreviewVisits
import BeastServer.VisitedUrls
import BeastServer.InventedPictures
import BeastServer.HttpListeners
import BeastServer.StaticRequests
import BeastServer.ContainedPaths
import BeastServer.HeadResponses
import BeastServer.SessionDeadlines
import BeastServer.KeepAlives
import BeastServer.PreviewIds
import BeastServer.SamplingBlocks
import BeastServer.SamplingProgress
import BeastServer.Samplings
import BeastServer.SamplingStatus
import BeastServer.JsonTokens
import BeastServer.JsonRoundTrips
import BeastServer.OkResponses
import BeastServer.AcceptedTexts
import BeastServer.Simulations
import BeastServer.Groupings
import BeastServer.IndependentObjects
import BeastServer.SamplingJoins
import BeastServer.SamplingRequests
import BeastServer.PreviewLists
import BeastServer.Routes
import BeastServer.Servers
import BeastServer.ApiContracts
import BeastServer.Sections
import BeastServer.ServerTasks
import BeastServer.UninterruptedTasks
import BeastServer.ServerSafety
import BeastServer.ServerProgress
import BeastServer.ServerLocks
import BeastServer.ServerRuns
import BeastServer.ServerAnswers
import BeastServer.DemoClients
import BeastServer.MutexReleases
import BeastServer.JsonPrefixes
import BeastServer.NumberOverflows
import BeastServer.WebsocketTerminations
