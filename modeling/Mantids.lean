import Mantids.Library.Runs
import Mantids.Library.Refinement
import Mantids.Library.Replacement
import Mantids.Library.OrderedSet
import Mantids.Library.Relation
import Mantids.Memory.Chunks
import Mantids.Memory.Coherence
import Mantids.Memory.CoherentRuns
import Mantids.Memory.PositionSearch
import Mantids.Auth.Session
import Mantids.Threads.SafeMap
import Mantids.RPC.SessionAccounting
import Mantids.RPC.Authorisation
import Mantids.RPC.RequestOutcome
import Mantids.RPC.ResourceFilter
import Mantids.RPC.RequestCleanUp
import Mantids.RPC.PasswordRequests
import Mantids.RPC.PoolRuns
import Mantids.RPC.ReaderBalance
import Mantids.RPC.CookieTruth
import Mantids.Library.Occurrence
import Mantids.Memory.Find
import Mantids.Memory.Append
import Mantids.Memory.Access
import Mantids.Memory.SubParser
import Mantids.Memory.Parser
import Mantids.Memory.Elements
import Mantids.Memory.SubParserCalls
import Mantids.Memory.Fragmentation
import Mantids.Memory.ElementRuns
import Mantids.Memory.CopyOut
import Mantids.Memory.DirectDelimiter
import Mantids.Memory.Direct
import Mantids.Memory.DelimiterLength
import Mantids.Auth.MultiFactor
import Mantids.Auth.ManagerDB
import Mantids.Auth.SuperUsers
import Mantids.Auth.Lockout
import Mantids.RPC.CSRFProtection
import Mantids.Threads.MapLifeCycle
import Mantids.Threads.PoolTasks
import Mantids.Library.Condition
import Mantids.Threads.PoolShutdown
import Mantids.Threads.SafeQueue
import Mantids.RPC.FastRPC
import Mantids.RPC.FastRPCAnswers
import Mantids.Library.Multimap
import Mantids.Protocols.Url
import Mantids.Library.Delivery
import Mantids.Protocols.UrlStreaming
import Mantids.Memory.Reader
import Mantids.Protocols.UrlGrammar
import Mantids.Protocols.UrlVarsReading
import Mantids.Protocols.UrlVarsRoundTrip
import Mantids.Protocols.RequestLine
import Mantids.Protocols.RequestRoundTrip
import Mantids.Memory.ByteByByte
import Mantids.Protocols.MimeMessage
import Mantids.Protocols.HttpServer
import Mantids.Protocols.PartLimits
import Mantids.Protocols.SecurityHeaders
import Mantids.Protocols.PlaceHolders
import Mantids.Protocols.QuotedTexts
import Mantids.Protocols.HeaderParameters
import Mantids.Protocols.VerbatimParameters
import Mantids.Protocols.EndPBoundary
import Mantids.RPC.ExecutedPayload
import Mantids.RPC.IncludeTags
import Mantids.RPC.PageTags
import Mantids.Protocols.ResponseHeaders
import Mantids.Protocols.SizeLimits
import Mantids.Protocols.MimeRoundTrip
import Mantids.Memory.SwitchingParser
import Mantids.Memory.WholeElements
import Mantids.Protocols.HttpContent
import Mantids.Protocols.ChunkedTransfer
import Mantids.Protocols.ContentLength
import Mantids.Protocols.ContentLimits
import Mantids.Protocols.ChunkedBody
import Mantids.Protocols.ChunkedGrammar
import Mantids.Protocols.FileServer
import Mantids.Protocols.PathContainment
import Mantids.Network.Acceptor
import Mantids.Network.AcceptorAccounting
import Mantids.Network.AcceptorShutdown
import Mantids.Network.StreamBase
import Mantids.Network.StreamFraming
import Mantids.Network.DelimitedBlock
import Mantids.Network.BufferedReader
import Mantids.Network.BridgeChunks
import Mantids.Library.Expansion
import Mantids.Library.Grouping
import Mantids.Library.Keystream
import Mantids.Network.ChainAES
import Mantids.Network.ChainTransport
import Mantids.Network.ChainHandshake
import Mantids.RPC.AnswerMatching
import Mantids.Auth.SecretStorage
import Mantids.Database.NamedParameters
import Mantids.Database.SQLConnector
import Mantids.Filesystem.VarsFile
import Mantids.Program.BashLine
import Mantids.Memory.Containers
import Mantids.Memory.SearchAgreement
import Mantids.Memory.MappedFile
import Mantids.Memory.IPV4
import Mantids.Memory.Spilling
import Mantids.Memory.ContentEdits
import Mantids.Memory.FailedEdits
import Mantids.Memory.StreamableObject
import Mantids.Memory.Slices
import Mantids.Memory.DisplaceUntil
import Mantids.Scripts.AtomicExpression
import Mantids.Scripts.JSONEval
import Mantids.Scripts.WholeCompilation
import Mantids.Auth.Directory
import Mantids.Auth.DirectoryAccounts
import Mantids.Auth.DirectoryObjects
import Mantids.Auth.Rights
import Mantids.Auth.AccountChanges
import Mantids.Auth.AuthenticatedChange
import Mantids.Auth.ObjectSearch
import Mantids.Auth.ListedObjects
import Mantids.RPC.InsertedLiterals
import Mantids.RPC.InsertedValues
import Mantids.RPC.Json
import Mantids.RPC.FullAuth
import Mantids.RPC.Reports
import Mantids.RPC.AdministrativeMethods
import Mantids.RPC.StatusFidelity
import Mantids.RPC.ExpiredSessions
import Mantids.Library.Pairing
import Mantids.Library.ScriptLiterals
import Mantids.Library.ShellWords
import Mantids.RPC.DomainCalls
import Mantids.RPC.DomainBalance
import Mantids.Helpers.Base64Loops
import Mantids.Helpers.Encoders
import Mantids.Helpers.HexCodes
import Mantids.Library.Copying
import Mantids.Helpers.Memory64
import Mantids.Helpers.PercentEncoding
import Mantids.Protocols.MimeHeader
import Mantids.Protocols.HeaderLines
import Mantids.Protocols.HeaderBlock
import Mantids.Protocols.HeaderGrammar
import Mantids.Protocols.HeaderInjection
import Mantids.Protocols.HeaderLimits
import Mantids.Protocols.Cookies
import Mantids.Protocols.CookieAgreement
import Mantids.Memory.LineProtocols
import Mantids.Protocols.HttpClient
import Mantids.Protocols.RequestHead
import Mantids.Protocols.HeadReading
import Mantids.Protocols.BasicAuthentication
import Mantids.Protocols.UrlEncoding
import Mantids.Protocols.UrlStrings
import Mantids.Protocols.VarLookup
import Mantids.Library.Calendar
import Mantids.Library.Rounding
import Mantids.Library.Scanning
import Mantids.Memory.DateTime
import Mantids.Memory.FeedingRecursion
import Mantids.Library.Quoting
import Mantids.Program.RPCLog
import Mantids.Auth.QueryScopes
import Mantids.Auth.QueryLocks
import Mantids.Library.ForeignKeys
import Mantids.Auth.Integrity
