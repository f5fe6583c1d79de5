import SecChat.Protocol.PqxdhSigned
import SecChat.Protocol.RatchetDelay
import SecChat.Server.Generations
import SecChat.Audit.Badge
import SecChat.Audit.Transparency
import SecChat.Library.SqlLex
import SecChat.Server.PendingOps
import SecChat.Group.Fork
import SecChat.Server.CreateGroup
import SecChat.Server.Validator
import SecChat.Server.Handshake
import SecChat.Server.IdentityStore
import SecChat.Server.KeyPackages
import SecChat.Server.CommitChain
import SecChat.Session.InitBinding
import SecChat.Protocol.RatchetDisk
import SecChat.Server.Delivery
import SecChat.Server.SendPolicy
import SecChat.App.OwnMessages
import SecChat.Audit.Inclusion
import SecChat.Session.BackupRevocation
import SecChat.Python.Files
import SecChat.Session.TranscriptCheckpoint
import SecChat.Library.HashChain
import SecChat.Server.Friendships
import SecChat.Server.DirectConversations
import SecChat.Server.Presence
import SecChat.Library.OpenAddressing
import SecChat.Server.RateLimiter
import SecChat.Server.Lockout
import SecChat.Audit.RootBinding
import SecChat.Protocol.HeaderCopy
import SecChat.Protocol.HeaderCopy
import SecChat.Protocol.RatchetBounds
import SecChat.Protocol.RatchetReload
import SecChat.Protocol.OneTimeKeys
import SecChat.Session.OneTimeUse
import SecChat.Library.FirstBest
import SecChat.Session.CacheMerge
import SecChat.Group.HandshakeReplay
import SecChat.Group.PreparedIntents
import SecChat.Server.PrekeyIds
import SecChat.Session.PendingAnswers
import SecChat.App.PendingQueue
import SecChat.Session.HistoryCheck
import SecChat.Session.PeerCheckpoints
import SecChat.Session.Redelivery
import SecChat.Session.AuditorPin
import SecChat.Server.LoginWindow
import SecChat.App.Rereading
import SecChat.Session.CacheAge
import SecChat.Session.PreservingRestore
import SecChat.Session.Rewrap
import SecChat.Library.CText
import SecChat.Library.JsonReader
import SecChat.Library.JsonFormat
import SecChat.Server.JsonHelpers
import SecChat.Server.ListFrames
import SecChat.Server.Columns
import SecChat.Server.ReactionFrame
import SecChat.Server.HistoryFrame
import SecChat.Server.BodyFrames
import SecChat.Server.GroupEvents
import SecChat.Library.Utf8Text
import SecChat.Server.Utf8Frames
import SecChat.Library.ByteReader
import SecChat.Server.WsFrames
import SecChat.Server.KeyFrames
import SecChat.Library.Writes
import SecChat.Server.ApplyFaults
import SecChat.Server.SendOnce
import SecChat.Library.TokenBucket
import SecChat.Server.TokenBuckets
import SecChat.Server.IdentityText
import SecChat.Server.JsonEscape
import SecChat.Library.Fields
import SecChat.Server.IdentityLeaf
import SecChat.Library.KeyedJoin
import SecChat.Session.Membership
import SecChat.Library.Prefixes
import SecChat.Server.Disappearing
import SecChat.Server.Migrations
import SecChat.Library.CrlfLines
import SecChat.Server.WsHandshake
import SecChat.Library.Deduction
import SecChat.Formal.SecchatDm
import SecChat.Library.BigEndian
import SecChat.Library.Framing
import SecChat.App.Network
import SecChat.Library.Counting
import SecChat.Server.ConnectionPool
import SecChat.Server.PasswordHash
import SecChat.Server.Accounts
import SecChat.Server.LogLines
import SecChat.Group.BridgePipe
import SecChat.Server.ReadMarks
import SecChat.Library.Noninterference
import SecChat.Server.HiddenPresence
import SecChat.Library.OrderStatistics
import SecChat.Server.Metrics
import SecChat.Library.Like
import SecChat.Server.UserSearch
import SecChat.Library.Announcements
import SecChat.App.ReactionViews
import SecChat.App.ChatPage
