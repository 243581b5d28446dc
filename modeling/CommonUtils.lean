import CommonUtils.Library.Machine
import CommonUtils.Library.Observed
import CommonUtils.Library.Progress
import CommonUtils.Library.WaitSet
import CommonUtils.Library.BoundedFifo
import CommonUtils.Library.Search
import CommonUtils.Library.MutexTable
import CommonUtils.Library.Collect
import CommonUtils.Library.PathAccess
import CommonUtils.Library.Members
import CommonUtils.Library.Mailbox
import CommonUtils.MessageQueue.Model
import CommonUtils.MessageQueue.Refinement
import CommonUtils.MessageQueue.Wakeup
import CommonUtils.MessageQueue.Capacity
import CommonUtils.MessageQueue.Polling
import CommonUtils.MessageQueue.Returns
import CommonUtils.ThreadPool.Model
import CommonUtils.ThreadPool.Wakeup
import CommonUtils.ThreadPool.Drain
import CommonUtils.ThreadPool.Late
import CommonUtils.ThreadPool.Returns
import CommonUtils.TCP.SessionWrite
import CommonUtils.TCP.Channel
import CommonUtils.TCP.Dialogue
import CommonUtils.TCP.SessionRead
import CommonUtils.TCP.SessionStranded
import CommonUtils.TCP.SessionManager
import CommonUtils.TCP.SessionIds
import CommonUtils.TCP.SessionCleaning
import CommonUtils.TCP.SessionExpiry
import CommonUtils.TCP.SessionActivity
import CommonUtils.TCP.Client
import CommonUtils.TCP.Reconnect
import CommonUtils.TCP.Server.Model
import CommonUtils.TCP.Server.Limit
import CommonUtils.TCP.Server.Lifetime
import CommonUtils.TCP.Server.Pool
import CommonUtils.TCP.Server.Escape
import CommonUtils.TCP.Server.Teardown
import CommonUtils.TCP.Broadcast
import CommonUtils.TCP.Server.Inbox
import CommonUtils.TCP.Server.GetMessage
import CommonUtils.Network.UrlParser
import CommonUtils.Network.Request
import CommonUtils.Network.UrlRoundTrip
import CommonUtils.Network.UrlGrammar
import CommonUtils.Network.Router
import CommonUtils.Network.HTTPServer
import CommonUtils.Network.SyncHttpClient
import CommonUtils.JSON.Model
import CommonUtils.JSON.Lens
import CommonUtils.JSON.Lexer
import CommonUtils.JSON.Parser
import CommonUtils.JSON.Grammar
import CommonUtils.JSON.Reading
import CommonUtils.JSON.Loader
import CommonUtils.JSON.Scanned
import CommonUtils.JSON.Accepted
import CommonUtils.JSON.Serializer
import CommonUtils.JSON.Manager
import CommonUtils.JSON.ConstAccess
import CommonUtils.JSON.Escaped
import CommonUtils.JSON.Printed
import CommonUtils.JSON.Building
import CommonUtils.JSON.RoundTrip
import CommonUtils.JSON.Ownership
import CommonUtils.JSON.Sessions
import CommonUtils.JSON.Restarts
import CommonUtils.Logger.FileLogPolicy.Model
import CommonUtils.Logger.FileLogPolicy.Locks
import CommonUtils.Logger.FileLogPolicy.Ring
import CommonUtils.Logger.FileLogPolicy.Writer
import CommonUtils.Logger.FileLogPolicy.Exclusive
import CommonUtils.Logger.FileLogPolicy.Rounds
import CommonUtils.Logger.FileLogPolicy.Intact
import CommonUtils.Logger.FileLogPolicy.SingleCaller
import CommonUtils.Logger.FileLogPolicy.Trap
import CommonUtils.Logger.FileLogPolicy.Deadlock
import CommonUtils.Logger.FileLogPolicy.Plan
import CommonUtils.Logger.FileLogPolicy.Shutdown
import CommonUtils.Logger.FileLogPolicy.Hang
import CommonUtils.Logger.FileLogPolicy.Stop
import CommonUtils.Logger.FileLogPolicy.EarlyExit
import CommonUtils.Logger.FileLogPolicy.Missed
import CommonUtils.Logger.FileLogPolicy.Policy
import CommonUtils.Logger.FileLogPolicy.Format
import CommonUtils.Logger.LogPolicy
import CommonUtils.Logger.ConsoleLogPolicy
import CommonUtils.Logger.Model
import CommonUtils.Logger.Ledger
import CommonUtils.Logger.Lifecycle
import CommonUtils.Logger.Delivery
import CommonUtils.Logger.Flush
import CommonUtils.Logger.Settled
import CommonUtils.Logger.LogFile
import CommonUtils.Logger.Prompt
import CommonUtils.Logger.Returns
import CommonUtils.Logger.ConsoleReturns
import CommonUtils.Logger.FormatMessage
import CommonUtils.Library.Quoted
import CommonUtils.DataBase.Tokenizer
import CommonUtils.DataBase.Scan
import CommonUtils.DataBase.Pieces
import CommonUtils.DataBase.Model
import CommonUtils.DataBase.Lists
import CommonUtils.DataBase.Query
import CommonUtils.DataBase.Items
import CommonUtils.DataBase.Encoding
import CommonUtils.DataBase.Requests
