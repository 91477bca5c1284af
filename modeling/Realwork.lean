import Realwork.Lib.Machine
import Realwork.Lib.KeyMap
import Realwork.Lib.Proc
import Realwork.Receive.Coder
import Realwork.Receive.Message
import Realwork.Receive.Frames
import Realwork.Receive.Current
import Realwork.Receive.Groups
import Realwork.Receive.Queue
import Realwork.Receive.Signals
import Realwork.Receive.BodyLength
import Realwork.Receive.Repair
import Realwork.Receive.Sjis
import Realwork.Receive.SubUnit
import Realwork.Receive.Elements
import Realwork.Monitor.Rotation
import Realwork.Monitor.EndLine
import Realwork.Monitor.Commands
import Realwork.Receive.Rejected
import Realwork.Receive.TimeOut
import Realwork.Reflect.ControlTime
import Realwork.Reflect.Reflecting
import Realwork.Reflect.ResultDir
import Realwork.Circuit.RptCache
import Realwork.Snmp.Collect
import Realwork.Receive.Decode
import Realwork.Receive.Reply
import Realwork.Common.Start
import Realwork.Common.ConfValue
import Realwork.Monitor.Coalesce
import Realwork.Monitor.ProcessWatcher
import Realwork.Reflect.Update
import Realwork.Circuit.StsConnections
import Realwork.Circuit.BottomOdu
import Realwork.Circuit.Timeslot
import Realwork.Circuit.Links
import Realwork.Snmp.CollectMib
import Realwork.Monitor.LastLine
import Realwork.Snmp.OpenLog
import Realwork.Monitor.Notices
import Realwork.Receive.Purge
import Realwork.Reflect.Archive
import Realwork.Circuit.CircuitCache
import Realwork.Receive.Settling
import Realwork.Reflect.Summarize
import Realwork.Reflect.SummarizeResult
import Realwork.Snmp.ThreadOutput
import Realwork.Reflect.Received
import Realwork.Circuit.ProtectionSwitch
import Realwork.Circuit.Protection
import Realwork.Lib.Refine
import Realwork.Receive.Answers
