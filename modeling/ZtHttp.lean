import ZtHttp.Foundation.Transition
import ZtHttp.Foundation.Method
import ZtHttp.Foundation.Fifo
import ZtHttp.Foundation.Erase
import ZtHttp.IOBuffer.Queue
import ZtHttp.IOBuffer.Append
import ZtHttp.Http.Response
import ZtHttp.Http.Dispatch
import ZtHttp.Http.Line
import ZtHttp.Http.File
import ZtHttp.Http.Root
import ZtHttp.Http.Headers
import ZtHttp.Http.Resource
import ZtHttp.Http.Stack
import ZtHttp.Tcp.Wire
import ZtHttp.Tcp.Segmentation
import ZtHttp.Tcp.Response
import ZtHttp.Tcp.HalfClose
import ZtHttp.Tcp.Status
import ZtHttp.Tcp.Callbacks
import ZtHttp.Event.Close
import ZtHttp.Event.Descriptor
import ZtHttp.Event.Question
import ZtHttp.Event.Agreement
import ZtHttp.Event.Registration
import ZtHttp.Event.Removal
import ZtHttp.Event.Round
import ZtHttp.Server.Handoff
import ZtHttp.Server.HomeReactor
import ZtHttp.Server.Dispatch
import ZtHttp.Server.Queue
import ZtHttp.Server.Leftover
import ZtHttp.Server.Shutdown
import ZtHttp.Server.Descriptors
import ZtHttp.Server.Refusal
import ZtHttp.Pool.Workers
import ZtHttp.Pool.Gate
import ZtHttp.Pool.Ending
import ZtHttp.Pool.Threads
import ZtHttp.Reactor.Basic
import ZtHttp.Reactor.Rounds
import ZtHttp.Foundation.Program
import ZtHttp.Foundation.Schedule
import ZtHttp.SimHttp.Exchange
import ZtHttp.SimHttp.ContentLength
import ZtHttp.SimHttp.Pages
import ZtHttp.SimHttp.RequestLine
import ZtHttp.SimHttp.Replies
import ZtHttp.SimHttp.Requests
import ZtHttp.SimHttp.RoundTrip
import ZtHttp.SimHttp.Main
import ZtHttp.Event.Transcript
import ZtHttp.Server.Transcript
import ZtHttp.Server.Listening
import ZtHttp.Pool.Order
import ZtHttp.Pool.Finishing
import ZtHttp.Server.Delivery
