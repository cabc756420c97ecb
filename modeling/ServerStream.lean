import ServerStream.Application.Broadcasting
import ServerStream.Application.Clearing
import ServerStream.Application.Commands
import ServerStream.Application.Lifecycle
import ServerStream.Application.Main
import ServerStream.Application.Shutdown
import ServerStream.Application.Startup
import ServerStream.Application.State
import ServerStream.Application.StatusFile
import ServerStream.Application.Teardown
import ServerStream.Av.Libav
import ServerStream.Exceptions.Exception
import ServerStream.Imperative.Triple
import ServerStream.Json.Value
import ServerStream.Numeric.Rounding
import ServerStream.Ownership.Slots
import ServerStream.Runtime.Decoding
import ServerStream.Runtime.MessageQueue
import ServerStream.Transition.System
import ServerStream.Ws.CloseOnce
import ServerStream.Ws.Closing
import ServerStream.Ws.Emission
import ServerStream.Ws.Exclusion
import ServerStream.Ws.Lifetime
import ServerStream.Ws.Server
import ServerStream.Ws.Session
import ServerStream.Ws.Setup
import ServerStream.Av.Muxer
import ServerStream.Av.EncoderConfig
import ServerStream.Av.Timestamps
import ServerStream.Av.Draining
import ServerStream.Av.GraphLifetime
import ServerStream.Concurrency.Ranks
import ServerStream.Application.Threads
import ServerStream.Application.Waits
import ServerStream.Application.Exit
import ServerStream.Application.Stream
import ServerStream.Av.PixelFormats
import ServerStream.Av.FilterGraph
import ServerStream.Av.TranscoderInit
import ServerStream.Av.TranscoderConfig
import ServerStream.Av.Decimation
import ServerStream.Av.DecoderLoop
import ServerStream.Av.EncoderQueue
import ServerStream.Application.Messages
import ServerStream.Ws.LifeCycle
import ServerStream.Exceptions.Chain
import ServerStream.Av.DecoderQueue
import ServerStream.Av.CodecCalls
import ServerStream.Av.FrameRelease
import ServerStream.Av.OutputRelease
import ServerStream.Av.CaptureDevice
import ServerStream.Runtime.QueueTable
import ServerStream.Runtime.Thread
import ServerStream.Av.Pipeline
import ServerStream.Av.PacketRelease
import ServerStream.Av.Production
import ServerStream.Av.StopReturns
import ServerStream.Runtime.CommandChannel
import ServerStream.Runtime.Signal
import ServerStream.Numeric.Monotone
import ServerStream.Application.Termination
import ServerStream.Av.WriteOrder
import ServerStream.Ws.StopReturns
import ServerStream.Application.PassingOn
import ServerStream.Av.FilterArgs
import ServerStream.Application.StopWsReturns
import ServerStream.Application.Feed
