import EspAudio.Reactive.Machine
import EspAudio.Reactive.History
import EspAudio.Reactive.PeerLink
import EspAudio.Reactive.Unrolling
import EspAudio.Reactive.AtomicObject
import EspAudio.FreeRtos.SoftTimer
import EspAudio.FreeRtos.TimerDaemon
import EspAudio.FreeRtos.EventGroup
import EspAudio.CLanguage.Memory
import EspAudio.CLanguage.Block
import EspAudio.Wire.Tlv
import EspAudio.Lease.FirstFree
import EspAudio.Lease.Book
import EspAudio.Stdio.Files
import EspAudio.Adf.Element
import EspAudio.KeyControl.StateMachine
import EspAudio.Service.Types
import EspAudio.Service.Sink
import EspAudio.Service.KeyInputs
import EspAudio.Service.Source
import EspAudio.Service.Api
import EspAudio.KeyProtocol.Trace
import EspAudio.KeyProtocol.Network
import EspAudio.KeyProtocol.Timer
import EspAudio.KeyProtocol.Daemon
import EspAudio.SinkLink.System
import EspAudio.SinkLink.Peer
import EspAudio.SinkLink.Notices
import EspAudio.SinkLink.KeyRequests
import EspAudio.SourceLink.System
import EspAudio.SourceLink.Integrity
import EspAudio.SourceLink.Progress
import EspAudio.SourceLink.Requests
import EspAudio.SourceLink.Inquiry
import EspAudio.SourceLink.Callbacks
import EspAudio.Lifecycle.Startup
import EspAudio.Lifecycle.Ownership
import EspAudio.Fatfs.Stream
import EspAudio.Fatfs.RecordingType
import EspAudio.Fatfs.Writer
import EspAudio.Fatfs.Reader
import EspAudio.Fatfs.Handles
import EspAudio.I2s.Clock
import EspAudio.I2s.SampleData
import EspAudio.I2s.MonoFix
import EspAudio.I2s.DacScale
import EspAudio.Peripherals.Sdcard
import EspAudio.SoftAp.Monitor
import EspAudio.Dhcps.Address
import EspAudio.Dhcps.Options
import EspAudio.Dhcps.Pool
import EspAudio.Dhcps.Table
import EspAudio.Dhcps.Server
import EspAudio.Dhcps.Assignment
import EspAudio.Dhcps.Reply
import EspAudio.Dhcps.Handler
import EspAudio.Dhcps.Answers
import EspAudio.Dhcps.Overrun
import EspAudio.TcpipAdapter.Adapter
import EspAudio.TcpipAdapter.Consistency
import EspAudio.TcpipAdapter.Leases
import EspAudio.TcpipAdapter.Promises
import EspAudio.TcpipAdapter.Occupancy
import EspAudio.TcpipAdapter.Softap
import EspAudio.TcpipAdapter.Ipc
import EspAudio.TcpipAdapter.IpcProgress
import EspAudio.TcpipAdapter.Interleaving
import EspAudio.I2s.Writer
import EspAudio.Playback.Exact
