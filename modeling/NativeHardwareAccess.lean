import NativeHardwareAccess.Schemes.LittleEndian
import NativeHardwareAccess.Schemes.Memory
import NativeHardwareAccess.Schemes.Tlv
import NativeHardwareAccess.Schemes.MD5
import NativeHardwareAccess.Schemes.FixedPoint
import NativeHardwareAccess.Schemes.Machine
import NativeHardwareAccess.Schemes.Framing
import NativeHardwareAccess.Schemes.Words
import NativeHardwareAccess.Server.MessageBuilder
import NativeHardwareAccess.Server.Protocol
import NativeHardwareAccess.Server.ParseLoop
import NativeHardwareAccess.Server.Emission
import NativeHardwareAccess.Server.CreateResponse
import NativeHardwareAccess.Server.Acceptance
import NativeHardwareAccess.Server.ResponseLayout
import NativeHardwareAccess.Server.ResponseSize
import NativeHardwareAccess.Server.MonotonicTimer
import NativeHardwareAccess.Server.TPMWatcher
import NativeHardwareAccess.Server.DeviceIDSnapshot
import NativeHardwareAccess.Server.DeviceIDCache
import NativeHardwareAccess.Server.Reply
import NativeHardwareAccess.Server.Transparency
import NativeHardwareAccess.Server.Responder
import NativeHardwareAccess.Server.Connection
import NativeHardwareAccess.Server.QueryStream
import NativeHardwareAccess.Server.Threads
import NativeHardwareAccess.Server.TimeSource
import NativeHardwareAccess.Server.Isolation
import NativeHardwareAccess.Server.Descriptors
import NativeHardwareAccess.Server.CallByCall
import NativeHardwareAccess.Server.Session
import NativeHardwareAccess.Server.SessionRuns
import NativeHardwareAccess.Server.Exchange
import NativeHardwareAccess.Server.Service
import NativeHardwareAccess.Server.Timeline
import NativeHardwareAccess.Server.RoundProgress
import NativeHardwareAccess.Server.RoundRobin
import NativeHardwareAccess.Server.Timer
import NativeHardwareAccess.Server.TimerProgress
import NativeHardwareAccess.Server.Destruction
import NativeHardwareAccess.Client.Nhac
import NativeHardwareAccess.Client.Codec
import NativeHardwareAccess.Client.Agreement
import NativeHardwareAccess.Client.RoundTrip
import NativeHardwareAccess.Client.Receive
import NativeHardwareAccess.Client.Description
import NativeHardwareAccess.Client.Tokens
import NativeHardwareAccess.Client.Language
import NativeHardwareAccess.Client.Aliases
import NativeHardwareAccess.Client.Rendering
import NativeHardwareAccess.Client.Lexical
import NativeHardwareAccess.Client.Grammar
import NativeHardwareAccess.Client.SerializeBounds
import NativeHardwareAccess.Client.Process
import NativeHardwareAccess.Client.Exchange
import NativeHardwareAccess.Network.Dialogue
import NativeHardwareAccess.Server.Configuration
import NativeHardwareAccess.Server.Settings
import NativeHardwareAccess.Client.Output
import NativeHardwareAccess.Client.ReadBack
import NativeHardwareAccess.Network.Harness
