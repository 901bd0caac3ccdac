import Aliot.LzfFraming
import Aliot.ReadFraming
import Aliot.SignedContent
import Aliot.QosTwo
import Aliot.AckVerdict
import Aliot.SendPacket
import Aliot.Malformed
import Aliot.AtMostOnce
import Aliot.OwnReply
import Aliot.Gating
import Aliot.PacketRetry
import Aliot.Registration
import Aliot.CopyBounds
import Aliot.TopicFilter
import Aliot.SubscribeResult
import Aliot.Signing
import Aliot.CompressedSize
import Aliot.PublishedBytes
import Aliot.Builders
import Aliot.InstructionMembers
import Aliot.Reconnect
import Aliot.LinkItPort
import Aliot.BrokenAck
import Aliot.LinuxRead
import Aliot.CreateThing
import Aliot.CycleReply
import Aliot.PaddedLength
import Aliot.LinkItConnection
import Aliot.LinkItCapacity
import Aliot.BulkPacket
import Aliot.TokenWalk
import Aliot.MbedTimer
import Aliot.EventReceived
import Aliot.ArduinoSha
import Aliot.NonblockingRead
import Aliot.ServerConnect
import Aliot.SentFrames
import Aliot.HttpGateway
import Aliot.JsmnSteps
import Aliot.TokenForest
import Aliot.PostRequest
import Aliot.MarvelHttp
import Aliot.LibraryRead
import Aliot.InstructionReceived
