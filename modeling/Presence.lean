import Presence.Attendance.Assignments
import Presence.Attendance.DayConsumer
import Presence.Attendance.Hours
import Presence.Attendance.Lateness
import Presence.Attendance.OnceCounted
import Presence.Attendance.RecomputeCommand
import Presence.Attendance.SpanConsumer
import Presence.Auth.ClockSkew
import Presence.Auth.Middleware
import Presence.Data.Reading
import Presence.Delivery.Accounting
import Presence.Delivery.Endpoint
import Presence.Delivery.Reconstruction
import Presence.Delivery.Signing
import Presence.EndToEnd
import Presence.Firmware.AckText
import Presence.Firmware.Base64
import Presence.Firmware.BenchSecret
import Presence.Firmware.Canonical
import Presence.Firmware.ClockCut
import Presence.Firmware.Credentials
import Presence.Firmware.GarbageClock
import Presence.Firmware.HoldTrigger
import Presence.Firmware.Labelling
import Presence.Firmware.NetLoop
import Presence.Firmware.OverwrittenIdentity
import Presence.Firmware.PortalCommit
import Presence.Firmware.PortalSecrets
import Presence.Firmware.RecordBurst
import Presence.Firmware.RingCapacity
import Presence.Firmware.RingQueue
import Presence.Firmware.ScanTask
import Presence.Firmware.Scanner
import Presence.Firmware.Sequence
import Presence.Firmware.ServeOne
import Presence.Firmware.StorageFaults
import Presence.Firmware.TwoTasks
import Presence.Firmware.WireRoundTrip
import Presence.Gateway.Alternation
import Presence.Gateway.Api
import Presence.Gateway.KeyRotation
import Presence.Gateway.OpenImage
import Presence.Gateway.Roster
import Presence.Ota.HeaderComments
import Presence.Ota.HeaderKey
import Presence.Ota.ImageVersion
import Presence.Ota.Manifest
import Presence.Ota.RefusedPending
import Presence.Ota.RolledBack
import Presence.Ota.Safety
import Presence.Ota.SerialProgress
import Presence.Ota.Streaming
