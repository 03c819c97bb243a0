import W601.Lib.Base64
import W601.Lib.CMem
import W601.Lib.CNum
import W601.Lib.Cells
import W601.Lib.CompPath
import W601.Lib.Crc
import W601.Lib.CrcPoly
import W601.Lib.Dialogue
import W601.Lib.DotStuff
import W601.Lib.Heap
import W601.Lib.Printf
import W601.Lib.Rollover
import W601.Lib.Runs
import W601.Lib.Scan
import W601.Lib.Scanf
import W601.Lib.Wire
import W601.Web.Normalize
import W601.Web.Paths
import W601.Web.Dfs
import W601.Web.DirUpload
import W601.Web.DirStored
import W601.Web.DirEffect
import W601.Web.DirInterleave
import W601.Web.FirmUpload
import W601.Web.NormTrace
import W601.Web.CreateFile
import W601.Web.Acks
import W601.Web.UploadSession
import W601.Mqtt.Dispatch
import W601.Mqtt.Lifecycle
import W601.Smtp.Config
import W601.Smtp.Client
import W601.Smtp.Recite
import W601.Smtp.Transaction
import W601.Smtp.Closing
import W601.Smtp.Segments
import W601.Smtp.Reconfig
import W601.Smtp.Ready
import W601.Sensors.Aht10
import W601.Board.Led
import W601.Json.CJson
import W601.Web.Settings
import W601.Web.SmtpData
import W601.App.Startup
import W601.Ulog.Tcp
import W601.Ulog.Servers
import W601.Ulog.Backoff
import W601.Ulog.Shutdown
import W601.Wifi.Config
import W601.Wifi.Torn
import W601.Tools.MakeFal
import W601.Tools.MakeImgFls
import W601.Smtp.Base64
import W601.App.Cooldown
import W601.App.Receiver
import W601.Smtp.Session
import W601.Smtp.Receivers
import W601.Smtp.Setters
import W601.Smtp.Fitting
import W601.Smtp.Transparency
import W601.Smtp.Attachments
import W601.Json.Extend
import W601.Mqtt.Property
import W601.Mqtt.Leftover
import W601.Wol.Wol
import W601.Wifi.Status
import W601.Record.Recorder
import W601.Record.Days
import W601.Record.Append
import W601.Mqtt.NetRead
import W601.Mqtt.NetPort
import W601.Mqtt.Packet
import W601.Mqtt.Topics
import W601.Mqtt.PacketId
import W601.Json.Bounded
import W601.Json.BlockText
import W601.Mqtt.CfgParse
import W601.Mqtt.Broker
import W601.Lib.Words
import W601.Lib.TwoSlots
import W601.Lib.Recent
import W601.Easyflash.Env
import W601.Easyflash.Table
import W601.Easyflash.Flash
import W601.Easyflash.Store
import W601.Easyflash.PowerFail
import W601.Wifi.Cfg
import W601.Wifi.Persist
import W601.Mqtt.Receive
import W601.Mqtt.Framing
import W601.Mqtt.Serve
import W601.Mqtt.Rounds
import W601.Mqtt.Publish
import W601.Web.Query
