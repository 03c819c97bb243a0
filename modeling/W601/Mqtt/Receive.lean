import W601.Mqtt.Packet

/-!
# What the MQTT client does with what comes in (`mqtt_client.c`)

The client reads a packet into its buffer, looks at it, answers it and shows it to the application, and goes on until the
packet comes that it waits for. It is built for version 3.1.1, blocking, with one thread that reads.

* `packetRead`, `decodePacket`: a packet comes in and is decoded.
* `readPayload`: the rest of a message that is longer than the buffer.
* `waitType`: the packets in front of the one that is waited for.
* `mattThread`: the receive thread, until it gives up.
-/

namespace W601.Mqtt.Recv

open CMem
open Net (badArg errorTimeout errorNetwork)

/-- `MQTT_CODE_ERROR_MALFORMED_DATA`, `MQTT_CODE_ERROR_PACKET_TYPE`, `MQTT_CODE_ERROR_STAT`. -/
def malformedData : ℤ := -3
def packetTypeError : ℤ := -4
def statError : ℤ := -10

/-! ## The socket -/

/-- What the socket meets next. -/
inductive Arrival where
  | byte (b : UInt8)
  /-- Nothing comes for as long as a read waits. -/
  | pause
  /-- `recv` fails, or the peer has closed; `soError` is what the socket reports of it. -/
  | broken (soError : ℤ)
  deriving DecidableEq

/-- `MqttSocket_Read` of `n` bytes, one `NetRead`: the bytes that have been stored, the answer if it is not `n`, and what
comes behind. Behind the end nothing comes. -/
def socketRead : ℕ → List Arrival → List UInt8 × Option ℤ × List Arrival
  | 0, s => ([], none, s)
  | _ + 1, [] => ([], some errorTimeout, [])
  | n + 1, .byte b :: s => let (bytes, rc, s) := socketRead n s; (b :: bytes, rc, s)
  | _ + 1, .pause :: s => ([], some errorTimeout, s)
  | _ + 1, .broken soError :: s => ([], some (if soError = 0 then 0 else errorNetwork), s)

/-- The `n` bytes from `i` on. -/
def peek (m : ℤ → UInt8) (i : ℤ) (n : ℕ) : List UInt8 := (List.range n).map fun k : ℕ => m (i + k)

/-- `rx_buf_len`. -/
def rxBufLen : ℕ := 1024

/-! ## The client -/

/-- `MqttPkStat`. -/
inductive PkStat where
  | begin
  | readHead
  | read
  deriving DecidableEq

/-- `MqttMsgStat`. -/
inductive MsgStat where
  | begin
  | wait
  | write
  | writePayload
  | read
  | readPayload
  deriving DecidableEq

/-- What the callback is shown: the topic, which is not there behind the first time, and the bytes at `buffer`. -/
structure Shown where
  topic : Option (List UInt8)
  bytes : List UInt8
  new : Bool
  done : Bool
  deriving DecidableEq

/-- `MqttMessage`, as far as a message that comes in uses it. -/
structure Message where
  stat : MsgStat
  packetId : ℕ
  qos : ℕ
  retain : Bool
  duplicate : Bool
  topicName : Option (List UInt8)
  /-- From the start of the receive buffer on. -/
  buffer : ℤ
  bufferLen : ℕ
  bufferPos : ℕ
  totalLen : ℕ
  bufferNew : Bool

/-- `MqttClient`, as far as it reads. -/
structure Client (ω : Type*) where
  /-- `packet`. -/
  pkStat : PkStat
  headerLen : ℕ
  remainLen : ℕ
  bufLen : ℕ
  /-- The memory from `rx_buf` on. -/
  rx : ℤ → UInt8
  /-- `msg`, a packet that is not waited for. -/
  msg : Message
  incoming : List Arrival
  /-- The application, and the side of the client that sends. -/
  world : ω

/-- A word of 32 bits. -/
def word32 (n : ℤ) : ℕ := (n % 2 ^ 32).toNat

/-- `MqttDecode_Vbi`, with the multiplier `128 ^ k`: the value and the number of bytes. -/
def decodeVbi : ℕ → List UInt8 → Option (ℕ × ℕ)
  | _, [] => none
  | k, b :: rest =>
    if 3 < k then none
    else if b.toNat &&& 0x80 ≠ 0 then (decodeVbi (k + 1) rest).map fun p => ((b.toNat &&& 0x7F) * 128 ^ k + p.1, p.2 + 1)
    else some ((b.toNat &&& 0x7F) * 128 ^ k, 1)

/-- `MqttDecode_Num`. -/
def decodeNum (m : ℤ → UInt8) (i : ℤ) : ℕ := (m i).toNat * 256 + (m (i + 1)).toNat

/-- The type of a packet, and its flags. -/
def packetType (m : ℤ → UInt8) : ℕ := (m 0).toNat / 16
def packetQos (m : ℤ → UInt8) : ℕ := (m 0).toNat / 2 % 4

/-- The lengths of `MqttDecode_FixedHeader`: of the header, and of the rest. -/
def decodeLens (m : ℤ → UInt8) : Option (ℕ × ℕ) := (decodeVbi 0 (peek m 1 5)).map fun p => (p.2 + 1, p.1)

/-! ## A packet comes in -/

variable {ω : Type*}

/-- A read into the buffer from `i` on. -/
def readAt (n : ℕ) (i : ℕ) (c : Client ω) : Option ℤ × Client ω :=
  let (bytes, rc, rest) := socketRead n c.incoming
  (rc, { c with rx := store c.rx i bytes, incoming := rest })

/-- `MQTT_PK_READ`. -/
def readRest (c : Client ω) : ℤ × Client ω :=
  let c := { c with pkStat := .read }
  if rxBufLen < c.headerLen then (outOfBuffer, c)
  else
    let remainRead := min c.remainLen (rxBufLen - c.headerLen)
    if c.remainLen = 0 then (c.headerLen, { c with pkStat := .begin })
    else if remainRead = 0 then (badArg, c)
    else
      match readAt remainRead c.headerLen c with
      | (some rc, c) => (rc, c)
      | (none, c) => (c.headerLen + remainRead, { c with pkStat := .begin })

/-- The loop of `MQTT_PK_READ_HEAD`, with `fuel` turns left. -/
def readLens : ℕ → ℤ → Client ω → Option ℤ × Client ω
  | 0, _, c => (some malformedData, c)
  | fuel + 1, i, c =>
    if (c.rx (1 + i)).toNat &&& 0x80 = 0 then (none, c)
    else
      match readAt 1 c.headerLen c with
      | (some rc, c) => (some (if rc < 0 then rc else errorNetwork), c)
      | (none, c) => readLens fuel (i + 1) { c with headerLen := c.headerLen + 1 }

/-- `MQTT_PK_READ_HEAD`. -/
def readHead (c : Client ω) : ℤ × Client ω :=
  match readLens 4 0 { c with pkStat := .readHead } with
  | (some rc, c) => (rc, c)
  | (none, c) =>
    match decodeVbi 0 (peek c.rx 1 5) with
    | none => (malformedData, c)
    | some (value, rc) => readRest { c with remainLen := value, headerLen := rc + 1 }

/-- `MqttPacket_Read`. -/
def packetRead (c : Client ω) : ℤ × Client ω :=
  match c.pkStat with
  | .begin =>
    match readAt 2 0 { c with headerLen := 2, remainLen := 0 } with
    | (some rc, c) => (if rc < 0 then rc else errorNetwork, c)
    | (none, c) => readHead c
  | .readHead => readHead c
  | .read => readRest c

/-- `MqttDecode_Publish`, behind the fixed header. -/
def decodePublish (m : ℤ → UInt8) (headerLen remainLen rxLen : ℕ) (msg : Message) : Message :=
  let strLen := decodeNum m headerLen
  let qos := packetQos m
  let variableLen := 2 + strLen + (if 0 < qos then 2 else 0)
  let payloadLen : ℤ := remainLen - variableLen
  -- only what the buffer holds
  let bufferLen : ℤ := min payloadLen (rxLen - (headerLen + variableLen))
  { msg with
    qos
    retain := decide ((m 0).toNat % 2 = 1)
    duplicate := decide ((m 0).toNat / 8 % 2 = 1)
    topicName := some (peek m (headerLen + 2) strLen)
    packetId := if 0 < qos then decodeNum m (headerLen + 2 + strLen) else msg.packetId
    buffer := headerLen + variableLen
    bufferNew := true
    bufferPos := 0
    bufferLen := word32 bufferLen
    totalLen := word32 payloadLen }

/-- The types of packets that are decoded: their answers, and where their id stands. -/
def hasId (type : ℕ) : Bool := type = 4 || type = 5 || type = 6 || type = 7 || type = 9 || type = 11

/-- `MqttClient_DecodePacket` without an object: the answer and the id. -/
def decodePacket (c : Client ω) : ℤ × ℕ :=
  if c.bufLen < 2 then (badArg, 0)
  else
    match decodeLens c.rx with
    | none => (if packetType c.rx = 3 ∨ packetType c.rx = 2 ∨ packetType c.rx = 13 ∨ hasId (packetType c.rx) then malformedData
        else packetTypeError, 0)
    | some (headerLen, remainLen) =>
      let type := packetType c.rx
      if type = 3 then
        (headerLen + remainLen,
          if 0 < packetQos c.rx then decodeNum c.rx (headerLen + 2 + decodeNum c.rx headerLen) else 0)
      else if hasId type then (headerLen + remainLen, decodeNum c.rx headerLen)
      else if type = 2 ∨ type = 13 then (headerLen + remainLen, 0)
      else (packetTypeError, 0)

section Code

variable (cb : Shown → ω → ω) (write : List UInt8 → ω → ℤ × ω)

/-! ## The payload -/

/-- The callback, as `mqtt_message_cb` it answers `MQTT_CODE_SUCCESS`. -/
def msgCb (msgDone : Bool) (c : Client ω) : Client ω :=
  let msg := c.msg
  { c with world := cb ⟨msg.topicName, peek c.rx msg.buffer msg.bufferLen, msg.bufferNew, msgDone⟩ c.world }

/-- `msg_done`. -/
def Message.done (msg : Message) : Bool := decide (msg.totalLen ≤ (msg.bufferPos + msg.bufferLen) % 2 ^ 32)

/-- A turn of the loop of `MqttClient_Publish_ReadPayload` behind the first callback: the answer where the loop ends. -/
def readPiece (c : Client ω) : Option ℤ × Client ω :=
  let msg := { c.msg with
    bufferPos := (c.msg.bufferPos + c.msg.bufferLen) % 2 ^ 32
    bufferLen := 0
    stat := .readPayload }
  let c := { c with msg }
  let msgLen := min (Int.bmod (msg.totalLen - msg.bufferPos) (2 ^ 32)) rxBufLen
  if msgLen ≤ 0 then (none, c)
  else
    match readAt msgLen.toNat 0 c with
    | (some rc, c) =>
      if rc < 0 then (some rc, c)
      else
        let c := { c with msg := { c.msg with buffer := 0 } }
        (if c.msg.done then some 0 else none, msgCb cb c.msg.done c)
    | (none, c) =>
      let c := { c with msg := { c.msg with buffer := 0, bufferLen := msgLen.toNat } }
      (if c.msg.done then some 0 else none, msgCb cb c.msg.done c)

/-- The turns behind the first callback; without an end when the fuel is used up. -/
def readPieces : ℕ → Client ω → Option (ℤ × Client ω)
  | 0, _ => none
  | fuel + 1, c =>
    match readPiece cb c with
    | (some rc, c) => some (rc, c)
    | (none, c) => readPieces fuel c

theorem readPieces_succ (fuel : ℕ) (c : Client ω) : readPieces cb (fuel + 1) c =
    match readPiece cb c with
    | (some rc, c) => some (rc, c)
    | (none, c) => readPieces cb fuel c := rfl

/-- `MqttClient_Publish_ReadPayload`. -/
def readPayload (c : Client ω) : Option (ℤ × Client ω) :=
  let done := c.msg.done
  let c :=
    if c.msg.bufferNew then
      let c := msgCb cb done c
      { c with msg := { c.msg with topicName := none, bufferNew := false } }
    else c
  if done then some (0, c) else readPieces cb (c.incoming.length + 1) c

/-! ## The answers -/

/-- `MqttEncode_PublishResp`. -/
def encodePublishResp (type packetId : ℕ) : Except ℤ (List UInt8) :=
  inBuffer type (if type = 6 then 1 else 0) 2 (Wire.num packetId)

/-- An answer is made and written. -/
def respond (type packetId : ℕ) (c : Client ω) : ℤ × Client ω :=
  match encodePublishResp type packetId with
  | .error rc => (rc, c)
  | .ok packet =>
    let (rc, world) := write packet c.world
    (rc, { c with bufLen := packet.length, world })

/-- `MqttClient_HandlePacket`. A message is always taken over into `msg`. -/
def handlePacket (type : ℕ) (c : Client ω) : Option (ℤ × Client ω) :=
  let (rc, packetId) := decodePacket c
  if type = 3 then
    let fresh := c.msg.stat = .begin ∨ c.msg.stat = .read
    if fresh ∧ rc ≤ 0 then some (rc, c)
    else
      let qos := if fresh then packetQos c.rx else 0
      let c :=
        match decodeLens c.rx with
        | some (headerLen, remainLen) =>
          if fresh then { c with msg := decodePublish c.rx headerLen remainLen c.bufLen c.msg } else c
        | none => c
      (readPayload cb c).map fun (rc, c) =>
        if rc < 0 ∨ qos = 0 then (rc, c) else respond write (if qos = 1 then 4 else 5) packetId c
  else if type = 4 ∨ type = 5 ∨ type = 6 ∨ type = 7 then
    if rc ≤ 0 then some (rc, c)
    else
      let type := packetType c.rx
      if type ≠ 5 ∧ type ≠ 6 then some (rc, c) else some (respond write (type + 1) packetId c)
  else if type = 2 ∨ type = 9 ∨ type = 11 ∨ type = 13 then some (rc, c)
  else some (packetTypeError, c)

/-! ## Waiting -/

/-- What is waited for: a type, or 16 for any, and an id, or 0 for any. `ofMsg` says that it is waited for with `msg`, and not
with an object of its own. -/
structure Wait where
  type : ℕ
  id : ℕ
  ofMsg : Bool

/-- `*mms_stat`; `own` is that of the own object. -/
def Wait.stat (w : Wait) (own : MsgStat) (c : Client ω) : MsgStat := if w.ofMsg then c.msg.stat else own

def Wait.setStat (w : Wait) (stat : MsgStat) (c : Client ω) : Client ω :=
  if w.ofMsg then { c with msg := { c.msg with stat } } else c

/-- `MQTT_MSG_READ` and `MQTT_MSG_READ_PAYLOAD` of `MqttClient_WaitType`: the answer, and whether it is what is waited for. -/
def dispatch (w : Wait) (type id : ℕ) (c : Client ω) : Option (ℤ × Bool × Client ω) :=
  let found := (w.type = 16 ∨ w.type = type) ∧ (w.id = 0 ∨ w.id = id)
  (handlePacket cb write type c).map fun (rc, c) => (if 0 ≤ rc then 0 else rc, found, c)

/-- One turn of `MqttClient_WaitType`, up to `reset state`. -/
def waitTurn (w : Wait) (own : MsgStat) (c : Client ω) : Option (ℤ × Bool × Client ω) :=
  let receive (c : Client ω) : Option (ℤ × Bool × Client ω) :=
    match packetRead (w.setStat .wait c) with
    | (rc, c) =>
      if rc ≤ 0 then some (rc, false, c)
      else
        let c := { c with bufLen := rc.toNat }
        let (rc, id) := decodePacket c
        if rc < 0 then some (rc, false, c)
        else dispatch cb write w (packetType c.rx) id (w.setStat .read c)
  match w.stat own c with
  | .begin => receive { c with pkStat := .begin }
  | .wait => receive c
  | .read => dispatch cb write w 0 0 c
  | .readPayload => dispatch cb write w 3 0 c
  | .write => some (statError, false, c)
  | .writePayload => some (statError, false, c)

/-- `MqttClient_WaitType`; without an end when the fuel is used up. -/
def waitLoop (w : Wait) : ℕ → MsgStat → Client ω → Option (ℤ × Client ω)
  | 0, _, _ => none
  | fuel + 1, own, c => do
    let (rc, found, c) ← waitTurn cb write w own c
    let c := w.setStat .begin c
    -- the next turn begins anew
    if rc < 0 ∨ found then return (rc, c) else waitLoop w fuel .begin c

def waitType (w : Wait) (own : MsgStat) (c : Client ω) : Option (ℤ × Client ω) :=
  waitLoop cb write w (c.incoming.length + 2) own c

/-- `MqttClient_WaitMessage`. -/
def waitMessage (c : Client ω) : Option (ℤ × Client ω) := waitType cb write ⟨16, 0, true⟩ .begin c

/-- `MqttEncode_Ping`. -/
def encodePing : List UInt8 := fixedHeader 12 0 0

/-- `MqttClient_Ping`. -/
def ping (c : Client ω) : Option (ℤ × Client ω) :=
  let (rc, world) := write encodePing c.world
  let c := { c with world }
  if rc ≠ encodePing.length then some (rc, c) else waitType cb write ⟨13, 0, false⟩ .wait c

/-- The loop of `matt_thread`, with `fuel` turns: the answer that ends it. -/
def mattLoop : ℕ → Client ω → Option (ℤ × Client ω)
  | 0, _ => none
  | fuel + 1, c => do
    let (rc, c) ← waitMessage cb write c
    if rc = errorTimeout then
      let (rc, c) ← ping cb write c
      if rc ≠ 0 then return (rc, c) else mattLoop fuel c
    else if rc ≠ 0 then return (rc, c) else mattLoop fuel c

end Code

end W601.Mqtt.Recv
