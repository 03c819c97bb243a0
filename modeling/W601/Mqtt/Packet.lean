import W601.Lib.CMem
import W601.Lib.Wire
import W601.Mqtt.NetRead

/-!
# The packets of the MQTT client

The encoders of `mqtt_packet.c` for the packets that a session opens with and its subscriptions are made and cancelled
with, for version 3.1.1 and without a last will.

* `connectFields`, `subscribeFields`: what a broker reads in a packet.
* `connectFields_connect`, `subscribeFields_subscribe`: it reads what was to be sent.
-/

namespace W601.Mqtt

open CMem (text)
open Net (badArg)
open Wire

/-- `MQTT_CODE_ERROR_OUT_OF_BUFFER`. -/
def outOfBuffer : ℤ := -2

/-- `MAX_BUFFER_SIZE`, the length of the transmit buffer. -/
def txBufLen : ℕ := 1024

/-- `MqttEncode_FixedHeader`, for packets that are neither retained nor repeated; a length is a 32 bit word. -/
def fixedHeader (type qos remainLen : ℕ) : List UInt8 := UInt8.ofNat (type * 16 + qos * 2) :: vbi 4 remainLen

/-- The end of an encoder: a packet that fits the buffer. -/
def inBuffer (type qos remainLen : ℕ) (body : List UInt8) : Except ℤ (List UInt8) :=
  if txBufLen < (fixedHeader type qos remainLen).length + remainLen then .error outOfBuffer
  else .ok (fixedHeader type qos remainLen ++ body)

/-- The fields of `MqttConnect` that are sent; `none` is the null pointer. -/
structure MqttConnect where
  keepAliveSec : UInt16
  cleanSession : Bool
  clientId : Option (List UInt8)
  username : Option (List UInt8)
  password : Option (List UInt8)

/-- The bytes of a string that is counted when it is there. -/
def optLen (s : Option (List UInt8)) : ℕ := s.elim 0 (·.length + 2)

/-- `MqttEncode_Connect`. -/
def encodeConnect (c : MqttConnect) : Except ℤ (List UInt8) :=
  match c.clientId with
  | none => .error badArg
  | some clientId =>
    let remainLen := 10 + (clientId.length + 2) + optLen c.username + optLen c.password
    let flags : ℕ := (if c.cleanSession then 2 else 0) + (if c.username.isSome then 0x80 else 0) +
      (if c.password.isSome then 0x40 else 0)
    let header := num 4 ++ text "MQTT" ++ [4, UInt8.ofNat flags] ++ num c.keepAliveSec.toNat
    -- the empty string that stands for a missing name is not counted
    let payload := string clientId ++ c.username.elim (num 0) string ++ c.password.elim [] string
    inBuffer 1 0 remainLen ((header ++ payload).take remainLen)

/-- The filter of a topic and its quality of service; `none` is a null pointer to the topic or to its filter. -/
abbrev TopicArg := Option (List UInt8) × ℕ

/-- `MqttEncode_Subscribe`. -/
def encodeSubscribe (packetId : UInt16) (topics : List TopicArg) : Except ℤ (List UInt8) :=
  if topics.any (·.1.isNone) then .error badArg
  else
    inBuffer 8 1 (2 + (topics.map fun t => (t.1.getD []).length + 3).sum)
      (num packetId.toNat ++ topics.flatMap fun t => string (t.1.getD []) ++ [UInt8.ofNat t.2])

/-- `MqttEncode_Unsubscribe`. -/
def encodeUnsubscribe (packetId : UInt16) (topics : List TopicArg) : Except ℤ (List UInt8) :=
  if topics.any (·.1.isNone) then .error badArg
  else
    inBuffer 10 1 (2 + (topics.map fun t => (t.1.getD []).length + 2).sum)
      (num packetId.toNat ++ topics.flatMap fun t => string (t.1.getD []))

/-! ## What a broker reads -/

/-- The body of a packet that begins with `first`. -/
def readPacket (first : UInt8) : List UInt8 → Option (List UInt8)
  | [] => none
  | b :: t => if b = first then (readVbi t).bind fun p => if p.1 = p.2.length then some p.2 else none else none

/-- Client id, user name and password of a CONNECT packet that has all of them. -/
def connectFields (packet : List UInt8) : Option (List UInt8 × List UInt8 × List UInt8) := do
  let body ← readPacket 0x10 packet
  let (clientId, t) ← readString (body.drop 10)
  let (username, t) ← readString t
  let (password, t) ← readString t
  if body.take 8 = num 4 ++ text "MQTT" ++ [4, 0xC2] ∧ t = [] then some (clientId, username, password) else none

/-- Packet id, filter and quality of service of a SUBSCRIBE packet for one topic. -/
def subscribeFields (packet : List UInt8) : Option (ℕ × List UInt8 × List UInt8) := do
  let body ← readPacket 0x82 packet
  let (packetId, t) ← readNum body
  let (topic, qos) ← readString t
  if qos.length = 1 then some (packetId, topic, qos) else none

theorem readPacket_header {type qos : ℕ} {body : List UInt8} (h : body.length < 128 ^ 5) :
    readPacket (UInt8.ofNat (type * 16 + qos * 2)) (fixedHeader type qos body.length ++ body) = some body := by
  rw [fixedHeader, List.cons_append, readPacket, if_pos rfl, readVbi_vbi 4 h, Option.bind_some, if_pos rfl]

/-- The body of a CONNECT packet with the three strings. -/
def connectBody (keepAlive : UInt16) (clientId username password : List UInt8) : List UInt8 :=
  num 4 ++ text "MQTT" ++ [4, 0xC2] ++ num keepAlive.toNat ++ (string clientId ++ (string username ++ string password))

/-- The length of the packet. -/
def connectSize (clientId username password : List UInt8) : ℕ :=
  let remainLen := 16 + clientId.length + username.length + password.length
  (fixedHeader 1 0 remainLen).length + remainLen

section Connect

variable (keepAlive : UInt16) (clientId username password : List UInt8)

theorem length_connectBody : (connectBody keepAlive clientId username password).length =
    16 + clientId.length + username.length + password.length := by
  simp only [connectBody, List.length_append, length_num, length_string, List.length_cons, List.length_nil]
  have htext : (text "MQTT").length = 4 := rfl
  omega

theorem encodeConnect_eq :
    encodeConnect ⟨keepAlive, true, some clientId, some username, some password⟩ =
      inBuffer 1 0 (connectBody keepAlive clientId username password).length
        (connectBody keepAlive clientId username password) := by
  have hlen := length_connectBody keepAlive clientId username password
  have hremain : 10 + (clientId.length + 2) + optLen (some username) + optLen (some password) =
      (connectBody keepAlive clientId username password).length := by
    simp only [hlen, optLen, Option.elim]
    omega
  have hbody : num 4 ++ text "MQTT" ++ [4, UInt8.ofNat (2 + 0x80 + 0x40)] ++ num keepAlive.toNat ++
      (string clientId ++ string username ++ string password) = connectBody keepAlive clientId username password := by
    rw [connectBody, List.append_assoc (string clientId)]
    rfl
  simp only [encodeConnect, hremain, Option.isSome_some, if_true, Option.elim, hbody, List.take_length]

/-- A broker reads a packet with its whole body. -/
theorem readPacket_inBuffer {type qos : ℕ} {body packet : List UInt8} (h : inBuffer type qos body.length body = .ok packet) :
    body.length ≤ txBufLen ∧ readPacket (UInt8.ofNat (type * 16 + qos * 2)) packet = some body := by
  rw [inBuffer] at h
  split_ifs at h with hlen
  · obtain rfl := Except.ok.inj h
    have hfit : body.length ≤ txBufLen := by omega
    exact ⟨hfit, readPacket_header (hfit.trans_lt (by decide))⟩

/-- **A CONNECT packet carries the three strings.** -/
theorem connectFields_connect {packet : List UInt8}
    (h : encodeConnect ⟨keepAlive, true, some clientId, some username, some password⟩ = .ok packet) :
    connectFields packet = some (clientId, username, password) := by
  rw [encodeConnect_eq] at h
  obtain ⟨hlen, hbody⟩ := readPacket_inBuffer h
  rw [length_connectBody, txBufLen] at hlen
  have hdrop : (connectBody keepAlive clientId username password).drop 10 =
      string clientId ++ (string username ++ string password) := rfl
  have htake : (connectBody keepAlive clientId username password).take 8 = num 4 ++ text "MQTT" ++ [4, 0xC2] := rfl
  have hpass : readString (string password) = some (password, []) := by
    have h := readString_string (s := password) (by omega) []
    rwa [List.append_nil] at h
  rw [connectFields]
  simp only [show (UInt8.ofNat (1 * 16 + 0 * 2)) = 0x10 from rfl] at hbody
  simp only [hbody, Option.bind_eq_bind, Option.bind_some, hdrop, htake]
  rw [readString_string (by omega), Option.bind_some]
  simp only
  rw [readString_string (by omega), Option.bind_some]
  simp only [hpass, Option.bind_some, and_self, if_true]

/-- A CONNECT packet is made when it fits the buffer. -/
theorem encodeConnect_ok_iff :
    (∃ packet, encodeConnect ⟨keepAlive, true, some clientId, some username, some password⟩ = .ok packet) ↔
      connectSize clientId username password ≤ txBufLen := by
  rw [encodeConnect_eq, inBuffer, length_connectBody, connectSize]
  split_ifs with hlen
  · exact iff_of_false (by simp) (by omega)
  · exact iff_of_true ⟨_, rfl⟩ (by omega)

end Connect

section Subscribe

variable (packetId : UInt16) (topic : List UInt8) (qos : ℕ)

theorem encodeSubscribe_eq :
    encodeSubscribe packetId [(some topic, qos)] =
      inBuffer 8 1 (num packetId.toNat ++ (string topic ++ [UInt8.ofNat qos])).length
        (num packetId.toNat ++ (string topic ++ [UInt8.ofNat qos])) := by
  have hlen : 2 + (topic.length + 3) = (num packetId.toNat ++ (string topic ++ [UInt8.ofNat qos])).length := by
    simp only [List.length_append, length_num, length_string, List.length_singleton]
  rw [← hlen]
  simp [encodeSubscribe]

/-- **A SUBSCRIBE packet for one topic carries its filter.** -/
theorem subscribeFields_subscribe {packet : List UInt8} (h : encodeSubscribe packetId [(some topic, qos)] = .ok packet) :
    subscribeFields packet = some (packetId.toNat, topic, [UInt8.ofNat qos]) := by
  rw [encodeSubscribe_eq] at h
  obtain ⟨hlen, hbody⟩ := readPacket_inBuffer h
  simp only [List.length_append, length_num, length_string, List.length_singleton, txBufLen] at hlen
  simp only [show (UInt8.ofNat (8 * 16 + 1 * 2)) = 0x82 from rfl] at hbody
  simp only [subscribeFields, hbody, Option.bind_eq_bind, Option.bind_some, readNum_num packetId.toNat_lt]
  rw [readString_string (by omega), Option.bind_some]
  rfl

/-- The length of the packet. -/
def subscribeSize : ℕ := (fixedHeader 8 1 (topic.length + 5)).length + (topic.length + 5)

theorem encodeSubscribe_cases :
    (subscribeSize topic ≤ txBufLen ∧ ∃ packet, encodeSubscribe packetId [(some topic, qos)] = .ok packet) ∨
      (txBufLen < subscribeSize topic ∧ encodeSubscribe packetId [(some topic, qos)] = .error outOfBuffer) := by
  have hlen : (num packetId.toNat ++ (string topic ++ [UInt8.ofNat qos])).length = topic.length + 5 := by
    simp only [List.length_append, length_num, length_string, List.length_singleton]
    omega
  rw [encodeSubscribe_eq, inBuffer, hlen, subscribeSize]
  split_ifs with hfit
  · exact Or.inr ⟨hfit, rfl⟩
  · exact Or.inl ⟨by omega, _, rfl⟩

/-- A topic that fits its buffer fits a packet. -/
theorem subscribeSize_le {topic : List UInt8} (h : topic.length ≤ 1000) : subscribeSize topic ≤ txBufLen := by
  have hvbi := length_vbi_le 4 (topic.length + 5)
  rw [subscribeSize, fixedHeader, List.length_cons, txBufLen]
  omega

/-- The length of an UNSUBSCRIBE packet for one topic. -/
def unsubscribeSize : ℕ := (fixedHeader 10 1 (topic.length + 4)).length + (topic.length + 4)

theorem encodeUnsubscribe_cases :
    (unsubscribeSize topic ≤ txBufLen ∧ ∃ packet, encodeUnsubscribe packetId [(some topic, qos)] = .ok packet) ∨
      (txBufLen < unsubscribeSize topic ∧ encodeUnsubscribe packetId [(some topic, qos)] = .error outOfBuffer) := by
  have hremain : 2 + ([(some topic, qos)].map fun t : TopicArg => (t.1.getD []).length + 2).sum = topic.length + 4 := by
    simp only [List.map_singleton, List.sum_singleton, Option.getD_some]
    omega
  have hargs : ([(some topic, qos)] : List TopicArg).any (·.1.isNone) = false := rfl
  rw [encodeUnsubscribe, hargs, if_neg (by decide), inBuffer, hremain, unsubscribeSize]
  split_ifs with hfit
  · exact Or.inr ⟨hfit, rfl⟩
  · exact Or.inl ⟨by omega, _, rfl⟩

end Subscribe

end W601.Mqtt
