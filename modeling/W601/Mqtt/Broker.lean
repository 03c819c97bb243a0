import W601.Mqtt.CfgParse
import W601.Mqtt.Topics

/-!
# The broker that is configured (`mqtt_init`)

The values of the configuration go into a context and from there into the calls of the client library. `mqtt_ctx_create`
takes no port, and the library puts its own in the place of a zero.

* `UsesConfigured`: the connection, the CONNECT packet and the subscription are those of the configuration.
* `uses_configured_iff`: the configurations for which they are.
* `accepted_cfg`: what `mqtt_cfg_parse` accepts is such a configuration.
-/

namespace W601.Mqtt.Broker

open CMem (text)
open Json (Value)
open Net (badArg)
open Cfg (MqttCfgT printed postTopic cString)

/-- A configuration of C strings. -/
structure BrokerCfg extends MqttCfg where
  host : List UInt8
  port : UInt16
  clientId : List UInt8
  username : List UInt8
  password : List UInt8
  nulFree : ∀ s ∈ [host, clientId, username, password], 0 ∉ s

/-- The configuration as `mqtt_cfg_parse` leaves it. -/
def BrokerCfg.toCfg (b : BrokerCfg) : MqttCfgT where
  host := some b.host
  port := b.port
  clientId := some b.clientId
  username := some b.username
  password := some b.password
  productKey := some b.productKey
  deviceName := some b.deviceName
  paramsPostTopic := printed (postTopic b.productKey b.deviceName)
  paramsSetTopic := printed (Cfg.setTopic b.productKey b.deviceName)

/-- The part of `MQTTCtx_t` that the connection is made with. -/
structure MQTTCtx extends Table.MQTTCtx where
  host : Option (List UInt8)
  port : UInt16
  useTls : Bool
  clientId : Option (List UInt8)
  username : Option (List UInt8)
  password : Option (List UInt8)
  keepAliveSec : UInt16
  cleanSession : Bool

/-- What is done on the network. -/
inductive NetAct where
  | connect (host : Option (List UInt8)) (port : UInt16)
  | send (packet : List UInt8)
  | disconnect

/-- What comes of the calls: memory for the context, and the answers of the network and of the broker. -/
structure Outcome where
  created : Bool
  connect : ℤ
  connack : ℤ
  subscribe : Table.Exchange
  disconnect : ℤ

/-- `mqtt_ctx_create`: the other fields are cleared. -/
def mqttCtxCreate (host clientId username password : Option (List UInt8)) (qos : ℕ) (keepAliveSec : UInt16) : MQTTCtx :=
  { Table.MQTTCtx.init with
    qos, host, clientId, username, password, keepAliveSec
    port := 0
    useTls := false
    cleanSession := true }

/-- `MqttSocket_Connect` of a client that is not connected, built without TLS. -/
def mqttSocketConnect (host : Option (List UInt8)) (port : UInt16) (useTls : Bool) (rc : ℤ) : List NetAct × ℤ :=
  if useTls then ([], badArg)
  else
    let port := if port = 0 then (if useTls then 8883 else 1883) else port
    ([.connect host port], rc)

/-- `mqtt_ctx_connect`. -/
def mqttCtxConnect (ctx : MQTTCtx) (o : Outcome) : List NetAct × ℤ :=
  let (acts, rc) := mqttSocketConnect ctx.host ctx.port ctx.useTls o.connect
  if rc ≠ 0 then (acts, -1)
  else
    match encodeConnect ⟨ctx.keepAliveSec, ctx.cleanSession, ctx.clientId, ctx.username, ctx.password⟩ with
    | .error _ => (acts, -1)
    | .ok packet => (acts ++ [.send packet], if o.connack ≠ 0 then -1 else o.connack)

/-- `mqtt_close`. -/
def mqttClose (o : Outcome) : List NetAct :=
  .send [0xE0, 0] :: if o.disconnect ≠ 0 then [] else [.disconnect]

/-- `mqtt_init` behind `mqtt_cfg_parse`, up to `mqtt_start`. -/
def mqttInit (cfg : MqttCfgT) (o : Outcome) : List NetAct × ℤ :=
  if o.created then
    let ctx := mqttCtxCreate cfg.host cfg.clientId cfg.username cfg.password 0 60
    let (acts, rc) := mqttCtxConnect ctx o
    if rc < 0 then (acts, -1)
    else
      let (_, rc, sent) := Table.mqttSubscribe cfg.paramsSetTopic 0 o.subscribe ctx.toMQTTCtx
      let acts := acts ++ sent.map .send
      if rc < 0 then (acts ++ mqttClose o, -1) else (acts, 0)
  else ([], -1)

/-- **The configured broker is the one used**: host and port, the fields of the CONNECT packet, the topic subscribed. -/
structure UsesConfigured (b : BrokerCfg) (acts : List NetAct) : Prop where
  connects : ∀ host port, NetAct.connect host port ∈ acts →
    host = some b.host ∧ port = if b.port = 0 then 1883 else b.port
  connectPacket : ∀ packet, NetAct.send packet ∈ acts → packet.head? = some 0x10 →
    connectFields packet = some (b.clientId, b.username, b.password)
  subscribePacket : ∀ packet, NetAct.send packet ∈ acts → packet.head? = some 0x82 →
    ∃ packetId qos, subscribeFields packet = some (packetId, setTopic b.toMqttCfg, qos)

/-- The port is the one that the library takes, and the topic fits its array or the CONNECT packet does not fit the
buffer. -/
def Reached (b : BrokerCfg) : Prop :=
  (b.port = 0 ∨ b.port = 1883) ∧
    ((setTopic b.toMqttCfg).length < maxTopicLength ∨ txBufLen < connectSize b.clientId b.username b.password)

/-! ## The actions -/

variable {b : BrokerCfg} {o : Outcome}

theorem head_inBuffer {type qos remainLen : ℕ} {body packet : List UInt8} (h : inBuffer type qos remainLen body = .ok packet) :
    packet.head? = some (UInt8.ofNat (type * 16 + qos * 2)) := by
  rw [inBuffer] at h
  split_ifs at h
  obtain rfl := Except.ok.inj h
  rfl

theorem head_connect {c : MqttConnect} {packet : List UInt8} (h : encodeConnect c = .ok packet) : packet.head? = some 0x10 := by
  unfold encodeConnect at h
  split at h
  · cases h
  · exact head_inBuffer h

theorem head_subscribe {packetId : UInt16} {topics : List TopicArg} {packet : List UInt8}
    (h : encodeSubscribe packetId topics = .ok packet) : packet.head? = some 0x82 := by
  unfold encodeSubscribe at h
  split_ifs at h
  exact head_inBuffer h

theorem mqttSubscribe_fresh {ctx : Table.MQTTCtx} (h : ctx.topicsCount = 0) (topic : List UInt8) (qos : ℕ)
    (x : Table.Exchange) :
    ∃ packetId, (Table.mqttSubscribe topic qos x ctx).2 = Table.send (encodeSubscribe packetId [(some topic, qos)]) x := by
  simp only [Table.mqttSubscribe, h, Table.getPacketId]
  exact ⟨_, rfl⟩

/-- The context of a configuration. -/
def BrokerCfg.ctx (b : BrokerCfg) : MQTTCtx :=
  mqttCtxCreate (some b.host) (some b.clientId) (some b.username) (some b.password) 0 60

/-- **The connection** goes to the port that the library takes. -/
theorem mqttCtxConnect_cases (b : BrokerCfg) (o : Outcome) :
    (mqttCtxConnect b.ctx o = ([.connect (some b.host) 1883], -1) ∧
        (o.connect = 0 → txBufLen < connectSize b.clientId b.username b.password)) ∨
      ∃ packet, encodeConnect ⟨60, true, some b.clientId, some b.username, some b.password⟩ = .ok packet ∧
        mqttCtxConnect b.ctx o =
          ([.connect (some b.host) 1883, .send packet], if o.connack ≠ 0 then -1 else o.connack) := by
  have hsocket : mqttSocketConnect b.ctx.host b.ctx.port b.ctx.useTls o.connect =
      ([.connect (some b.host) 1883], o.connect) := rfl
  have hfields : MqttConnect.mk b.ctx.keepAliveSec b.ctx.cleanSession b.ctx.clientId b.ctx.username b.ctx.password =
      ⟨60, true, some b.clientId, some b.username, some b.password⟩ := rfl
  simp only [mqttCtxConnect, hsocket, hfields]
  by_cases hrc : o.connect ≠ 0
  · rw [if_pos hrc]
    exact Or.inl ⟨rfl, fun h => absurd h hrc⟩
  · rw [if_neg hrc]
    have hsize := encodeConnect_ok_iff 60 b.clientId b.username b.password
    cases hpacket : encodeConnect ⟨60, true, some b.clientId, some b.username, some b.password⟩ with
    | error e =>
      refine Or.inl ⟨rfl, fun _ => ?_⟩
      rw [← not_le, ← hsize, hpacket]
      exact fun ⟨_, h⟩ => nomatch h
    | ok packet => exact Or.inr ⟨packet, rfl, rfl⟩

/-- What is done on the network, action by action. -/
inductive Done (b : BrokerCfg) : NetAct → Prop where
  | connect : Done b (.connect (some b.host) 1883)
  | connectPacket {packet : List UInt8}
      (h : encodeConnect ⟨60, true, some b.clientId, some b.username, some b.password⟩ = .ok packet) : Done b (.send packet)
  | subscribePacket {packet : List UInt8} {packetId : UInt16}
      (hconnect : connectSize b.clientId b.username b.password ≤ txBufLen)
      (h : encodeSubscribe packetId [(some (printed (setTopic b.toMqttCfg)), 0)] = .ok packet) : Done b (.send packet)
  | disconnectPacket : Done b (.send [0xE0, 0])
  | disconnect : Done b .disconnect

theorem done_of_close {act : NetAct} (h : act ∈ mqttClose o) : Done b act := by
  rcases List.mem_cons.1 h with rfl | h
  · exact Done.disconnectPacket
  · split_ifs at h
    · exact absurd h List.not_mem_nil
    · obtain rfl := List.mem_singleton.1 h
      exact Done.disconnect

/-- The packet of a subscription, once the broker is connected. -/
theorem done_of_subscribe {packetId : UInt16} {act : NetAct}
    (hconnect : connectSize b.clientId b.username b.password ≤ txBufLen)
    (h : act ∈ (Table.send (encodeSubscribe packetId [(some (printed (setTopic b.toMqttCfg)), 0)]) o.subscribe).2.map
      NetAct.send) : Done b act := by
  obtain ⟨packet, hpacket, rfl⟩ := List.mem_map.1 h
  cases hencode : encodeSubscribe packetId [(some (printed (setTopic b.toMqttCfg)), 0)] with
  | error e =>
    rw [hencode] at hpacket
    exact absurd hpacket List.not_mem_nil
  | ok p =>
    rw [hencode] at hpacket
    obtain rfl := List.mem_singleton.1 hpacket
    exact Done.subscribePacket hconnect hencode

/-- **All that is done is of these kinds.** -/
theorem done_of_mem {act : NetAct} (h : act ∈ (mqttInit b.toCfg o).1) : Done b act := by
  unfold mqttInit at h
  by_cases hcreated : o.created
  swap
  · rw [if_neg hcreated] at h
    exact absurd h List.not_mem_nil
  rw [if_pos hcreated] at h
  have hctx : mqttCtxCreate b.toCfg.host b.toCfg.clientId b.toCfg.username b.toCfg.password 0 60 = b.ctx := rfl
  obtain ⟨packetId, hsub⟩ := mqttSubscribe_fresh (show b.ctx.toMQTTCtx.topicsCount = 0 from rfl) b.toCfg.paramsSetTopic 0 o.subscribe
  simp only [hctx] at h
  rcases mqttCtxConnect_cases b o with ⟨hconnect, -⟩ | ⟨packet, hpacket, hconnect⟩
  · rw [hconnect] at h
    obtain rfl := List.mem_singleton.1 h
    exact Done.connect
  · have hfirst : ∀ act ∈ [NetAct.connect (some b.host) 1883, .send packet], Done b act := by
      simp only [List.forall_mem_cons]
      exact ⟨Done.connect, Done.connectPacket hpacket, nofun⟩
    have hsize := (encodeConnect_ok_iff 60 b.clientId b.username b.password).1 ⟨packet, hpacket⟩
    generalize (if o.connack ≠ 0 then -1 else o.connack) = rc at hconnect
    rw [hconnect] at h
    simp only [hsub] at h
    split_ifs at h
    · exact hfirst act h
    · rcases List.mem_append.1 h with h | h
      · rcases List.mem_append.1 h with h | h
        · exact hfirst act h
        · exact done_of_subscribe hsize h
      · exact done_of_close h
    · rcases List.mem_append.1 h with h | h
      · exact hfirst act h
      · exact done_of_subscribe hsize h

/-! ## The configurations that are used -/

/-- Everything is granted. -/
def Outcome.willing : Outcome := ⟨true, 0, 0, ⟨0, some 0⟩, 0⟩

/-- With everything granted the connection is made, and the topic is subscribed when the CONNECT packet fits. -/
theorem willing_run (b : BrokerCfg) :
    NetAct.connect (some b.host) 1883 ∈ (mqttInit b.toCfg .willing).1 ∧
      (connectSize b.clientId b.username b.password ≤ txBufLen → ∃ packet packetId,
        encodeSubscribe packetId [(some (printed (setTopic b.toMqttCfg)), 0)] = .ok packet ∧
          NetAct.send packet ∈ (mqttInit b.toCfg .willing).1) := by
  have hctx : mqttCtxCreate b.toCfg.host b.toCfg.clientId b.toCfg.username b.toCfg.password 0 60 = b.ctx := rfl
  obtain ⟨packetId, hsub⟩ := mqttSubscribe_fresh (show b.ctx.toMQTTCtx.topicsCount = 0 from rfl) b.toCfg.paramsSetTopic 0
    Outcome.willing.subscribe
  have hcreated : Outcome.willing.created = true := rfl
  simp only [mqttInit, hcreated, if_true, hctx]
  rcases mqttCtxConnect_cases b .willing with ⟨hconnect, hsize⟩ | ⟨packet, hpacket, hconnect⟩
  · rw [hconnect]
    exact ⟨List.mem_singleton_self _, fun hle => absurd (hsize rfl) (by omega)⟩
  · rcases encodeSubscribe_cases packetId (printed (setTopic b.toMqttCfg)) 0 with ⟨-, p, hp⟩ | ⟨hbig, -⟩
    · rw [hconnect]
      have hsent : (Table.mqttSubscribe b.toCfg.paramsSetTopic 0 Outcome.willing.subscribe b.ctx.toMQTTCtx).2 = (0, [p]) := by
        rw [hsub]
        exact congrArg (Table.send · Outcome.willing.subscribe) hp
      simp only [hsent]
      exact ⟨List.mem_cons_self, fun _ => ⟨p, packetId, hp, by simp [Outcome.willing]⟩⟩
    · have hle := subscribeSize_le (show (printed (setTopic b.toMqttCfg)).length ≤ 1000 by
        rw [printed, List.length_take, maxTopicLength]; omega)
      omega

/-- **The configured broker is the one used** exactly for the configurations with the library's port, and a topic that
fits its array unless no CONNECT packet is sent. -/
theorem uses_configured_iff (b : BrokerCfg) : (∀ o, UsesConfigured b (mqttInit b.toCfg o).1) ↔ Reached b := by
  constructor
  · intro h
    obtain ⟨hconnect, hsubscribe⟩ := willing_run b
    have hused := h .willing
    constructor
    · obtain ⟨-, hport⟩ := hused.connects _ _ hconnect
      split_ifs at hport with h0
      · exact Or.inl h0
      · exact Or.inr hport.symm
    · by_cases hsize : connectSize b.clientId b.username b.password ≤ txBufLen
      · obtain ⟨packet, packetId, hpacket, hmem⟩ := hsubscribe hsize
        obtain ⟨id, qos, hfields⟩ := hused.subscribePacket packet hmem (head_subscribe hpacket)
        rw [subscribeFields_subscribe _ _ _ hpacket, Option.some.injEq, Prod.mk.injEq, Prod.mk.injEq] at hfields
        have hlen := Cfg.printed_eq_self.1 hfields.2.1
        exact Or.inl (by rw [maxTopicLength]; omega)
      · exact Or.inr (by omega)
  · rintro ⟨hport, htopic⟩ o
    refine ⟨fun host port hmem => ?_, fun packet hmem hhead => ?_, fun packet hmem hhead => ?_⟩
    · cases done_of_mem hmem with
      | connect =>
        refine ⟨rfl, ?_⟩
        rcases hport with h | h
        · rw [if_pos h]
        · rw [h]
          rfl
    · cases done_of_mem hmem with
      | connectPacket h => exact connectFields_connect 60 _ _ _ h
      | subscribePacket _ h => exact absurd ((head_subscribe h).symm.trans hhead) (by decide)
      | disconnectPacket => exact absurd hhead (by decide)
    · cases done_of_mem hmem with
      | connectPacket h => exact absurd ((head_connect h).symm.trans hhead) (by decide)
      | subscribePacket hconnect h =>
        rcases htopic with hlen | hsize
        · have hwhole : printed (setTopic b.toMqttCfg) = setTopic b.toMqttCfg :=
            Cfg.printed_eq_self.2 (by rw [maxTopicLength] at hlen; omega)
          rw [hwhole] at h
          exact ⟨_, _, subscribeFields_subscribe _ _ _ h⟩
        · omega
      | disconnectPacket => exact absurd hhead (by decide)

/-- The broker of a test at port 1884. -/
def BrokerCfg.at1884 : BrokerCfg where
  productKey := text "k"
  deviceName := text "d"
  productKey_nulFree := by decide
  deviceName_nulFree := by decide
  host := text "broker"
  port := 1884
  clientId := text "c"
  username := text "u"
  password := text "p"
  nulFree := by decide

/-- The connection to a broker at port 1884 goes to port 1883. -/
theorem port_lost : ¬ ∀ o, UsesConfigured .at1884 (mqttInit (BrokerCfg.toCfg .at1884) o).1 := by
  intro h
  have hmem : NetAct.connect (some (text "broker")) 1883 ∈ (mqttInit (BrokerCfg.toCfg .at1884) .willing).1 :=
    (willing_run .at1884).1
  obtain ⟨-, hport⟩ := (h .willing).connects _ _ hmem
  exact absurd hport (by decide)

/-- What `mqtt_cfg_parse` accepts, where the heap has memory for the strings, is a configuration of C strings. -/
theorem accepted_cfg {env : Cfg.Env} {file : List UInt8} {cfg c : MqttCfgT}
    (h : Cfg.mqttCfgParse env file cfg = some (0, c)) (hcopied : ∀ p ∈ Cfg.strings, env.copied p.1 = true) :
    ∃ b : BrokerCfg, c = b.toCfg := by
  obtain ⟨root, hfill⟩ := Cfg.accepted_filled h
  have hstrings : ∀ p ∈ Cfg.strings, ∃ s, p.2 c = some s ∧ 0 ∉ s := fun p hp => hfill.copied hp (hcopied p hp)
  simp only [Cfg.strings, List.forall_mem_cons] at hstrings
  obtain ⟨⟨host, h1, n1⟩, ⟨clientId, h2, n2⟩, ⟨username, h3, n3⟩, ⟨password, h4, n4⟩, ⟨key, h5, n5⟩, ⟨name, h6, n6⟩, -⟩ :=
    hstrings
  have hpost := hfill.postTopic
  have hset := hfill.setTopic
  simp only [h5, h6, Option.getD_some] at hpost hset
  refine ⟨⟨⟨key, name, n5, n6⟩, host, c.port, clientId, username, password, by simp [n1, n2, n3, n4]⟩, ?_⟩
  cases c
  simp only at h1 h2 h3 h4 h5 h6 hpost hset
  simp only [BrokerCfg.toCfg, h1, h2, h3, h4, h5, h6, hpost, hset]

end W601.Mqtt.Broker
