import W601.Lib.Rollover
import W601.Mqtt.Topics

/-!
# The packet identifiers of the MQTT client

`mqtt_get_packetid` counts in a static variable, for the calls on all contexts. The array `topics` of a context is
followed by other memory; here it goes on without end, and what an access behind it does to the rest of the contexts may
come in between the calls.

* `Sound`: what should hold of the identifiers.
* `identifiers_sound`: it does in every run of the four calls.
* `simulates`: inside the array the calls are those of `Table`.
-/

namespace W601.Mqtt.PacketId

open Runs
open Rollover
open Table (MqttTopic Exchange)

/-- `MAX_PACKET_ID`. -/
def maxPacketId : Int32 := ((1 : Int32) <<< 16) - 1

/-- `mqtt_get_packetid`: the static variable behind the call, and the answer, a `word16`. -/
def mqttGetPacketid (mPacketIdLast : Int32) : Int32 × UInt16 :=
  let mPacketIdLast := if maxPacketId ≤ mPacketIdLast then 0 else mPacketIdLast
  let mPacketIdLast := mPacketIdLast + 1
  (mPacketIdLast, mPacketIdLast.toUInt32.toUInt16)

/-- `MqttSubscribe` and `MqttUnsubscribe`: the topics are given by the index of the first, or by a null pointer. -/
structure MqttTopics where
  packetId : UInt16
  topicCount : ℕ
  topics : Option ℕ

/-- The fields of `MQTTCtx_t` that the calls work on. -/
structure MQTTCtx where
  subscribe : MqttTopics
  unsubscribe : MqttTopics
  topicsCount : ℕ
  /-- The array, and what follows it. -/
  topics : ℕ → MqttTopic
  publish : Table.MqttPublish
  qos : ℕ

/-- The topics that an encoder finds. -/
def MqttTopics.args (s : MqttTopics) (topics : ℕ → MqttTopic) : List TopicArg :=
  match s.topics with
  | none => List.replicate s.topicCount (none, 0)
  | some first => (List.range s.topicCount).map fun i => ((topics (first + i)).topicFilter, (topics (first + i)).qos)

/-- What the client library is called with. -/
inductive Packet where
  | subscribe (packetId : UInt16) (topics : List TopicArg)
  | publish (p : Table.MqttPublish)
  | unsubscribe (packetId : UInt16) (topics : List TopicArg)

/-- The identifier of a packet. -/
def Packet.packetId : Packet → UInt16
  | .subscribe packetId _ => packetId
  | .publish p => p.packetId
  | .unsubscribe packetId _ => packetId

/-- All contexts and the static variable, and what has come of the calls so far. -/
structure Port where
  ctxs : ℕ → MQTTCtx
  mPacketIdLast : Int32
  /-- The answers of `mqtt_get_packetid`. -/
  issued : List UInt16
  packets : List Packet
  /-- A null pointer has been compared. -/
  faulted : Bool

/-- The start of the system. -/
def Port.boot (ctxs : ℕ → MQTTCtx) : Port := ⟨ctxs, 0, [], [], false⟩

/-- A call of `mqtt_get_packetid`. -/
def Port.getPacketid (p : Port) : Port × UInt16 :=
  let (mPacketIdLast, packetId) := mqttGetPacketid p.mPacketIdLast
  ({ p with mPacketIdLast := mPacketIdLast, issued := p.issued ++ [packetId] }, packetId)

/-- A context is written. -/
def Port.put (p : Port) (c : ℕ) (ctx : MQTTCtx) : Port := { p with ctxs := Function.update p.ctxs c ctx }

/-- The client library is called. -/
def Port.send (p : Port) (packet : Packet) : Port := { p with packets := p.packets ++ [packet] }

/-- `mqtt_subscribe` on the context `c`. -/
def mqttSubscribe (c : ℕ) (topicName : List UInt8) (qos : ℕ) (x : Exchange) (p : Port) : Port × ℤ :=
  let ctx := p.ctxs c
  if ctx.topicsCount < 10 then
    let ctx := { ctx with topicsCount := ctx.topicsCount + 1 }
    let last := ctx.topicsCount - 1
    let topic := { ctx.topics last with topicFilter := some topicName, qos := qos }
    let ctx := { ctx with topics := Function.update ctx.topics last topic }
    let (p, packetId) := p.getPacketid
    let ctx := { ctx with subscribe := ⟨packetId, 1, some last⟩ }
    let args := ctx.subscribe.args ctx.topics
    let (rc, _) := Table.send (encodeSubscribe packetId args) x
    -- the codes of the acknowledgement
    let topic := { topic with returnCode := x.code.getD topic.returnCode }
    let ctx := if rc = 0 then { ctx with topics := Function.update ctx.topics last topic } else ctx
    ((p.put c ctx).send (.subscribe packetId args), rc)
  else (p, -1)

/-- The end of `mqtt_unsubscribe` and of `mqtt_unsubscribe_all`. -/
def sendUnsubscribe (c : ℕ) (ctx : MQTTCtx) (x : Exchange) (p : Port) : Port × ℤ :=
  let args := ctx.unsubscribe.args ctx.topics
  let (rc, _) := Table.send (encodeUnsubscribe ctx.unsubscribe.packetId args) x
  ((p.put c ctx).send (.unsubscribe ctx.unsubscribe.packetId args), if rc ≠ 0 then -1 else 0)

/-- The loop of `mqtt_unsubscribe` over `n` topics from `i` on: the first with the name, if there is one, unless `strcmp`
gets a null pointer before. -/
def findTopic (topics : ℕ → MqttTopic) (topicName : List UInt8) : ℕ → ℕ → Option (Option ℕ)
  | 0, _ => some none
  | n + 1, i => (topics i).topicFilter.bind fun topicFilter =>
    if topicFilter = topicName then some (some i) else findTopic topics topicName n (i + 1)

/-- `mqtt_unsubscribe`. -/
def mqttUnsubscribe (c : ℕ) (topicName : List UInt8) (x : Exchange) (p : Port) : Port × ℤ :=
  let (p, packetId) := p.getPacketid
  let ctx := { p.ctxs c with unsubscribe := ⟨packetId, 1, none⟩ }
  match findTopic ctx.topics topicName ctx.topicsCount 0 with
  | none => ({ p.put c ctx with faulted := true }, 0)
  | some none =>
    -- the loop is not entered when there are no topics
    if ctx.topicsCount = 0 then sendUnsubscribe c ctx x p else (p.put c ctx, -1)
  | some (some i) => sendUnsubscribe c { ctx with unsubscribe := ⟨packetId, 1, some i⟩ } x p

/-- `mqtt_unsubscribe_all`. -/
def mqttUnsubscribeAll (c : ℕ) (x : Exchange) (p : Port) : Port × ℤ :=
  let (p, packetId) := p.getPacketid
  let ctx := p.ctxs c
  sendUnsubscribe c { ctx with unsubscribe := ⟨packetId, ctx.topicsCount, some 0⟩ } x p

/-- `mqtt_publish`; the answer is that of the client library. -/
def mqttPublish (c : ℕ) (data topicName : List UInt8) (rc : ℤ) (p : Port) : Port × ℤ :=
  let (p, packetId) := p.getPacketid
  let ctx := p.ctxs c
  let ctx := { ctx with publish := ⟨ctx.qos, packetId, some topicName, data⟩ }
  ((p.put c ctx).send (.publish ctx.publish), if rc ≠ 0 then -1 else rc)

/-! ## Runs -/

/-- A call on a context, or anything else that happens to the contexts. -/
inductive Act where
  | subscribe (c : ℕ) (topicName : List UInt8) (qos : ℕ) (x : Exchange)
  | unsubscribe (c : ℕ) (topicName : List UInt8) (x : Exchange)
  | unsubscribeAll (c : ℕ) (x : Exchange)
  | publish (c : ℕ) (data topicName : List UInt8) (rc : ℤ)
  | other (ctxs : ℕ → MQTTCtx)

/-- A step, unless the processor has come to a fault. -/
def Port.step (p : Port) (act : Act) : Option Port :=
  if p.faulted then none
  else match act with
    | .subscribe c topicName qos x => some (mqttSubscribe c topicName qos x p).1
    | .unsubscribe c topicName x => some (mqttUnsubscribe c topicName x p).1
    | .unsubscribeAll c x => some (mqttUnsubscribeAll c x p).1
    | .publish c data topicName rc => some (mqttPublish c data topicName rc p).1
    | .other ctxs => some { p with ctxs := ctxs }

/-- What should hold of the identifiers: they are from 1 to 65535, the last one is the value of the counter, any 65535 of
them in a row are different, and those of the packets are among them, in their order. -/
structure Sound (p : Port) : Prop where
  range : ∀ packetId ∈ p.issued, 1 ≤ packetId.toNat ∧ packetId.toNat ≤ 65535
  counter : ∀ packetId, p.issued.getLast? = some packetId → (packetId.toNat : ℤ) = p.mPacketIdLast.toInt
  fresh : FreshWithin 65535 p.issued
  packets : (p.packets.map Packet.packetId).Sublist p.issued

/-! ## The counter -/

theorem mqttGetPacketid_ofNat {n : ℕ} (h : n ≤ 65535) :
    mqttGetPacketid (Int32.ofNat n) = (Int32.ofNat (next 65535 n), UInt16.ofNat (next 65535 n)) := by
  have hmax : maxPacketId = Int32.ofNat 65535 := rfl
  have hroll : maxPacketId ≤ Int32.ofNat n ↔ 65535 ≤ n := by
    rw [hmax, Int32.le_iff_toInt_le, Int32.toInt_ofNat_of_lt (by decide), Int32.toInt_ofNat_of_lt (by omega)]
    exact Int.ofNat_le
  have hlast : (if maxPacketId ≤ Int32.ofNat n then 0 else Int32.ofNat n) + 1 = Int32.ofNat (next 65535 n) := by
    rw [next, Int32.ofNat_add]
    simp only [hroll]
    split_ifs <;> rfl
  rw [mqttGetPacketid]
  simp only [hlast, Int32.toUInt32_ofNat', UInt32.toUInt16_ofNat']

/-- What a step makes of the counter and of the packets. -/
inductive Effect (p t : Port) : Prop where
  /-- No identifier is asked for. -/
  | quiet (hlast : t.mPacketIdLast = p.mPacketIdLast) (hissued : t.issued = p.issued) (hpackets : t.packets = p.packets)
  /-- An identifier is given to some packets, to one at most. -/
  | issue (sent : List Packet) (hlast : t.mPacketIdLast = (mqttGetPacketid p.mPacketIdLast).1)
      (hissued : t.issued = p.issued ++ [(mqttGetPacketid p.mPacketIdLast).2])
      (hpackets : t.packets = p.packets ++ sent)
      (hsent : (sent.map Packet.packetId).Sublist [(mqttGetPacketid p.mPacketIdLast).2])

section Effects

variable (c : ℕ) (topicName : List UInt8) (x : Exchange) (p : Port)

theorem mqttSubscribe_effect (qos : ℕ) : Effect p (mqttSubscribe c topicName qos x p).1 := by
  unfold mqttSubscribe
  dsimp only
  split
  · exact .issue [_] rfl rfl rfl (List.Sublist.refl _)
  · exact .quiet rfl rfl rfl

theorem mqttUnsubscribe_effect : Effect p (mqttUnsubscribe c topicName x p).1 := by
  unfold mqttUnsubscribe
  dsimp only
  split
  · exact .issue [] rfl rfl (List.append_nil _).symm (List.nil_sublist _)
  · split_ifs
    · exact .issue [_] rfl rfl rfl (List.Sublist.refl _)
    · exact .issue [] rfl rfl (List.append_nil _).symm (List.nil_sublist _)
  · exact .issue [_] rfl rfl rfl (List.Sublist.refl _)

end Effects

/-- **A step asks for one identifier or for none**, and gives it to its packet. -/
theorem step_effect {p t : Port} {act : Act} (ht : p.step act = some t) : Effect p t := by
  unfold Port.step at ht
  split_ifs at ht
  cases act with
  | subscribe c topicName qos x =>
    obtain rfl := Option.some.inj ht
    exact mqttSubscribe_effect c topicName x p qos
  | unsubscribe c topicName x =>
    obtain rfl := Option.some.inj ht
    exact mqttUnsubscribe_effect c topicName x p
  | unsubscribeAll c x =>
    obtain rfl := Option.some.inj ht
    exact .issue [_] rfl rfl rfl (List.Sublist.refl _)
  | publish c data topicName rc =>
    obtain rfl := Option.some.inj ht
    exact .issue [_] rfl rfl rfl (List.Sublist.refl _)
  | other ctxs =>
    obtain rfl := Option.some.inj ht
    exact .quiet rfl rfl rfl

/-- The identifiers issued are the first numbers of the counter. -/
structure Inv (p : Port) : Prop where
  counter : p.mPacketIdLast = Int32.ofNat (counter 65535 p.issued.length)
  issued : p.issued.map UInt16.toNat = numbers 65535 p.issued.length
  packets : (p.packets.map Packet.packetId).Sublist p.issued

theorem Inv.sound {p : Port} (h : Inv p) : Sound p := by
  refine ⟨fun packetId hid => ?_, fun packetId hid => ?_, ?_, h.packets⟩
  · have hmem : packetId.toNat ∈ numbers 65535 p.issued.length := by
      rw [← h.issued]
      exact List.mem_map_of_mem hid
    exact mem_numbers (by decide) hmem
  · obtain ⟨front, hfront⟩ := List.getLast?_eq_some_iff.1 hid
    have hlen : p.issued.length = front.length + 1 := by rw [hfront, List.length_append, List.length_singleton]
    have hlast := h.issued
    rw [hlen, numbers_succ, hfront, List.map_append] at hlast
    have hid := (List.append_inj' hlast rfl).2
    have hle := counter_le (show 0 < 65535 by decide) (front.length + 1)
    rw [h.counter, hlen, Int32.toInt_ofNat_of_lt (by omega), List.head_eq_of_cons_eq hid]
  · apply FreshWithin.of_map
    rw [h.issued]
    exact freshWithin_numbers 65535 p.issued.length

/-- **Every step keeps the invariant.** -/
theorem inv_step (p : Port) (act : Act) (t : Port) (h : Inv p) (ht : p.step act = some t) : Inv t := by
  have hle := counter_le (show 0 < 65535 by decide) p.issued.length
  cases step_effect ht with
  | quiet hlast hissued hpackets =>
    refine ⟨?_, ?_, ?_⟩
    · rw [hlast, hissued]
      exact h.counter
    · rw [hissued]
      exact h.issued
    · rw [hpackets, hissued]
      exact h.packets
  | issue sent hlast hissued hpackets hsent =>
    have hnext := next_counter (show 0 < 65535 by decide) p.issued.length
    rw [h.counter, mqttGetPacketid_ofNat hle, hnext] at hlast hissued hsent
    have hlen : t.issued.length = p.issued.length + 1 := by rw [hissued, List.length_append, List.length_singleton]
    refine ⟨?_, ?_, ?_⟩
    · rw [hlast, hlen]
    · have hlt := counter_le (show 0 < 65535 by decide) (p.issued.length + 1)
      have hid : (UInt16.ofNat (counter 65535 (p.issued.length + 1))).toNat = counter 65535 (p.issued.length + 1) :=
        UInt16.toNat_ofNat_of_lt (hlt.trans_lt (by decide))
      rw [hlen, numbers_succ, hissued, List.map_append, h.issued, List.map_singleton, hid]
    · rw [hpackets, hissued, List.map_append]
      exact h.packets.append hsent

theorem inv_boot (ctxs : ℕ → MQTTCtx) : Inv (.boot ctxs) := ⟨rfl, rfl, List.Sublist.refl _⟩

/-- **The identifiers are sound in every run** of the four calls, on any contexts. -/
theorem identifiers_sound (ctxs : ℕ → MQTTCtx) (acts : List Act) : Upholds Port.step Sound (.boot ctxs) acts := by
  apply upholds_of_inv (I := Inv)
  · exact fun p h => h.sound
  · exact inv_step
  · exact inv_boot ctxs

/-! ## Packets -/

/-- A broker reads an identifier in every SUBSCRIBE packet for one topic. -/
theorem Sound.subscribe_read {p : Port} (h : Sound p) {packetId : UInt16} {topic : List UInt8} {qos : ℕ}
    {packet : List UInt8} (hmem : .subscribe packetId [(some topic, qos)] ∈ p.packets)
    (hencode : encodeSubscribe packetId [(some topic, qos)] = .ok packet) :
    ∃ n, 1 ≤ n ∧ n ≤ 65535 ∧ subscribeFields packet = some (n, topic, [UInt8.ofNat qos]) := by
  have hissued : packetId ∈ p.issued := h.packets.subset (List.mem_map.2 ⟨_, hmem, rfl⟩)
  obtain ⟨hpos, hle⟩ := h.range packetId hissued
  exact ⟨packetId.toNat, hpos, hle, subscribeFields_subscribe packetId topic qos hencode⟩

/-! ## Inside the array -/

/-- The context `c` is that of `Table`. -/
structure Sim (c : ℕ) (ctx : Table.MQTTCtx) (p : Port) : Prop where
  topicsCount : (p.ctxs c).topicsCount = ctx.topicsCount
  topics : (p.ctxs c).topics 0 = ctx.topics
  publish : (p.ctxs c).publish = ctx.publish
  qos : (p.ctxs c).qos = ctx.qos
  counter : p.mPacketIdLast = Int32.ofNat ctx.packetIdLast
  small : ctx.packetIdLast ≤ 65535
  /-- An entry that is counted has a name. -/
  named : ctx.topicsCount ≠ 0 → ctx.topics.topicFilter ≠ none
  running : p.faulted = false

/-- A call of `Table` on the context `c`. -/
def act (c : ℕ) : Table.TableCall → Act
  | .subscribe topicName qos x => .subscribe c topicName qos x
  | .unsubscribe topicName x => .unsubscribe c topicName x
  | .unsubscribeAll x => .unsubscribeAll c x
  | .publish data topicName rc => .publish c data topicName rc

section Simulation

variable {c : ℕ} {ctx t : Table.MQTTCtx} {p : Port}

/-- The two counters go on together. -/
theorem Sim.getPacketid (h : Sim c ctx p) :
    ∃ q r id, Table.getPacketId ctx = (q, id) ∧ p.getPacketid = (r, id) ∧ Sim c q r := by
  have hnext := mqttGetPacketid_ofNat h.small
  rw [← h.counter] at hnext
  have hle : next 65535 ctx.packetIdLast ≤ 65535 := by
    have hsmall := h.small
    unfold next
    split_ifs <;> omega
  refine ⟨_, p.getPacketid.1, UInt16.ofNat (next 65535 ctx.packetIdLast), rfl, ?_, ?_⟩
  · exact Prod.ext rfl (congrArg (fun e : Int32 × UInt16 => e.2) hnext)
  · exact ⟨h.topicsCount, h.topics, h.publish, h.qos, congrArg Prod.fst hnext, hle, h.named, h.running⟩

/-- The entry that a subscription leaves, by the answer of the client library. -/
def entry (topicName : List UInt8) (qos : ℕ) (x : Exchange) (rc : ℤ) (old : MqttTopic) : MqttTopic :=
  ⟨some topicName, qos, if rc = 0 then x.code.getD old.returnCode else old.returnCode⟩

theorem args_one (packetId : UInt16) (i : ℕ) (topics : ℕ → MqttTopic) :
    (⟨packetId, 1, some i⟩ : MqttTopics).args topics = [((topics i).topicFilter, (topics i).qos)] := rfl

/-- The first subscription, in `Table`. -/
theorem table_subscribe (hempty : ctx.topicsCount = 0) {id : UInt16} (hid : Table.getPacketId ctx = (t, id))
    (topicName : List UInt8) (qos : ℕ) (x : Exchange) :
    ∃ rc sent, rc = (Table.send (encodeSubscribe id [(some topicName, qos)]) x).1 ∧
      Table.mqttSubscribe topicName qos x ctx =
        ({ t with topicsCount := 1, topics := entry topicName qos x rc t.topics }, rc, sent) := by
  have hinside : ¬ (0 + 1 - 1 ≠ 0) := by decide
  have hold : ctx.topics = t.topics := congrArg (fun e : Table.MQTTCtx × UInt16 => e.1.topics) hid
  have hnext : ∀ topic, Table.getPacketId { ctx with topicsCount := 1, topics := topic } =
      ({ t with topicsCount := 1, topics := topic }, id) := by
    intro topic
    obtain ⟨rfl, rfl⟩ := Prod.mk.inj hid
    rfl
  refine ⟨_, (Table.send (encodeSubscribe id [(some topicName, qos)]) x).2, rfl, ?_⟩
  simp only [Table.mqttSubscribe, hempty, Nat.ofNat_pos, if_true, if_neg hinside, Nat.zero_add, hnext, entry, ← hold]
  split_ifs <;> rfl

/-- The first subscription. -/
theorem mqttSubscribe_first {r : Port} {id : UInt16} (hid : p.getPacketid = (r, id))
    (hempty : (r.ctxs c).topicsCount = 0) (topicName : List UInt8) (qos : ℕ) (x : Exchange) {rc : ℤ}
    (hrc : rc = (Table.send (encodeSubscribe id [(some topicName, qos)]) x).1) :
    ∃ s topics, topics 0 = entry topicName qos x rc ((r.ctxs c).topics 0) ∧
      mqttSubscribe c topicName qos x p =
        ((r.put c { r.ctxs c with subscribe := s, topicsCount := 1, topics := topics }).send
          (.subscribe id [(some topicName, qos)]), rc) := by
  have hctxs : p.ctxs = r.ctxs := congrArg (fun e : Port × UInt16 => e.1.ctxs) hid
  simp only [mqttSubscribe, hid, hctxs, hempty, Nat.ofNat_pos, if_true, Nat.zero_add, Nat.sub_self, args_one,
    Function.update_self, ← hrc]
  by_cases hzero : rc = 0
  · refine ⟨_, _, ?_, by rw [if_pos hzero]⟩
    simp only [Function.update_self, entry, if_pos hzero]
  · refine ⟨_, _, ?_, by rw [if_neg hzero]⟩
    simp only [Function.update_self, entry, if_neg hzero]

/-- A context of which the topics are those of `Table` is written. -/
theorem Sim.put (h : Sim c ctx p) {own : MQTTCtx} (hcount : own.topicsCount = t.topicsCount)
    (htopics : own.topics 0 = t.topics) (hpublish : own.publish = t.publish) (hqos : own.qos = t.qos)
    (hlast : t.packetIdLast = ctx.packetIdLast) (hnamed : t.topicsCount ≠ 0 → t.topics.topicFilter ≠ none)
    {packets : List Packet} : Sim c t { p.put c own with packets := packets } := by
  have hown : (p.put c own).ctxs c = own := Function.update_self _ _ _
  refine ⟨?_, ?_, ?_, ?_, ?_, ?_, hnamed, h.running⟩
  · exact (congrArg MQTTCtx.topicsCount hown).trans hcount
  · exact (congrArg (fun o : MQTTCtx => o.topics 0) hown).trans htopics
  · exact (congrArg MQTTCtx.publish hown).trans hpublish
  · exact (congrArg MQTTCtx.qos hown).trans hqos
  · rw [hlast]
    exact h.counter
  · rw [hlast]
    exact h.small

/-- A cancellation leaves what the two have in common. -/
theorem Sim.put_unsubscribe (h : Sim c ctx p) (s : MqttTopics) {packets : List Packet} :
    Sim c ctx { p.put c { p.ctxs c with unsubscribe := s } with packets := packets } := by
  apply h.put
  · exact h.topicsCount
  · exact h.topics
  · exact h.publish
  · exact h.qos
  · rfl
  · exact h.named

theorem Sim.subscribe (h : Sim c ctx p) (topicName : List UInt8) (qos : ℕ) (x : Exchange)
    (ht : (Table.mqttSubscribe topicName qos x ctx).1.overrun = false) :
    Sim c (Table.mqttSubscribe topicName qos x ctx).1 (mqttSubscribe c topicName qos x p).1 ∧
      (mqttSubscribe c topicName qos x p).2 = (Table.mqttSubscribe topicName qos x ctx).2.1 := by
  by_cases hroom : ctx.topicsCount < 10
  · by_cases hempty : ctx.topicsCount = 0
    · obtain ⟨q, r, id, hq, hr, hnext⟩ := h.getPacketid
      have hnone : (r.ctxs c).topicsCount = 0 :=
        hnext.topicsCount.trans ((congrArg (fun e : Table.MQTTCtx × UInt16 => e.1.topicsCount) hq).symm.trans hempty)
      obtain ⟨rc, sent, hrc, htable⟩ := table_subscribe hempty hq topicName qos x
      obtain ⟨s, topics, hentry, hport⟩ := mqttSubscribe_first hr hnone topicName qos x hrc
      rw [hnext.topics] at hentry
      rw [htable, hport]
      refine ⟨hnext.put ?_ ?_ ?_ ?_ ?_ ?_, rfl⟩
      · rfl
      · exact hentry
      · exact hnext.publish
      · exact hnext.qos
      · rfl
      · exact fun _ => Option.some_ne_none _
    · -- the entry is behind the array
      have hbehind : ctx.topicsCount + 1 - 1 ≠ 0 := by omega
      simp only [Table.mqttSubscribe, if_pos hroom, if_pos hbehind] at ht
      exact absurd ht (by simp [Table.outside])
  · simp only [mqttSubscribe, Table.mqttSubscribe, h.topicsCount, if_neg hroom]
    exact ⟨h, trivial⟩

/-- A cancellation with the same topics. -/
theorem Sim.sendUnsubscribe (h : Sim c ctx p) {s : MqttTopics} {args : List TopicArg}
    (hargs : s.args (p.ctxs c).topics = args) (x : Exchange) :
    Sim c (Table.sendUnsubscribe s.packetId args x ctx).1
        (sendUnsubscribe c { p.ctxs c with unsubscribe := s } x p).1 ∧
      (sendUnsubscribe c { p.ctxs c with unsubscribe := s } x p).2 =
        (Table.sendUnsubscribe s.packetId args x ctx).2.1 := by
  subst hargs
  exact ⟨h.put_unsubscribe s, rfl⟩

theorem Sim.unsubscribe (h : Sim c ctx p) (topicName : List UInt8) (x : Exchange)
    (ht : (Table.mqttUnsubscribe topicName x ctx).1.overrun = false) :
    Sim c (Table.mqttUnsubscribe topicName x ctx).1 (mqttUnsubscribe c topicName x p).1 ∧
      (mqttUnsubscribe c topicName x p).2 = (Table.mqttUnsubscribe topicName x ctx).2.1 := by
  obtain ⟨q, r, id, hq, hr, hnext⟩ := h.getPacketid
  simp only [Table.mqttUnsubscribe, hq] at ht ⊢
  simp only [mqttUnsubscribe, hr]
  have hcount := hnext.topicsCount
  cases hn : q.topicsCount with
  | zero =>
    rw [hn] at hcount
    have hfind : findTopic (r.ctxs c).topics topicName (r.ctxs c).topicsCount 0 = some none := by rw [hcount]; rfl
    simp only [hfind, if_pos hcount]
    exact hnext.sendUnsubscribe (s := ⟨id, 1, none⟩) rfl x
  | succ n =>
    rw [hn] at hcount
    obtain ⟨name, hname⟩ := Option.ne_none_iff_exists'.1 (hnext.named (by omega))
    have hfirst : ((r.ctxs c).topics 0).topicFilter = some name := by rw [hnext.topics, hname]
    have hfind : findTopic (r.ctxs c).topics topicName (r.ctxs c).topicsCount 0 =
        if name = topicName then some (some 0) else findTopic (r.ctxs c).topics topicName n 1 := by
      rw [hcount, findTopic, hfirst]
      rfl
    simp only [hn, hname, Option.some.injEq] at ht ⊢
    by_cases heq : name = topicName
    · rw [if_pos heq] at hfind
      simp only [hfind, if_pos heq]
      refine hnext.sendUnsubscribe (s := ⟨id, 1, some 0⟩) ?_ x
      rw [args_one, hnext.topics, hname]
    · rw [if_neg heq] at hfind ht
      simp only [if_neg heq]
      cases n with
      | zero =>
        have hnot : ¬ (r.ctxs c).topicsCount = 0 := by omega
        simp only [hfind, findTopic, if_neg hnot, if_true]
        exact ⟨hnext.put_unsubscribe _, trivial⟩
      | succ n =>
        -- the search goes on behind the array
        rw [if_neg (Nat.succ_ne_zero n)] at ht
        exact absurd ht (by simp [Table.outside])

theorem Sim.unsubscribeAll (h : Sim c ctx p) (x : Exchange)
    (ht : (Table.mqttUnsubscribeAll x ctx).1.overrun = false) :
    Sim c (Table.mqttUnsubscribeAll x ctx).1 (mqttUnsubscribeAll c x p).1 ∧
      (mqttUnsubscribeAll c x p).2 = (Table.mqttUnsubscribeAll x ctx).2.1 := by
  obtain ⟨q, r, id, hq, hr, hnext⟩ := h.getPacketid
  simp only [Table.mqttUnsubscribeAll, hq] at ht ⊢
  simp only [mqttUnsubscribeAll, hr]
  have hcount := hnext.topicsCount
  cases hn : q.topicsCount with
  | zero =>
    rw [hn] at hcount
    refine hnext.sendUnsubscribe (s := ⟨id, (r.ctxs c).topicsCount, some 0⟩) ?_ x
    rw [hcount]
    rfl
  | succ n =>
    rw [hn] at hcount
    cases n with
    | zero =>
      refine hnext.sendUnsubscribe (s := ⟨id, (r.ctxs c).topicsCount, some 0⟩) ?_ x
      rw [hcount, Nat.zero_add, args_one, hnext.topics]
    | succ n =>
      -- the topics go on behind the array
      simp only [hn] at ht
      exact absurd ht (by simp [Table.outside])

theorem Sim.publishing (h : Sim c ctx p) (data topicName : List UInt8) (rc : ℤ) :
    Sim c (Table.mqttPublish data topicName rc ctx).1 (mqttPublish c data topicName rc p).1 ∧
      (mqttPublish c data topicName rc p).2 = (Table.mqttPublish data topicName rc ctx).2 := by
  obtain ⟨q, r, id, hq, hr, hnext⟩ := h.getPacketid
  simp only [mqttPublish, Table.mqttPublish, hq, hr]
  refine ⟨hnext.put ?_ ?_ ?_ ?_ ?_ ?_, trivial⟩
  · exact hnext.topicsCount
  · exact hnext.topics
  · rw [hnext.qos]
  · exact hnext.qos
  · rfl
  · exact hnext.named

/-- The topics subscribed and the cancellations are kept in `Table` only. -/
theorem Sim.ghost (h : Sim c ctx p) {subscribed : List (List UInt8)} {misanswered : Bool} :
    Sim c { ctx with subscribed := subscribed, misanswered := misanswered } p :=
  ⟨h.topicsCount, h.topics, h.publish, h.qos, h.counter, h.small, h.named, h.running⟩

/-- The context behind a call of `Table`. -/
def tableCall (ctx : Table.MQTTCtx) : Table.TableCall → Table.MQTTCtx
  | .subscribe topicName qos x => (Table.mqttSubscribe topicName qos x ctx).1
  | .unsubscribe topicName x => (Table.mqttUnsubscribe topicName x ctx).1
  | .unsubscribeAll x => (Table.mqttUnsubscribeAll x ctx).1
  | .publish data topicName rc => (Table.mqttPublish data topicName rc ctx).1

theorem table_step {call : Table.TableCall} (ht : ctx.step call = some t) :
    ∃ subscribed misanswered, t = { tableCall ctx call with subscribed := subscribed, misanswered := misanswered } := by
  unfold Table.MQTTCtx.step at ht
  split_ifs at ht
  cases call with
  | subscribe topicName qos x =>
    dsimp only [tableCall] at ht ⊢
    generalize Table.mqttSubscribe topicName qos x ctx = a at ht ⊢
    obtain rfl := Option.some.inj ht
    split_ifs
    · exact ⟨_, _, rfl⟩
    · exact ⟨_, _, rfl⟩
  | unsubscribe topicName x =>
    dsimp only [tableCall] at ht ⊢
    generalize Table.mqttUnsubscribe topicName x ctx = a at ht ⊢
    obtain rfl := Option.some.inj ht
    split_ifs
    · exact ⟨_, _, rfl⟩
    · exact ⟨_, _, rfl⟩
  | unsubscribeAll x =>
    dsimp only [tableCall] at ht ⊢
    generalize Table.mqttUnsubscribeAll x ctx = a at ht ⊢
    obtain rfl := Option.some.inj ht
    split_ifs
    · exact ⟨_, _, rfl⟩
    · exact ⟨_, _, rfl⟩
  | publish data topicName rc =>
    obtain rfl := Option.some.inj ht
    exact ⟨_, _, rfl⟩

/-- **A call inside the array** is the same here. -/
theorem Sim.step (h : Sim c ctx p) {call : Table.TableCall} (ht : ctx.step call = some t) (hinside : t.overrun = false) :
    ∃ q, p.step (act c call) = some q ∧ Sim c t q := by
  obtain ⟨subscribed, misanswered, rfl⟩ := table_step ht
  have hstep : ∀ {a : Act} {q : Port}, (if p.faulted then none else some q) = p.step a → p.step a = some q := by
    intro a q heq
    rw [← heq, h.running]
    rfl
  cases call with
  | subscribe topicName qos x => exact ⟨_, hstep rfl, (h.subscribe topicName qos x hinside).1.ghost⟩
  | unsubscribe topicName x => exact ⟨_, hstep rfl, (h.unsubscribe topicName x hinside).1.ghost⟩
  | unsubscribeAll x => exact ⟨_, hstep rfl, (h.unsubscribeAll x hinside).1.ghost⟩
  | publish data topicName rc => exact ⟨_, hstep rfl, (h.publishing data topicName rc).1.ghost⟩

end Simulation

/-- The context that `mqtt_ctx_create` makes. -/
def MQTTCtx.init : MQTTCtx := ⟨⟨0, 0, none⟩, ⟨0, 0, none⟩, 0, fun _ => ⟨none, 0, 0⟩, ⟨0, 0, none, []⟩, 0⟩

/-- **Inside the array** every run of `Table` is a run on the context `c`. -/
theorem simulates (c : ℕ) {calls : List Table.TableCall} {t : Table.MQTTCtx}
    (ht : exec Table.MQTTCtx.step .init calls = some t) (hinside : t.overrun = false) :
    ∃ q, exec Port.step (.boot fun _ => .init) (calls.map (act c)) = some q ∧ Sim c t q := by
  refine exec_simulated (P := fun ctx => ctx.overrun = false) (S := Sim c) (f := act c) ?_ ?_ ?_ ht hinside
  · intro ctx call t ht
    unfold Table.MQTTCtx.step at ht
    split_ifs at ht with hover
    simpa using hover
  · exact fun ctx call t p h ht hok => h.step ht hok
  · exact ⟨rfl, rfl, rfl, rfl, rfl, by decide, fun h => absurd rfl h, rfl⟩

end W601.Mqtt.PacketId
