import W601.Lib.CMem

/-!
# Which MQTT messages reach `mqtt_handle_set`

wolfMQTT hands a PUBLISH to `mqtt_message_cb` in one or more callbacks: the first with the topic and
what the receive buffer held of the payload, the others with no topic (null, length `0`) and the next
bytes, each over the last ones. `mqtt_message_cb` looks at the last callback only, and compares as many
bytes of `params_set_topic` as the topic is long.

* `readPayload_later`: a message in several callbacks always reaches `mqtt_handle_set`, with its last
  piece.
* `dispatched_exactly_iff`: the messages for which the dispatch is exact.
-/

namespace W601.Mqtt

open CMem

/-- `MAX_TOPIC_LENGTH`. -/
def maxTopicLength : ℕ := 100

/-- `MAX_BUFFER_SIZE`, the length of the receive buffer. -/
def rxBufLen : ℕ := 1024

/-- The C strings of the configuration that name the device. -/
structure MqttCfg where
  productKey : List UInt8
  deviceName : List UInt8
  productKey_nulFree : 0 ∉ productKey
  deviceName_nulFree : 0 ∉ deviceName

/-- The topic of the property settings, as `mqtt_cfg_parse` prints it. -/
def setTopic (cfg : MqttCfg) : List UInt8 :=
  text "/sys/" ++ cfg.productKey ++ text "/" ++ cfg.deviceName ++ text "/thing/service/property/set"

/-- The memory from `params_set_topic` on, after `mqtt_init` has cleared the configuration and
`mqtt_cfg_parse` has printed the topic; `m` is what was there before. -/
def paramsSetTopic (cfg : MqttCfg) (m : ℤ → UInt8) : ℤ → UInt8 :=
  store (store m 0 (List.replicate maxTopicLength 0)) 0 (snprintf maxTopicLength (setTopic cfg))

/-- `rt_memcmp` of the bytes `s` with the memory at `i`. -/
def rtMemcmp (m : ℤ → UInt8) : ℤ → List UInt8 → ℤ
  | _, [] => 0
  | i, c :: s =>
    let res : ℤ := c.toNat - (m i).toNat
    if res ≠ 0 then res else rtMemcmp m (i + 1) s

/-- The fields of `MqttPublish` that the loop and the callback use. -/
structure MqttPublish where
  /-- `topic_name` and `topic_name_len`; `none` is the null pointer with length `0`. -/
  topicName : Option (List UInt8)
  /-- The `buffer_len` bytes at `buffer`. -/
  buffer : List UInt8
  bufferPos : ℕ
  totalLen : ℕ
  bufferNew : Bool

/-- What the application has done with the messages so far. -/
structure MqttApp where
  /-- The calls of `mqtt_handle_set`. -/
  handled : List (List UInt8)
  /-- The number of calls of `mqtt_publish_info`. -/
  published : ℕ

section Code

variable (handleSet : List UInt8 → ℤ) (params : ℤ → UInt8)

/-- `mqtt_message_cb`; it always answers `MQTT_CODE_SUCCESS`. -/
def mqttMessageCb (msg : MqttPublish) (msgDone : Bool) (app : MqttApp) : MqttApp :=
  if msgDone then
    -- only as many bytes as the incoming topic has are compared
    if rtMemcmp params 0 (msg.topicName.getD []) = 0 then
      let app := { app with handled := app.handled ++ [msg.buffer] }
      if handleSet msg.buffer = 0 then { app with published := app.published + 1 } else app
    else app
  else app

/-- The loop of `MqttClient_Publish_ReadPayload`: the list is what the next socket reads give, `none`
for an error; behind its end the socket times out. The answer says whether the message came whole. -/
def publishReadPayload : List (Option (List UInt8)) → MqttPublish → MqttApp → MqttApp × Bool
  | reads, publish, app =>
    let msgDone : Bool := publish.bufferPos + publish.buffer.length ≥ publish.totalLen
    -- callback for a new message, the topic is valid here only
    let app := if publish.bufferNew then mqttMessageCb handleSet params publish msgDone app else app
    let publish := if publish.bufferNew then { publish with topicName := none, bufferNew := false } else publish
    if msgDone then (app, true)
    else
      let pos := publish.bufferPos + publish.buffer.length
      let msgLen := min (publish.totalLen - pos) rxBufLen
      match reads with
      | [] => (app, false)
      | none :: _ => (app, false)
      | some c :: reads =>
        -- the receive buffer is used again, the piece before is gone
        let publish := { publish with bufferPos := pos, buffer := c.take msgLen }
        let msgDone : Bool := publish.bufferPos + publish.buffer.length ≥ publish.totalLen
        let app := mqttMessageCb handleSet params publish msgDone app
        if msgDone then (app, true) else publishReadPayload reads publish app

end Code

/-- A PUBLISH as the broker sends it and the socket delivers it. -/
structure Delivery where
  topic : List UInt8
  /-- The piece of the payload in the receive buffer behind the header. -/
  first : List UInt8
  /-- The pieces that the later reads give; a read may give nothing, the last one does not. -/
  rest : List (List UInt8)
  short : ∀ c ∈ rest, c.length ≤ rxBufLen
  last : ∀ h : rest ≠ [], rest.getLast h ≠ []

/-- The payload of the message. -/
def Delivery.payload (d : Delivery) : List UInt8 := d.first ++ d.rest.flatten

/-- The message as `MqttDecode_Publish` leaves it. -/
def Delivery.publish (d : Delivery) : MqttPublish := ⟨some d.topic, d.first, 0, d.payload.length, true⟩

/-- The calls of `mqtt_handle_set` for one message. -/
def handled (handleSet : List UInt8 → ℤ) (params : ℤ → UInt8) (d : Delivery) : List (List UInt8) :=
  (publishReadPayload handleSet params (d.rest.map some) d.publish ⟨[], 0⟩).1.handled

/-- **The dispatch is exact**: the payload of a message under the set topic is handled once and whole,
and no other message is handled. -/
def DispatchedExactly (handleSet : List UInt8 → ℤ) (cfg : MqttCfg) (m : ℤ → UInt8) (d : Delivery) : Prop :=
  handled handleSet (paramsSetTopic cfg m) d = if d.topic = setTopic cfg then [d.payload] else []

/-! ## The comparison -/

theorem rtMemcmp_eq_zero {m : ℤ → UInt8} {s : List UInt8} : ∀ {i : ℤ}, rtMemcmp m i s = 0 ↔ At m i s := by
  induction s with
  | nil => intro i; simp [rtMemcmp, At]
  | cons c s ih =>
    intro i
    have hbyte : (c.toNat : ℤ) - (m i).toNat = 0 ↔ m i = c := by
      rw [sub_eq_zero, Nat.cast_inj, eq_comm, UInt8.toNat_inj]
    simp only [rtMemcmp, At]
    by_cases h : m i = c
    · rw [if_neg (by simpa using hbyte.2 h), ih]
      simp [h]
    · have hne := mt hbyte.1 h
      rw [if_pos hne]
      simp [hne, h]

variable {handleSet : List UInt8 → ℤ} {params : ℤ → UInt8} {cfg : MqttCfg} {m : ℤ → UInt8}

theorem setTopic_nulFree (cfg : MqttCfg) : 0 ∉ setTopic cfg := by
  have h1 := cfg.productKey_nulFree
  have h2 := cfg.deviceName_nulFree
  simp only [setTopic, List.mem_append, not_or]
  exact ⟨⟨⟨⟨by decide, h1⟩, by decide⟩, h2⟩, by decide⟩

/-- The set topic is found in its buffer exactly when it fits, with its terminator. -/
theorem setTopic_stored_iff : At (paramsSetTopic cfg m) 0 (setTopic cfg) ↔
    (setTopic cfg).length < maxTopicLength := by
  constructor
  · intro h
    by_contra hlen
    -- byte 99 is the terminator of the cut topic, and no byte of the topic is zero
    have hcut : At (paramsSetTopic cfg m) 0 ((setTopic cfg).take (maxTopicLength - 1) ++ [0]) := at_store _ _ _
    have hlt : maxTopicLength - 1 < (setTopic cfg).length := by unfold maxTopicLength at hlen ⊢; omega
    have hsplit : setTopic cfg = (setTopic cfg).take (maxTopicLength - 1) ++
        (setTopic cfg).get ⟨maxTopicLength - 1, hlt⟩ :: (setTopic cfg).drop (maxTopicLength - 1 + 1) := by
      rw [List.get_eq_getElem, List.getElem_cons_drop, List.take_append_drop]
    rw [hsplit] at h
    have h1 := ((at_append _ _ _ _).1 h).2.1
    have h2 := ((at_append _ _ _ _).1 hcut).2.1
    have hzero : (setTopic cfg).get ⟨maxTopicLength - 1, hlt⟩ = 0 := h1.symm.trans h2
    exact setTopic_nulFree cfg (hzero ▸ List.get_mem _ _)
  · intro hlen
    have hs := strAt_store_snprintf (setTopic_nulFree cfg) hlen (store m 0 (List.replicate maxTopicLength 0)) 0
    exact ((at_append _ _ _ _).1 hs.1).1

/-! ## The callbacks -/

theorem mqttMessageCb_done (msg : MqttPublish) (app : MqttApp) :
    (mqttMessageCb handleSet params msg true app).handled =
      if At params 0 (msg.topicName.getD []) then app.handled ++ [msg.buffer] else app.handled := by
  unfold mqttMessageCb
  rw [if_pos rfl]
  by_cases h : At params 0 (msg.topicName.getD [])
  · rw [if_pos (rtMemcmp_eq_zero.2 h), if_pos h]
    dsimp only
    split <;> rfl
  · rw [if_neg (mt rtMemcmp_eq_zero.1 h), if_neg h]

theorem flatten_pos {rest : List (List UInt8)} (h : rest ≠ []) (hlast : rest.getLast h ≠ []) :
    0 < rest.flatten.length := by
  rw [List.length_pos_iff]
  intro hnil
  exact hlast (List.flatten_eq_nil_iff.1 hnil _ (List.getLast_mem h))

/-- **The later callbacks**: the last piece is handled, whatever the topic was. -/
theorem readPayload_later : ∀ (rest : List (List UInt8)) (h : rest ≠ []) (publish : MqttPublish) (app : MqttApp),
    (∀ c ∈ rest, c.length ≤ rxBufLen) → rest.getLast h ≠ [] → publish.bufferNew = false →
    publish.topicName = none →
    publish.bufferPos + publish.buffer.length + rest.flatten.length = publish.totalLen →
    (publishReadPayload handleSet params (rest.map some) publish app).1.handled =
      app.handled ++ [rest.getLast h] := by
  intro rest
  induction rest with
  | nil => intro h; exact absurd rfl h
  | cons c cs ih =>
    intro h publish app hshort hlast hnew htopic htotal
    have hc : c.length ≤ rxBufLen := hshort c List.mem_cons_self
    have hpos := flatten_pos h hlast
    rw [List.flatten_cons, List.length_append] at htotal hpos
    have htake : c.take (min (publish.totalLen - (publish.bufferPos + publish.buffer.length)) rxBufLen) = c :=
      List.take_of_length_le (by omega)
    rw [List.map_cons, publishReadPayload]
    simp only [hnew, Bool.false_eq_true, if_false, htake, htopic]
    rw [if_neg (by simp; omega)]
    -- the last piece, or one that is overwritten
    by_cases hcs : cs = []
    · subst hcs
      have hdone : decide (publish.bufferPos + publish.buffer.length + c.length ≥ publish.totalLen) = true := by
        simp at htotal ⊢; omega
      simp only [hdone, if_true, mqttMessageCb_done]
      simp [At]
    · rw [List.getLast_cons hcs] at hlast ⊢
      have hrest := flatten_pos hcs hlast
      have hdone : decide (publish.bufferPos + publish.buffer.length + c.length ≥ publish.totalLen) = false := by
        simp; omega
      simp only [hdone, Bool.false_eq_true, if_false]
      rw [ih hcs _ _ (fun x hx => hshort x (List.mem_cons_of_mem _ hx)) hlast rfl rfl (by dsimp only; omega)]
      simp [mqttMessageCb]

/-- The first callback of several does nothing but take the topic away. -/
theorem readPayload_first {reads : List (Option (List UInt8))} {publish : MqttPublish} {app : MqttApp}
    (hnew : publish.bufferNew = true)
    (hmore : publish.bufferPos + publish.buffer.length < publish.totalLen) :
    publishReadPayload handleSet params reads publish app =
      publishReadPayload handleSet params reads { publish with topicName := none, bufferNew := false } app := by
  have hdone : decide (publish.bufferPos + publish.buffer.length ≥ publish.totalLen) = false := by simpa using hmore
  conv_lhs => rw [publishReadPayload]
  conv_rhs => rw [publishReadPayload]
  simp only [hnew, hdone, mqttMessageCb, Bool.false_eq_true, if_false, if_true]

/-- **What one message calls**: the first piece when it is the only one and the topic is found at
`params_set_topic`, the last piece when there are several. -/
theorem handled_eq (d : Delivery) :
    handled handleSet params d =
      if h : d.rest = [] then if At params 0 d.topic then [d.first] else [] else [d.rest.getLast h] := by
  unfold handled
  by_cases h : d.rest = []
  · have hlen : d.payload.length = d.first.length := by simp [Delivery.payload, h]
    rw [dif_pos h, h, List.map_nil, publishReadPayload]
    simp only [Delivery.publish, hlen, Nat.zero_add, ge_iff_le, le_refl, decide_true, if_true, mqttMessageCb_done,
      Option.getD_some, List.nil_append]
  · have hpos := flatten_pos h (d.last h)
    have hlen : d.payload.length = d.first.length + d.rest.flatten.length := by
      rw [Delivery.payload, List.length_append]
    have hmore : d.publish.bufferPos + d.publish.buffer.length < d.publish.totalLen := by
      simp only [Delivery.publish]; omega
    rw [dif_neg h, readPayload_first rfl hmore,
      readPayload_later d.rest h _ _ d.short (d.last h) rfl rfl (by simp only [Delivery.publish]; omega)]
    rfl

/-- **When the dispatch is exact.** A message in one callback: the set topic must fit its buffer, and
another topic must not be what the memory at `params_set_topic` begins with. A message in several
callbacks: it must come under the set topic, with all pieces before the last one empty. -/
theorem dispatched_exactly_iff (handleSet : List UInt8 → ℤ) (cfg : MqttCfg) (m : ℤ → UInt8) (d : Delivery) :
    DispatchedExactly handleSet cfg m d ↔
      (d.rest = [] ∧ (d.topic = setTopic cfg → (setTopic cfg).length < maxTopicLength) ∧
        (d.topic ≠ setTopic cfg → ¬ At (paramsSetTopic cfg m) 0 d.topic)) ∨
      (d.rest ≠ [] ∧ d.topic = setTopic cfg ∧ d.first = [] ∧ d.rest.dropLast.flatten = []) := by
  unfold DispatchedExactly
  rw [handled_eq]
  by_cases h : d.rest = []
  · have hpay : d.payload = d.first := by simp [Delivery.payload, h]
    rw [dif_pos h]
    simp only [h, true_and, ne_eq, not_true_eq_false, false_and, or_false]
    by_cases ht : d.topic = setTopic cfg
    · simp only [ht, if_true, setTopic_stored_iff, hpay, forall_const, not_true_eq_false, false_implies, and_true]
      split <;> simp_all
    · simp only [ht, if_false, false_implies, true_and, not_false_eq_true, forall_const]
      split <;> simp_all
  · have hsplit : d.payload = (d.first ++ d.rest.dropLast.flatten) ++ d.rest.getLast h := by
      conv_lhs => rw [Delivery.payload, ← List.dropLast_append_getLast h]
      simp
    rw [dif_neg h]
    simp only [h, false_and, ne_eq, not_false_eq_true, true_and, false_or]
    by_cases ht : d.topic = setTopic cfg
    · simp only [ht, if_true, true_and, hsplit, List.cons.injEq, and_true]
      rw [eq_comm, List.append_left_eq_self, List.append_eq_nil_iff]
    · simp [ht]

def sampleCfg : MqttCfg := ⟨text "a1", text "w601", by decide, by decide⟩

/-- A short message under the topic `/sys`. -/
def shortTopic : Delivery := ⟨text "/sys", text "1", [], by simp, by simp⟩

/-- A payload of 1000 bytes under the set topic, of which the receive buffer holds the first 960. -/
def longPayload : Delivery :=
  ⟨setTopic sampleCfg, List.replicate 960 0x20, [List.replicate 40 0x20], by simp [rxBufLen], by simp⟩

/-- **A topic that the set topic begins with is handled, and a long payload is handled without its
first piece.** -/
theorem shortTopic_handled_longPayload_cut :
    ¬ DispatchedExactly (fun _ => -1) sampleCfg (fun _ => 0) shortTopic ∧
      ¬ DispatchedExactly (fun _ => -1) sampleCfg (fun _ => 0) longPayload := by
  unfold DispatchedExactly
  rw [handled_eq, handled_eq]
  refine ⟨by decide +kernel, fun h => ?_⟩
  have hne : longPayload.rest ≠ [] := List.cons_ne_nil _ _
  have htopic : longPayload.topic = setTopic sampleCfg := rfl
  rw [dif_neg hne, if_pos htopic, List.cons.injEq] at h
  have hlen := congrArg List.length h.1
  simp only [longPayload, Delivery.payload, List.getLast_singleton, List.flatten_cons, List.flatten_nil,
    List.append_nil, List.length_append, List.length_replicate] at hlen
  omega

end W601.Mqtt
