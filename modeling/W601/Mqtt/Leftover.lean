import W601.Json.Extend
import W601.Mqtt.Dispatch
import W601.Mqtt.Property

/-!
# What is left in the receive buffer of MQTT

`mqtt_message_cb` hands the payload to `mqtt_handle_set` without its length, and `cJSON_Parse` reads on to the next NUL:
behind the payload it finds what earlier messages have left in the receive buffer.

* `handleSet_whole`, `handleSet_hopeless`: the payloads that need no text behind them.
* `determined_iff`: the messages whose effect does not depend on what is behind the payload.
-/

namespace W601.Mqtt

open CMem
open Json (Value cJSONParse)
open Led (LedId CJson ledOn)

/-- The C string at the beginning of a memory. -/
def cString (memory : List UInt8) : List UInt8 := memory.takeWhile (· ≠ 0)

/-- What the callback does for a message. -/
structure MsgEffect where
  /-- The calls of `led_write`. -/
  writes : List (LedId × UInt8)
  /-- Whether `mqtt_publish_info` is called; nothing comes behind a null pointer. -/
  publish : Option Bool
  deriving DecidableEq

/-- `mqtt_message_cb`, with the memory that is `behind` the payload. -/
def mqttMessageCbMem (params : ℤ → UInt8) (parse : List UInt8 → Option CJson) (msg : MqttPublish) (msgDone : Bool)
    (behind : List UInt8) : MsgEffect :=
  if msgDone then
    if rtMemcmp params 0 (msg.topicName.getD []) = 0 then
      -- only the pointer is handed on, not `buffer_len`
      let set := mqttHandleSet parse (cString (msg.buffer ++ behind))
      ⟨set.writes, set.rc.map fun rc => rc = 0⟩
    else ⟨[], some false⟩
  else ⟨[], some false⟩

/-- **The effect of a message depends only on the message.** -/
def Determined (params : ℤ → UInt8) (int : List UInt8 → ℤ) (msg : MqttPublish) (msgDone : Bool) : Prop :=
  ∀ behind₁ behind₂, mqttMessageCbMem params (parseNode cJSONParse int) msg msgDone behind₁ =
    mqttMessageCbMem params (parseNode cJSONParse int) msg msgDone behind₂

/-- The text is the beginning of an object, which does not end in it. -/
def CutOff (p : List UInt8) : Prop :=
  (∀ l, cJSONParse p ≠ some (.object l)) ∧ ∃ s l, 0 ∉ s ∧ cJSONParse (p ++ s) = some (.object l)

variable {params : ℤ → UInt8} {int : List UInt8 → ℤ}

/-! ## The string at the payload -/

theorem cString_nulFree (memory : List UInt8) : 0 ∉ cString memory :=
  fun h => by simpa using List.mem_takeWhile_imp h

theorem cString_append {p : List UInt8} (h : 0 ∉ p) (behind : List UInt8) :
    cString (p ++ behind) = p ++ cString behind :=
  List.takeWhile_append_of_pos fun c hc => by
    have hne : c ≠ 0 := fun h0 => h (h0 ▸ hc)
    simpa using hne

theorem cString_self {s : List UInt8} (h : 0 ∉ s) : cString s = s := by
  simpa [cString] using cString_append h []

theorem cString_of_nul {p : List UInt8} (h : 0 ∈ p) (behind : List UInt8) : cString (p ++ behind) = cString p := by
  unfold cString
  induction p with
  | nil => exact absurd h List.not_mem_nil
  | cons c p ih =>
    by_cases hc : c = 0
    · simp [hc]
    · have hp : 0 ∈ p := (List.mem_cons.1 h).resolve_left (Ne.symm hc)
      simpa [hc] using ih hp

/-- A message that is handed on, without a NUL in its payload. -/
theorem mqttMessageCbMem_handed {msg : MqttPublish} {msgDone : Bool} (hdone : msgDone = true)
    (htopic : At params 0 (msg.topicName.getD [])) (h0 : 0 ∉ msg.buffer) (parse : List UInt8 → Option CJson)
    (behind : List UInt8) :
    mqttMessageCbMem params parse msg msgDone behind =
      ⟨(mqttHandleSet parse (msg.buffer ++ cString behind)).writes,
        (mqttHandleSet parse (msg.buffer ++ cString behind)).rc.map fun rc => rc = 0⟩ := by
  rw [mqttMessageCbMem, if_pos hdone, if_pos (rtMemcmp_eq_zero.2 htopic), cString_append h0]

/-- **The callbacks agree**: a message is published exactly when the callback of the dispatch publishes it. -/
theorem mqttMessageCbMem_published (parse : List UInt8 → Option CJson) (msg : MqttPublish) (msgDone : Bool)
    (behind : List UInt8) (app : MqttApp) :
    (mqttMessageCb (fun buffer => (mqttHandleSet parse (cString (buffer ++ behind))).rc.getD (-1)) params msg msgDone
      app).published =
      app.published + if (mqttMessageCbMem params parse msg msgDone behind).publish = some true then 1 else 0 := by
  unfold mqttMessageCb mqttMessageCbMem
  by_cases hdone : msgDone = true
  · by_cases htopic : rtMemcmp params 0 (msg.topicName.getD []) = 0
    · simp only [hdone, htopic, if_true]
      cases (mqttHandleSet parse (cString (msg.buffer ++ behind))).rc with
      | none => simp
      | some rc => by_cases hrc : rc = 0 <;> simp [hrc]
    · simp [hdone, htopic]
  · simp [hdone]

/-! ## The payloads -/

theorem setLoop_rc (els : List CJson) : (setLoop els).rc = none ∨ (setLoop els).rc = some 0 := by
  induction els with
  | nil => exact Or.inr rfl
  | cons el els ih =>
    rw [setLoop]
    cases el.string with
    | none => exact Or.inl rfl
    | some name => exact ih

/-- A text that is not an object has no `params`. -/
theorem handleSet_hopeless {t : List UInt8} (h : ∀ l, cJSONParse t ≠ some (.object l)) :
    mqttHandleSet (parseNode cJSONParse int) t = ⟨[], some (-1)⟩ := by
  have hparams : paramsOf cJSONParse t = none := by
    unfold paramsOf
    cases hv : cJSONParse t with
    | none => rfl
    | some v =>
      cases v with
      | object l => exact absurd hv (h l)
      | null | false | true | number | string | array => rfl
  rw [handleSet_eq, hparams]

/-- **An object that is whole** needs no text behind it. -/
theorem handleSet_whole {p : List UInt8} {l : List (List UInt8 × Value)} (h : cJSONParse p = some (.object l))
    (s : List UInt8) :
    mqttHandleSet (parseNode cJSONParse int) (p ++ s) = mqttHandleSet (parseNode cJSONParse int) p := by
  rw [handleSet_eq, handleSet_eq, paramsOf, paramsOf, h, Json.cJSONParse_append h]

theorem handleSet_params (int : List UInt8 → ℤ) {t : List UInt8} {v : Value} (h : paramsOf cJSONParse t = some v) :
    (mqttHandleSet (parseNode cJSONParse int) t).rc = none ∨ (mqttHandleSet (parseNode cJSONParse int) t).rc = some 0 := by
  rw [handleSet_eq, h]
  exact setLoop_rc _

theorem readsMembers_params : Json.ReadsMembers (text "params\":\x7b\x7d\x7d") [(text "params", .object [])] := by
  refine ⟨[], fun m k hm hk => ?_⟩
  obtain ⟨m, rfl⟩ := Nat.exists_eq_succ_of_ne_zero hm.ne'
  obtain ⟨k, rfl⟩ := Nat.exists_eq_succ_of_ne_zero hk.ne'
  rfl

/-- **An object that is cut off** can be given a `params` by the text behind it. -/
theorem CutOff.completed {p : List UInt8} (h : CutOff p) :
    ∃ s v, 0 ∉ s ∧ paramsOf cJSONParse (p ++ s) = some v := by
  obtain ⟨hp, s, l, hs, hobject⟩ := h
  obtain ⟨x, sep, hx, hsep, hmore⟩ := Json.cJSONParse_insert hobject hp
  have hread := hmore _ _ readsMembers_params
  obtain ⟨m, hm⟩ : ∃ m, paramsMember (.object (l ++ [(text "params", .object [])])) = some m := by
    unfold paramsMember
    rw [← Option.isSome_iff_exists, List.find?_isSome]
    exact ⟨_, List.mem_append_right l List.mem_cons_self, by simp⟩
  refine ⟨x ++ (sep ++ 34 :: text "params\":\x7b\x7d\x7d"), m.2, ?_, ?_⟩
  · have hx0 : 0 ∉ x := fun h0 => hs (hx.subset h0)
    simp only [List.mem_append, not_or]
    exact ⟨hx0, hsep, by decide⟩
  · rw [paramsOf, hread, Option.bind_some, hm]
    rfl

/-- **When the effect of a message depends only on it**: it is not handed on, or its payload has a NUL, or the payload
is not an object that is cut off. -/
theorem determined_iff (params : ℤ → UInt8) (int : List UInt8 → ℤ) (msg : MqttPublish) (msgDone : Bool) :
    Determined params int msg msgDone ↔
      (msgDone = true → At params 0 (msg.topicName.getD []) → 0 ∉ msg.buffer → ¬ CutOff msg.buffer) := by
  constructor
  · intro h hdone htopic h0 hcut
    obtain ⟨s, v, hs, hv⟩ := hcut.completed
    -- nothing behind the payload, or text that brings `params`
    have heffect := congrArg MsgEffect.publish (h [] s)
    rw [mqttMessageCbMem_handed hdone htopic h0, mqttMessageCbMem_handed hdone htopic h0, cString_self hs,
      cString_self List.not_mem_nil, List.append_nil, handleSet_hopeless hcut.1] at heffect
    rcases handleSet_params int hv with hrc | hrc
    · simp [hrc] at heffect
    · simp [hrc] at heffect
  · intro h behind₁ behind₂
    by_cases hdone : msgDone = true
    · by_cases htopic : At params 0 (msg.topicName.getD [])
      · by_cases h0 : 0 ∈ msg.buffer
        · unfold mqttMessageCbMem
          rw [cString_of_nul h0, cString_of_nul h0]
        · rw [mqttMessageCbMem_handed hdone htopic h0, mqttMessageCbMem_handed hdone htopic h0]
          by_cases hwhole : ∃ l, cJSONParse msg.buffer = some (.object l)
          · obtain ⟨l, hl⟩ := hwhole
            rw [handleSet_whole hl, handleSet_whole hl]
          · have hnone : ∀ behind l, cJSONParse (msg.buffer ++ cString behind) ≠ some (.object l) := by
              intro behind l hl
              exact h hdone htopic h0 ⟨fun l hl => hwhole ⟨l, hl⟩, cString behind, l, cString_nulFree behind, hl⟩
            rw [handleSet_hopeless (hnone behind₁), handleSet_hopeless (hnone behind₂)]
      · unfold mqttMessageCbMem
        rw [if_pos hdone, if_pos hdone, if_neg (mt rtMemcmp_eq_zero.1 htopic), if_neg (mt rtMemcmp_eq_zero.1 htopic)]
    · unfold mqttMessageCbMem
      rw [if_neg hdone, if_neg hdone]

/-- A message under the set topic without a payload. -/
def emptyMessage : MqttPublish := ⟨some (setTopic sampleCfg), [], 0, 0, true⟩

/-- **A message without a payload does what the message before it has done.** -/
theorem empty_message_replays :
    ¬ Determined (paramsSetTopic sampleCfg fun _ => 0) CNum.atoi emptyMessage true := by
  intro h
  have hreplay := h [] (text "\x7b\"params\":\x7b\"red_led\":1\x7d\x7d")
  revert hreplay
  decide +kernel

end W601.Mqtt
