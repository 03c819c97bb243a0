import W601.Lib.CMem
import W601.Lib.Runs

/-!
# The LEDs (`board_module.c`) and their views

A pin is active low: `LED_ON` is 0. `led_write` keeps a flag for each LED, which is 1 when the pin is on, and
`mqtt_create_info` reports the flag. `json_create_device_status` compares the flag with `LED_ON`. The web handler
`cgi_led_toggle` and the message handler `mqtt_handle_set` write the LEDs; `led_module_init` clears the flags and
leaves the pins as they are.

* `status_opposes_info`: the device status is `ON` exactly when the MQTT report is not 1.
* `info_agrees`: the MQTT report follows the pins as long as they are not written before `led_module_init`.
* `views_agree_iff`: no LED that has been written has all its views agree.
-/

namespace W601.Led

open CMem Runs

/-- `led_id_e`. -/
inductive LedId where
  | red
  | green
  | blue
  deriving DecidableEq, Repr

/-- `LED_ON`. -/
def ledOn : UInt8 := 0

/-- `LED_OFF`. -/
def ledOff : UInt8 := 1

/-- The LEDs. -/
structure Board where
  /-- The last level written to the pin, if there was one. -/
  pin : LedId → Option UInt8
  /-- The bits of `w601.rgb`. -/
  rgb : LedId → BitVec 1

/-- The board before anything has run. -/
def Board.boot : Board := ⟨fun _ => none, fun _ => 0⟩

/-- `led_module_init`. -/
def ledModuleInit (b : Board) : Board := { b with rgb := fun _ => 0 }

/-- `led_write`. -/
def ledWrite (led : LedId) (status : UInt8) (b : Board) : Board where
  pin := Function.update b.pin led (some status)
  rgb := Function.update b.rgb led (if status = ledOn then 1 else 0)

/-- The word of the flag of one LED in `json_create_device_status`. -/
def statusWord (flag : BitVec 1) : List UInt8 := if flag.toNat = ledOn.toNat then text "ON" else text "OFF"

/-- The members of `json_create_device_status`. -/
def jsonCreateDeviceStatus (b : Board) : List (String × List UInt8) :=
  [("redLedStatus", statusWord (b.rgb .red)), ("greenLedStatus", statusWord (b.rgb .green)),
    ("blueLedStatus", statusWord (b.rgb .blue))]

/-- The members of the `params` of `mqtt_create_info` that are about LEDs. -/
def mqttCreateInfo (b : Board) : List (String × ℕ) :=
  [("red_led", (b.rgb .red).toNat), ("blue_led", (b.rgb .blue).toNat), ("green_led", (b.rgb .green).toNat)]

/-! ## The handlers -/

/-- `strcmp` is 0; there is no answer for a null pointer. -/
def strEq (s : Option (List UInt8)) (word : String) : Option Bool := s.map fun s => decide (s = text word)

/-- The branch of `cgi_led_toggle` for one LED. -/
def toggleLed (led : LedId) (status : Option (List UInt8)) (b : Board) : Option Board :=
  (strEq status "OFF").map fun off => if off then ledWrite led ledOn b else ledWrite led ledOff b

/-- `cgi_led_toggle`; there is no board behind a null pointer given to `strcmp`. -/
def cgiLedToggle (id status : Option (List UInt8)) (b : Board) : Option Board :=
  (strEq id "red").bind fun red =>
    if red then toggleLed .red status b
    else (strEq id "green").bind fun green =>
      if green then toggleLed .green status b
      else (strEq id "blue").bind fun blue =>
        if blue then toggleLed .blue status b else some b

/-- The fields of a `cJSON` node that `mqtt_handle_set` reads. -/
inductive CJson where
  | node (string : Option (List UInt8)) (valueint : ℤ) (child : List CJson)

/-- The name of a node in its object. -/
def CJson.string : CJson → Option (List UInt8)
  | node s _ _ => s

/-- The number of a node. -/
def CJson.valueint : CJson → ℤ
  | node _ n _ => n

/-- The list of a node's children. -/
def CJson.child : CJson → List CJson
  | node _ _ l => l

/-- `tolower`. -/
def tolower (c : UInt8) : UInt8 := if 65 ≤ c ∧ c ≤ 90 then c + 32 else c

/-- `cJSON_GetObjectItem`, which compares with `cJSON_strcasecmp`. -/
def cJSONGetObjectItem (object : CJson) (string : String) : Option CJson :=
  object.child.find? fun c => c.string.map (·.map tolower) = some ((text string).map tolower)

/-- One round of the loop of `mqtt_handle_set`; `str_compare` takes no null pointer. -/
def setMember (b : Board) (el : CJson) : Option Board :=
  el.string.map fun name =>
    if name = text "wol" then b
    else if name = text "red_led" then ledWrite .red (if el.valueint ≠ 0 then ledOn else ledOff) b
    else if name = text "green_led" then ledWrite .green (if el.valueint ≠ 0 then ledOn else ledOff) b
    else if name = text "blue_led" then ledWrite .blue (if el.valueint ≠ 0 then ledOn else ledOff) b
    else b

/-- The nodes that the loop of `mqtt_handle_set` goes through. -/
def setMembers (parse : List UInt8 → Option CJson) (buffer : List UInt8) : List CJson :=
  (((parse buffer).bind fun root => cJSONGetObjectItem root "params").map CJson.child).getD []

/-- `mqtt_handle_set`, with `parse` for `cJSON_Parse`. -/
def mqttHandleSet (parse : List UInt8 → Option CJson) (buffer : List UInt8) (b : Board) : Option Board :=
  (setMembers parse buffer).foldlM setMember b

/-! ## The runs -/

/-- What happens to the LEDs. -/
inductive Ev where
  | init
  | toggle (id status : List UInt8)
  | set (buffer : List UInt8)

/-- One event; nothing comes after a null pointer. -/
def step (parse : List UInt8 → Option CJson) (b : Board) : Ev → Option Board
  | .init => some (ledModuleInit b)
  | .toggle id status => cgiLedToggle (some id) (some status) b
  | .set buffer => mqttHandleSet parse buffer b

/-- The name of an LED in a `led_toggle` request. -/
def LedId.id : LedId → String
  | red => "red"
  | green => "green"
  | blue => "blue"

/-- The name of an LED in `json_create_device_status`. -/
def LedId.statusKey : LedId → String
  | red => "redLedStatus"
  | green => "greenLedStatus"
  | blue => "blueLedStatus"

/-- The name of an LED in the MQTT messages. -/
def LedId.property : LedId → String
  | red => "red_led"
  | green => "green_led"
  | blue => "blue_led"

/-- The event names the LED. -/
def Ev.Names (parse : List UInt8 → Option CJson) (led : LedId) : Ev → Prop
  | init => False
  | toggle id _ => id = text led.id
  | set buffer => ∃ el ∈ setMembers parse buffer, el.string = some (text led.property)

/-- **The views of an LED agree** with the last level written to its pin: the device status, the MQTT report, and
the toggle with the reported status. -/
structure AgreesOn (led : LedId) (level : UInt8) (b : Board) : Prop where
  status : level = ledOn ↔ (jsonCreateDeviceStatus b).lookup led.statusKey = some (text "ON")
  info : level = ledOn ↔ (mqttCreateInfo b).lookup led.property = some 1
  inverts : ∀ t, cgiLedToggle (some (text led.id)) ((jsonCreateDeviceStatus b).lookup led.statusKey) b = some t →
    t.pin led = some (if level = ledOn then ledOff else ledOn)

/-- All LEDs that have been written have their views agree. -/
def Agree (b : Board) : Prop := ∀ led level, b.pin led = some level → AgreesOn led level b

/-! ## The views -/

theorem status_lookup (b : Board) (led : LedId) :
    (jsonCreateDeviceStatus b).lookup led.statusKey = some (statusWord (b.rgb led)) := by
  cases led <;> rfl

theorem info_lookup (b : Board) (led : LedId) :
    (mqttCreateInfo b).lookup led.property = some (b.rgb led).toNat := by
  cases led <;> rfl

theorem flag_cases (flag : BitVec 1) : flag = 0 ∨ flag = 1 := by
  have h := flag.isLt
  have h2 : flag.toNat = 0 ∨ flag.toNat = 1 := by omega
  rcases h2 with h2 | h2
  · exact Or.inl (BitVec.eq_of_toNat_eq h2)
  · exact Or.inr (BitVec.eq_of_toNat_eq h2)

/-- **The device status is `ON` exactly when the MQTT report is not 1**, because it compares the flag with the
level of the pin. -/
theorem status_opposes_info (b : Board) (led : LedId) :
    (jsonCreateDeviceStatus b).lookup led.statusKey = some (text "ON") ↔
      (mqttCreateInfo b).lookup led.property ≠ some 1 := by
  rw [status_lookup, info_lookup]
  rcases flag_cases (b.rgb led) with h | h
  · rw [h]
    decide
  · rw [h]
    decide

/-- So the views of an LED that has been written never agree. -/
theorem not_agreesOn (b : Board) (led : LedId) (level : UInt8) : ¬ AgreesOn led level b := by
  intro h
  have hsame := h.status.symm.trans h.info
  have hopp := status_opposes_info b led
  by_cases hinfo : (mqttCreateInfo b).lookup led.property = some 1
  · exact hopp.1 (hsame.2 hinfo) hinfo
  · exact hinfo (hsame.1 (hopp.2 hinfo))

/-! ## The pins behind a step -/

/-- **The cases of a `led_toggle` request.** -/
theorem cgiLedToggle_cases {id status : List UInt8} {b t : Board} (h : cgiLedToggle (some id) (some status) b = some t) :
    (∃ led : LedId, id = text led.id ∧ t = ledWrite led (if status = text "OFF" then ledOn else ledOff) b) ∨
      ((∀ led : LedId, id ≠ text led.id) ∧ t = b) := by
  have htoggle : ∀ led, toggleLed led (some status) b = some t →
      t = ledWrite led (if status = text "OFF" then ledOn else ledOff) b := by
    intro led ht
    have ht' := (Option.some.inj ht).symm
    by_cases hoff : status = text "OFF"
    · simpa [hoff] using ht'
    · simpa [hoff] using ht'
  simp only [cgiLedToggle, strEq, Option.map_some, Option.bind_some, decide_eq_true_eq] at h
  split_ifs at h with hr hg hb
  · exact Or.inl ⟨.red, hr, htoggle _ h⟩
  · exact Or.inl ⟨.green, hg, htoggle _ h⟩
  · exact Or.inl ⟨.blue, hb, htoggle _ h⟩
  · refine Or.inr ⟨fun led => ?_, (Option.some.inj h).symm⟩
    cases led with
    | red => exact hr
    | green => exact hg
    | blue => exact hb

/-- **The cases of a member** of a set message. -/
theorem setMember_cases {el : CJson} {b t : Board} (h : setMember b el = some t) :
    (∃ led : LedId, el.string = some (text led.property) ∧
        t = ledWrite led (if el.valueint ≠ 0 then ledOn else ledOff) b) ∨
      ((∀ led : LedId, el.string ≠ some (text led.property)) ∧ t = b) := by
  obtain ⟨name, hname, ht⟩ := Option.map_eq_some_iff.1 h
  rw [hname]
  simp only [ne_eq, Option.some.injEq]
  simp only [ne_eq] at ht
  generalize (if ¬ el.valueint = 0 then ledOn else ledOff) = level at ht ⊢
  split_ifs at ht with hw hr hg hb
  · refine Or.inr ⟨fun led => ?_, ht.symm⟩
    rw [hw]
    cases led <;> decide
  · exact Or.inl ⟨.red, hr, ht.symm⟩
  · exact Or.inl ⟨.green, hg, ht.symm⟩
  · exact Or.inl ⟨.blue, hb, ht.symm⟩
  · refine Or.inr ⟨fun led => ?_, ht.symm⟩
    cases led with
    | red => exact hr
    | green => exact hg
    | blue => exact hb

theorem LedId.property_inj {led led' : LedId} (h : text led.property = text led'.property) : led = led' := by
  revert h
  cases led <;> cases led' <;> decide

theorem LedId.id_inj {led led' : LedId} (h : text led.id = text led'.id) : led = led' := by
  revert h
  cases led <;> cases led' <;> decide

theorem ledWrite_written (led led' : LedId) (status : UInt8) (b : Board) :
    ((ledWrite led status b).pin led').isSome ↔ (b.pin led').isSome ∨ led = led' := by
  by_cases h : led = led'
  · subst h
    simp [ledWrite]
  · simp [ledWrite, Function.update_of_ne (Ne.symm h), h]

theorem members_written (l : List CJson) (led : LedId) : ∀ b t : Board, l.foldlM setMember b = some t →
    ((t.pin led).isSome ↔ (b.pin led).isSome ∨ ∃ el ∈ l, el.string = some (text led.property)) := by
  induction l with
  | nil =>
    intro b t h
    obtain rfl := Option.some.inj h
    simp
  | cons el l ih =>
    intro b t h
    rw [List.foldlM_cons] at h
    obtain ⟨m, hm, ht⟩ := Option.bind_eq_some_iff.1 h
    rw [ih m t ht]
    simp only [List.mem_cons, exists_eq_or_imp]
    rcases setMember_cases hm with ⟨led', hname, rfl⟩ | ⟨hnone, rfl⟩
    · rw [ledWrite_written, hname]
      have hiff : some (text led'.property) = some (text led.property) ↔ led' = led :=
        ⟨fun h => LedId.property_inj (Option.some.inj h), fun h => by rw [h]⟩
      rw [hiff]
      tauto
    · have := hnone led
      tauto

/-- **The LEDs that have been written behind a step** are those before it and those that it names. -/
theorem step_written {parse : List UInt8 → Option CJson} {b t : Board} {e : Ev} (h : step parse b e = some t)
    (led : LedId) : (t.pin led).isSome ↔ (b.pin led).isSome ∨ e.Names parse led := by
  cases e with
  | init =>
    obtain rfl := Option.some.inj h
    simp [ledModuleInit, Ev.Names]
  | toggle id status =>
    rcases cgiLedToggle_cases h with ⟨led', rfl, rfl⟩ | ⟨hnone, rfl⟩
    · rw [ledWrite_written]
      have hiff : led' = led ↔ text led'.id = text led.id := ⟨fun h => by rw [h], LedId.id_inj⟩
      rw [hiff]
      rfl
    · have := hnone led
      simp [Ev.Names, this]
  | set buffer => exact members_written _ led b t h

/-! ## The MQTT report -/

/-- The flags follow the pins that have been written. -/
def FlagsFollow (b : Board) : Prop := ∀ led level, b.pin led = some level → b.rgb led = if level = ledOn then 1 else 0

theorem FlagsFollow.write {b : Board} (h : FlagsFollow b) (led : LedId) (status : UInt8) :
    FlagsFollow (ledWrite led status b) := by
  intro led' level hpin
  by_cases hled : led' = led
  · subst hled
    simp only [ledWrite, Function.update_self, Option.some.injEq] at hpin ⊢
    rw [hpin]
  · simp only [ledWrite, Function.update_of_ne hled] at hpin ⊢
    exact h led' level hpin

theorem FlagsFollow.members (l : List CJson) : ∀ b t : Board, FlagsFollow b → l.foldlM setMember b = some t →
    FlagsFollow t := by
  induction l with
  | nil =>
    intro b t hb h
    obtain rfl := Option.some.inj h
    exact hb
  | cons el l ih =>
    intro b t hb h
    rw [List.foldlM_cons] at h
    obtain ⟨m, hm, ht⟩ := Option.bind_eq_some_iff.1 h
    refine ih m t ?_ ht
    rcases setMember_cases hm with ⟨led', -, rfl⟩ | ⟨-, rfl⟩
    · exact hb.write _ _
    · exact hb

/-- **The MQTT report follows the pins** when `led_module_init` runs before they are written. -/
theorem info_agrees (parse : List UInt8 → Option CJson) (events : List Ev)
    (h : Orderly (step parse) (fun b e => e = .init → ∀ led, b.pin led = none) Board.boot events) :
    Upholds (step parse)
      (fun b => ∀ led level, b.pin led = some level →
        (level = ledOn ↔ (mqttCreateInfo b).lookup led.property = some 1)) Board.boot events := by
  refine upholds_of_orderly (I := FlagsFollow) ?_ ?_ ?_ h
  · intro b hb led level hpin
    rw [info_lookup, hb led level hpin]
    by_cases hon : level = ledOn <;> simp [hon]
  · intro b e t hb hg hs
    cases e with
    | init =>
      obtain rfl := Option.some.inj hs
      intro led level hpin
      have hnone : (ledModuleInit b).pin led = none := hg rfl led
      rw [hnone] at hpin
      exact absurd hpin (by simp)
    | toggle id status =>
      rcases cgiLedToggle_cases hs with ⟨led', -, rfl⟩ | ⟨-, rfl⟩
      · exact hb.write _ _
      · exact hb
    | set buffer => exact hb.members _ _ _ hs
  · intro led level hpin
    exact absurd hpin (by simp [Board.boot])

/-! ## All views -/

/-- **No LED that has been written has its views agree**: in every run, they agree in all states exactly when no
event names an LED. -/
theorem views_agree_iff (parse : List UInt8 → Option CJson) (events : List Ev) :
    Upholds (step parse) Agree Board.boot events ↔
      Orderly (step parse) (fun _ e => ∀ led : LedId, ¬ e.Names parse led) Board.boot events := by
  refine upholds_iff_orderly (I := fun b => ∀ led, ¬ (b.pin led).isSome) ?_ ?_ ?_ ?_
  · intro b hb led level hpin
    exact absurd (by rw [hpin]; rfl) (hb led)
  · intro b e t hb hg hs led hwritten
    rcases (step_written hs led).1 hwritten with h | h
    · exact hb led h
    · exact hg led h
  · intro b e t _ hg hs hagree
    push Not at hg
    obtain ⟨led, hnames⟩ := hg
    obtain ⟨level, hpin⟩ := Option.isSome_iff_exists.1 ((step_written hs led).2 (Or.inr hnames))
    exact not_agreesOn t led level (hagree led level hpin)
  · intro led h
    simp [Board.boot] at h

/-- **The red LED is switched on and reported `OFF`**, and the toggle with that status leaves it on. -/
theorem red_on_reported_off :
    ¬ Upholds (step fun _ => none) Agree Board.boot [.toggle (text "red") (text "OFF")] := by
  intro h
  have hagree := h.exec rfl
  have hred : AgreesOn .red ledOn (ledWrite .red ledOn Board.boot) := hagree .red ledOn rfl
  have hoff := hred.inverts (ledWrite .red ledOn (ledWrite .red ledOn Board.boot)) rfl
  revert hoff
  decide

end W601.Led
