import W601.Board.Led
import W601.Json.CJson
import W601.Lib.CNum

/-!
# The property settings of MQTT (`mqtt_json.c`)

`mqtt_handle_set` looks up `params` in the payload and goes through the children of what it finds. The members of an
object have names; the elements of an array have none, and `str_compare` takes the length of a name before anything
else.

* `handleSet_board`: the LEDs behind a set message are those of its calls of `led_write`.
* `settings_board`: an LED is as the last member of its name says.
* `sets_exactly_iff`: the payloads that are handled exactly.
-/

namespace W601.Mqtt

open CMem
open Json (Value)
open Led (Board LedId CJson ledWrite ledOn ledOff tolower cJSONGetObjectItem)

/-- `str_compare` of two C strings. -/
def strCompare (str1 str2 : List UInt8) : ℤ :=
  if str1.length ≠ str2.length then -1
  else if str1 ≠ str2 then -1
  else 0

/-- What `mqtt_handle_set` does. -/
structure SetOutcome where
  /-- The calls of `led_write`. -/
  writes : List (LedId × UInt8)
  /-- The result; there is none behind a null pointer given to `str_compare`. -/
  rc : Option ℤ
  deriving DecidableEq

/-- The calls of `led_write` for one child of `params`. -/
def memberWrites (name : List UInt8) (valueint : ℤ) : List (LedId × UInt8) :=
  if strCompare name (text "wol") = 0 then []
  else if strCompare name (text "red_led") = 0 then [(.red, if valueint ≠ 0 then ledOn else ledOff)]
  else if strCompare name (text "green_led") = 0 then [(.green, if valueint ≠ 0 then ledOn else ledOff)]
  else if strCompare name (text "blue_led") = 0 then [(.blue, if valueint ≠ 0 then ledOn else ledOff)]
  else []

/-- The loop of `mqtt_handle_set`. -/
def setLoop : List CJson → SetOutcome
  | [] => ⟨[], some 0⟩
  | el :: els =>
    match el.string with
    | none => ⟨[], none⟩
    | some name => ⟨memberWrites name el.valueint ++ (setLoop els).writes, (setLoop els).rc⟩

/-- `mqtt_handle_set`, with `parse` for `cJSON_Parse`. -/
def mqttHandleSet (parse : List UInt8 → Option CJson) (buffer : List UInt8) : SetOutcome :=
  match parse buffer with
  | none => ⟨[], some (-1)⟩
  | some root =>
    match cJSONGetObjectItem root "params" with
    | none => ⟨[], some (-1)⟩
    | some params => setLoop params.child

/-- The LEDs behind the calls of `led_write`. -/
def SetOutcome.board (o : SetOutcome) (b : Board) : Board := o.writes.foldl (fun b w => ledWrite w.1 w.2 b) b

/-! ## The nodes of a text -/

mutual

/-- The node that the parser fills for a value, with `int` for the number that `parse_number` computes. -/
def valueNode (int : List UInt8 → ℤ) (string : Option (List UInt8)) : Value → CJson
  | .null => .node string 0 []
  | .false => .node string 0 []
  | .true => .node string 1 []
  | .number chars => .node string (int chars) []
  | .string _ => .node string 0 []
  | .array l => .node string 0 (elementNodes int l)
  | .object l => .node string 0 (memberNodes int l)

/-- The children of an array. -/
def elementNodes (int : List UInt8 → ℤ) : List Value → List CJson
  | [] => []
  | v :: l => valueNode int none v :: elementNodes int l

/-- The children of an object. -/
def memberNodes (int : List UInt8 → ℤ) : List (List UInt8 × Value) → List CJson
  | [] => []
  | (name, v) :: l => valueNode int (some name) v :: memberNodes int l

end

/-- `cJSON_Parse`, from the values of the texts. -/
def parseNode (parse : List UInt8 → Option Value) (int : List UInt8 → ℤ) (buffer : List UInt8) : Option CJson :=
  (parse buffer).map (valueNode int none)

/-! ## What a payload asks for -/

/-- The integer of a value: that of a number, and 1 for `true`. -/
def intValue (int : List UInt8 → ℤ) : Value → ℤ
  | .number chars => int chars
  | .true => 1
  | _ => 0

/-- The members of an object. -/
def members : Value → List (List UInt8 × Value)
  | .object l => l
  | _ => []

/-- The first member of the name `params`, in letters of any case. -/
def paramsMember (v : Value) : Option (List UInt8 × Value) :=
  (members v).find? fun m => m.1.map tolower = (text "params").map tolower

/-- The `params` of a payload. -/
def paramsOf (parse : List UInt8 → Option Value) (payload : List UInt8) : Option Value :=
  ((parse payload).bind paramsMember).map (·.2)

/-- The last member of a name. -/
def lastMember (l : List (List UInt8 × Value)) (name : List UInt8) : Option Value :=
  (l.reverse.find? fun m => m.1 = name).map (·.2)

/-- The LED is on or off. -/
def Shows (b : Board) (led : LedId) (on : Bool) : Prop :=
  b.pin led = some (if on then ledOn else ledOff) ∧ b.rgb led = if on then 1 else 0

/-- The LED of `t` is as the last member of its name says, and as in `b` when there is none. -/
def FollowsMembers (int : List UInt8 → ℤ) (l : List (List UInt8 × Value)) (b t : Board) (led : LedId) : Prop :=
  match lastMember l (text led.property) with
  | some v => Shows t led (intValue int v ≠ 0)
  | none => t.pin led = b.pin led ∧ t.rgb led = b.rgb led

/-- **A payload is handled exactly**: the call comes back, with -1 and all LEDs as they were when there is no `params`,
and with 0 and the LEDs as its members say when there is. -/
structure SetsExactly (parse : List UInt8 → Option Value) (int : List UInt8 → ℤ) (payload : List UInt8) (b : Board) :
    Prop where
  refused : paramsOf parse payload = none → (mqttHandleSet (parseNode parse int) payload).rc = some (-1) ∧
    (mqttHandleSet (parseNode parse int) payload).board b = b
  accepted : ∀ params, paramsOf parse payload = some params →
    (mqttHandleSet (parseNode parse int) payload).rc = some 0 ∧
    ∀ led, FollowsMembers int (members params) b ((mqttHandleSet (parseNode parse int) payload).board b) led

/-! ## The writes of a member -/

theorem strCompare_eq_zero {s t : List UInt8} : strCompare s t = 0 ↔ s = t := by
  unfold strCompare
  split_ifs with hlen h
  · exact ⟨fun h => absurd h (by decide), fun h => absurd (congrArg List.length h) hlen⟩
  · exact ⟨fun h => absurd h (by decide), fun h' => absurd h' h⟩
  · exact ⟨fun _ => not_not.1 h, fun _ => rfl⟩

theorem memberWrites_property (led : LedId) (n : ℤ) :
    memberWrites (text led.property) n = [(led, if n ≠ 0 then ledOn else ledOff)] := by
  cases led <;> rfl

theorem memberWrites_other {name : List UInt8} (h : ∀ led : LedId, name ≠ text led.property) (n : ℤ) :
    memberWrites name n = [] := by
  have hr : name ≠ text "red_led" := h .red
  have hg : name ≠ text "green_led" := h .green
  have hb : name ≠ text "blue_led" := h .blue
  simp [memberWrites, strCompare_eq_zero, hr, hg, hb]

theorem board_append (w : List (LedId × UInt8)) (o : SetOutcome) (rc : Option ℤ) (b : Board) :
    SetOutcome.board ⟨w ++ o.writes, rc⟩ b = o.board (SetOutcome.board ⟨w, rc⟩ b) :=
  List.foldl_append

theorem setMember_writes {el : CJson} {name : List UInt8} (h : el.string = some name) (b : Board) :
    Led.setMember b el = some (SetOutcome.board ⟨memberWrites name el.valueint, none⟩ b) := by
  rw [Led.setMember, h, Option.map_some]
  simp only [memberWrites, strCompare_eq_zero, SetOutcome.board]
  split_ifs <;> rfl

theorem setLoop_board (els : List CJson) : ∀ b : Board,
    els.foldlM Led.setMember b = (setLoop els).rc.map fun _ => (setLoop els).board b := by
  induction els with
  | nil => intro b; rfl
  | cons el els ih =>
    intro b
    rw [List.foldlM_cons]
    cases hname : el.string with
    | none => simp [setLoop, hname, Led.setMember]
    | some name =>
      rw [setMember_writes hname, Option.bind_eq_bind, Option.bind_some, ih]
      simp only [setLoop, hname, board_append]
      rfl

/-- **The LEDs behind a set message** are those of its calls of `led_write`. -/
theorem handleSet_board (parse : List UInt8 → Option CJson) (buffer : List UInt8) (b : Board) :
    Led.mqttHandleSet parse buffer b =
      (mqttHandleSet parse buffer).rc.map fun _ => (mqttHandleSet parse buffer).board b := by
  rw [Led.mqttHandleSet, Led.setMembers, mqttHandleSet]
  cases parse buffer with
  | none => rfl
  | some root =>
    simp only [Option.bind_some]
    cases cJSONGetObjectItem root "params" with
    | none => rfl
    | some params => exact setLoop_board params.child b

/-! ## The children -/

theorem valueNode_string (int : List UInt8 → ℤ) (string : Option (List UInt8)) (v : Value) :
    (valueNode int string v).string = string := by
  cases v <;> rfl

theorem valueNode_valueint (int : List UInt8 → ℤ) (string : Option (List UInt8)) (v : Value) :
    (valueNode int string v).valueint = intValue int v := by
  cases v <;> rfl

/-- **The members of an object**: all of them are looked at. -/
theorem setLoop_members (int : List UInt8 → ℤ) (l : List (List UInt8 × Value)) :
    setLoop (memberNodes int l) = ⟨l.flatMap fun m => memberWrites m.1 (intValue int m.2), some 0⟩ := by
  induction l with
  | nil => rfl
  | cons m l ih => simp [memberNodes, setLoop, valueNode_string, valueNode_valueint, ih]

/-- The elements of an array: the first one has no name. -/
theorem setLoop_elements (int : List UInt8 → ℤ) (v : Value) (l : List Value) :
    setLoop (elementNodes int (v :: l)) = ⟨[], none⟩ := by
  rw [elementNodes, setLoop, valueNode_string]

theorem find_members (int : List UInt8 → ℤ) (l : List (List UInt8 × Value)) :
    cJSONGetObjectItem (.node none 0 (memberNodes int l)) "params" =
      (l.find? fun m => m.1.map tolower = (text "params").map tolower).map fun m => valueNode int (some m.1) m.2 := by
  unfold cJSONGetObjectItem
  induction l with
  | nil => rfl
  | cons m l ih =>
    simp only [CJson.child, memberNodes] at ih ⊢
    by_cases h : m.1.map tolower = (text "params").map tolower
    · rw [List.find?_cons_of_pos, List.find?_cons_of_pos]
      · rfl
      · simpa using h
      · simpa [valueNode_string] using h
    · rw [List.find?_cons_of_neg, List.find?_cons_of_neg, ih]
      · simpa using h
      · simpa [valueNode_string] using h

theorem find_elements (int : List UInt8 → ℤ) (l : List Value) :
    cJSONGetObjectItem (.node none 0 (elementNodes int l)) "params" = none := by
  unfold cJSONGetObjectItem
  induction l with
  | nil => rfl
  | cons v l ih =>
    simp only [CJson.child, elementNodes] at ih ⊢
    rw [List.find?_cons_of_neg, ih]
    simp [valueNode_string]

/-- **The lookup of `params`**: only an object has members with names. -/
theorem find_params (int : List UInt8 → ℤ) (v : Value) :
    cJSONGetObjectItem (valueNode int none v) "params" =
      (paramsMember v).map fun m => valueNode int (some m.1) m.2 := by
  cases v with
  | array l => exact find_elements int l
  | object l => exact find_members int l
  | null | false | true | number | string => rfl

/-- **What the call does** with the `params` of a payload. -/
theorem handleSet_eq (parse : List UInt8 → Option Value) (int : List UInt8 → ℤ) (payload : List UInt8) :
    mqttHandleSet (parseNode parse int) payload =
      match paramsOf parse payload with
      | none => ⟨[], some (-1)⟩
      | some params => setLoop (valueNode int none params).child := by
  unfold mqttHandleSet parseNode paramsOf
  cases parse payload with
  | none => rfl
  | some root =>
    simp only [Option.map_some, find_params, Option.bind_some]
    cases paramsMember root with
    | none => rfl
    | some m =>
      obtain ⟨name, v⟩ := m
      cases v <;> rfl

/-! ## The LEDs -/

theorem lastMember_snoc (l : List (List UInt8 × Value)) (m : List UInt8 × Value) (name : List UInt8) :
    lastMember (l ++ [m]) name = if m.1 = name then some m.2 else lastMember l name := by
  unfold lastMember
  rw [List.reverse_append, List.reverse_singleton, List.singleton_append]
  by_cases h : m.1 = name <;> simp [h]

/-- One more member. -/
theorem followsMembers_snoc {int : List UInt8 → ℤ} {l : List (List UInt8 × Value)} {b t : Board}
    (h : ∀ led, FollowsMembers int l b t led) (m : List UInt8 × Value) (led : LedId) :
    FollowsMembers int (l ++ [m]) b (SetOutcome.board ⟨memberWrites m.1 (intValue int m.2), none⟩ t) led := by
  unfold FollowsMembers
  rw [lastMember_snoc]
  by_cases hled : m.1 = text led.property
  · rw [if_pos hled, hled, memberWrites_property]
    by_cases hn : intValue int m.2 = 0 <;> simp [hn, Shows, SetOutcome.board, ledWrite, ledOn, ledOff]
  · rw [if_neg hled]
    -- another LED is written, or none
    have hsame : (SetOutcome.board ⟨memberWrites m.1 (intValue int m.2), none⟩ t).pin led = t.pin led ∧
        (SetOutcome.board ⟨memberWrites m.1 (intValue int m.2), none⟩ t).rgb led = t.rgb led := by
      by_cases hother : ∃ led' : LedId, m.1 = text led'.property
      · obtain ⟨led', hname⟩ := hother
        have hne : led ≠ led' := fun h => hled (h ▸ hname)
        rw [hname, memberWrites_property]
        exact ⟨Function.update_of_ne hne _ _, Function.update_of_ne hne _ _⟩
      · rw [memberWrites_other fun led' h => hother ⟨led', h⟩]
        exact ⟨rfl, rfl⟩
    have hfollows := h led
    unfold FollowsMembers at hfollows
    unfold Shows at hfollows ⊢
    rw [hsame.1, hsame.2]
    exact hfollows

/-- **An LED is as the last member of its name says.** -/
theorem settings_board (int : List UInt8 → ℤ) (l : List (List UInt8 × Value)) (b : Board) (led : LedId) :
    FollowsMembers int l b ((setLoop (memberNodes int l)).board b) led := by
  rw [setLoop_members]
  revert led
  induction l using List.reverseRecOn with
  | nil =>
    intro led
    exact ⟨rfl, rfl⟩
  | append_singleton l m ih =>
    intro led
    have hboard := board_append (l.flatMap fun m => memberWrites m.1 (intValue int m.2))
      ⟨memberWrites m.1 (intValue int m.2), none⟩ (some 0) b
    rw [List.flatMap_append, List.flatMap_singleton, hboard]
    exact followsMembers_snoc ih m led

/-- **When a payload is handled exactly**: its `params` are not an array with elements. -/
theorem sets_exactly_iff (parse : List UInt8 → Option Value) (int : List UInt8 → ℤ) (payload : List UInt8) (b : Board) :
    SetsExactly parse int payload b ↔ ∀ l, paramsOf parse payload = some (.array l) → l = [] := by
  have heq := handleSet_eq parse int payload
  constructor
  · intro h l harray
    have hrc := (h.accepted _ harray).1
    rw [harray] at heq
    cases l with
    | nil => rfl
    | cons v l =>
      rw [heq] at hrc
      simp [valueNode, CJson.child, setLoop_elements] at hrc
  · intro h
    refine ⟨fun hnone => ?_, fun params hparams => ?_⟩
    · rw [hnone] at heq
      rw [heq]
      exact ⟨rfl, rfl⟩
    · rw [hparams] at heq
      rw [heq]
      cases params with
      | object l => exact ⟨by simp [valueNode, CJson.child, setLoop_members], settings_board int l b⟩
      | array l =>
        obtain rfl := h l hparams
        exact ⟨rfl, fun _ => ⟨rfl, rfl⟩⟩
      | null | false | true | number | string => exact ⟨rfl, fun _ => ⟨rfl, rfl⟩⟩

/-- **The elements of an array have no names to compare.** -/
theorem array_params_null :
    ¬ SetsExactly Json.cJSONParse CNum.atoi (text "\x7b\"params\":[1]\x7d") Board.boot := by
  intro h
  have hparams : (paramsOf Json.cJSONParse (text "\x7b\"params\":[1]\x7d")).isSome := by decide +kernel
  obtain ⟨params, hparams⟩ := Option.isSome_iff_exists.1 hparams
  have hrc := (h.accepted _ hparams).1
  revert hrc
  decide +kernel

end W601.Mqtt
