import W601.Json.BlockText
import W601.Mqtt.Dispatch
import W601.Mqtt.Property

/-!
# Reading the MQTT configuration (`mqtt_cfg_parse`)

`file_read` gives a block as long as the file, with nothing behind its last byte, and the members of the document are
taken without a look at what `cJSON_GetObjectItem` and `rt_strdup` have answered.

* `AllOrNothing`: a configuration is read whole, or the call answers -1 and changes nothing, and the parser keeps to the
  bytes of the file.
* `all_or_nothing_iff`: the files for which that is so.
-/

namespace W601.Mqtt.Cfg

open CMem (text)
open Json (Value)
open Json.Bounded (cJSONParse)
open Led (tolower)
open Scan

/-- What a call meets: the file system, the heap, and the library's numbers. -/
structure Env where
  /-- `fopen` finds the file. -/
  opened : Bool
  /-- There is memory for the file. -/
  block : Bool
  /-- `fread` gives the whole file. -/
  whole : Bool
  /-- The bytes behind the block. -/
  behind : List UInt8
  /-- The allocations that the parser is granted. -/
  granted : ℕ
  /-- There is memory for the copy of a member. -/
  copied : String → Bool
  /-- What `%s` prints for a null pointer. -/
  nullText : List UInt8
  /-- The double that `parse_number` computes, unless it is infinite or not a number. -/
  double : List UInt8 → Option ℚ
  /-- What a cast makes of a double that is out of the range of `int`. -/
  wild : List UInt8 → ℤ

/-- `mqtt_cfg_t`: `none` is the null pointer, the topics are the C strings in their arrays. -/
structure MqttCfgT where
  host : Option (List UInt8)
  port : UInt16
  clientId : Option (List UInt8)
  username : Option (List UInt8)
  password : Option (List UInt8)
  productKey : Option (List UInt8)
  deviceName : Option (List UInt8)
  paramsPostTopic : List UInt8
  paramsSetTopic : List UInt8

/-- `"/sys/%s/%s/thing/event/property/post"`. -/
def postTopic (productKey deviceName : List UInt8) : List UInt8 :=
  text "/sys/" ++ productKey ++ text "/" ++ deviceName ++ text "/thing/event/property/post"

/-- `"/sys/%s/%s/thing/service/property/set"`. -/
def setTopic (productKey deviceName : List UInt8) : List UInt8 :=
  text "/sys/" ++ productKey ++ text "/" ++ deviceName ++ text "/thing/service/property/set"

/-- The string that `snprintf` leaves in an array of `MAX_TOPIC_LENGTH`. -/
def printed (s : List UInt8) : List UInt8 := s.take (maxTopicLength - 1)

/-- The C string at the beginning of a block. -/
def cString (s : List UInt8) : List UInt8 := s.takeWhile (· ≠ 0)

/-- `cJSON_GetObjectItem`: the first child of the name, in letters of any case. -/
def getObjectItem (root : Value) (name : String) : Option Value :=
  ((members root).find? fun m => (cString m.1).map tolower = (text name).map tolower).map (·.2)

/-- `valuestring`. -/
def valuestring : Value → Option (List UInt8)
  | .string s => some s
  | _ => none

section Code

variable (env : Env)

/-- `(int)n` of the double of a number. -/
def toInt (chars : List UInt8) : ℤ :=
  match env.double chars with
  | some d => if -2 ^ 31 - 1 < d ∧ d < 2 ^ 31 then (if 0 ≤ d then ⌊d⌋ else ⌈d⌉) else env.wild chars
  | none => env.wild chars

/-- `valueint`. -/
def valueint : Value → ℤ
  | .number chars => toInt env chars
  | .true => 1
  | _ => 0

/-- `file_read`; the heap has no block without bytes. -/
def fileRead (file : List UInt8) : Option (List UInt8) :=
  if env.opened then
    if env.block ∧ file ≠ [] then
      if env.whole then some file else none
    else none
  else none

/-- `rt_strdup` of the string of a member: there is none behind a null pointer. -/
def strdup (root : Value) (name : String) : Option (Option (List UInt8)) := do
  let item ← getObjectItem root name
  let s ← valuestring item
  some (if env.copied name then some (cString s) else none)

/-- The assignments of `mqtt_cfg_parse`. -/
def fill (root : Value) : Option MqttCfgT := do
  let host ← strdup env root "host"
  let port ← getObjectItem root "port"
  let clientId ← strdup env root "client_id"
  let username ← strdup env root "username"
  let password ← strdup env root "password"
  let productKey ← strdup env root "product_key"
  let deviceName ← strdup env root "device_name"
  let key := productKey.getD env.nullText
  let name := deviceName.getD env.nullText
  some {
    host, clientId, username, password, productKey, deviceName
    port := UInt16.ofInt (valueint env port)
    paramsPostTopic := printed (postTopic key name)
    paramsSetTopic := printed (setTopic key name) }

/-- `mqtt_cfg_parse`: the answer and the configuration, unless the call goes where it may not. -/
def mqttCfgParse (file : List UInt8) (cfg : MqttCfgT) : Option (ℤ × MqttCfgT) :=
  match fileRead env file with
  | none => some (-1, cfg)
  | some jsonData =>
    match cJSONParse env.granted (jsonData ++ env.behind) with
    | .ok root => (fill env root).map fun c => (0, c)
    | .rejected => some (-1, cfg)
    | .outside => none

/-! ## What the call is for -/

/-- The members that are strings, and where they go. -/
def strings : List (String × (MqttCfgT → Option (List UInt8))) :=
  [("host", (·.host)), ("client_id", (·.clientId)), ("username", (·.username)), ("password", (·.password)),
    ("product_key", (·.productKey)), ("device_name", (·.deviceName))]

/-- The configuration is that of the document. -/
structure FromDocument (root : Value) (cfg : MqttCfgT) : Prop where
  strings : ∀ p ∈ strings, ∃ s, getObjectItem root p.1 = some (.string s) ∧ p.2 cfg = some s
  port : ∃ chars, getObjectItem root "port" = some (.number chars) ∧ env.double chars = some (cfg.port.toNat : ℚ)
  topics : ∃ key name, getObjectItem root "product_key" = some (.string key) ∧
    getObjectItem root "device_name" = some (.string name) ∧
    cfg.paramsPostTopic = postTopic key name ∧ cfg.paramsSetTopic = setTopic key name

/-- **All or nothing**: the parser does not leave the bytes of the file, and the call answers -1 and changes nothing, or 0
with the configuration of the document. -/
structure AllOrNothing (file : List UInt8) (cfg : MqttCfgT) : Prop where
  within : ∀ jsonData, fileRead env file = some jsonData → cJSONParse env.granted jsonData ≠ .outside
  answer : mqttCfgParse env file cfg = some (-1, cfg) ∨
    ∃ root c, cJSONParse env.granted file = .ok root ∧ mqttCfgParse env file cfg = some (0, c) ∧ FromDocument env root c

/-- A document with all members, of their types and not too long, and memory for the copies. -/
structure Complete (root : Value) : Prop where
  strings : ∀ p ∈ strings, env.copied p.1 = true ∧ ∃ s, getObjectItem root p.1 = some (.string s) ∧ 0 ∉ s
  port : ∃ chars n, getObjectItem root "port" = some (.number chars) ∧ env.double chars = some ((n : ℕ) : ℚ) ∧ n < 2 ^ 16
  topics : ∀ key name, getObjectItem root "product_key" = some (.string key) →
    getObjectItem root "device_name" = some (.string name) → key.length + name.length ≤ 66

/-- The file is not read, its bytes are refused, or they hold a complete document. -/
def Settled (file : List UInt8) : Prop :=
  fileRead env file = none ∨ cJSONParse env.granted file = .rejected ∨
    ∃ root, cJSONParse env.granted file = .ok root ∧ Complete env root

end Code

/-! ## The assignments -/

section Members

variable {env : Env} {root : Value} {c : MqttCfgT}

theorem cString_eq_self {s : List UInt8} : cString s = s ↔ 0 ∉ s := by
  rw [cString, List.takeWhile_eq_self_iff]
  constructor
  · intro h h0
    simpa using h 0 h0
  · intro h c hc
    simpa using fun hz : c = 0 => h (hz ▸ hc)

/-- A copy of a member is the string of the document when there is memory for it and no NUL in it. -/
theorem strdup_eq_some {name : String} {v : Option (List UInt8)} :
    strdup env root name = some v ↔
      ∃ s, getObjectItem root name = some (.string s) ∧ (if env.copied name then some (cString s) else none) = v := by
  unfold strdup
  cases getObjectItem root name with
  | none => simp
  | some item => cases item <;> simp [valuestring]

theorem strdup_of_nulFree {name : String} {s : List UInt8} (hs : getObjectItem root name = some (.string s))
    (hcopied : env.copied name = true) (h0 : 0 ∉ s) : strdup env root name = some (some s) :=
  strdup_eq_some.2 ⟨s, hs, by rw [if_pos hcopied, cString_eq_self.2 h0]⟩

/-- What the assignments have made. -/
structure Filled (env : Env) (root : Value) (c : MqttCfgT) : Prop where
  strings : ∀ p ∈ strings, strdup env root p.1 = some (p.2 c)
  port : ∃ v, getObjectItem root "port" = some v ∧ c.port = UInt16.ofInt (valueint env v)
  postTopic : c.paramsPostTopic = printed (postTopic (c.productKey.getD env.nullText) (c.deviceName.getD env.nullText))
  setTopic : c.paramsSetTopic = printed (setTopic (c.productKey.getD env.nullText) (c.deviceName.getD env.nullText))

theorem fill_eq_some : fill env root = some c ↔ Filled env root c := by
  constructor
  · intro h
    simp only [fill, Option.bind_eq_bind, Option.bind_eq_some_iff] at h
    obtain ⟨host, h1, port, h2, clientId, h3, username, h4, password, h5, key, h6, name, h7, hc⟩ := h
    obtain rfl := Option.some.inj hc
    refine ⟨?_, ⟨port, h2, rfl⟩, rfl, rfl⟩
    simp [strings, h1, h3, h4, h5, h6, h7]
  · rintro ⟨hs, ⟨port, hport, hp⟩, hpost, hset⟩
    simp only [strings, List.forall_mem_cons] at hs
    obtain ⟨h1, h3, h4, h5, h6, h7, -⟩ := hs
    simp only [fill, h1, hport, h3, h4, h5, h6, h7, Option.bind_eq_bind, Option.bind_some, ← hp, ← hpost, ← hset]

theorem length_setTopic (key name : List UInt8) : (setTopic key name).length = key.length + name.length + 33 := by
  have hsys : (text "/sys/").length = 5 := by decide
  have hend : (text "/thing/service/property/set").length = 27 := by decide
  have hsep : (text "/").length = 1 := by decide
  simp only [setTopic, List.length_append, hsys, hend, hsep]
  omega

theorem length_postTopic (key name : List UInt8) : (postTopic key name).length = key.length + name.length + 32 := by
  have hsys : (text "/sys/").length = 5 := by decide
  have hend : (text "/thing/event/property/post").length = 26 := by decide
  have hsep : (text "/").length = 1 := by decide
  simp only [postTopic, List.length_append, hsys, hend, hsep]
  omega

theorem printed_eq_self {s : List UInt8} : printed s = s ↔ s.length ≤ 99 := by
  rw [printed, List.take_eq_self_iff]
  rfl

/-- Both topics are whole when the longer one is. -/
theorem topics_whole (key name : List UInt8) :
    (printed (postTopic key name) = postTopic key name ∧ printed (setTopic key name) = setTopic key name) ↔
      key.length + name.length ≤ 66 := by
  rw [printed_eq_self, printed_eq_self, length_setTopic, length_postTopic]
  omega

/-- A number that fits the port is stored as it is. -/
theorem port_toNat {chars : List UInt8} {n : ℕ} (hd : env.double chars = some (n : ℚ)) (hn : n < 2 ^ 16) :
    (UInt16.ofInt (valueint env (.number chars))).toNat = n := by
  have hint : valueint env (.number chars) = (n : ℤ) := by
    have hlt : (n : ℚ) < 2 ^ 31 := by exact_mod_cast (show n < 2 ^ 31 by omega)
    have hpos : (0 : ℚ) ≤ n := n.cast_nonneg
    simp only [valueint, toInt, hd]
    rw [if_pos ⟨by linarith, hlt⟩, if_pos hpos, Int.floor_natCast]
  rw [hint, UInt16.ofInt, UInt16.toNat_ofNat']
  omega

theorem string_inj {name : String} {s t : List UInt8} (hs : getObjectItem root name = some (.string s))
    (ht : getObjectItem root name = some (.string t)) : s = t := by
  rw [hs] at ht
  cases ht
  rfl

/-- **The assignments make the configuration of a document exactly when it is complete.** -/
theorem fromDocument_iff : (∃ c, fill env root = some c ∧ FromDocument env root c) ↔ Complete env root := by
  constructor
  · rintro ⟨c, hc, hdoc⟩
    have hfill := fill_eq_some.1 hc
    refine ⟨fun p hp => ?_, ?_, fun key name hkey hname => ?_⟩
    · obtain ⟨s, hs, hv⟩ := hdoc.strings p hp
      obtain ⟨s', hs', hcopy⟩ := strdup_eq_some.1 (hfill.strings p hp)
      obtain rfl := string_inj hs hs'
      rw [hv] at hcopy
      split_ifs at hcopy with hcopied
      exact ⟨hcopied, s, hs, cString_eq_self.1 (Option.some.inj hcopy)⟩
    · obtain ⟨chars, hchars, hd⟩ := hdoc.port
      exact ⟨chars, c.port.toNat, hchars, hd, c.port.toNat_lt⟩
    · obtain ⟨key', name', hkey', hname', hpost, hset⟩ := hdoc.topics
      obtain rfl := string_inj hkey hkey'
      obtain rfl := string_inj hname hname'
      obtain ⟨key', hk, hkeyc⟩ : ∃ s, getObjectItem root "product_key" = some (.string s) ∧ c.productKey = some s :=
        hdoc.strings ("product_key", (·.productKey)) (by simp [strings])
      obtain ⟨name', hn, hnamec⟩ : ∃ s, getObjectItem root "device_name" = some (.string s) ∧ c.deviceName = some s :=
        hdoc.strings ("device_name", (·.deviceName)) (by simp [strings])
      obtain rfl := string_inj hkey hk
      obtain rfl := string_inj hname hn
      have hwhole := And.intro (hfill.postTopic.symm.trans hpost) (hfill.setTopic.symm.trans hset)
      simp only [hkeyc, hnamec, Option.getD_some] at hwhole
      exact (topics_whole key name).1 hwhole
  · intro h
    have hcopy : ∀ p ∈ strings, ∃ s, getObjectItem root p.1 = some (.string s) ∧ strdup env root p.1 = some (some s) := by
      intro p hp
      obtain ⟨hcopied, s, hs, h0⟩ := h.strings p hp
      exact ⟨s, hs, strdup_of_nulFree hs hcopied h0⟩
    simp only [strings, List.forall_mem_cons] at hcopy
    obtain ⟨⟨host, h1, c1⟩, ⟨clientId, h2, c2⟩, ⟨username, h3, c3⟩, ⟨password, h4, c4⟩, ⟨key, h5, c5⟩, ⟨name, h6, c6⟩, -⟩ :=
      hcopy
    obtain ⟨chars, n, hport, hd, hn⟩ := h.port
    obtain ⟨hpost, hset⟩ := (topics_whole key name).2 (h.topics key name h5 h6)
    refine ⟨⟨some host, UInt16.ofInt (valueint env (.number chars)), some clientId, some username, some password, some key,
      some name, printed (postTopic key name), printed (setTopic key name)⟩,
      fill_eq_some.2 ⟨?_, ⟨_, hport, rfl⟩, rfl, rfl⟩, ?_, ⟨chars, hport, ?_⟩, key, name, h5, h6, hpost, hset⟩
    · simp [strings, c1, c2, c3, c4, c5, c6]
    · simp [strings, h1, h2, h3, h4, h5, h6]
    · rw [port_toNat hd hn, hd]

end Members

/-- What the parser makes of the file is what it makes of the memory from there on. -/
theorem parse_behind {env : Env} {file : List UInt8} (h : cJSONParse env.granted file ≠ .outside) :
    cJSONParse env.granted (file ++ env.behind) = cJSONParse env.granted file := by
  have hext := Json.Bounded.cJSONParse_ext env.behind env.granted file
  revert h hext
  cases cJSONParse env.granted file with
  | ok root =>
    rintro - ⟨_, hroot, rfl⟩
    exact hroot
  | rejected => exact fun _ hext => hext
  | outside => exact fun h => absurd rfl h

theorem fileRead_eq_some {env : Env} {file jsonData : List UInt8} (h : fileRead env file = some jsonData) :
    jsonData = file := by
  unfold fileRead at h
  split_ifs at h
  exact (Option.some.inj h).symm

section Read

variable {env : Env} {file : List UInt8} {cfg : MqttCfgT}

/-- A parser that comes to its end has read within the file. -/
theorem within_of (h : cJSONParse env.granted file ≠ .outside) (jsonData : List UInt8)
    (hread : fileRead env file = some jsonData) : cJSONParse env.granted jsonData ≠ .outside := by
  obtain rfl := fileRead_eq_some hread
  exact h

/-- Bytes that are refused change nothing. -/
theorem mqttCfgParse_rejected (hread : fileRead env file = some file) (h : cJSONParse env.granted file = .rejected) :
    mqttCfgParse env file cfg = some (-1, cfg) := by
  simp only [mqttCfgParse, hread]
  rw [parse_behind (by rw [h]; exact nofun), h]

/-- With a document the members are assigned. -/
theorem mqttCfgParse_ok {root : Value} (hread : fileRead env file = some file)
    (h : cJSONParse env.granted file = .ok root) :
    mqttCfgParse env file cfg = (fill env root).map fun c => (0, c) := by
  simp only [mqttCfgParse, hread]
  rw [parse_behind (by rw [h]; exact nofun), h]

/-- **Behind the parser** only the document counts. -/
theorem all_or_nothing_root {root : Value} (hread : fileRead env file = some file)
    (hparse : cJSONParse env.granted file = .ok root) : AllOrNothing env file cfg ↔ Complete env root := by
  have hrun : mqttCfgParse env file cfg = (fill env root).map fun c => (0, c) := mqttCfgParse_ok hread hparse
  constructor
  · rintro ⟨-, h | ⟨root', c, hroot, hc, hdoc⟩⟩
    · obtain ⟨c, -, hc⟩ := Option.map_eq_some_iff.1 (hrun.symm.trans h)
      exact absurd (congrArg Prod.fst hc) (by simp)
    · obtain rfl : root = root' := by rw [hparse] at hroot; cases hroot; rfl
      obtain ⟨c', hfill, hcc⟩ := Option.map_eq_some_iff.1 (hrun.symm.trans hc)
      obtain rfl : c' = c := congrArg Prod.snd hcc
      exact fromDocument_iff.1 ⟨c', hfill, hdoc⟩
  · intro hcomplete
    obtain ⟨c, hfill, hdoc⟩ := fromDocument_iff.2 hcomplete
    have hc : mqttCfgParse env file cfg = some (0, c) := by rw [hrun, hfill]; rfl
    exact ⟨within_of (by rw [hparse]; exact nofun), Or.inr ⟨root, c, hparse, hc, hdoc⟩⟩

end Read

/-- **The configuration is read whole or not at all** exactly when the file is not read, its bytes are refused, or they
hold a complete document. -/
theorem all_or_nothing_iff (env : Env) (file : List UInt8) (cfg : MqttCfgT) :
    AllOrNothing env file cfg ↔ Settled env file := by
  cases hread : fileRead env file with
  | none =>
    refine iff_of_true ⟨fun _ h => absurd (hread.symm.trans h) (by simp), Or.inl ?_⟩ (Or.inl hread)
    rw [mqttCfgParse, hread]
  | some jsonData =>
    obtain rfl := fileRead_eq_some hread
    cases hparse : cJSONParse env.granted jsonData with
    | outside =>
      refine iff_of_false (fun h => h.within jsonData hread hparse) ?_
      rintro (h | h | ⟨root, h, -⟩)
      · exact absurd (hread.symm.trans h) (by simp)
      · exact absurd (hparse.symm.trans h) (by simp)
      · exact absurd (hparse.symm.trans h) (by simp)
    | rejected =>
      have hwithin : cJSONParse env.granted jsonData ≠ .outside := by rw [hparse]; exact nofun
      exact iff_of_true ⟨within_of hwithin, Or.inl (mqttCfgParse_rejected hread hparse)⟩ (Or.inr (Or.inl hparse))
    | ok root =>
      rw [all_or_nothing_root hread hparse]
      refine ⟨fun h => Or.inr (Or.inr ⟨root, hparse, h⟩), ?_⟩
      rintro (h | h | ⟨root', hroot, hcomplete⟩)
      · exact absurd (hread.symm.trans h) (by simp)
      · exact absurd (hparse.symm.trans h) (by simp)
      · obtain rfl : root = root' := by rw [hparse] at hroot; cases hroot; rfl
        exact hcomplete

/-- A configuration that is accepted comes from the assignments. -/
theorem accepted_filled {env : Env} {file : List UInt8} {cfg c : MqttCfgT} (h : mqttCfgParse env file cfg = some (0, c)) :
    ∃ root, Filled env root c := by
  unfold mqttCfgParse at h
  split at h
  · exact absurd (congrArg Prod.fst (Option.some.inj h)) (by simp)
  · split at h
    · obtain ⟨c', hfill, hc⟩ := Option.map_eq_some_iff.1 h
      obtain rfl : c' = c := congrArg Prod.snd hc
      exact ⟨_, fill_eq_some.1 hfill⟩
    · exact absurd (congrArg Prod.fst (Option.some.inj h)) (by simp)
    · cases h

/-- A string that is copied is a C string. -/
theorem Filled.copied {env : Env} {root : Value} {c : MqttCfgT} (h : Filled env root c)
    {p : String × (MqttCfgT → Option (List UInt8))} (hp : p ∈ Cfg.strings) (hcopied : env.copied p.1 = true) :
    ∃ s, p.2 c = some s ∧ 0 ∉ s := by
  obtain ⟨s, -, hs⟩ := strdup_eq_some.1 (h.strings p hp)
  rw [if_pos hcopied] at hs
  exact ⟨cString s, hs.symm, fun h0 => by simpa using List.mem_takeWhile_imp h0⟩

/-- **The configuration that is taken is that of the document**, as the parser of texts reads the file. -/
theorem accepted_document {env : Env} {file : List UInt8} {cfg c : MqttCfgT} (h : AllOrNothing env file cfg)
    (hc : mqttCfgParse env file cfg = some (0, c)) (h0 : 0 ∉ file) :
    ∃ root, Json.cJSONParse file = some root ∧ FromDocument env root c := by
  rcases h.answer with hrefused | ⟨root, c', hparse, hc', hdoc⟩
  · rw [hc] at hrefused
    exact absurd (congrArg Prod.fst (Option.some.inj hrefused)) (by simp)
  · rw [hc] at hc'
    obtain rfl : c = c' := congrArg Prod.snd (Option.some.inj hc')
    exact ⟨root, Json.Bounded.cJSONParse_text hparse h0, hdoc⟩

/-! ## A file without members -/

/-- The configuration that `mqtt_init` has cleared. -/
def MqttCfgT.cleared : MqttCfgT := ⟨none, 0, none, none, none, none, none, [], []⟩

/-- Everything is granted, and numbers are read in the base ten. -/
def Env.plain : Env where
  opened := true
  block := true
  whole := true
  behind := [0]
  granted := 100
  copied _ := true
  nullText := text "(null)"
  double chars := some ((chars.foldl (fun n c => 10 * n + (c.toNat - 48)) 0 : ℕ) : ℚ)
  wild _ := 0

/-- The members of an empty object are taken from a null pointer. -/
theorem empty_object_undefined :
    mqttCfgParse .plain (text "\x7b\x7d") .cleared = none ∧ ¬ AllOrNothing .plain (text "\x7b\x7d") .cleared := by
  have hnone : mqttCfgParse .plain (text "\x7b\x7d") .cleared = none := by
    rw [← Option.isNone_iff_eq_none]
    decide +kernel
  refine ⟨hnone, fun h => ?_⟩
  rcases h.answer with h | ⟨root, c, -, h, -⟩
  · exact absurd (hnone.symm.trans h) (by simp)
  · exact absurd (hnone.symm.trans h) (by simp)

end W601.Mqtt.Cfg
