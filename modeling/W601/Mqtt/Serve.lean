import W601.Mqtt.Framing

/-!
# Every packet is served once

What the client owes the broker and the application for a packet: it shows a message piece by piece and answers what is to
be answered.

* `handlePacket_publish`, `handlePacket_other`: the packets that the client knows are served.
* `handlePacket_any`: **whatever is in a PUBLISH**, what the client takes of it from the socket.
-/

namespace W601.Mqtt.Recv

open CMem

variable {ω : Type*}

/-! ## What is owed -/

/-- What the client does to the world. -/
inductive Act where
  | show (s : Shown)
  | write (packet : List UInt8)
  | ping
  deriving DecidableEq

/-- Some acts in a row; there is nothing when a write fails. -/
def perform (cb : Shown → ω → ω) (write : List UInt8 → ω → ℤ × ω) : List Act → ω → Option ω
  | [], w => some w
  | .show s :: acts, w => perform cb write acts (cb s w)
  | .write packet :: acts, w => if (write packet w).1 < 0 then none else perform cb write acts (write packet w).2
  | .ping :: acts, w =>
    if (write encodePing w).1 ≠ encodePing.length then none else perform cb write acts (write encodePing w).2

/-- The pieces of a payload behind the first. -/
def laterShown (s : List UInt8) : List Shown :=
  let n := (s.length + (rxBufLen - 1)) / rxBufLen
  (List.range n).map fun i => ⟨none, (s.drop (i * rxBufLen)).take rxBufLen, false, decide (i + 1 = n)⟩

/-- A message is shown, the first time with as much of the payload as the buffer has room for. -/
def shown (room : ℕ) (topic payload : List UInt8) : List Shown :=
  ⟨some topic, payload.take room, true, decide (payload.length ≤ room)⟩ :: laterShown (payload.drop room)

/-- An answer. -/
def resp (type packetId : ℕ) : List UInt8 := fixedHeader type (if type = 6 then 1 else 0) 2 ++ Wire.num packetId

/-- A packet that the client knows. -/
inductive Inbound where
  | publish (retain duplicate : Bool) (qos packetId : ℕ) (topic payload : List UInt8)
  /-- The other packets have an id, most of them. -/
  | other (type flags packetId : ℕ) (rest : List UInt8)
  deriving DecidableEq

namespace Inbound

def first : Inbound → UInt8
  | publish retain duplicate qos _ _ _ => UInt8.ofNat (48 + (if duplicate then 8 else 0) + qos * 2 + if retain then 1 else 0)
  | other type flags _ _ => UInt8.ofNat (type * 16 + flags)

def body : Inbound → List UInt8
  | publish _ _ qos packetId topic payload => Wire.string topic ++ (if 0 < qos then Wire.num packetId else []) ++ payload
  | other type _ packetId rest => (if hasId type then Wire.num packetId else []) ++ rest

def bytes (p : Inbound) : List UInt8 := frame p.first p.body

def type : Inbound → ℕ
  | publish .. => 3
  | other type .. => type

/-- The id that is looked at. -/
def id : Inbound → ℕ
  | publish _ _ qos packetId _ _ => if 0 < qos then packetId else 0
  | other type _ packetId _ => if hasId type then packetId else 0

/-- The bytes of the buffer that are left for the payload. -/
def room : Inbound → ℕ
  | p@(publish _ _ qos _ topic _) => rxBufLen - (headSize p.body + (2 + topic.length + if 0 < qos then 2 else 0))
  | other .. => 0

/-- The message is longer than the buffer. -/
def Large (p : Inbound) : Prop := p.type = 3 ∧ rxBufLen < p.bytes.length

instance (p : Inbound) : Decidable p.Large := inferInstanceAs (Decidable (_ ∧ _))

/-- **What is owed for a packet.** -/
def acts : Inbound → List Act
  | p@(publish _ _ qos packetId topic payload) =>
    (shown p.room topic payload).map .show ++
      if qos = 0 then [] else [.write (resp (if qos = 1 then 4 else 5) packetId)]
  | other type _ packetId _ => if type = 5 ∨ type = 6 then [.write (resp (type + 1) packetId)] else []

/-- The packet is what the protocol says, and the topic of a message fits the buffer, all of any other packet does. -/
def Fits : Inbound → Prop
  | p@(publish _ _ qos packetId topic _) => qos ≤ 2 ∧ packetId < 2 ^ 16 ∧ topic.length < 2 ^ 16 ∧ p.body.length < 128 ^ 4 ∧
      headSize p.body + (2 + topic.length + if 0 < qos then 2 else 0) ≤ rxBufLen
  | p@(other type flags packetId _) => type ∈ [2, 4, 5, 6, 7, 9, 11, 13] ∧ flags < 16 ∧ packetId < 2 ^ 16 ∧
      headSize p.body + p.body.length ≤ rxBufLen

instance : ∀ p : Inbound, Decidable p.Fits
  | publish .. => inferInstanceAs (Decidable (_ ∧ _))
  | other .. => inferInstanceAs (Decidable (_ ∧ _))

end Inbound

/-! ## The payload -/

section Payload

variable {cb : Shown → ω → ω} {write : List UInt8 → ω → ℤ × ω}

/-- The world behind some callbacks. -/
def showAll (cb : Shown → ω → ω) (s : List Shown) (w : ω) : ω := s.foldl (fun w x => cb x w) w

theorem perform_show (s : List Shown) (acts : List Act) : ∀ w : ω,
    perform cb write (s.map .show ++ acts) w = perform cb write acts (showAll cb s w) := by
  induction s with
  | nil => exact fun _ => rfl
  | cons x s ih => exact fun w => ih (cb x w)

theorem laterShown_nil : laterShown [] = [] := rfl

/-- The pieces one by one. -/
theorem laterShown_cons {s : List UInt8} (h : s ≠ []) :
    laterShown s = ⟨none, s.take rxBufLen, false, decide (s.length ≤ rxBufLen)⟩ :: laterShown (s.drop rxBufLen) := by
  have hpos := List.length_pos_of_ne_nil h
  have hcount : (s.length + (rxBufLen - 1)) / rxBufLen = ((s.drop rxBufLen).length + (rxBufLen - 1)) / rxBufLen + 1 := by
    rw [List.length_drop, rxBufLen]
    omega
  have hlast : (0 + 1 = ((s.drop rxBufLen).length + (rxBufLen - 1)) / rxBufLen + 1) ↔ s.length ≤ rxBufLen := by
    rw [List.length_drop, rxBufLen]
    omega
  rw [laterShown, laterShown]
  simp only [hcount, List.range_succ_eq_map, List.map_cons, List.map_map, Nat.zero_mul, List.drop_zero, hlast]
  refine congrArg _ (List.map_congr_left fun i _ => ?_)
  rw [Function.comp_apply, List.drop_drop, Nat.succ_mul, Nat.add_comm (i * rxBufLen)]
  simp only [Nat.succ_eq_add_one, Nat.add_right_cancel_iff]

/-- What is shown of a message makes it up. -/
theorem flatten_laterShown (s : List UInt8) : ((laterShown s).map Shown.bytes).flatten = s := by
  induction hn : s.length using Nat.strong_induction_on generalizing s with
  | _ n ih =>
    by_cases hnil : s = []
    · rw [hnil]
      rfl
    · have hpos := List.length_pos_of_ne_nil hnil
      have hshort : (s.drop rxBufLen).length < n := by
        rw [List.length_drop, rxBufLen]
        omega
      rw [laterShown_cons hnil, List.map_cons, List.flatten_cons, ih _ hshort _ rfl, List.take_append_drop]

theorem flatten_shown (room : ℕ) (topic payload : List UInt8) :
    ((shown room topic payload).map Shown.bytes).flatten = payload := by
  rw [shown, List.map_cons, List.flatten_cons, flatten_laterShown, List.take_append_drop]

/-- A turn of the loop with bytes that are there. -/
theorem readPiece_arrive {c : Client ω} {data : List UInt8} {rest : List Arrival} {p : ℕ}
    (hp : (c.msg.bufferPos + c.msg.bufferLen) % 2 ^ 32 = p) (htotal : c.msg.totalLen = p + data.length)
    (hlt : c.msg.totalLen < 2 ^ 32) (hdata : data ≠ []) (hshort : data.length < 2 ^ 31) (hin : c.incoming = arrive data ++ rest)
    (hold : c.msg.topicName = none ∧ c.msg.bufferNew = false) :
    readPiece cb c = (if data.length ≤ rxBufLen then some 0 else none, { c with
      msg := { c.msg with bufferPos := p, bufferLen := min data.length rxBufLen, stat := .readPayload, buffer := 0 }
      rx := store c.rx 0 (data.take rxBufLen)
      incoming := arrive (data.drop rxBufLen) ++ rest
      world := cb ⟨none, data.take rxBufLen, false, decide (data.length ≤ rxBufLen)⟩ c.world }) := by
  obtain ⟨pkStat, headerLen, remainLen, bufLen, rx, msg, incoming, world⟩ := c
  obtain ⟨stat, packetId, qos, retain, duplicate, topicName, buffer, bufferLen, bufferPos, totalLen, bufferNew⟩ := msg
  simp only at hp htotal hlt hin hold
  obtain ⟨rfl, rfl⟩ := hold
  have hpos := List.length_pos_of_ne_nil hdata
  have hleft : min (Int.bmod ((totalLen : ℤ) - p) (2 ^ 32)) rxBufLen = (min data.length rxBufLen : ℕ) := by
    have hsub : (totalLen : ℤ) - p = data.length := by omega
    rw [hsub, Int.bmod_eq_of_le (by norm_num) (by norm_num; omega), Nat.cast_min]
  have hsome : ¬ ((min data.length rxBufLen : ℕ) : ℤ) ≤ 0 := by rw [rxBufLen]; omega
  have htake : min data.length rxBufLen = (data.take rxBufLen).length := by rw [List.length_take, min_comm]
  have hsplit : incoming = arrive (data.take rxBufLen) ++ (arrive (data.drop rxBufLen) ++ rest) := by
    rw [hin, ← List.append_assoc, arrive, arrive, arrive, ← List.map_append, List.take_append_drop]
  have hdone : totalLen ≤ (p + min data.length rxBufLen) % 2 ^ 32 ↔ data.length ≤ rxBufLen := by
    rw [Nat.mod_eq_of_lt (by omega)]
    omega
  have hpeek : peek (store rx ((0 : ℕ) : ℤ) (data.take rxBufLen)) 0 (min data.length rxBufLen) = data.take rxBufLen := by
    rw [htake]
    exact peek_of_at (at_store _ _ _)
  rw [readPiece]
  simp only [hp, hleft, hsome, if_false, Int.toNat_natCast]
  rw [readAt_arrive htake hsplit]
  simp only [Message.done, hdone, msgCb, hpeek, decide_eq_true_eq]
  rfl

/-- **The rest of a message** is read and shown in pieces. -/
theorem readPieces_arrive {rest : List Arrival} : ∀ {fuel : ℕ} {data : List UInt8} {c : Client ω} {p : ℕ},
    (c.msg.bufferPos + c.msg.bufferLen) % 2 ^ 32 = p → c.msg.totalLen = p + data.length → c.msg.totalLen < 2 ^ 32 →
    data ≠ [] → data.length < 2 ^ 31 → c.incoming = arrive data ++ rest → c.msg.topicName = none ∧ c.msg.bufferNew = false →
    data.length ≤ fuel →
    ∃ c', readPieces cb fuel c = some (0, c') ∧ c'.incoming = rest ∧ c'.world = showAll cb (laterShown data) c.world ∧
      c'.pkStat = c.pkStat ∧ c'.msg.stat = .readPayload ∧ c'.msg.done = true ∧ c'.msg.bufferNew = false := by
  intro fuel
  induction fuel with
  | zero =>
    intro data c p _ _ _ hdata _ _ _ hfuel
    exact absurd (List.eq_nil_of_length_eq_zero (Nat.le_zero.1 hfuel)) hdata
  | succ fuel ih =>
    intro data c p hp htotal hlt hdata hshort hin hold hfuel
    have hturn : readPiece cb c = _ := readPiece_arrive hp htotal hlt hdata hshort hin hold
    by_cases hlast : data.length ≤ rxBufLen
    · rw [if_pos hlast] at hturn
      rw [readPieces_succ, hturn]
      have hrest : data.drop rxBufLen = [] := List.drop_eq_nil_of_le hlast
      have hsum : (p + min data.length rxBufLen) % 2 ^ 32 = c.msg.totalLen := by
        rw [min_eq_left hlast, Nat.mod_eq_of_lt (by omega)]
        omega
      refine ⟨_, rfl, ?_, ?_, rfl, rfl, ?_, hold.2⟩
      · rw [hrest]
        rfl
      · rw [laterShown_cons hdata, hrest, laterShown_nil]
        rfl
      · simp only [Message.done, hsum, le_refl, decide_true]
    · rw [if_neg hlast] at hturn
      rw [readPieces_succ, hturn]
      have hdrop : (data.drop rxBufLen).length = data.length - rxBufLen := List.length_drop
      have hbuf : 0 < rxBufLen := by decide
      have hne : data.drop rxBufLen ≠ [] := List.ne_nil_of_length_pos (by omega)
      have hmin : min data.length rxBufLen = rxBufLen := min_eq_right (by omega)
      obtain ⟨c', hc', hin', hworld, hkept⟩ := ih (p := p + rxBufLen) (c := { c with
          msg := { c.msg with bufferPos := p, bufferLen := min data.length rxBufLen, stat := .readPayload, buffer := 0 }
          rx := store c.rx 0 (data.take rxBufLen)
          incoming := arrive (data.drop rxBufLen) ++ rest
          world := cb ⟨none, data.take rxBufLen, false, decide (data.length ≤ rxBufLen)⟩ c.world })
        (by simp only [hmin]; exact Nat.mod_eq_of_lt (by omega)) (by simp only; omega) hlt hne (by omega) rfl hold (by omega)
      refine ⟨c', hc', hin', ?_, hkept⟩
      rw [hworld, laterShown_cons hdata]
      rfl

/-- The client behind the first callback. -/
def Client.begun (cb : Shown → ω → ω) (c : Client ω) (msgDone : Bool) : Client ω :=
  { c with
    msg := { c.msg with topicName := none, bufferNew := false }
    world := cb ⟨c.msg.topicName, peek c.rx c.msg.buffer c.msg.bufferLen, true, msgDone⟩ c.world }

/-- A message that is all in the buffer. -/
theorem readPayload_done {c : Client ω} (hnew : c.msg.bufferNew = true) (hdone : c.msg.done = true) :
    readPayload cb c = some (0, c.begun cb true) := by
  rw [readPayload]
  simp only [hnew, hdone, if_true, msgCb]
  rfl

/-- A message that has been shown already. -/
theorem readPayload_old {c : Client ω} (hnew : c.msg.bufferNew = false) (hdone : c.msg.done = true) :
    readPayload cb c = some (0, c) := by
  rw [readPayload]
  simp only [hnew, hdone, if_true, Bool.false_eq_true, if_false]

/-- **A message** is read to its end and shown. -/
theorem readPayload_arrive (cb : Shown → ω → ω) {c : Client ω} {data : List UInt8} {rest : List Arrival} (hnew : c.msg.bufferNew = true)
    (hpos : c.msg.bufferPos = 0) (htotal : c.msg.totalLen = c.msg.bufferLen + data.length) (hlt : c.msg.totalLen < 2 ^ 32)
    (hshort : data.length < 2 ^ 31) (hin : c.incoming = arrive data ++ rest) :
    ∃ c', readPayload cb c = some (0, c') ∧ c'.incoming = rest ∧
      c'.world = showAll cb (laterShown data) (c.begun cb (decide (data = []))).world ∧
      c'.pkStat = c.pkStat ∧ c'.msg.stat = (if data = [] then c.msg.stat else .readPayload) ∧
      c'.msg.done = true ∧ c'.msg.bufferNew = false := by
  have hsum : (c.msg.bufferPos + c.msg.bufferLen) % 2 ^ 32 = c.msg.bufferLen := by
    rw [hpos, Nat.zero_add, Nat.mod_eq_of_lt (by omega)]
  by_cases hdata : data = []
  · subst hdata
    have hdone : c.msg.done = true := by simp only [Message.done, hsum, htotal, List.length_nil, Nat.add_zero, le_refl, decide_true]
    exact ⟨_, readPayload_done hnew hdone, hin, rfl, rfl, rfl, hdone, rfl⟩
  · have hlen := List.length_pos_of_ne_nil hdata
    have hdone : c.msg.done = false := decide_eq_false (by rw [hsum]; omega)
    have hfuel : data.length ≤ c.incoming.length + 1 := by
      rw [hin, List.length_append, arrive, List.length_map]
      omega
    obtain ⟨c', hc', hin', hworld, hpk, hstat, hdone', hnew'⟩ := readPieces_arrive
      (c := c.begun cb false) hsum htotal hlt hdata hshort hin ⟨rfl, rfl⟩ hfuel
    have hread : readPayload cb c = some (0, c') := by
      rw [readPayload]
      simp only [hnew, hdone, if_true, msgCb, Bool.false_eq_true, if_false]
      exact hc'
    rw [decide_eq_false hdata, if_neg hdata]
    exact ⟨c', hread, hin', hworld, hpk, hstat, hdone', hnew'⟩

end Payload

/-! ## A packet in the buffer -/

/-- The client behind `MqttPacket_Read` of a packet. -/
def Client.received (c : Client ω) (first : UInt8) (body : List UInt8) (rest : List Arrival) : Client ω :=
  { c.took first body rest with bufLen := min (headSize body + body.length) rxBufLen }

/-- The client that takes over a message. -/
def Client.published (c : Client ω) (body : List UInt8) : Client ω :=
  { c with msg := decodePublish c.rx (headSize body) body.length c.bufLen c.msg }

section Handle

variable {cb : Shown → ω → ω} {write : List UInt8 → ω → ℤ × ω} {c : Client ω} {first : UInt8} {body : List UInt8}
  {rest : List Arrival}

theorem received_type (c : Client ω) (first : UInt8) (body : List UInt8) (rest : List Arrival) :
    packetType (c.received first body rest).rx = first.toNat / 16 := by
  rw [packetType, show (c.received first body rest).rx 0 = first from took_type c first body rest]

theorem received_qos (c : Client ω) (first : UInt8) (body : List UInt8) (rest : List Arrival) :
    packetQos (c.received first body rest).rx = first.toNat / 2 % 4 := by
  rw [packetQos, show (c.received first body rest).rx 0 = first from took_type c first body rest]

theorem received_lens (hbody : body.length < 128 ^ 4) :
    decodeLens (c.received first body rest).rx = some (headSize body, body.length) :=
  @decodeLens_took ω first body rest c hbody

/-- A packet is decoded. -/
theorem decodePacket_received (hbody : body.length < 128 ^ 4) {type : ℕ} (htype : first.toNat / 16 = type)
    (hknown : type ∈ [2, 3, 4, 5, 6, 7, 9, 11, 13]) : (decodePacket (c.received first body rest)).1 = headSize body + body.length := by
  have hlen : ¬ (c.received first body rest).bufLen < 2 := by
    have hle := (headSize_bounds body).1
    rw [Client.received, rxBufLen]
    simp only
    omega
  rw [decodePacket, if_neg hlen, received_lens hbody]
  simp only [received_type, htype]
  simp only [List.mem_cons, List.not_mem_nil, or_false] at hknown
  rcases hknown with rfl | rfl | rfl | rfl | rfl | rfl | rfl | rfl | rfl <;> rfl

/-- A message that is new is taken over, read and answered. -/
theorem handlePacket_new (hbody : body.length < 128 ^ 4) (htype : first.toNat / 16 = 3)
    (hfresh : c.msg.stat = .begin ∨ c.msg.stat = .read) :
    handlePacket cb write 3 (c.received first body rest) =
      (readPayload cb ((c.received first body rest).published body)).map fun p =>
        if p.1 < 0 ∨ first.toNat / 2 % 4 = 0 then p
        else respond write (if first.toNat / 2 % 4 = 1 then 4 else 5) (decodePacket (c.received first body rest)).2 p.2 := by
  have hrc : (decodePacket (c.received first body rest)).1 = headSize body + body.length :=
    decodePacket_received hbody htype (by simp)
  have hle := (headSize_bounds body).1
  have hpos : ¬ ((decodePacket (c.received first body rest)).1 ≤ 0) := by rw [hrc]; omega
  have hstat : (c.received first body rest).msg.stat = .begin ∨ (c.received first body rest).msg.stat = .read := hfresh
  rw [handlePacket]
  simp only [if_true, hstat, hpos, and_false, if_false, received_lens hbody, received_qos]
  rfl

theorem word32_nonneg {x : ℤ} (h0 : 0 ≤ x) (hlt : x < 2 ^ 32) : (word32 x : ℤ) = x := by
  rw [word32, Int.emod_eq_of_lt h0 hlt, Int.toNat_of_nonneg h0]

theorem word32_neg {x : ℤ} (h0 : x < 0) (hle : -2 ^ 32 ≤ x) : (word32 x : ℤ) = x + 2 ^ 32 := by
  rw [word32, ← Int.add_emod_right, Int.emod_eq_of_lt (by omega) (by omega), Int.toNat_of_nonneg (by omega)]

theorem decodeNum_lt (m : ℤ → UInt8) (i : ℤ) : decodeNum m i < 2 ^ 16 := by
  have h1 := (m i).toNat_lt
  have h2 := (m (i + 1)).toNat_lt
  rw [decodeNum]
  omega

/-- The length of the topic and the id of a message, as its first two bytes give it. -/
def varLen (first : UInt8) (body : List UInt8) : ℕ :=
  2 + decodeNum (fun i => body.getD i.toNat 0) 0 + (if 0 < first.toNat / 2 % 4 then 2 else 0)

/-- The payload begins behind the end of the buffer. -/
def Overlong (first : UInt8) (body : List UInt8) : Prop :=
  rxBufLen < headSize body + varLen first body ∧ varLen first body ≤ body.length

instance (first : UInt8) (body : List UInt8) : Decidable (Overlong first body) := inferInstanceAs (Decidable (_ ∧ _))

/-- The same, as it is found in the buffer. -/
def Client.variableLen (c : Client ω) (body : List UInt8) : ℕ :=
  2 + decodeNum c.rx (headSize body) + (if 0 < packetQos c.rx then 2 else 0)

theorem overlong_iff : Overlong first body ↔ rxBufLen < headSize body + (c.received first body rest).variableLen body ∧
    (c.received first body rest).variableLen body ≤ body.length := by
  by_cases hshort : body.length < 2
  · refine iff_of_false (fun h => ?_) fun h => ?_
    · have hle := h.2
      rw [varLen] at hle
      omega
    · have hle := h.2
      rw [Client.variableLen] at hle
      omega
  · obtain ⟨a, b, t, rfl⟩ : ∃ a b t, body = a :: b :: t := by
      match body, hshort with
      | [], hshort => exact absurd Nat.two_pos hshort
      | [a], hshort => exact absurd Nat.one_lt_two hshort
      | a :: b :: t, _ => exact ⟨a, b, t, rfl⟩
    have hsize := (headSize_bounds (a :: b :: t)).2
    have hat := @took_body ω first (a :: b :: t) rest c [a, b] t rfl (by
      simp only [List.length_cons, List.length_nil, rxBufLen]
      omega)
    have hnum : decodeNum (c.received first (a :: b :: t) rest).rx (headSize (a :: b :: t)) = a.toNat * 256 + b.toNat := by
      rw [decodeNum]
      exact congrArg₂ (fun x y : UInt8 => x.toNat * 256 + y.toNat) hat.1 hat.2.1
    rw [Overlong, varLen, Client.variableLen, received_qos, hnum]
    rfl

/-- What is read of a message, whatever is in it: all, unless the payload begins behind the end of the buffer. -/
theorem readPayload_published (hbody : body.length < 128 ^ 4) :
    ∃ c', readPayload cb ((c.received first body rest).published body) = some (0, c') ∧ c'.pkStat = .begin ∧
      c'.incoming = (if Overlong first body then arrive ((frame first body).drop rxBufLen) ++ rest else rest) ∧
      (Overlong first body → ∃ s, c'.world = cb s c.world ∧ c'.msg.stat = c.msg.stat) := by
  set c₁ := c.received first body rest with hc₁
  set v := c₁.variableLen body with hv
  have hsize := headSize_bounds body
  have hbuf : rxBufLen = 1024 := rfl
  have hbound : v < 2 ^ 17 := by
    have hnum := decodeNum_lt c₁.rx (headSize body)
    rw [hv, Client.variableLen]
    split_ifs <;> omega
  have htotal : (c₁.published body).msg.totalLen = word32 (body.length - v) := rfl
  have hlen : (c₁.published body).msg.bufferLen = word32 (min (body.length - v)
      ((min (headSize body + body.length) rxBufLen : ℕ) - (headSize body + v))) := rfl
  have hin : (c₁.published body).incoming = arrive (body.drop (rxBufLen - headSize body)) ++ rest := by
    rw [← drop_frame]
    rfl
  have hdrop : (body.drop (rxBufLen - headSize body)).length = body.length - (rxBufLen - headSize body) := List.length_drop
  have hiff : Overlong first body ↔ rxBufLen < headSize body + v ∧ v ≤ body.length := overlong_iff
  rw [drop_frame]
  by_cases hlost : Overlong first body
  · rw [if_pos hlost]
    refine ⟨_, readPayload_done rfl ?_, rfl, hin, fun _ => ⟨_, rfl, rfl⟩⟩
    rw [hiff] at hlost
    -- the length of the piece is negative
    have hneg := word32_neg (x := min ((body.length : ℤ) - v)
      ((min (headSize body + body.length) rxBufLen : ℕ) - (headSize body + v))) (by omega) (by omega)
    have hpos := word32_nonneg (x := (body.length : ℤ) - v) (by omega) (by omega)
    rw [← htotal] at hpos
    rw [← hlen] at hneg
    have hmod : (0 + (c₁.published body).msg.bufferLen) % 2 ^ 32 = (c₁.published body).msg.bufferLen := by
      rw [Nat.zero_add, Nat.mod_eq_of_lt (by omega)]
    exact decide_eq_true (by rw [show (c₁.published body).msg.bufferPos = 0 from rfl, hmod]; omega)
  · rw [if_neg hlost]
    rw [hiff] at hlost
    have hsum : (c₁.published body).msg.totalLen =
        (c₁.published body).msg.bufferLen + (body.drop (rxBufLen - headSize body)).length ∧
          (c₁.published body).msg.totalLen < 2 ^ 32 := by
      rw [htotal, hlen, hdrop]
      by_cases hv' : v ≤ body.length
      · have hpos := word32_nonneg (x := (body.length : ℤ) - v) (by omega) (by omega)
        have hpos' := word32_nonneg (x := min ((body.length : ℤ) - v)
          ((min (headSize body + body.length) rxBufLen : ℕ) - (headSize body + v))) (by omega) (by omega)
        omega
      · -- what the packet says of its lengths does not fit together
        have hneg := word32_neg (x := (body.length : ℤ) - v) (by omega) (by omega)
        have hneg' := word32_neg (x := min ((body.length : ℤ) - v)
          ((min (headSize body + body.length) rxBufLen : ℕ) - (headSize body + v))) (by omega) (by omega)
        omega
    obtain ⟨c', hc', hin', -, hpk, -⟩ := readPayload_arrive cb rfl rfl hsum.1 hsum.2 (by rw [hdrop]; omega) hin
    exact ⟨c', hc', hpk, hin', fun hover => absurd (hiff.1 hover) hlost⟩

theorem respond_kept (write : List UInt8 → ω → ℤ × ω) (type packetId : ℕ) (c : Client ω) :
    (respond write type packetId c).2.incoming = c.incoming ∧ (respond write type packetId c).2.pkStat = c.pkStat := by
  rw [respond]
  cases encodePublishResp type packetId <;> exact ⟨rfl, rfl⟩

/-- **Whatever is in a PUBLISH**, topic, id and lengths, the client returns, and it has taken the whole packet and no more
from the socket, unless the payload begins behind the end of the buffer: then what the buffer does not hold is left for the
next packet. -/
theorem handlePacket_any (cb : Shown → ω → ω) (write : List UInt8 → ω → ℤ × ω) (hbody : body.length < 128 ^ 4)
    (htype : first.toNat / 16 = 3) (hfresh : c.msg.stat = .begin ∨ c.msg.stat = .read) :
    ∃ rc c', handlePacket cb write 3 (c.received first body rest) = some (rc, c') ∧ c'.pkStat = .begin ∧
      c'.incoming = (if Overlong first body then arrive ((frame first body).drop rxBufLen) ++ rest else rest) ∧
      (Overlong first body → first.toNat / 2 % 4 = 0 → rc = 0 ∧ ∃ s, c'.world = cb s c.world ∧ c'.msg.stat = c.msg.stat) := by
  obtain ⟨c', hread, hpk, hin, hover⟩ := @readPayload_published ω cb c first body rest hbody
  rw [handlePacket_new hbody htype hfresh, hread, Option.map_some]
  by_cases hquiet : (0 : ℤ) < 0 ∨ first.toNat / 2 % 4 = 0
  · exact ⟨0, c', by rw [if_pos hquiet], hpk, hin, fun h _ => ⟨rfl, hover h⟩⟩
  · refine ⟨_, _, by rw [if_neg hquiet], ?_, ?_, fun _ hzero => absurd (Or.inr hzero) hquiet⟩
    · rw [(respond_kept ..).2]
      exact hpk
    · rw [(respond_kept ..).1]
      exact hin

end Handle

/-! ## The packets that the client knows -/

section Known

variable {cb : Shown → ω → ω} {write : List UInt8 → ω → ℤ × ω} {c : Client ω} {rest : List Arrival}

theorem decodeNum_at {m : ℤ → UInt8} {i : ℤ} {n : ℕ} (hn : n < 2 ^ 16) (h : At m i (Wire.num n)) : decodeNum m i = n := by
  obtain ⟨hhigh, hlow, -⟩ := h
  rw [decodeNum, hhigh, hlow, Wire.toNat_ofNat (by omega), Wire.toNat_ofNat (by omega), Nat.div_add_mod']

/-- An answer is made. -/
theorem encodePublishResp_eq (type packetId : ℕ) :
    encodePublishResp type packetId = .ok (resp type packetId) := by
  have hfit : ¬ txBufLen < (fixedHeader type (if type = 6 then 1 else 0) 2).length + 2 := by
    simp only [fixedHeader, List.length_cons, txBufLen]
    have hle := Wire.length_vbi_le 4 2
    omega
  rw [encodePublishResp, inBuffer, if_neg hfit]
  rfl

theorem Inbound.body_lt {p : Inbound} (h : p.Fits) : p.body.length < 128 ^ 4 := by
  cases p with
  | publish => exact h.2.2.2.1
  | other =>
    have hsize := h.2.2.2
    rw [rxBufLen] at hsize
    omega

theorem Inbound.first_type {p : Inbound} (h : p.Fits) : p.first.toNat / 16 = p.type := by
  cases p with
  | publish retain duplicate qos packetId topic payload =>
    have hbits : ∀ r d : Bool, ∀ q ≤ 2, (UInt8.ofNat (48 + (if d then 8 else 0) + q * 2 + if r then 1 else 0)).toNat / 16 = 3 := by
      decide
    exact hbits retain duplicate qos h.1
  | other type flags packetId rest =>
    obtain ⟨htype, hflags, -⟩ := h
    have hlt : type < 16 := by
      have hall : ∀ t ∈ [2, 4, 5, 6, 7, 9, 11, 13], t < 16 := by decide
      exact hall type htype
    rw [first, Wire.toNat_ofNat (by omega), Inbound.type]
    omega

theorem Inbound.first_qos {retain duplicate : Bool} {qos packetId : ℕ} {topic payload : List UInt8} (hqos : qos ≤ 2) :
    (Inbound.publish retain duplicate qos packetId topic payload).first.toNat / 2 % 4 = qos := by
  have hbits : ∀ r d : Bool, ∀ q ≤ 2, (UInt8.ofNat (48 + (if d then 8 else 0) + q * 2 + if r then 1 else 0)).toNat / 2 % 4 = q := by
    decide
  exact hbits retain duplicate qos hqos

section Publish

variable {retain duplicate : Bool} {qos packetId : ℕ} {topic payload : List UInt8} {p : Inbound}

/-- The topic and the id. -/
def publishHead (qos packetId : ℕ) (topic : List UInt8) : List UInt8 :=
  Wire.string topic ++ if 0 < qos then Wire.num packetId else []

theorem length_publishHead (qos packetId : ℕ) (topic : List UInt8) :
    (publishHead qos packetId topic).length = 2 + topic.length + if 0 < qos then 2 else 0 := by
  rw [publishHead, List.length_append, Wire.length_string]
  split_ifs
  · rw [Wire.length_num, Nat.add_comm topic.length]
  · rw [List.length_nil, Nat.add_comm topic.length]

/-- What stands in the buffer of a message. -/
theorem received_publish (c : Client ω) (rest : List Arrival) (hp : p = .publish retain duplicate qos packetId topic payload) (h : p.Fits) :
    At (c.received p.first p.body rest).rx (headSize p.body) (publishHead qos packetId topic ++ payload.take p.room) := by
  subst hp
  have hfits := h.2.2.2.2
  have hroom : Inbound.room (.publish retain duplicate qos packetId topic payload) = rxBufLen -
    (headSize (Inbound.body (.publish retain duplicate qos packetId topic payload)) + (2 + topic.length + if 0 < qos then 2 else 0)) :=
    rfl
  have hlen := length_publishHead qos packetId topic
  refine @took_body ω _ _ rest c (publishHead qos packetId topic ++ payload.take _)
    (payload.drop (Inbound.room (.publish retain duplicate qos packetId topic payload))) ?_ ?_
  · rw [List.append_assoc, List.take_append_drop]
    rfl
  · rw [List.length_append, List.length_take, hlen]
    omega

/-- The topic is where it is looked for. -/
theorem received_topic (c : Client ω) (rest : List Arrival) (hp : p = .publish retain duplicate qos packetId topic payload) (h : p.Fits) :
    let rx := (c.received p.first p.body rest).rx
    decodeNum rx (headSize p.body) = topic.length ∧ peek rx (headSize p.body + 2) topic.length = topic ∧
      (0 < qos → decodeNum rx (headSize p.body + 2 + topic.length) = packetId) ∧
      peek rx (headSize p.body + ((2 + topic.length + if 0 < qos then 2 else 0 : ℕ) : ℤ)) (payload.take p.room).length =
        payload.take p.room := by
  have hat := received_publish c rest hp h
  subst hp
  obtain ⟨hqos, hid, htopic, -⟩ := h
  set rx := (c.received _ _ rest).rx
  obtain ⟨hhead, hpay⟩ := (at_append ..).1 hat
  rw [publishHead, at_append, Wire.string, at_append, Wire.length_num] at hhead
  obtain ⟨⟨hnum, hname⟩, hpacketId⟩ := hhead
  refine ⟨decodeNum_at htopic hnum, peek_of_at hname, fun hpos => ?_, ?_⟩
  · rw [if_pos hpos] at hpacketId
    refine decodeNum_at hid ?_
    rw [List.length_append, Wire.length_num] at hpacketId
    rw [add_assoc]
    exact_mod_cast hpacketId
  · refine peek_of_at ?_
    rw [← length_publishHead]
    exact hpay

/-- The fields of the message. -/
theorem published_eq (c : Client ω) (rest : List Arrival) (hp : p = .publish retain duplicate qos packetId topic payload) (h : p.Fits) :
    let c₁ := (c.received p.first p.body rest).published p.body
    c₁.msg.topicName = some topic ∧ peek c₁.rx c₁.msg.buffer c₁.msg.bufferLen = payload.take p.room ∧
      c₁.msg.totalLen = c₁.msg.bufferLen + (payload.drop p.room).length ∧ c₁.msg.totalLen < 2 ^ 32 := by
  obtain ⟨hlen, hname, -, hpay⟩ := received_topic c rest hp h
  have hqosIs : packetQos (c.received p.first p.body rest).rx = qos := by
    subst hp
    rw [received_qos]
    exact Inbound.first_qos h.1
  have hbody : p.body.length = 2 + topic.length + (if 0 < qos then 2 else 0) + payload.length := by
    subst hp
    rw [← length_publishHead qos packetId topic, ← List.length_append]
    rfl
  have hroom : p.room = rxBufLen - (headSize p.body + (2 + topic.length + if 0 < qos then 2 else 0)) := by subst hp; rfl
  have hsize : p.body.length < 128 ^ 4 := Inbound.body_lt h
  have hfit : headSize p.body + (2 + topic.length + if 0 < qos then 2 else 0) ≤ rxBufLen := by subst hp; exact h.2.2.2.2
  set v := 2 + topic.length + (if 0 < qos then 2 else 0) with hv
  set c₁ := (c.received p.first p.body rest).published p.body with hc₁
  have htotal : c₁.msg.totalLen = word32 (p.body.length - ((2 + decodeNum (c.received p.first p.body rest).rx
    (headSize p.body) + (if 0 < packetQos (c.received p.first p.body rest).rx then 2 else 0) : ℕ) : ℤ)) := rfl
  have hbuffer : c₁.msg.bufferLen = word32 (min (p.body.length - ((2 + decodeNum (c.received p.first p.body rest).rx
    (headSize p.body) + (if 0 < packetQos (c.received p.first p.body rest).rx then 2 else 0) : ℕ) : ℤ))
    ((min (headSize p.body + p.body.length) rxBufLen : ℕ) - (headSize p.body + ((2 + decodeNum (c.received p.first p.body
      rest).rx (headSize p.body) + (if 0 < packetQos (c.received p.first p.body rest).rx then 2 else 0) : ℕ) : ℤ)))) := rfl
  have hname₁ : c₁.msg.topicName = some (peek (c.received p.first p.body rest).rx (headSize p.body + 2)
    (decodeNum (c.received p.first p.body rest).rx (headSize p.body))) := rfl
  have hat₁ : c₁.msg.buffer = headSize p.body + ((2 + decodeNum (c.received p.first p.body rest).rx
    (headSize p.body) + (if 0 < packetQos (c.received p.first p.body rest).rx then 2 else 0) : ℕ) : ℤ) := rfl
  rw [hlen, hqosIs, ← hv] at htotal hbuffer hat₁
  rw [hlen] at hname₁
  have htake : (payload.take p.room).length = min p.room payload.length := List.length_take
  have htotal' := word32_nonneg (x := (p.body.length : ℤ) - v) (by omega) (by omega)
  have hbuffer' := word32_nonneg (x := min ((p.body.length : ℤ) - v)
    ((min (headSize p.body + p.body.length) rxBufLen : ℕ) - (headSize p.body + v))) (by omega) (by omega)
  rw [← htotal] at htotal'
  rw [← hbuffer] at hbuffer'
  have hcount : c₁.msg.bufferLen = (payload.take p.room).length := by omega
  refine ⟨by rw [hname₁, hname], ?_, ?_, by omega⟩
  · rw [hcount, hat₁]
    exact hpay
  · rw [List.length_drop]
    omega

/-- Whether there is more of the message than the buffer holds. -/
theorem large_iff (hp : p = .publish retain duplicate qos packetId topic payload) (h : p.Fits) :
    p.Large ↔ payload.drop p.room ≠ [] := by
  have hbody : p.body.length = (2 + topic.length + if 0 < qos then 2 else 0) + payload.length := by
    subst hp
    rw [← length_publishHead qos packetId topic, ← List.length_append]
    rfl
  have hbytes : p.bytes.length = headSize p.body + p.body.length := length_frame ..
  have htype : p.type = 3 := by subst hp; rfl
  have hroom : p.room = rxBufLen - (headSize p.body + (2 + topic.length + if 0 < qos then 2 else 0)) := by subst hp; rfl
  have hfit : headSize p.body + (2 + topic.length + if 0 < qos then 2 else 0) ≤ rxBufLen := by subst hp; exact h.2.2.2.2
  rw [Inbound.Large, htype, hbytes, hbody, Ne, List.drop_eq_nil_iff, hroom]
  omega

end Publish

/-- The id that is decoded. -/
theorem decodePacket_id (c : Client ω) (rest : List Arrival) {p : Inbound} (h : p.Fits) : (decodePacket (c.received p.first p.body rest)).2 = p.id := by
  have hbody := Inbound.body_lt h
  have htype := Inbound.first_type h
  have hlen : ¬ (c.received p.first p.body rest).bufLen < 2 := by
    have hle := (headSize_bounds p.body).1
    rw [Client.received, rxBufLen]
    simp only
    omega
  rw [decodePacket, if_neg hlen, received_lens hbody]
  simp only [received_type, htype]
  cases hp : p with
  | publish retain duplicate qos packetId topic payload =>
    obtain ⟨htopic, -, hid, -⟩ := received_topic c rest hp h
    rw [hp] at htopic hid h
    have hqos : packetQos (c.received (Inbound.publish retain duplicate qos packetId topic payload).first
      (Inbound.publish retain duplicate qos packetId topic payload).body rest).rx = qos := by
      rw [received_qos]
      exact Inbound.first_qos h.1
    simp only [Inbound.type, if_true, hqos, htopic, Inbound.id]
    split_ifs with hpos
    · exact hid hpos
    · rfl
  | other type flags packetId rest' =>
    rw [hp] at h
    obtain ⟨hknown, -, hid, hfit⟩ := h
    have hthree : ¬ type = 3 := by rintro rfl; simp at hknown
    by_cases hhas : hasId type = true
    · have hfront : (Inbound.other type flags packetId rest').body = Wire.num packetId ++ rest' := by
        rw [Inbound.body, if_pos hhas]
      have hroom : headSize (Inbound.other type flags packetId rest').body + (Wire.num packetId).length ≤ rxBufLen := by
        rw [hfront, List.length_append] at hfit
        rw [hfront]
        omega
      simp only [Inbound.type, hthree, if_false, Inbound.id, hhas, if_true]
      exact decodeNum_at hid (@took_body ω _ _ rest c _ _ hfront hroom)
    · simp only [Inbound.type, hthree, if_false, Inbound.id, hhas, Bool.false_eq_true]
      by_cases hplain : type = 2 ∨ type = 13 <;> simp only [hplain, if_true, if_false]

/-- **The client between two packets**: nothing is left to do of the one before. -/
structure Client.Between (c : Client ω) (stat : MsgStat) (incoming : List Arrival) (w : ω) : Prop where
  pkStat_eq : c.pkStat = .begin
  stat_eq : c.msg.stat = stat
  incoming_eq : c.incoming = incoming
  world_eq : c.world = w
  /-- A message that is taken for one in the middle of which the client stands has been read. -/
  read : stat = .readPayload → c.msg.done = true ∧ c.msg.bufferNew = false

/-- An answer that can be written. -/
theorem respond_write {type packetId : ℕ} {acts : List Act} {w' : ω}
    (h : perform cb write (.write (resp type packetId) :: acts) c.world = some w') :
    ∃ rc c', respond write type packetId c = (rc, c') ∧ 0 ≤ rc ∧ perform cb write acts c'.world = some w' ∧
      c'.pkStat = c.pkStat ∧ c'.msg = c.msg ∧ c'.incoming = c.incoming := by
  rw [perform] at h
  split_ifs at h with hfail
  rw [respond, encodePublishResp_eq]
  exact ⟨_, _, rfl, not_lt.1 hfail, h, rfl, rfl, rfl⟩

/-- **A message is served**: shown to its end, and answered. -/
theorem handlePacket_publish {p : Inbound} (htype : p.type = 3) (h : p.Fits) {stat : MsgStat} {incoming : List Arrival}
    {w w' : ω} (hc : c.Between stat incoming w) (hfresh : stat = .begin ∨ stat = .read)
    (hacts : perform cb write p.acts w = some w') :
    ∃ rc c', handlePacket cb write 3 (c.received p.first p.body rest) = some (rc, c') ∧ 0 ≤ rc ∧
      c'.Between (if p.Large then .readPayload else stat) rest w' := by
  obtain ⟨retain, duplicate, qos, packetId, topic, payload, hp⟩ : ∃ retain duplicate qos packetId topic payload,
      p = .publish retain duplicate qos packetId topic payload := by
    cases p with
    | publish retain duplicate qos packetId topic payload => exact ⟨_, _, _, _, _, _, rfl⟩
    | other type flags packetId rest =>
      obtain rfl : type = 3 := htype
      exact absurd h.1 (by simp)
  have hbody := Inbound.body_lt h
  have hfirst : p.first.toNat / 16 = 3 := by rw [Inbound.first_type h, htype]
  have hqosIs : p.first.toNat / 2 % 4 = qos := by
    subst hp
    exact Inbound.first_qos h.1
  have hid : (decodePacket (c.received p.first p.body rest)).2 = if 0 < qos then packetId else 0 := by
    rw [decodePacket_id c rest h]
    subst hp
    rfl
  obtain ⟨hname, hpiece, htotal, hlt⟩ := published_eq c rest hp h
  set c₁ := (c.received p.first p.body rest).published p.body with hc₁
  have hroom : p.room = rxBufLen - headSize p.body - (publishHead qos packetId topic).length := by
    rw [length_publishHead, Nat.sub_sub]
    subst hp
    rfl
  have hin : c₁.incoming = arrive (payload.drop p.room) ++ rest := by
    have hfit : (publishHead qos packetId topic).length ≤ rxBufLen - headSize p.body := by
      rw [length_publishHead]
      subst hp
      have hfits := h.2.2.2.2
      omega
    have hfront : p.body = publishHead qos packetId topic ++ payload := by subst hp; rfl
    have hdrop : p.body.drop (rxBufLen - headSize p.body) = payload.drop p.room := by
      rw [hroom]
      conv_lhs => rw [hfront]
      rw [List.drop_append, List.drop_eq_nil_of_le (by rw [← hfront]; exact hfit), List.nil_append, ← hfront]
    rw [← hdrop, ← drop_frame p.first]
    rfl
  have hshort : (payload.drop p.room).length < 2 ^ 31 := by
    have hle : payload.length ≤ p.body.length := by
      subst hp
      simp only [Inbound.body, List.length_append]
      omega
    rw [List.length_drop]
    omega
  obtain ⟨c', hread, hin', hworld, hpk, hstat, hdone, hnew⟩ := readPayload_arrive cb rfl rfl htotal hlt hshort hin
  -- what has been shown
  have hshown : c'.world = showAll cb (shown p.room topic payload) w := by
    rw [hworld, Client.begun, hname, hpiece, show c₁.world = w from hc.world_eq, shown, showAll, showAll, List.foldl_cons]
    simp only [List.drop_eq_nil_iff]
  have hstat' : c'.msg.stat = if p.Large then .readPayload else stat := by
    rw [hstat, show c₁.msg.stat = stat from hc.stat_eq]
    simp only [large_iff hp h, ne_eq, ite_not]
  have hbetween : ∀ {w' : ω}, c'.world = w' → c'.Between (if p.Large then .readPayload else stat) rest w' :=
    fun hw => ⟨hpk, hstat', hin', hw, fun _ => ⟨hdone, hnew⟩⟩
  have hown : p.acts = (shown p.room topic payload).map .show ++
      if qos = 0 then [] else [.write (resp (if qos = 1 then 4 else 5) packetId)] := by subst hp; rfl
  rw [hown, perform_show, ← hshown] at hacts
  rw [handlePacket_new hbody hfirst (by rw [hc.stat_eq]; exact hfresh), hread, Option.map_some, hqosIs, hid]
  by_cases hquiet : qos = 0
  · rw [if_pos hquiet] at hacts
    rw [if_pos (Or.inr hquiet)]
    exact ⟨0, c', rfl, le_refl 0, hbetween (Option.some.inj hacts)⟩
  · rw [if_neg hquiet] at hacts
    rw [if_neg (by simp [hquiet]), if_pos (Nat.pos_of_ne_zero hquiet)]
    obtain ⟨rc, c'', hresp, hrc, hw, hpk', hmsg, hin''⟩ := respond_write hacts
    refine ⟨rc, c'', congrArg some hresp, hrc, ?_⟩
    have hb := hbetween rfl
    exact ⟨hpk'.trans hb.pkStat_eq, by rw [hmsg]; exact hb.stat_eq, hin''.trans hb.incoming_eq, Option.some.inj hw, by rw [hmsg]; exact hb.read⟩

/-- **A message that comes while another is taken for unread** is neither shown nor answered, and what of it the buffer does
not hold stays in the socket. -/
theorem handlePacket_stale {p : Inbound} {incoming : List Arrival} {w : ω}
    (hc : c.Between .readPayload incoming w) :
    ∃ c', handlePacket cb write 3 (c.received p.first p.body rest) = some (0, c') ∧
      c'.Between .readPayload (arrive (p.bytes.drop rxBufLen) ++ rest) w := by
  obtain ⟨hdone, hnew⟩ := hc.read rfl
  have hread : readPayload cb (c.received p.first p.body rest) = some (0, c.received p.first p.body rest) :=
    readPayload_old hnew hdone
  have hstale : ¬ ((c.received p.first p.body rest).msg.stat = .begin ∨ (c.received p.first p.body rest).msg.stat = .read) := by
    rw [show (c.received p.first p.body rest).msg.stat = .readPayload from hc.stat_eq]
    simp
  refine ⟨c.received p.first p.body rest, ?_, rfl, hc.stat_eq, rfl, hc.world_eq, hc.read⟩
  rw [handlePacket]
  simp only [if_true, hstale, false_and, if_false]
  cases decodeLens (c.received p.first p.body rest).rx <;> simp only [hread, Option.map_some, or_true, if_true]

/-- **The other packets are served.** -/
theorem handlePacket_other {p : Inbound} (htype : p.type ≠ 3) (h : p.Fits) {stat : MsgStat} {incoming : List Arrival} {w w' : ω}
    (hc : c.Between stat incoming w) (hacts : perform cb write p.acts w = some w') :
    ∃ rc c', handlePacket cb write p.type (c.received p.first p.body rest) = some (rc, c') ∧ 0 ≤ rc ∧
      c'.Between stat rest w' := by
  obtain ⟨type, flags, packetId, rest', hp⟩ : ∃ type flags packetId rest', p = .other type flags packetId rest' := by
    cases p with
    | publish => exact absurd rfl htype
    | other type flags packetId rest' => exact ⟨_, _, _, _, rfl⟩
  have hbody := Inbound.body_lt h
  have hfirst := Inbound.first_type h
  have hid := decodePacket_id c rest h
  have htype' : p.type = type := by subst hp; rfl
  have hknown : type ∈ [2, 4, 5, 6, 7, 9, 11, 13] := by subst hp; exact h.1
  have hall : (packetType (c.received p.first p.body rest).rx) = type := by rw [received_type, hfirst, htype']
  have hrc : (decodePacket (c.received p.first p.body rest)).1 = headSize p.body + p.body.length := by
    refine decodePacket_received hbody (hfirst.trans htype') ?_
    simp only [List.mem_cons, List.not_mem_nil, or_false] at hknown ⊢
    omega
  have hpos : ¬ ((decodePacket (c.received p.first p.body rest)).1 ≤ 0) := by
    have hle := (headSize_bounds p.body).1
    rw [hrc]
    omega
  have hown : p.acts = if type = 5 ∨ type = 6 then [.write (resp (type + 1) packetId)] else [] := by subst hp; rfl
  have hlength : p.body.length = p.body.length ∧ headSize p.body + p.body.length ≤ rxBufLen := ⟨rfl, by subst hp; exact h.2.2.2⟩
  have hall' : arrive ((frame p.first p.body).drop rxBufLen) ++ rest = rest := by
    rw [List.drop_eq_nil_of_le (by rw [length_frame]; exact hlength.2)]
    rfl
  have hbetween : (c.received p.first p.body rest).Between stat rest w := ⟨rfl, hc.stat_eq, hall', hc.world_eq, hc.read⟩
  rw [hown] at hacts
  rw [handlePacket, htype']
  have hthree : ¬ type = 3 := by rintro rfl; simp at hknown
  simp only [hthree, if_false, hall]
  by_cases hack : type = 4 ∨ type = 5 ∨ type = 6 ∨ type = 7
  · rw [if_pos hack, if_neg hpos]
    by_cases hanswer : type = 5 ∨ type = 6
    · rw [if_pos hanswer] at hacts
      rw [if_neg (by omega)]
      have hidIs : p.id = packetId := by
        subst hp
        rw [Inbound.id]
        rcases hanswer with rfl | rfl <;> rfl
      rw [hid, hidIs]
      rw [← hbetween.world_eq] at hacts
      obtain ⟨rc, c'', hresp, hrc', hw, hpk', hmsg, hin''⟩ := respond_write hacts
      refine ⟨rc, c'', congrArg some hresp, hrc', ?_⟩
      exact ⟨hpk'.trans hbetween.pkStat_eq, by rw [hmsg]; exact hbetween.stat_eq, hin''.trans hbetween.incoming_eq,
        Option.some.inj hw, by rw [hmsg]; exact hbetween.read⟩
    · rw [if_neg hanswer] at hacts
      rw [if_pos (by omega)]
      refine ⟨_, _, rfl, le_of_not_ge hpos, ?_⟩
      rw [← Option.some.inj hacts]
      exact hbetween
  · rw [if_neg hack]
    have hquiet : ¬ (type = 5 ∨ type = 6) := by omega
    rw [if_neg hquiet] at hacts
    have hlast : type = 2 ∨ type = 9 ∨ type = 11 ∨ type = 13 := by
      simp only [List.mem_cons, List.not_mem_nil, or_false] at hknown
      omega
    rw [if_pos hlast]
    refine ⟨_, _, rfl, le_of_not_ge hpos, ?_⟩
    rw [← Option.some.inj hacts]
    exact hbetween

end Known

end W601.Mqtt.Recv
