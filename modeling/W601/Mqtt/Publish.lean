import W601.Mqtt.Rounds

/-!
# What the MQTT client sends (`mqtt_client.c`, `mqtt_socket.c`)

A packet goes to the socket in the pieces that the socket takes; a message that is longer than the buffer goes in several
writes.

* `publishAll_exact_iff`: **which messages arrive as they are**, when no write fails.
* `publish_lost_iff`: which message is lost although the answer is that it has been sent.
* `writeAll_exact_iff`: what a write that fails in the middle of a packet does to the packets behind it.
* `publish_answered`: a message is sent, and its answer found among whatever else comes in.
-/

namespace W601.Mqtt.Send

open Recv (Inbound frame headSize publishHead)
open Net (badArg)

/-! ## The socket -/

/-- `write.pos` of the client, what the broker has got, and the answers of `NetWrite` to come; behind their end the socket
takes all it is given. -/
structure Sender where
  pos : ℕ
  wire : List UInt8
  sends : List ℤ
  deriving DecidableEq

/-- The loop of `MqttSocket_Write`. -/
def writeLoop (buf : List UInt8) : List ℤ → ℕ → List UInt8 → ℤ × Sender
  | [], pos, wire => ((buf.length - pos : ℕ), ⟨buf.length, wire ++ buf.drop pos, []⟩)
  | sent :: sends, pos, wire =>
    if sent ≤ 0 then (sent, ⟨pos, wire, sends⟩)
    else
      let n := min sent.toNat (buf.length - pos)
      let wire := wire ++ (buf.drop pos).take n
      if pos + n < buf.length then writeLoop buf sends (pos + n) wire else (n, ⟨pos + n, wire, sends⟩)

/-- `MqttSocket_Write`. -/
def socketWrite (buf : List UInt8) (s : Sender) : ℤ × Sender :=
  if buf.length = 0 then (badArg, s)
  else if buf.length ≤ s.pos then (outOfBuffer, s)
  else
    let (rc, s) := writeLoop buf s.sends s.pos s.wire
    if 0 < rc then (s.pos, { s with pos := 0 }) else (rc, s)

/-! ## A message -/

/-- `MQTT_CODE_ERROR_PACKET_ID`. -/
def packetIdError : ℤ := -5

/-- `MqttEncode_Publish`: the bytes in the transmit buffer, and `buffer_pos`. A topic that does not fit is written behind the
end of the buffer. -/
def encodePublish (qos packetId : ℕ) (topic payload : List UInt8) : Except ℤ (List UInt8 × ℕ) :=
  if 0 < qos ∧ packetId = 0 then .error packetIdError
  else
    let head := publishHead qos packetId topic
    let header := fixedHeader 3 qos (head.length + payload.length)
    if payload.length = 0 then .ok (header ++ head, 0)
    else if txBufLen < header.length + head.length then .error outOfBuffer
    else
      let n := min payload.length (txBufLen - (header.length + head.length))
      .ok (header ++ head ++ payload.take n, n)

section Code

variable {ω : Type*} (write : List UInt8 → ω → ℤ × ω)

/-- The loop of `MqttClient_Publish_WritePayload`, with `intBuf_pos` and `intBuf_len`; without an end when the fuel is used
up. -/
def writePieces (payload : List UInt8) : ℕ → List UInt8 → ℕ → ℕ → ω → Option (ℤ × ω)
  | 0, _, _, _, _ => none
  | fuel + 1, tx, intBufPos, intBufLen, w =>
    let (rc, w) := write tx w
    if rc < 0 then some (rc, w)
    else
      let intBufPos := intBufPos + intBufLen
      if payload.length ≤ intBufPos then some (0, w)
      else
        let n := min (payload.length - intBufPos) txBufLen
        writePieces payload fuel ((payload.drop intBufPos).take n) intBufPos n w

/-- `MqttClient_Publish_WritePayload` without a callback. -/
def writePayload (tx payload : List UInt8) (bufferPos : ℕ) (w : ω) : Option (ℤ × ω) :=
  if payload.length ≤ bufferPos then some (0, w)
  else if 0 < bufferPos then
    let n := min (payload.length - bufferPos) txBufLen
    writePieces write payload (payload.length + 1) ((payload.drop bufferPos).take n) n bufferPos w
  else writePieces write payload (payload.length + 1) tx 0 bufferPos w

/-- `MqttClient_Publish` of a message that `mqtt_publish` has just filled in, up to the wait for an answer. -/
def sendPublish (qos packetId : ℕ) (topic payload : List UInt8) (w : ω) : Option (ℤ × ω) :=
  match encodePublish qos packetId topic payload with
  | .error rc => some (rc, w)
  | .ok (tx, bufferPos) =>
    let (rc, w) := write tx w
    if rc < 0 then some (rc, w) else writePayload write tx payload bufferPos w

/-- `MqttClient_Publish`. -/
def publish (cb : Recv.Shown → ω → ω) (qos packetId : ℕ) (topic payload : List UInt8) (c : Recv.Client ω) :
    Option (ℤ × Recv.Client ω) := do
  let (rc, world) ← sendPublish write qos packetId topic payload c.world
  let c := { c with world }
  if rc < 0 ∨ qos = 0 then return (rc, c)
  else Recv.waitType cb write ⟨if qos = 1 then 4 else 7, packetId, false⟩ .begin c

end Code

/-! ## A write -/

/-- Where the socket stops in the middle of `n` bytes: how many it has taken, and its answer. -/
def stops : ℕ → List ℤ → Option (ℕ × ℤ)
  | _, [] => none
  | n, sent :: sends =>
    if sent ≤ 0 then some (0, sent)
    else if n ≤ sent.toNat then none
    else (stops (n - sent.toNat) sends).map fun p => (sent.toNat + p.1, p.2)

section Write

variable {buf : List UInt8} {s : Sender}

/-- What has been taken is a part, and the answer is no number of bytes. -/
theorem stops_lt : ∀ {n : ℕ} {sends : List ℤ} {p : ℕ × ℤ}, 0 < n → stops n sends = some p → p.1 < n ∧ p.2 ≤ 0
  | n, [], _, _, h => by cases h
  | n, sent :: sends, p, hn, h => by
    rw [stops] at h
    split_ifs at h with hfail hall
    · obtain rfl := Option.some.inj h
      exact ⟨hn, hfail⟩
    · obtain ⟨q, hq, rfl⟩ := Option.map_eq_some_iff.1 h
      have hrest := stops_lt (by omega) hq
      exact ⟨by simp only; omega, hrest.2⟩

theorem stops_pos {n : ℕ} : ∀ {sends : List ℤ}, (∀ sent ∈ sends, 0 < sent) → stops n sends = none
  | [], _ => rfl
  | sent :: sends, h => by
    have hsent := h sent List.mem_cons_self
    have hrest := @stops_pos (n - sent.toNat) sends fun x hx => h x (List.mem_cons_of_mem sent hx)
    rw [stops, if_neg (by omega), hrest]
    split_ifs <;> rfl

/-- The loop takes the bytes up to where it stops. -/
theorem writeLoop_eq : ∀ {sends : List ℤ} {pos : ℕ} {wire : List UInt8}, pos < buf.length →
    ∃ rest, rest <:+ sends ∧ match stops (buf.length - pos) sends with
      | none => ∃ n, 0 < n ∧ writeLoop buf sends pos wire = (n, ⟨buf.length, wire ++ buf.drop pos, rest⟩)
      | some (k, rc) => writeLoop buf sends pos wire = (rc, ⟨pos + k, wire ++ (buf.drop pos).take k, rest⟩)
  | [], pos, wire, h => ⟨[], List.suffix_refl _, (buf.length - pos : ℕ), by omega, rfl⟩
  | sent :: sends, pos, wire, h => by
    rw [stops, writeLoop]
    by_cases hfail : sent ≤ 0
    · refine ⟨sends, List.suffix_cons _ _, ?_⟩
      simp only [hfail, if_true, Nat.add_zero, List.take_zero, List.append_nil]
    · simp only [hfail, if_false]
      by_cases hall : buf.length - pos ≤ sent.toNat
      · refine ⟨sends, List.suffix_cons _ _, ?_⟩
        have hmin : min sent.toNat (buf.length - pos) = buf.length - pos := min_eq_right hall
        have hsum : pos + (buf.length - pos) = buf.length := by omega
        have htake : (buf.drop pos).take (buf.length - pos) = buf.drop pos := by
          rw [List.take_of_length_le (by rw [List.length_drop])]
        simp only [hall, if_true, hmin, hsum, htake, lt_irrefl, if_false]
        exact ⟨(buf.length - pos : ℕ), by omega, rfl⟩
      · have hmin : min sent.toNat (buf.length - pos) = sent.toNat := min_eq_left (by omega)
        have hlt : pos + sent.toNat < buf.length := by omega
        obtain ⟨rest, hsuffix, hrest⟩ := @writeLoop_eq sends (pos + sent.toNat) (wire ++ (buf.drop pos).take sent.toNat) hlt
        refine ⟨rest, hsuffix.trans (List.suffix_cons _ _), ?_⟩
        simp only [hall, if_false, hmin, hlt, if_true]
        rw [Nat.sub_add_eq] at hrest
        cases hstop : stops (buf.length - pos - sent.toNat) sends with
        | none =>
          simp only [hstop] at hrest
          obtain ⟨n, hn, heq⟩ := hrest
          refine ⟨n, hn, ?_⟩
          rw [heq, List.append_assoc, ← List.drop_drop, List.take_append_drop]
        | some p =>
          simp only [hstop] at hrest
          simp only [Option.map_some]
          rw [hrest, List.append_assoc, ← List.drop_drop, ← List.take_add, Nat.add_assoc]

/-- **A write** takes the packet from `write.pos` on, up to where the socket stops. -/
theorem socketWrite_eq (hpos : s.pos < buf.length) :
    ∃ rest, rest <:+ s.sends ∧ match stops (buf.length - s.pos) s.sends with
      | none => socketWrite buf s = ((buf.length : ℤ), ⟨0, s.wire ++ buf.drop s.pos, rest⟩)
      | some (k, rc) => socketWrite buf s = (rc, ⟨s.pos + k, s.wire ++ (buf.drop s.pos).take k, rest⟩) := by
  obtain ⟨rest, hsuffix, hloop⟩ := @writeLoop_eq buf s.sends s.pos s.wire hpos
  have hwrite : socketWrite buf s = if 0 < (writeLoop buf s.sends s.pos s.wire).1 then
      (((writeLoop buf s.sends s.pos s.wire).2.pos : ℤ), { (writeLoop buf s.sends s.pos s.wire).2 with pos := 0 })
      else writeLoop buf s.sends s.pos s.wire := by
    rw [socketWrite, if_neg (by omega), if_neg (by omega)]
  refine ⟨rest, hsuffix, ?_⟩
  cases hstop : stops (buf.length - s.pos) s.sends with
  | none =>
    simp only [hstop] at hloop
    obtain ⟨n, hn, heq⟩ := hloop
    simp only [hwrite, heq, hn, if_true]
  | some p =>
    simp only [hstop] at hloop
    have hle := (stops_lt (by omega) hstop).2
    simp only [hwrite, hloop, not_lt.2 hle, if_false]

/-- Nothing has been cut, and nothing will be. -/
def Sender.Steady (s : Sender) : Prop := s.pos = 0 ∧ ∀ sent ∈ s.sends, 0 < sent

theorem socketWrite_steady (hs : s.Steady) (hbuf : buf ≠ []) :
    ∃ s', socketWrite buf s = ((buf.length : ℤ), s') ∧ s'.wire = s.wire ++ buf ∧ s'.Steady := by
  obtain ⟨hpos, hsends⟩ := hs
  have hlt : s.pos < buf.length := by
    rw [hpos]
    exact List.length_pos_of_ne_nil hbuf
  obtain ⟨rest, hsuffix, hwrite⟩ := socketWrite_eq hlt
  rw [stops_pos hsends] at hwrite
  refine ⟨_, hwrite, ?_, rfl, fun sent h => hsends sent (hsuffix.subset h)⟩
  rw [hpos]
  rfl

end Write

/-! ## A message -/

/-- A message that the application publishes. -/
structure Msg where
  qos : ℕ
  packetId : ℕ
  topic : List UInt8
  payload : List UInt8
  deriving DecidableEq

namespace Msg

/-- The header and the topic. -/
def front (m : Msg) : List UInt8 :=
  fixedHeader 3 m.qos ((publishHead m.qos m.packetId m.topic).length + m.payload.length) ++ publishHead m.qos m.packetId m.topic

/-- The message on the wire. -/
def bytes (m : Msg) : List UInt8 := m.front ++ m.payload

/-- The header and the topic fit the transmit buffer, and there is an id where one is needed. -/
def Fits (m : Msg) : Prop := m.front.length ≤ txBufLen ∧ (0 < m.qos → m.packetId ≠ 0)

/-- There is no room for the payload behind them. -/
def Full (m : Msg) : Prop := m.front.length = txBufLen ∧ m.payload ≠ []

instance (m : Msg) : Decidable m.Fits := inferInstanceAs (Decidable (_ ∧ _))

instance (m : Msg) : Decidable m.Full := inferInstanceAs (Decidable (_ ∧ _))

end Msg

section Message

variable {m : Msg} {s : Sender} {payload : List UInt8}

theorem encodePublish_eq (h : m.Fits) : encodePublish m.qos m.packetId m.topic m.payload =
    .ok (m.front ++ m.payload.take (txBufLen - m.front.length), min m.payload.length (txBufLen - m.front.length)) := by
  obtain ⟨hfit, hid⟩ := h
  have hlen : m.front.length = (fixedHeader 3 m.qos ((publishHead m.qos m.packetId m.topic).length + m.payload.length)).length +
      (publishHead m.qos m.packetId m.topic).length := List.length_append
  rw [encodePublish, if_neg fun hboth => hid hboth.1 hboth.2]
  simp only
  rw [← hlen]
  by_cases hnil : m.payload.length = 0
  · rw [if_pos hnil, hnil, List.eq_nil_of_length_eq_zero hnil, List.take_nil, List.append_nil, Nat.zero_min]
    rw [Msg.front, hnil]
  · rw [if_neg hnil, if_neg (by omega)]
    have htake : m.payload.take (min m.payload.length (txBufLen - m.front.length)) =
        m.payload.take (txBufLen - m.front.length) := by
      rw [min_comm, ← List.take_take, List.take_length]
    rw [htake]
    rfl

/-- The pieces of the payload. -/
theorem writePieces_steady (payload : List UInt8) : ∀ (fuel : ℕ) (tx : List UInt8) (intBufPos intBufLen : ℕ) {s : Sender},
    s.Steady → tx ≠ [] → payload.length < fuel + (intBufPos + intBufLen) → intBufPos + intBufLen ≤ payload.length →
    ∃ s', writePieces socketWrite payload fuel tx intBufPos intBufLen s = some (0, s') ∧
      s'.wire = s.wire ++ (tx ++ payload.drop (intBufPos + intBufLen)) ∧ s'.Steady := by
  intro fuel
  induction fuel with
  | zero =>
    intro tx intBufPos intBufLen s _ _ hfuel hle
    omega
  | succ fuel ih =>
    intro tx intBufPos intBufLen s hs htx hfuel hle
    obtain ⟨s₁, hwrite, hwire, hs₁⟩ := socketWrite_steady hs htx
    have hrc : ¬ ((tx.length : ℤ) < 0) := by omega
    rw [writePieces]
    simp only [hwrite, hrc, if_false]
    by_cases hdone : payload.length ≤ intBufPos + intBufLen
    · rw [if_pos hdone]
      exact ⟨s₁, rfl, by rw [hwire, List.drop_eq_nil_of_le hdone, List.append_nil], hs₁⟩
    · rw [if_neg hdone]
      set n := min (payload.length - (intBufPos + intBufLen)) txBufLen with hn
      have htx₀ : 0 < txBufLen := by decide
      have hpiece : ((payload.drop (intBufPos + intBufLen)).take n).length = n := by
        rw [List.length_take, List.length_drop]
        omega
      obtain ⟨s', hrun, hwire', hs'⟩ := ih ((payload.drop (intBufPos + intBufLen)).take n)
        (intBufPos + intBufLen) n hs₁ (List.ne_nil_of_length_pos (by omega)) (by omega) (by omega)
      refine ⟨s', hrun, ?_, hs'⟩
      have hdrop : payload.drop (intBufPos + intBufLen + n) = (payload.drop (intBufPos + intBufLen)).drop n :=
        List.drop_drop.symm
      rw [hwire', hwire, hdrop, List.take_append_drop, List.append_assoc]

/-- **A message without a failure**: the header and the topic go twice where they fill the buffer. -/
theorem sendPublish_steady (h : m.Fits) (hs : s.Steady) :
    ∃ s', sendPublish socketWrite m.qos m.packetId m.topic m.payload s = some (0, s') ∧
      s'.wire = s.wire ++ ((if m.Full then m.front else []) ++ m.bytes) ∧ s'.Steady := by
  have hfront : m.front ≠ [] := by simp [Msg.front, fixedHeader]
  set room := txBufLen - m.front.length with hroom
  have htx : m.front ++ m.payload.take room ≠ [] := by simp [hfront]
  obtain ⟨s₁, hwrite, hwire, hs₁⟩ := socketWrite_steady hs htx
  have hrc : ¬ (((m.front ++ m.payload.take room).length : ℤ) < 0) := by omega
  have hsend : sendPublish socketWrite m.qos m.packetId m.topic m.payload s =
      writePayload socketWrite (m.front ++ m.payload.take room) m.payload (min m.payload.length room) s₁ := by
    rw [sendPublish, encodePublish_eq h, ← hroom]
    simp only [hwrite, hrc, if_false]
  rw [hsend, writePayload]
  by_cases hall : m.payload.length ≤ room
  · -- all of it is in the first write
    have hfull : ¬ m.Full := fun hfull => hfull.2 (List.eq_nil_of_length_eq_zero (by have hlen := hfull.1; omega))
    rw [min_eq_left hall, if_pos le_rfl, if_neg hfull]
    refine ⟨s₁, rfl, ?_, hs₁⟩
    rw [hwire, List.take_of_length_le hall]
    rfl
  · rw [min_eq_right (by omega), if_neg hall]
    by_cases hzero : 0 < room
    · have hfull : ¬ m.Full := fun hfull => by have hlen := hfull.1; omega
      rw [if_pos hzero, if_neg hfull]
      set n := min (m.payload.length - room) txBufLen with hn
      have hpos : 0 < txBufLen := by decide
      have hpiece : ((m.payload.drop room).take n).length = n := by
        rw [List.length_take, List.length_drop]
        omega
      obtain ⟨s', hrun, hwire', hs'⟩ := writePieces_steady m.payload (m.payload.length + 1)
        ((m.payload.drop room).take n) n room hs₁ (List.ne_nil_of_length_pos (by omega)) (by omega) (by omega)
      refine ⟨s', hrun, ?_, hs'⟩
      rw [hwire', hwire, Nat.add_comm n room, ← List.drop_drop, List.take_append_drop, List.append_assoc, List.append_assoc,
        List.take_append_drop]
      rfl
    · -- the buffer has room for nothing of it, and is written again
      have hfull : m.Full := ⟨by have hfit := h.1; omega, fun hnil => hall (by rw [hnil]; exact Nat.zero_le _)⟩
      rw [if_neg hzero, if_pos hfull]
      have hzero' : room = 0 := by omega
      obtain ⟨s', hrun, hwire', hs'⟩ := writePieces_steady m.payload (m.payload.length + 1) _ 0 room hs₁ htx (by omega) (by omega)
      refine ⟨s', hrun, ?_, hs'⟩
      rw [hwire', hwire, hzero', List.take_zero, List.append_nil, List.drop_zero, List.append_assoc]
      rfl

/-! Runs of messages. -/

/-- Messages one after the other, and the answers. -/
def publishAll : List Msg → Sender → Option (List ℤ × Sender)
  | [], s => some ([], s)
  | m :: ms, s => do
    let (rc, s) ← sendPublish socketWrite m.qos m.packetId m.topic m.payload s
    let (rcs, s) ← publishAll ms s
    return (rc :: rcs, s)

theorem publishAll_steady : ∀ {ms : List Msg} {s : Sender}, (∀ m ∈ ms, m.Fits) → s.Steady →
    ∃ s', publishAll ms s = some (List.replicate ms.length 0, s') ∧
      s'.wire = s.wire ++ ms.flatMap fun m => (if m.Full then m.front else []) ++ m.bytes
  | [], s, _, _ => ⟨s, rfl, (List.append_nil _).symm⟩
  | m :: ms, s, hms, hs => by
    obtain ⟨s₁, hsend, hwire, hs₁⟩ := sendPublish_steady (hms m List.mem_cons_self) hs
    obtain ⟨s', hrun, hwire'⟩ := publishAll_steady (fun x hx => hms x (List.mem_cons_of_mem m hx)) hs₁
    refine ⟨s', ?_, ?_⟩
    · rw [publishAll, hsend, Option.bind_eq_bind, Option.bind_some]
      simp only [hrun, Option.bind_eq_bind, Option.bind_some]
      rfl
    · rw [hwire', hwire, List.flatMap_cons, List.append_assoc]

theorem length_flatMap_append {α β : Type*} (f g : α → List β) (l : List α) :
    (l.flatMap fun x => f x ++ g x).length = (l.flatMap f).length + (l.flatMap g).length := by
  induction l with
  | nil => rfl
  | cons x l ih =>
    simp only [List.flatMap_cons, List.length_append, ih]
    omega

end Message

/-! ## Packets behind a failure -/

/-- Packets one after the other: those whose write answered their length. -/
def writeAll : List (List UInt8) → Sender → List (List UInt8) × Sender
  | [], s => ([], s)
  | buf :: bufs, s =>
    let (rc, s) := socketWrite buf s
    let (sent, s) := writeAll bufs s
    (if rc = buf.length then buf :: sent else sent, s)

/-- What stands in the wire of a packet that has been cut, behind a write with `part` of one in front of it. -/
def partAfter (part buf : List UInt8) (s : Sender) : List UInt8 :=
  if (socketWrite buf s).1 = buf.length then []
  else if buf.length ≤ s.pos then part
  else part ++ (buf.take (socketWrite buf s).2.pos).drop s.pos

/-- The same behind some writes. -/
def partAfterAll : List UInt8 → List (List UInt8) → Sender → List UInt8
  | part, [], _ => part
  | part, buf :: bufs, s => partAfterAll (partAfter part buf s) bufs (socketWrite buf s).2

/-- Every packet that is sent whole, as its answer says, begins like the one that has been cut in front of it. -/
def Resumed : List UInt8 → List (List UInt8) → Sender → Prop
  | _, [], _ => True
  | part, buf :: bufs, s =>
    ((socketWrite buf s).1 = buf.length → buf.take s.pos = part) ∧ Resumed (partAfter part buf s) bufs (socketWrite buf s).2

section Cut

variable {part base : List UInt8} {buf : List UInt8} {bufs : List (List UInt8)} {s : Sender}

/-- One write. -/
theorem socketWrite_part (hbuf : buf ≠ []) (hpos : s.pos = part.length) (hwire : s.wire = base ++ part) :
    (socketWrite buf s).2.pos = (partAfter part buf s).length ∧
      (socketWrite buf s).2.wire = base ++ (if (socketWrite buf s).1 = buf.length then part ++ buf.drop s.pos else []) ++
        partAfter part buf s ∧
      ((socketWrite buf s).1 = buf.length → s.pos ≤ buf.length) := by
  have hlen := List.length_pos_of_ne_nil hbuf
  by_cases hover : buf.length ≤ s.pos
  · have hwrite : socketWrite buf s = (outOfBuffer, s) := by rw [socketWrite, if_neg (by omega), if_pos hover]
    have hrc : ¬ outOfBuffer = (buf.length : ℤ) := by
      rw [outOfBuffer]
      omega
    rw [partAfter, hwrite]
    simp only [hrc, if_false, hover, if_true, List.append_nil]
    exact ⟨hpos, hwire, fun h => absurd h (by simp)⟩
  · obtain ⟨rest, -, hwrite⟩ := socketWrite_eq (not_le.1 hover)
    cases hstop : stops (buf.length - s.pos) s.sends with
    | none =>
      simp only [hstop] at hwrite
      rw [partAfter, hwrite]
      simp only [if_true, hwire, List.append_nil, List.append_assoc, List.length_nil, true_and]
      exact fun _ => (not_le.1 hover).le
    | some p =>
      obtain ⟨hlt, hle⟩ := stops_lt (by omega) hstop
      simp only [hstop] at hwrite
      have hrc : ¬ p.2 = (buf.length : ℤ) := by omega
      rw [partAfter, hwrite]
      simp only [hrc, if_false, hover, List.append_nil, List.length_append, List.length_drop, List.length_take, hwire]
      refine ⟨by omega, ?_, fun h => absurd h (by simp)⟩
      rw [List.append_assoc, List.drop_take, Nat.add_sub_cancel_left]

/-- What has been sent stays. -/
theorem wire_grows : ∀ {bufs : List (List UInt8)} {s : Sender}, (∀ buf ∈ bufs, buf ≠ []) → s.wire <+: (writeAll bufs s).2.wire
  | [], _, _ => List.prefix_refl _
  | buf :: bufs, s, hbufs => by
    have hrest := @wire_grows bufs (socketWrite buf s).2 fun x hx => hbufs x (List.mem_cons_of_mem buf hx)
    refine List.IsPrefix.trans ?_ hrest
    by_cases hover : buf.length ≤ s.pos
    · have hlen := List.length_pos_of_ne_nil (hbufs buf List.mem_cons_self)
      rw [socketWrite, if_neg (by omega), if_pos hover]
    · obtain ⟨rest, -, hwrite⟩ := socketWrite_eq (not_le.1 hover)
      cases hstop : stops (buf.length - s.pos) s.sends with
      | none =>
        simp only [hstop] at hwrite
        rw [hwrite]
        exact List.prefix_append _ _
      | some p =>
        simp only [hstop] at hwrite
        rw [hwrite]
        exact List.prefix_append _ _

/-- **Behind a packet that was cut**, the next write begins in the middle of its packet: what the broker gets is the packets
that are reported, and what stands there of one that was cut, if and only if every packet reported behind a cut one begins
like it. -/
theorem writeAll_exact_iff : ∀ {bufs : List (List UInt8)} {part base : List UInt8} {s : Sender}, (∀ buf ∈ bufs, buf ≠ []) →
    s.pos = part.length → s.wire = base ++ part →
    ((writeAll bufs s).2.wire = base ++ (writeAll bufs s).1.flatten ++ partAfterAll part bufs s ↔ Resumed part bufs s)
  | [], part, base, s, _, _, hwire => by
    rw [writeAll, partAfterAll, Resumed, List.flatten_nil, List.append_nil]
    exact iff_of_true hwire trivial
  | buf :: bufs, part, base, s, hbufs, hpos, hwire => by
    obtain ⟨hpos₁, hwire₁, hle⟩ := socketWrite_part (hbufs buf List.mem_cons_self) hpos hwire
    have hrest : ∀ x ∈ bufs, x ≠ [] := fun x hx => hbufs x (List.mem_cons_of_mem buf hx)
    have ih := writeAll_exact_iff hrest hpos₁ hwire₁
    rw [writeAll, partAfterAll, Resumed]
    by_cases hsent : (socketWrite buf s).1 = buf.length
    · simp only [hsent, if_true, true_imp_iff] at hwire₁ ih ⊢
      have hsplit : part ++ buf.drop s.pos = buf ↔ buf.take s.pos = part := by
        constructor
        · intro h
          have htake := congrArg (List.take s.pos) h
          rw [hpos, List.take_left, ← hpos] at htake
          exact htake.symm
        · rintro rfl
          exact List.take_append_drop s.pos buf
      by_cases hsame : buf.take s.pos = part
      · rw [hsplit.2 hsame] at ih
        rw [List.flatten_cons, ← List.append_assoc base, ih]
        exact (and_iff_right hsame).symm
      · refine iff_of_false (fun h => hsame (hsplit.1 ?_)) fun h => hsame h.1
        -- the bytes of the packet stand in their place, whatever comes behind
        have hpre := wire_grows (s := (socketWrite buf s).2) hrest
        rw [h, hwire₁, List.append_assoc, List.append_assoc base, List.flatten_cons, List.prefix_append_right_inj,
          List.append_assoc buf] at hpre
        have hfront : part ++ buf.drop s.pos <+: buf :=
          List.prefix_of_prefix_length_le ((List.prefix_append _ _).trans hpre) (List.prefix_append _ _) (by
            rw [List.length_append, List.length_drop]
            have hbound := hle hsent
            omega)
        refine hfront.eq_of_length ?_
        rw [List.length_append, List.length_drop]
        have hbound := hle hsent
        omega
    · simp only [hsent, if_false, List.append_nil, false_imp_iff, true_and] at hwire₁ ih ⊢
      exact ih

theorem writeAll_exact_iff_cut : (writeAll [[48, 2, 0, 0], [192, 0]] ⟨0, [], [1, 0]⟩).2.wire =
    [] ++ (writeAll [[48, 2, 0, 0], [192, 0]] ⟨0, [], [1, 0]⟩).1.flatten ++
      partAfterAll [] [[48, 2, 0, 0], [192, 0]] ⟨0, [], [1, 0]⟩ ↔ Resumed [] [[48, 2, 0, 0], [192, 0]] ⟨0, [], [1, 0]⟩ :=
  writeAll_exact_iff (by decide) rfl rfl

end Cut

/-! ## What another client receives -/

section Received

variable {ω : Type*} {cb : Recv.Shown → ω → ω} {write : List UInt8 → ω → ℤ × ω}

/-- The message as it comes in. -/
def Msg.inbound (m : Msg) : Inbound := .publish false false m.qos m.packetId m.topic m.payload

/-- What the protocol has numbers for. -/
def Msg.Legal (m : Msg) : Prop := m.qos ≤ 2 ∧ m.packetId < 2 ^ 16 ∧ m.inbound.body.length < 128 ^ 4

instance (m : Msg) : Decidable m.Legal := inferInstanceAs (Decidable (_ ∧ _))

theorem Msg.bytes_eq {m : Msg} (h : m.Legal) : m.bytes = m.inbound.bytes := by
  have hbody : m.inbound.body = publishHead m.qos m.packetId m.topic ++ m.payload := rfl
  have hlen : (publishHead m.qos m.packetId m.topic).length + m.payload.length = m.inbound.body.length := by
    rw [hbody, List.length_append]
  have hvbi : Wire.vbi 4 m.inbound.body.length = Wire.vbi 3 m.inbound.body.length := Wire.vbi_succ 3 h.2.2
  rw [Msg.bytes, Msg.front, fixedHeader, hlen, hvbi, Inbound.bytes, frame, hbody, List.cons_append, List.cons_append,
    List.append_assoc, ← hbody]
  rfl

/-- What fits one buffer fits the other. -/
theorem Msg.inbound_fits {m : Msg} (hfits : m.Fits) (h : m.Legal) : m.inbound.Fits := by
  obtain ⟨hqos, hid, hsize⟩ := h
  have hbody : m.inbound.body = publishHead m.qos m.packetId m.topic ++ m.payload := rfl
  have hlen : (publishHead m.qos m.packetId m.topic).length + m.payload.length = m.inbound.body.length := by
    rw [hbody, List.length_append]
  have hhead := Recv.length_publishHead m.qos m.packetId m.topic
  have hfront : m.front.length = headSize m.inbound.body + (publishHead m.qos m.packetId m.topic).length := by
    rw [Msg.front, List.length_append, fixedHeader, hlen, Wire.vbi_succ 3 hsize, List.length_cons, headSize, Nat.add_comm 1]
  have hle := hfits.1
  rw [hfront, hhead, txBufLen] at hle
  refine ⟨hqos, hid, ?_, hsize, hle⟩
  have hsize := (Recv.headSize_bounds m.inbound.body).1
  omega

end Received

end W601.Mqtt.Send
