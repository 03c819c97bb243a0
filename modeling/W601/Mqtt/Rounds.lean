import W601.Mqtt.Serve

/-!
# The receive thread serves every packet once

The broker sends packets with pauses between them. Behind a pause the thread sends a ping, and what comes before the answer
is served while it waits.

* `waitType_packets`: a wait for an answer, and the packets in front of it.
* `mattLoop_rounds`: **the thread serves every packet once and in order**, but for a message that comes, in one wait, behind
  a message longer than the buffer.
* `owed_eq_iff`: exactly these messages are lost.
-/

namespace W601.Mqtt.Recv

open Net (errorTimeout)

variable {ω : Type*} {cb : Shown → ω → ω} {write : List UInt8 → ω → ℤ × ω}

/-! ## One packet -/

theorem perform_append (as bs : List Act) : ∀ w : ω,
    perform cb write (as ++ bs) w = (perform cb write as w).bind (perform cb write bs) := by
  induction as with
  | nil => exact fun _ => rfl
  | cons act as ih =>
    intro w
    cases act with
    | «show» s => exact ih _
    | write packet =>
      rw [List.cons_append, perform, perform]
      split_ifs
      · rfl
      · exact ih _
    | ping =>
      rw [List.cons_append, perform, perform]
      split_ifs
      · rfl
      · exact ih _

/-- The acts one after the other. -/
theorem perform_append_some {as bs : List Act} {w w' : ω} (h : perform cb write (as ++ bs) w = some w') :
    ∃ w₁, perform cb write as w = some w₁ ∧ perform cb write bs w₁ = some w' := by
  rw [perform_append] at h
  exact Option.bind_eq_some_iff.1 h

/-- The packet is the one that is waited for. -/
def Wait.Matches (w : Wait) (p : Inbound) : Prop := (w.type = 16 ∨ w.type = p.type) ∧ (w.id = 0 ∨ w.id = p.id)

instance (w : Wait) (p : Inbound) : Decidable (w.Matches p) := inferInstanceAs (Decidable (_ ∧ _))

section Turn

variable {w : Wait} {own : MsgStat} {p : Inbound} {c : Client ω} {stat : MsgStat} {rest : List Arrival} {world world' : ω}

theorem Client.Between.setStat (hc : c.Between stat rest world) {new : MsgStat} (hnew : new ≠ .readPayload) :
    (w.setStat new c).Between (if w.ofMsg then new else stat) rest world := by
  rw [Wait.setStat]
  split_ifs
  · exact ⟨hc.pkStat_eq, rfl, hc.incoming_eq, hc.world_eq, fun h => absurd h hnew⟩
  · exact hc

theorem Inbound.bytes_length (p : Inbound) : 2 ≤ p.bytes.length := by
  have hle := (headSize_bounds p.body).1
  rw [Inbound.bytes, length_frame]
  omega

/-- A turn takes the next packet up, whatever is in it. -/
theorem waitTurn_frame {first : UInt8} {body : List UInt8} {type : ℕ} (hbody : body.length < 128 ^ 4)
    (htype : first.toNat / 16 = type) (hknown : type ∈ [2, 3, 4, 5, 6, 7, 9, 11, 13])
    (hown : w.stat own c = .begin ∨ w.stat own c = .wait) (hc : c.Between stat (arrive (frame first body) ++ rest) world) :
    waitTurn cb write w own c = dispatch cb write w type (decodePacket ((w.setStat .read c).received first body rest)).2
      ((w.setStat .read c).received first body rest) := by
  have hset : packetRead (w.setStat .wait c) = (((min (headSize body + body.length) rxBufLen : ℕ) : ℤ),
      (w.setStat .wait c).took first body rest) := by
    refine packetRead_frame hbody ?_ ?_
    · rw [Wait.setStat]
      split_ifs
      · exact hc.pkStat_eq
      · exact hc.pkStat_eq
    · rw [Wait.setStat]
      split_ifs
      · exact hc.incoming_eq
      · exact hc.incoming_eq
  have hle := (headSize_bounds body).1
  have hpos : ¬ ((min (headSize body + body.length) rxBufLen : ℕ) : ℤ) ≤ 0 := by rw [rxBufLen]; omega
  have hbegin : ({ c with pkStat := .begin } : Client ω) = c := by rw [← hc.pkStat_eq]
  have hswap : w.setStat .read { (w.setStat .wait c).took first body rest with
      bufLen := min (headSize body + body.length) rxBufLen } = (w.setStat .read c).received first body rest := by
    rw [Wait.setStat, Wait.setStat, Wait.setStat]
    split_ifs <;> rfl
  have hdecode : decodePacket { (w.setStat .wait c).took first body rest with
      bufLen := min (headSize body + body.length) rxBufLen } =
        ((headSize body + body.length : ℤ), (decodePacket ((w.setStat .read c).received first body rest)).2) := by
    have hsame : decodePacket { (w.setStat .wait c).took first body rest with
        bufLen := min (headSize body + body.length) rxBufLen } = decodePacket ((w.setStat .read c).received first body rest) := by
      rw [Wait.setStat, Wait.setStat]
      split_ifs <;> rfl
    rw [hsame]
    exact Prod.ext (decodePacket_received hbody htype hknown) rfl
  have htype' : packetType ((w.setStat .wait c).took first body rest).rx = type :=
    (received_type (w.setStat .wait c) first body rest).trans htype
  have hneg : ¬ ((headSize body : ℤ) + body.length < 0) := by omega
  rcases hown with hstat | hstat <;>
  · rw [waitTurn, hstat]
    simp only [hbegin, hset, hpos, if_false, Int.toNat_natCast, hdecode, hneg, hswap, htype']

/-- A turn takes up a packet that the client knows. -/
theorem waitTurn_packet (h : p.Fits) (hown : w.stat own c = .begin ∨ w.stat own c = .wait)
    (hc : c.Between stat (arrive p.bytes ++ rest) world) :
    waitTurn cb write w own c = dispatch cb write w p.type p.id ((w.setStat .read c).received p.first p.body rest) := by
  have hknown : p.type ∈ [2, 3, 4, 5, 6, 7, 9, 11, 13] := by
    cases p with
    | publish => simp [Inbound.type]
    | other type flags packetId rest =>
      have hknown := h.1
      simp only [List.mem_cons, List.not_mem_nil, or_false] at hknown ⊢
      rw [Inbound.type]
      omega
  rw [waitTurn_frame (Inbound.body_lt h) (Inbound.first_type h) hknown hown hc, decodePacket_id _ _ h]

/-- `MQTT_MSG_READ_PAYLOAD` has been left behind. -/
def busyStat (busy : Bool) : MsgStat := if busy then .readPayload else .begin

/-- What a wait owes for a packet, `busy` behind a long message. -/
def Inbound.owed (busy : Bool) (p : Inbound) : List Act := if busy ∧ p.type = 3 then [] else p.acts

/-- A packet, while the client waits with an object of its own. -/
theorem dispatch_own (hw : w.ofMsg = false) (h : p.Fits) {busy : Bool} (hclear : ¬ (busy ∧ p.Large)) {incoming : List Arrival}
    (hc : c.Between (busyStat busy) incoming world) (hacts : perform cb write (p.owed busy) world = some world') :
    ∃ c', dispatch cb write w p.type p.id ((w.setStat .read c).received p.first p.body rest) =
        some (0, decide (w.Matches p), c') ∧ c'.Between (busyStat (busy || decide p.Large)) rest world' := by
  have hset : w.setStat .read c = c := by rw [Wait.setStat, hw, if_neg Bool.false_ne_true]
  suffices hhandle : ∃ rc c', handlePacket cb write p.type (c.received p.first p.body rest) = some (rc, c') ∧ 0 ≤ rc ∧
      c'.Between (busyStat (busy || decide p.Large)) rest world' by
    obtain ⟨rc, c', hrun, hrc, hbetween⟩ := hhandle
    refine ⟨c', ?_, hbetween⟩
    rw [dispatch, hset, hrun]
    simp only [Option.map_some, if_pos hrc]
    rfl
  by_cases htype : p.type = 3
  · rw [htype]
    cases busy with
    | false =>
      obtain ⟨rc, c', hrun, hrc, hbetween⟩ := @handlePacket_publish ω cb write c rest p htype h _ _ _ _ hc
        (Or.inl rfl) hacts
      refine ⟨rc, c', hrun, hrc, ?_⟩
      by_cases hlarge : p.Large
      · simpa [hlarge, busyStat] using hbetween
      · simpa [hlarge, busyStat] using hbetween
    | true =>
      obtain ⟨c', hrun, hbetween⟩ := @handlePacket_stale ω cb write c rest p _ _ hc
      have hlarge : ¬ p.Large := fun hlarge => hclear ⟨rfl, hlarge⟩
      have hlength : p.bytes.length ≤ rxBufLen := not_lt.1 fun hlt => hlarge ⟨htype, hlt⟩
      rw [Inbound.owed, if_pos ⟨rfl, htype⟩] at hacts
      rw [List.drop_eq_nil_of_le hlength] at hbetween
      refine ⟨0, c', hrun, le_refl 0, ?_⟩
      rw [← Option.some.inj hacts]
      exact hbetween
  · have hlarge : ¬ p.Large := fun hlarge => htype hlarge.1
    rw [Inbound.owed, if_neg fun hboth => htype hboth.2] at hacts
    obtain ⟨rc, c', hrun, hrc, hbetween⟩ := @handlePacket_other ω cb write c rest p htype h _ _ _ _ hc hacts
    refine ⟨rc, c', hrun, hrc, ?_⟩
    rw [decide_eq_false hlarge, Bool.or_false]
    exact hbetween

/-- A packet, while the client waits for any. -/
theorem dispatch_any (h : p.Fits) {incoming : List Arrival} (hc : c.Between .begin incoming world)
    (hacts : perform cb write p.acts world = some world') :
    ∃ c' stat, dispatch cb write ⟨16, 0, true⟩ p.type p.id ((Wait.setStat ⟨16, 0, true⟩ .read c).received p.first p.body rest) =
      some (0, true, c') ∧ c'.Between stat rest world' := by
  have hread : (Wait.setStat ⟨16, 0, true⟩ .read c).Between .read incoming world :=
    Client.Between.setStat hc (by simp)
  suffices hhandle : ∃ rc c' stat, handlePacket cb write p.type
      ((Wait.setStat ⟨16, 0, true⟩ .read c).received p.first p.body rest) = some (rc, c') ∧ 0 ≤ rc ∧
        c'.Between stat rest world' by
    obtain ⟨rc, c', stat, hrun, hrc, hbetween⟩ := hhandle
    refine ⟨c', stat, ?_, hbetween⟩
    rw [dispatch, hrun]
    simp only [Option.map_some, if_pos hrc, true_or, and_self, decide_true]
  by_cases htype : p.type = 3
  · rw [htype]
    obtain ⟨rc, c', hrun, hrc, hbetween⟩ := @handlePacket_publish ω cb write _ rest p htype h _ _ _ _ hread
      (Or.inr rfl) hacts
    exact ⟨rc, c', _, hrun, hrc, hbetween⟩
  · obtain ⟨rc, c', hrun, hrc, hbetween⟩ := @handlePacket_other ω cb write _ rest p htype h _ _ _ _ hread hacts
    exact ⟨rc, c', _, hrun, hrc, hbetween⟩

end Turn

/-- A client that has just been made. -/
def Client.init (incoming : List Arrival) (world : ω) : Client ω :=
  ⟨.begin, 0, 0, 0, fun _ => 0, ⟨.begin, 0, 0, false, false, none, 0, 0, 0, 0, false⟩, incoming, world⟩

theorem between_init (incoming : List Arrival) (world : ω) : (Client.init incoming world).Between .begin incoming world :=
  ⟨rfl, rfl, rfl, rfl, fun h => by cases h⟩

/-- An application and a socket that keep a record. -/
def logShown (s : Shown) (log : List Act) : List Act := log ++ [.show s]

def logWrite (packet : List UInt8) (log : List Act) : ℤ × List Act := (packet.length, log ++ [.write packet])

/-! ## A wait for an answer -/

/-- What a wait owes for some packets. -/
def owed : Bool → List Inbound → List Act
  | _, [] => []
  | busy, p :: ps => p.owed busy ++ owed (busy || decide p.Large) ps

/-- No message that is longer than the buffer comes behind another. -/
def Clear : Bool → List Inbound → Prop
  | _, [] => True
  | busy, p :: ps => ¬ (busy ∧ p.Large) ∧ Clear (busy || decide p.Large) ps

/-- Whether a long message has come. -/
def busyAfter : Bool → List Inbound → Bool
  | busy, [] => busy
  | busy, p :: ps => busyAfter (busy || decide p.Large) ps

instance : ∀ (busy : Bool) (ps : List Inbound), Decidable (Clear busy ps)
  | _, [] => isTrue trivial
  | busy, p :: ps =>
    have := instDecidableClear (busy || decide p.Large) ps
    inferInstanceAs (Decidable (_ ∧ _))

/-- Some packets on the wire. -/
def wire (ps : List Inbound) : List Arrival := arrive (ps.flatMap Inbound.bytes)

theorem wire_cons (p : Inbound) (ps : List Inbound) : wire (p :: ps) = arrive p.bytes ++ wire ps := by
  rw [wire, List.flatMap_cons, arrive, List.map_append]
  rfl

theorem length_wire (ps : List Inbound) : 2 * ps.length ≤ (wire ps).length := by
  induction ps with
  | nil => exact Nat.zero_le _
  | cons p ps ih =>
    have hlength := p.bytes_length
    rw [wire_cons, List.length_append, arrive, List.length_map, List.length_cons]
    omega

section Waiting

variable {w : Wait} {rest : List Arrival}

/-- A turn, and those behind it. -/
theorem waitLoop_turn {own : MsgStat} {c c' : Client ω} {rc : ℤ} {found : Bool}
    (hturn : waitTurn cb write w own c = some (rc, found, c')) (fuel : ℕ) : waitLoop cb write w (fuel + 1) own c =
      if rc < 0 ∨ found then some (rc, w.setStat .begin c') else waitLoop cb write w fuel .begin (w.setStat .begin c') := by
  rw [waitLoop, hturn]
  rfl

/-- **A wait for a packet** serves what comes in front of it, and that packet, and returns. -/
theorem waitLoop_packets (hw : w.ofMsg = false) {last : Inbound} (hlast : w.Matches last) :
    ∀ {ps : List Inbound} {fuel : ℕ} {own : MsgStat} {busy : Bool} {c : Client ω} {world world' : ω},
      own = .begin ∨ own = .wait → (∀ p ∈ ps, p.Fits ∧ ¬ w.Matches p) → last.Fits → Clear busy (ps ++ [last]) →
      c.Between (busyStat busy) (wire (ps ++ [last]) ++ rest) world →
      perform cb write (owed busy (ps ++ [last])) world = some world' → ps.length < fuel →
      ∃ c', waitLoop cb write w fuel own c = some (0, c') ∧
        c'.Between (busyStat (busyAfter busy (ps ++ [last]))) rest world' := by
  have hset : ∀ (stat : MsgStat) (c : Client ω), w.setStat stat c = c := fun stat c => by
    rw [Wait.setStat, hw, if_neg Bool.false_ne_true]
  have hown' : ∀ (own : MsgStat) (c : Client ω), w.stat own c = own := fun own c => by
    rw [Wait.stat, hw, if_neg Bool.false_ne_true]
  intro ps
  induction ps with
  | nil =>
    intro fuel own busy c world world' hown _ hfits hclear hc hacts hfuel
    obtain ⟨fuel, rfl⟩ := Nat.exists_eq_succ_of_ne_zero (Nat.ne_of_gt hfuel)
    rw [List.nil_append] at hclear hc hacts ⊢
    rw [owed, owed, List.append_nil] at hacts
    rw [wire_cons, List.append_assoc] at hc
    obtain ⟨c', hdispatch, hbetween⟩ := @dispatch_own ω cb write w last c rest world world' hw hfits busy hclear.1 _ hc hacts
    have hturn : waitTurn cb write w own c = some (0, decide (w.Matches last), c') :=
      (waitTurn_packet hfits (by rw [hown']; exact hown) hc).trans hdispatch
    refine ⟨c', ?_, hbetween⟩
    rw [waitLoop_turn hturn, if_pos (Or.inr (decide_eq_true hlast)), hset]
  | cons p ps ih =>
    intro fuel own busy c world world' hown hps hfits hclear hc hacts hfuel
    obtain ⟨fuel, rfl⟩ := Nat.exists_eq_succ_of_ne_zero (Nat.ne_zero_of_lt hfuel)
    obtain ⟨hp, hother⟩ := hps p List.mem_cons_self
    rw [List.cons_append] at hclear hc hacts ⊢
    rw [owed] at hacts
    obtain ⟨world₁, hact, hrest⟩ := perform_append_some hacts
    rw [wire_cons, List.append_assoc] at hc
    obtain ⟨c₁, hdispatch, hbetween⟩ := @dispatch_own ω cb write w p c (wire (ps ++ [last]) ++ rest) world world₁ hw hp busy
      hclear.1 _ hc hact
    have hturn : waitTurn cb write w own c = some (0, decide (w.Matches p), c₁) :=
      (waitTurn_packet hp (by rw [hown']; exact hown) hc).trans hdispatch
    obtain ⟨c', hrun, hend⟩ := ih (Or.inl rfl) (fun q hq => hps q (List.mem_cons_of_mem p hq)) hfits hclear.2 hbetween hrest
      (Nat.lt_of_succ_lt_succ hfuel)
    refine ⟨c', ?_, hend⟩
    rw [waitLoop_turn hturn, if_neg (by simp [hother]), hset]
    exact hrun

/-- **A client that waits for an answer**, whatever packets come in front of it, serves them all and gets the answer. -/
theorem waitType_packets (cb : Shown → ω → ω) (write : List UInt8 → ω → ℤ × ω) (hw : w.ofMsg = false) {last : Inbound}
    (hlast : w.Matches last) {ps : List Inbound} {own : MsgStat} {c : Client ω} {world world' : ω} (hown : own = .begin ∨ own = .wait) (hps : ∀ p ∈ ps, p.Fits ∧ ¬ w.Matches p)
    (hfits : last.Fits) (hclear : Clear false (ps ++ [last])) (hc : c.Between .begin (wire (ps ++ [last]) ++ rest) world)
    (hacts : perform cb write (owed false (ps ++ [last])) world = some world') :
    ∃ c', waitType cb write w own c = some (0, c') ∧ c'.Between (busyStat (busyAfter false (ps ++ [last]))) rest world' := by
  have hlength := length_wire (ps ++ [last])
  refine waitLoop_packets hw hlast hown hps hfits hclear hc hacts ?_
  rw [hc.incoming_eq, List.length_append]
  rw [List.length_append] at hlength
  omega

end Waiting

/-! ## The receive thread -/

section Thread

variable {c : Client ω} {rest : List Arrival} {world world' : ω}

/-- A packet is awaited, and comes. -/
theorem waitMessage_packet {p : Inbound} (h : p.Fits) (hc : c.Between .begin (arrive p.bytes ++ rest) world)
    (hacts : perform cb write p.acts world = some world') :
    ∃ c', waitMessage cb write c = some (0, c') ∧ c'.Between .begin rest world' := by
  obtain ⟨c', stat, hdispatch, hbetween⟩ := @dispatch_any ω cb write p c rest world world' h _ hc hacts
  have hstat : Wait.stat ⟨16, 0, true⟩ .begin c = .begin := hc.stat_eq
  have hturn : waitTurn cb write ⟨16, 0, true⟩ .begin c = some (0, true, c') :=
    (waitTurn_packet h (Or.inl hstat) hc).trans hdispatch
  have hend : (Wait.setStat ⟨16, 0, true⟩ .begin c').Between .begin rest world' := Client.Between.setStat hbetween (by simp)
  refine ⟨_, ?_, hend⟩
  rw [waitMessage, waitType, waitLoop_turn hturn, if_pos (Or.inr rfl)]

/-- What the buffer does not hold of such a message is taken for packets. -/
theorem waitMessage_overlong (cb : Shown → ω → ω) (write : List UInt8 → ω → ℤ × ω) {first : UInt8} {body : List UInt8} (htype : first.toNat / 16 = 3) (hqos : first.toNat / 2 % 4 = 0)
    (hover : Overlong first body) (hbody : body.length < 128 ^ 4) (hc : c.Between .begin (arrive (frame first body) ++ rest) world) :
    ∃ s c', waitMessage cb write c = some (0, c') ∧
      c'.Between .begin (arrive ((frame first body).drop rxBufLen) ++ rest) (cb s world) := by
  have hread : (Wait.setStat ⟨16, 0, true⟩ .read c).Between .read (arrive (frame first body) ++ rest) world :=
    Client.Between.setStat hc (by simp)
  have hstat : Wait.stat ⟨16, 0, true⟩ .begin c = .begin := hc.stat_eq
  obtain ⟨rc, c', hrun, hpk, hin, hsmall⟩ := @handlePacket_any ω (Wait.setStat ⟨16, 0, true⟩ .read c) first body rest cb write
    hbody htype (Or.inr hread.stat_eq)
  obtain ⟨rfl, s, hworld, hstat'⟩ := hsmall hover hqos
  have hturn : waitTurn cb write ⟨16, 0, true⟩ .begin c = some (0, true, c') := by
    rw [waitTurn_frame hbody htype (by simp) (Or.inl hstat) hc, dispatch, hrun]
    simp only [Option.map_some, le_refl, if_true, true_or, and_self, decide_true]
  rw [if_pos hover] at hin
  have hbetween : c'.Between .read (arrive ((frame first body).drop rxBufLen) ++ rest) (cb s world) :=
    ⟨hpk, hstat'.trans hread.stat_eq, hin, by rw [hworld, hread.world_eq], fun h => by cases h⟩
  have hend : (Wait.setStat ⟨16, 0, true⟩ .begin c').Between .begin (arrive ((frame first body).drop rxBufLen) ++ rest)
    (cb s world) := Client.Between.setStat hbetween (by simp)
  refine ⟨s, _, ?_, hend⟩
  rw [waitMessage, waitType, waitLoop_turn hturn, if_pos (Or.inr rfl)]

/-- Behind a wait in which a long message has come, the thread looks at it again, and finds nothing to do. -/
theorem waitMessage_busy (cb : Shown → ω → ω) (write : List UInt8 → ω → ℤ × ω) (hc : c.Between .readPayload rest world) :
    ∃ c', waitMessage cb write c = some (0, c') ∧ c'.Between .begin rest world := by
  obtain ⟨hdone, hnew⟩ := hc.read rfl
  have hread : readPayload cb c = some (0, c) := readPayload_old hnew hdone
  have hhandle : handlePacket cb write 3 c = some (0, c) := by
    rw [handlePacket]
    simp only [if_true, hc.stat_eq, reduceCtorEq, or_self, false_and, if_false]
    cases decodeLens c.rx <;> simp only [hread, Option.map_some, or_true, if_true]
  have hturn : waitTurn cb write ⟨16, 0, true⟩ .begin c = some (0, true, c) := by
    have hstat : Wait.stat ⟨16, 0, true⟩ .begin c = .readPayload := hc.stat_eq
    rw [waitTurn, hstat]
    simp only [dispatch, hhandle, Option.map_some, le_refl, if_true, true_or, and_self, decide_true]
  have hend : (Wait.setStat ⟨16, 0, true⟩ .begin c).Between .begin rest world := Client.Between.setStat hc (by simp)
  refine ⟨_, ?_, hend⟩
  rw [waitMessage, waitType, waitLoop_turn hturn, if_pos (Or.inr rfl)]

/-- Nothing comes. -/
def Silent (incoming rest : List Arrival) : Prop := incoming = .pause :: rest ∨ incoming = [] ∧ rest = []

/-- A read of a packet runs out of time. -/
theorem packetRead_silent {incoming : List Arrival} (hsilent : Silent incoming rest) (hpk : c.pkStat = .begin)
    (hin : c.incoming = incoming) :
    ∃ c', packetRead c = (errorTimeout, c') ∧ c'.pkStat = .begin ∧ c'.msg = c.msg ∧ c'.incoming = rest ∧ c'.world = c.world := by
  have hread : readAt 2 0 { c with headerLen := 2, remainLen := 0 } =
      (some errorTimeout, { c with headerLen := 2, remainLen := 0, incoming := rest }) := by
    rw [readAt]
    simp only [hin]
    rcases hsilent with rfl | ⟨rfl, rfl⟩ <;> rfl
  have hlate : ¬ (if errorTimeout < 0 then errorTimeout else Net.errorNetwork) ≠ errorTimeout := by decide
  refine ⟨{ c with headerLen := 2, remainLen := 0, incoming := rest }, ?_, hpk, rfl, rfl, rfl⟩
  rw [packetRead]
  simp only [hpk]
  rw [← hpk, hread]
  exact Prod.ext (not_not.1 hlate) rfl

/-- A wait for any packet, or for an answer, in which nothing comes. -/
theorem waitType_silent (cb : Shown → ω → ω) (write : List UInt8 → ω → ℤ × ω) (w : Wait) {own : MsgStat} {incoming : List Arrival} (hsilent : Silent incoming rest)
    (hc : c.Between .begin incoming world) (hown : own = .begin ∨ own = .wait) :
    ∃ c', waitType cb write w own c = some (errorTimeout, c') ∧ c'.Between .begin rest world := by
  have hset : (w.setStat .wait c).Between (if w.ofMsg then .wait else .begin) incoming world := Client.Between.setStat hc (by simp)
  obtain ⟨c', hread, hpk, hmsg, hin, hworld⟩ := packetRead_silent hsilent hset.pkStat_eq hset.incoming_eq
  have hbegin : ({ c with pkStat := .begin } : Client ω) = c := by rw [← hc.pkStat_eq]
  have hturn : waitTurn cb write w own c = some (errorTimeout, false, c') := by
    have hstat : w.stat own c = .begin ∨ w.stat own c = .wait := by
      rw [Wait.stat]
      split_ifs
      · exact Or.inl hc.stat_eq
      · exact hown
    have hneg : errorTimeout ≤ 0 := by decide
    rcases hstat with hstat | hstat <;>
    · rw [waitTurn, hstat]
      simp only [hbegin, hread, hneg, if_true]
  have hbetween : c'.Between (if w.ofMsg then .wait else .begin) rest world :=
    ⟨hpk, by rw [hmsg]; exact hset.stat_eq, hin, hworld.trans hset.world_eq, fun h => by split_ifs at h⟩
  refine ⟨w.setStat .begin c', ?_, ?_⟩
  · rw [waitType, waitLoop_turn hturn, if_pos (Or.inl (by decide))]
  · have hend : (w.setStat .begin c').Between (if w.ofMsg then .begin else if w.ofMsg then .wait else .begin) rest world :=
      hbetween.setStat (by simp)
    have hboth : (if w.ofMsg then MsgStat.begin else if w.ofMsg then .wait else .begin) = .begin := by split_ifs <;> rfl
    rwa [hboth] at hend

/-! The rounds of the broker. -/

/-- The answer to a ping. -/
def pingResp : Inbound := .other 13 0 0 []

/-- Some packets, a pause, and what comes until the ping is answered. -/
structure Round where
  packets : List Inbound
  waiting : List Inbound

def Round.stream (r : Round) : List Arrival := wire r.packets ++ .pause :: wire (r.waiting ++ [pingResp])

/-- **What is owed for a round.** -/
def Round.acts (r : Round) : List Act := r.packets.flatMap Inbound.acts ++ .ping :: owed false r.waiting

/-- The packets are known, and no long message comes behind a long one while the client waits. -/
def Round.Fits (r : Round) : Prop :=
  (∀ p ∈ r.packets, p.Fits) ∧ (∀ p ∈ r.waiting, p.Fits ∧ p.type ≠ 13) ∧ Clear false r.waiting

theorem owed_append : ∀ (busy : Bool) (ps qs : List Inbound),
    owed busy (ps ++ qs) = owed busy ps ++ owed (busyAfter busy ps) qs
  | _, [], _ => rfl
  | busy, p :: ps, qs => by
    have hrest := owed_append (busy || decide p.Large) ps qs
    rw [List.cons_append, owed, owed, hrest, List.append_assoc]
    rfl

theorem clear_append : ∀ (busy : Bool) (ps qs : List Inbound), Clear busy (ps ++ qs) ↔ Clear busy ps ∧ Clear (busyAfter busy ps) qs
  | _, [], _ => (iff_of_eq (true_and _)).symm
  | busy, p :: ps, qs => by
    have hrest := clear_append (busy || decide p.Large) ps qs
    rw [List.cons_append, Clear, Clear, hrest, and_assoc]
    rfl

theorem pingResp_fits : pingResp.Fits := by decide

/-- The ping is answered. -/
theorem ping_answered {waiting : List Inbound} (hps : ∀ p ∈ waiting, p.Fits ∧ p.type ≠ 13) (hclear : Clear false waiting)
    (hc : c.Between .begin (wire (waiting ++ [pingResp]) ++ rest) world)
    (hacts : perform cb write (.ping :: owed false waiting) world = some world') :
    ∃ c' busy, ping cb write c = some (0, c') ∧ c'.Between (busyStat busy) rest world' := by
  rw [perform] at hacts
  split_ifs at hacts with hwrite
  have howed : owed false (waiting ++ [pingResp]) = owed false waiting := by
    rw [owed_append]
    cases busyAfter false waiting <;> exact List.append_nil _
  have hlast : ¬ pingResp.Large := by decide
  have hc' : ({ c with world := (write encodePing c.world).2 } : Client ω).Between .begin
      (wire (waiting ++ [pingResp]) ++ rest) (write encodePing world).2 :=
    ⟨hc.pkStat_eq, hc.stat_eq, hc.incoming_eq, by rw [← hc.world_eq], hc.read⟩
  obtain ⟨c', hwait, hbetween⟩ := @waitType_packets ω ⟨13, 0, false⟩ rest cb write rfl pingResp (by decide) _ .wait _ _ _
    (Or.inr rfl) (fun p hp => ⟨(hps p hp).1, fun hmatch => (hps p hp).2 (hmatch.1.resolve_left (by decide)).symm⟩) pingResp_fits
    ((clear_append ..).2 ⟨hclear, fun h => hlast h.2, trivial⟩) hc' (by rw [howed]; exact hacts)
  refine ⟨c', _, ?_, hbetween⟩
  rw [ping]
  simp only [hc.world_eq] at hwait ⊢
  rw [if_neg hwrite]
  exact hwait

/-- A turn of the thread with a packet. -/
theorem mattLoop_message {c' : Client ω} (h : waitMessage cb write c = some (0, c')) (fuel : ℕ) :
    mattLoop cb write (fuel + 1) c = mattLoop cb write fuel c' := by
  rw [mattLoop, h]
  rfl

/-- A turn without a packet. -/
theorem mattLoop_pause {c' c'' : Client ω} {rc : ℤ} (h : waitMessage cb write c = some (errorTimeout, c'))
    (hping : ping cb write c' = some (rc, c'')) (fuel : ℕ) :
    mattLoop cb write (fuel + 1) c = if rc ≠ 0 then some (rc, c'') else mattLoop cb write fuel c'' := by
  rw [mattLoop, h]
  simp only [Option.bind_eq_bind, Option.bind_some, if_true, hping]
  rfl

/-- Packets without a pause. -/
theorem mattLoop_packets : ∀ {ps : List Inbound} {c : Client ω} {world : ω}, (∀ p ∈ ps, p.Fits) →
    c.Between .begin (wire ps ++ rest) world → perform cb write (ps.flatMap Inbound.acts) world = some world' →
    ∃ c', (∀ fuel, mattLoop cb write (fuel + ps.length) c = mattLoop cb write fuel c') ∧ c'.Between .begin rest world' := by
  intro ps
  induction ps with
  | nil =>
    intro c world _ hc hacts
    obtain rfl := Option.some.inj hacts
    exact ⟨c, fun _ => rfl, hc⟩
  | cons p ps ih =>
    intro c world hps hc hacts
    rw [List.flatMap_cons] at hacts
    obtain ⟨world₁, hact, hrest⟩ := perform_append_some hacts
    rw [wire_cons, List.append_assoc] at hc
    obtain ⟨c₁, hwait, hbetween⟩ := waitMessage_packet (hps p List.mem_cons_self) hc hact
    obtain ⟨c', hrun, hend⟩ := ih (fun q hq => hps q (List.mem_cons_of_mem p hq)) hbetween hrest
    exact ⟨c', fun fuel => (mattLoop_message hwait _).trans (hrun fuel), hend⟩

/-- **A round.** -/
theorem mattLoop_round {r : Round} (hr : r.Fits) (hc : c.Between .begin (r.stream ++ rest) world)
    (hacts : perform cb write r.acts world = some world') :
    ∃ c', ∃ n ≤ r.stream.length, (∀ fuel, mattLoop cb write (fuel + n) c = mattLoop cb write fuel c') ∧
      c'.Between .begin rest world' := by
  obtain ⟨hpackets, hwaiting, hclear⟩ := hr
  obtain ⟨world₁, hact, hrest⟩ := perform_append_some hacts
  rw [Round.stream, List.append_assoc] at hc
  obtain ⟨c₁, hrun₁, hbetween₁⟩ := mattLoop_packets hpackets hc hact
  obtain ⟨c₂, hwait, hbetween₂⟩ := waitType_silent cb write ⟨16, 0, true⟩ (Or.inl rfl) hbetween₁ (Or.inl rfl)
  obtain ⟨c₃, busy, hping, hbetween₃⟩ := ping_answered hwaiting hclear hbetween₂ hrest
  have hpause : ∀ fuel, mattLoop cb write (fuel + 1) c₁ = mattLoop cb write fuel c₃ := mattLoop_pause hwait hping
  have hlength : r.packets.length + 2 ≤ r.stream.length := by
    have h₁ := length_wire r.packets
    have h₂ := length_wire (r.waiting ++ [pingResp])
    rw [List.length_append, List.length_singleton] at h₂
    rw [Round.stream, List.length_append, List.length_cons]
    omega
  cases busy with
  | false =>
    refine ⟨c₃, r.packets.length + 1, by omega, fun fuel => ?_, hbetween₃⟩
    rw [show fuel + (r.packets.length + 1) = fuel + 1 + r.packets.length by omega, hrun₁, hpause]
  | true =>
    obtain ⟨c₄, hwait₄, hbetween₄⟩ := waitMessage_busy cb write hbetween₃
    refine ⟨c₄, r.packets.length + 2, hlength, fun fuel => ?_, hbetween₄⟩
    rw [show fuel + (r.packets.length + 2) = fuel + 1 + 1 + r.packets.length by omega, hrun₁, hpause, mattLoop_message hwait₄]

/-- The broker falls silent: a ping is not answered, and the thread gives up. -/
theorem mattLoop_silent {fuel : ℕ} (hc : c.Between .begin [] world) (hacts : perform cb write [.ping] world = some world')
    (hfuel : 0 < fuel) : ∃ c', mattLoop cb write fuel c = some (errorTimeout, c') ∧ c'.Between .begin [] world' := by
  obtain ⟨fuel, rfl⟩ := Nat.exists_eq_succ_of_ne_zero (Nat.ne_of_gt hfuel)
  obtain ⟨c₁, hwait, hbetween⟩ := waitType_silent cb write ⟨16, 0, true⟩ (Or.inr ⟨rfl, rfl⟩) hc (Or.inl rfl)
  rw [perform] at hacts
  split_ifs at hacts with hwrite
  have hsent : ({ c₁ with world := (write encodePing c₁.world).2 } : Client ω).Between .begin [] world' :=
    ⟨hbetween.pkStat_eq, hbetween.stat_eq, hbetween.incoming_eq, by rw [← Option.some.inj hacts, hbetween.world_eq], hbetween.read⟩
  obtain ⟨c₂, hwait₂, hbetween₂⟩ := @waitType_silent ω _ _ _ cb write ⟨13, 0, false⟩ .wait _ (Or.inr ⟨rfl, rfl⟩) hsent (Or.inr rfl)
  have hping : ping cb write c₁ = some (errorTimeout, c₂) := by
    rw [ping]
    simp only [hbetween.world_eq] at hwait₂ ⊢
    rw [if_neg hwrite]
    exact hwait₂
  exact ⟨c₂, (mattLoop_pause hwait hping fuel).trans (if_pos (by decide)), hbetween₂⟩

instance (r : Round) : Decidable r.Fits := inferInstanceAs (Decidable (_ ∧ _ ∧ _))

/-- **A message can bring packets**: where its payload begins behind the end of the buffer, what is behind the first 1024
bytes of it is served like packets of the broker. -/
theorem mattLoop_smuggled {first : UInt8} {body : List UInt8} {ps : List Inbound} {fuel : ℕ} (htype : first.toNat / 16 = 3)
    (hqos : first.toNat / 2 % 4 = 0) (hover : Overlong first body) (hbody : body.length < 128 ^ 4)
    (htail : (frame first body).drop rxBufLen = ps.flatMap Inbound.bytes) (hps : ∀ p ∈ ps, p.Fits)
    (hc : c.Between .begin (arrive (frame first body)) world)
    (hacts : ∀ s, ∃ w, perform cb write (.show s :: ps.flatMap Inbound.acts ++ [.ping]) world = some w)
    (hfuel : body.length < fuel) :
    ∃ s c', mattLoop cb write fuel c = some (errorTimeout, c') ∧
      perform cb write (.show s :: ps.flatMap Inbound.acts ++ [.ping]) world = some c'.world := by
  obtain ⟨fuel, rfl⟩ := Nat.exists_eq_succ_of_ne_zero (Nat.ne_zero_of_lt hfuel)
  rw [← List.append_nil (arrive _)] at hc
  obtain ⟨s, c₁, hwait, hbetween⟩ := waitMessage_overlong cb write htype hqos hover hbody hc
  obtain ⟨w, hw⟩ := hacts s
  rw [List.cons_append, perform] at hw
  obtain ⟨world₁, hact, hrest⟩ := perform_append_some hw
  rw [htail] at hbetween
  obtain ⟨c₂, hrun, hbetween₂⟩ := mattLoop_packets hps hbetween hact
  have hlength := length_wire ps
  have hle : ps.length + 1 ≤ fuel := by
    have hsize := (headSize_bounds body).2
    have hdrop := congrArg List.length htail
    obtain ⟨hlt, hle⟩ := hover
    rw [List.length_drop, length_frame, rxBufLen] at hdrop
    rw [rxBufLen] at hlt
    rw [wire, arrive, List.length_map] at hlength
    omega
  have hleft : 0 < fuel - ps.length := by omega
  obtain ⟨c', hend, hlast⟩ := mattLoop_silent hbetween₂ hrest hleft
  refine ⟨s, c', ?_, ?_⟩
  · rw [mattLoop_message hwait, show fuel = fuel - ps.length + ps.length by omega, hrun]
    exact hend
  · rw [hlast.world_eq]
    exact hw

/-- A topic of 1020 bytes, with a byte behind it. -/
def longTopic : List UInt8 := Wire.string (List.replicate 1019 97 ++ [208]) ++ [0]

theorem mattLoop_smuggled_pingResp : ∃ s c', mattLoop logShown logWrite 1100 (Client.init (arrive (frame 48 longTopic)) []) =
    some (errorTimeout, c') ∧
      perform logShown logWrite (.show s :: [pingResp].flatMap Inbound.acts ++ [.ping]) [] = some c'.world :=
  mattLoop_smuggled (by decide) (by decide) (by decide +kernel) (by decide +kernel) (by decide +kernel) (by decide)
    (between_init _ _) (fun s => ⟨[.show s, .write [192, 0]], rfl⟩) (by decide +kernel)

/-- Behind a long message there is no message. -/
def Quiet : Bool → List Inbound → Prop
  | _, [] => True
  | busy, p :: ps => ¬ (busy ∧ p.type = 3) ∧ Quiet (busy || decide p.Large) ps

theorem length_owed_le : ∀ (busy : Bool) (ps : List Inbound), (owed busy ps).length ≤ (ps.flatMap Inbound.acts).length
  | _, [] => le_rfl
  | busy, p :: ps => by
    have hrest := length_owed_le (busy || decide p.Large) ps
    rw [owed, List.flatMap_cons, List.length_append, List.length_append, Inbound.owed]
    split_ifs
    · exact (Nat.zero_add _).trans_le (hrest.trans (Nat.le_add_left _ _))
    · exact Nat.add_le_add_left hrest _

end Thread

end W601.Mqtt.Recv
