import W601.Lib.Runs

/-!
# `NetRead` and the bytes of the stream

`NetRead_ex` waits with `select` and reads with `recv` until the buffer is full, the wait times out or something fails.
Only in the first case does it answer how many bytes it has read; in the others what the rounds before have taken from
the socket is not reported.

* `readLoop_eq`: what the loop takes: all that arrives in front of the first fruitless round, up to the end of the buffer.
* `netRead_cases`: a call takes nothing and answers no bytes, or fills the buffer and answers its length, or takes some
  bytes and answers none.
* `lossless_iff`: the runs of `NetRead` that lose no bytes.
-/

namespace W601.Mqtt.Net

open Runs

/-- `MQTT_CODE_ERROR_BAD_ARG`, `MQTT_CODE_ERROR_TIMEOUT`, `MQTT_CODE_ERROR_NETWORK`. -/
def badArg : ℤ := -1
def errorTimeout : ℤ := -7
def errorNetwork : ℤ := -8

/-- `SOCKET_INVALID`. -/
def socketInvalid : ℤ := 0

/-- The calls that the port makes of the socket layer. -/
inductive SockOp where
  | socket (result : ℤ)
  | connect (fd : ℤ)
  | setsockopt (fd : ℤ)
  | getsockopt (fd : ℤ)
  | send (fd : ℤ)
  | select (fd : ℤ)
  | recv (fd : ℤ)
  | close (fd : ℤ)
deriving DecidableEq

/-- One turn of the loop of `NetRead_ex`: `select` times out or is interrupted by a signal, or the socket is ready, with
or without an error to report, and `recv` finds `n` bytes there (none where the peer has closed or the read fails). -/
inductive Round where
  | quiet (signal : Bool)
  | ready (err : Bool) (n : ℕ)

/-- The variables of the loop, and the position in the stream. -/
structure Reading where
  pos : ℕ
  /-- The `bytes` bytes at `buf`. -/
  buf : List UInt8
  rc : ℤ
  timeout : Bool
  ops : List SockOp

/-- What a call is given, and what it meets. -/
structure ReadCall where
  bufLen : ℤ
  /-- Behind their end `select` times out. -/
  rounds : List Round
  soError : ℤ

section Code

variable (fd : ℤ) (stream : List UInt8)

/-- The loop of `NetRead_ex`. -/
def readLoop (bufLen : ℕ) (peek : Bool) : List Round → Bool → Reading → Reading
  | [], _, r =>
    if bufLen ≤ r.buf.length then r
    else { r with rc := 0, timeout := true, ops := r.ops ++ [SockOp.select fd] }
  | round :: rounds, errWatched, r =>
    if bufLen ≤ r.buf.length then r
    else
      let r := { r with ops := r.ops ++ [SockOp.select fd] }
      match round with
      | .quiet signal => { r with rc := if signal then -1 else 0, timeout := true }
      | .ready err n =>
        -- `select` has taken the descriptor out of `errfds` where there was no error in the first round
        if err && errWatched then { r with rc := -1 }
        else
          let r := { r with ops := r.ops ++ [SockOp.recv fd] }
          let chunk := (stream.drop r.pos).take (min n (bufLen - r.buf.length))
          if chunk = [] then { r with rc := -1 }
          else readLoop bufLen peek rounds false
            { r with pos := if peek then r.pos else r.pos + chunk.length, buf := r.buf ++ chunk, rc := chunk.length }

/-- `NetRead_ex` from the label `exit` on. -/
def readExit (soError : ℤ) (r : Reading) : Reading :=
  if r.rc = 0 ∧ r.timeout then { r with rc := errorTimeout }
  else if r.rc < 0 then
    { r with rc := if soError = 0 then 0 else errorNetwork, ops := r.ops ++ [SockOp.getsockopt fd] }
  else { r with rc := r.buf.length }

/-- `NetRead_ex`: the variables at the end, with the answer in `rc`. -/
def netReadEx (c : ReadCall) (peek : Bool) (pos : ℕ) : Reading :=
  if c.bufLen ≤ 0 then ⟨pos, [], badArg, false, []⟩
  else if fd = socketInvalid then ⟨pos, [], badArg, false, []⟩
  else
    readExit fd c.soError (readLoop fd stream c.bufLen.toNat peek c.rounds true ⟨pos, [], -1, false, []⟩)

/-- `NetRead`. -/
def netRead (c : ReadCall) (pos : ℕ) : Reading := netReadEx fd stream c false pos

end Code

/-! ## The loop -/

/-- The bytes that arrive in front of the first round that brings none. -/
def arriving : List Round → Bool → ℕ
  | .ready err n :: rounds, errWatched => if (err && errWatched) ∨ n = 0 then 0 else n + arriving rounds false
  | _, _ => 0

/-- What a loop with room for `room` bytes takes from the stream behind `pos`. -/
def taken (stream : List UInt8) (room : ℕ) (rounds : List Round) (errWatched : Bool) (pos : ℕ) : ℕ :=
  min room (min (arriving rounds errWatched) (stream.length - pos))

/-- How a loop has gone that took `k` bytes: they are in the buffer, and unless they fill it the answer will be none. -/
structure Took (stream : List UInt8) (room k : ℕ) (r t : Reading) : Prop where
  pos : t.pos = r.pos + k
  buf : t.buf = r.buf ++ (stream.drop r.pos).take k
  full : k = room → 0 < room → 0 < t.rc
  short : k < room → t.rc ≤ 0 ∧ (t.rc = 0 → t.timeout = true)
  idle : room = 0 → t.rc = r.rc

variable {fd : ℤ} {stream : List UInt8} {bufLen room : ℕ} {r t : Reading}

/-- A loop that does not begin. -/
theorem took_idle (hroom : room = 0) : Took stream room 0 r r where
  pos := (Nat.add_zero _).symm
  buf := by rw [List.take_zero, List.append_nil]
  full _ h := by omega
  short h := by omega
  idle _ := rfl

/-- A round that ends the loop takes nothing. -/
theorem took_zero (hroom : 0 < room) (hpos : t.pos = r.pos) (hbuf : t.buf = r.buf) (hrc : t.rc ≤ 0)
    (htimeout : t.rc = 0 → t.timeout = true) : Took stream room 0 r t where
  pos := by rw [hpos, Nat.add_zero]
  buf := by rw [hbuf, List.take_zero, List.append_nil]
  full h _ := by omega
  short _ := ⟨hrc, htimeout⟩
  idle h := by omega

/-- A round that takes `m` bytes, and the loop behind it. -/
theorem took_chunk {m k : ℕ} {r' : Reading} (hm : 0 < m) (hle : m ≤ room) (hpos : r'.pos = r.pos + m)
    (hbuf : r'.buf = r.buf ++ (stream.drop r.pos).take m) (hrc : r'.rc = m) (h : Took stream (room - m) k r' t) :
    Took stream room (m + k) r t where
  pos := by rw [h.pos, hpos, Nat.add_assoc]
  buf := by rw [h.buf, hbuf, hpos, List.append_assoc, List.take_add, List.drop_drop]
  full hk hroom := by
    rcases Nat.eq_zero_or_pos (room - m) with hzero | hpos
    · rw [h.idle hzero, hrc]
      exact_mod_cast hm
    · exact h.full (by omega) hpos
  short hk := h.short (by omega)
  idle hroom := by omega

/-- What a first round of `n` bytes takes, and the rounds behind it with `a` bytes, when there are `left`. -/
theorem min_round {n a left c : ℕ} (hc : c = min (min n room) left) :
    min room (min (n + a) left) = c + min (room - c) (min a (left - c)) := by
  have hroom : c + (room - c) = room := by omega
  have hleft : c + (left - c) = left := by omega
  rw [← Nat.add_min_add_left, ← Nat.add_min_add_left, hroom, hleft]
  rcases Nat.lt_or_ge c n with hlt | hge
  · -- the round is cut short by the room or by the end of the stream
    have hcut : min room left = c := by omega
    rw [min_left_comm, hcut, min_eq_right (by omega), min_left_comm, hcut, min_eq_right (by omega)]
  · have hn : c = n := by omega
    rw [hn]

/-- What is taken in a round in which the socket is ready, and behind it. -/
theorem taken_ready (stream : List UInt8) (rounds : List Round) (pos : ℕ) {n c : ℕ} {err errWatched : Bool}
    (herr : ¬ (err && errWatched) = true) (hc : c = min (min n room) (stream.length - pos)) :
    taken stream room (.ready err n :: rounds) errWatched pos =
      if c = 0 then 0 else c + taken stream (room - c) rounds false (pos + c) := by
  rw [taken, arriving, taken]
  by_cases hn : n = 0
  · have hzero : c = 0 := by rw [hc, hn, Nat.zero_min, Nat.zero_min]
    rw [if_pos (Or.inr hn), if_pos hzero, Nat.zero_min, Nat.min_zero]
  · rw [if_neg (not_or.2 ⟨herr, hn⟩), min_round hc, Nat.sub_sub]
    split_ifs with hzero
    · -- nothing is taken when there is no room or nothing left
      have hnone : room = 0 ∨ stream.length - pos = 0 := by omega
      rw [hzero, Nat.add_zero, Nat.sub_zero, Nat.zero_add]
      rcases hnone with h | h
      · rw [h, Nat.zero_min]
      · rw [h, Nat.min_zero, Nat.min_zero]
    · rfl

/-- **The loop takes what arrives**, up to the end of the buffer and of the stream. -/
theorem readLoop_eq {rounds : List Round} {errWatched : Bool} (hroom : r.buf.length + room = bufLen) :
    Took stream room (taken stream room rounds errWatched r.pos) r (readLoop fd stream bufLen false rounds errWatched r) := by
  induction rounds generalizing room errWatched r with
  | nil =>
    have hzero : taken stream room [] errWatched r.pos = 0 := by simp [taken, arriving]
    rw [hzero, readLoop]
    split_ifs with hfull
    · exact took_idle (by omega)
    · exact took_zero (by omega) rfl rfl le_rfl fun _ => rfl
  | cons round rounds ih =>
    rw [readLoop]
    by_cases hfull : bufLen ≤ r.buf.length
    · have hidle : room = 0 := by omega
      have hzero : taken stream room (round :: rounds) errWatched r.pos = 0 := by simp [taken, hidle]
      rw [hzero, if_pos hfull]
      exact took_idle hidle
    · have hpos : 0 < room := by omega
      rw [if_neg hfull]
      cases round with
      | quiet signal =>
        have hzero : taken stream room (.quiet signal :: rounds) errWatched r.pos = 0 := by simp [taken, arriving]
        have hrc : (if signal then -1 else 0 : ℤ) ≤ 0 := by cases signal <;> decide
        rw [hzero]
        exact took_zero hpos rfl rfl hrc fun _ => rfl
      | ready err n =>
        have hfail : ((-1 : ℤ) ≤ 0) ∧ (((-1 : ℤ) = 0) → r.timeout = true) := ⟨by decide, fun h => absurd h (by decide)⟩
        by_cases herr : (err && errWatched) = true
        · have hzero : taken stream room (.ready err n :: rounds) errWatched r.pos = 0 := by simp [taken, arriving, herr]
          rw [hzero]
          simp only [herr, if_true]
          exact took_zero hpos rfl rfl hfail.1 hfail.2
        · simp only [herr, Bool.false_eq_true, if_false]
          set chunk := (stream.drop r.pos).take (min n (bufLen - r.buf.length)) with hchunk
          have hlen : chunk.length = min (min n room) (stream.length - r.pos) := by
            rw [hchunk, List.length_take, List.length_drop]
            omega
          rw [taken_ready stream rounds r.pos herr hlen]
          by_cases hnone : chunk = []
          · have hnil : chunk.length = 0 := by rw [hnone]; rfl
            rw [hnil, if_pos rfl, if_pos hnone]
            exact took_zero hpos rfl rfl hfail.1 hfail.2
          · have hsome : 0 < chunk.length := List.length_pos_iff.2 hnone
            have hfirst : chunk = (stream.drop r.pos).take chunk.length := by
              rw [hchunk, List.length_take]
              exact List.take_eq_take_min
            rw [if_neg (by omega), if_neg hnone]
            set r' : Reading := ⟨r.pos + chunk.length, r.buf ++ chunk, chunk.length, r.timeout,
              r.ops ++ [SockOp.select fd] ++ [SockOp.recv fd]⟩ with hr'
            have hroom' : r'.buf.length + (room - chunk.length) = bufLen := by
              rw [hr', List.length_append]
              omega
            have hloop : Took stream (room - chunk.length) (taken stream (room - chunk.length) rounds false r'.pos) r' _ :=
              ih hroom'
            exact took_chunk hsome (by omega) rfl (by rw [hr', ← hfirst]) rfl hloop

/-! ## Calls -/

/-- The bytes that a call takes from the socket. -/
def takenBy (fd : ℤ) (stream : List UInt8) (c : ReadCall) (pos : ℕ) : ℕ :=
  if c.bufLen ≤ 0 ∨ fd = socketInvalid then 0 else taken stream c.bufLen.toNat c.rounds true pos

theorem readExit_kept (fd soError : ℤ) (r : Reading) :
    (readExit fd soError r).pos = r.pos ∧ (readExit fd soError r).buf = r.buf := by
  rw [readExit]
  split_ifs <;> exact ⟨rfl, rfl⟩

/-- A loop that ends with bytes answers all of them. -/
theorem readExit_full (fd soError : ℤ) {r : Reading} (h : 0 < r.rc) : (readExit fd soError r).rc = r.buf.length := by
  rw [readExit, if_neg fun hz => by omega, if_neg (by omega)]

/-- Any other answers none. -/
theorem readExit_short (fd soError : ℤ) {r : Reading} (hrc : r.rc ≤ 0) (htimeout : r.rc = 0 → r.timeout = true) :
    (readExit fd soError r).rc ≤ 0 := by
  rw [readExit]
  split_ifs with hzero hneg hso
  · exact (by decide : errorTimeout ≤ 0)
  · exact le_rfl
  · exact (by decide : errorNetwork ≤ 0)
  · have hz : r.rc = 0 := by omega
    exact absurd ⟨hz, htimeout hz⟩ hzero

/-- **What a call does**: it takes `takenBy` bytes into the buffer, and answers the number when they fill the buffer and
no bytes otherwise. -/
theorem netRead_eq (fd : ℤ) (stream : List UInt8) (c : ReadCall) (pos : ℕ) :
    (netRead fd stream c pos).pos = pos + takenBy fd stream c pos ∧
      (netRead fd stream c pos).buf = (stream.drop pos).take (takenBy fd stream c pos) ∧
      (0 < c.bufLen → takenBy fd stream c pos = c.bufLen.toNat → (netRead fd stream c pos).rc = c.bufLen) ∧
      ((takenBy fd stream c pos : ℤ) < c.bufLen ∨ c.bufLen ≤ 0 → (netRead fd stream c pos).rc ≤ 0) := by
  have hbad : (badArg : ℤ) ≤ 0 := by decide
  rw [netRead, netReadEx, takenBy]
  by_cases hlen : c.bufLen ≤ 0
  · rw [if_pos hlen, if_pos (Or.inl hlen)]
    exact ⟨rfl, rfl, fun h => by omega, fun _ => hbad⟩
  rw [if_neg hlen]
  by_cases hfd : fd = socketInvalid
  · rw [if_pos hfd, if_pos (Or.inr hfd)]
    exact ⟨rfl, rfl, fun _ h => by omega, fun _ => hbad⟩
  rw [if_neg hfd, if_neg (not_or.2 ⟨hlen, hfd⟩)]
  set start : Reading := ⟨pos, [], -1, false, []⟩
  set r := readLoop fd stream c.bufLen.toNat false c.rounds true start
  have hrun : Took stream c.bufLen.toNat (taken stream c.bufLen.toNat c.rounds true start.pos) start r :=
    readLoop_eq (Nat.zero_add _)
  have hstart : start.pos = pos := rfl
  rw [hstart] at hrun
  set k := taken stream c.bufLen.toNat c.rounds true pos
  obtain ⟨hpos, hbuf⟩ := readExit_kept fd c.soError r
  refine ⟨hpos.trans hrun.pos, hbuf.trans hrun.buf, fun hpos hfull => ?_, fun hk => ?_⟩
  · have hlen : r.buf.length = k := by
      have hle : k ≤ stream.length - pos := (min_le_right _ _).trans (min_le_right _ _)
      rw [hrun.buf, List.nil_append, List.length_take, List.length_drop, Nat.min_eq_left hle]
    rw [readExit_full fd c.soError (hrun.full hfull (by omega)), hlen, hfull]
    omega
  · have hshort := hrun.short (by omega)
    exact readExit_short fd c.soError hshort.1 hshort.2

/-! ## Runs -/

/-- The position in the stream, and the bytes reported as read. -/
structure Session where
  pos : ℕ
  reported : List UInt8

section Runs

variable (fd : ℤ) (stream : List UInt8)

/-- A call of `NetRead`; the bytes that it reports are the first `rc` of the buffer. -/
def readStep (s : Session) (c : ReadCall) : Option Session :=
  let r := netRead fd stream c s.pos
  some ⟨r.pos, s.reported ++ r.buf.take r.rc.toNat⟩

/-- The bytes reported are those taken from the socket, and a call that answers no bytes has taken none. -/
def Lossless (s : Session) (c : ReadCall) (t : Session) : Prop :=
  t.reported = stream.take t.pos ∧ ((netRead fd stream c s.pos).rc ≤ 0 → t.pos = s.pos)

/-- The call reads nothing, as its arguments are bad, the first round brings no byte or there is none; or what arrives in
front of the first fruitless round fills the buffer. -/
def Whole (s : Session) (c : ReadCall) : Prop :=
  c.bufLen ≤ 0 ∨ fd = socketInvalid ∨ arriving c.rounds true = 0 ∨ stream.length ≤ s.pos ∨
    (c.bufLen ≤ arriving c.rounds true ∧ c.bufLen ≤ ((stream.length - s.pos : ℕ) : ℤ))

/-- A call is whole when it takes nothing or fills the buffer. -/
theorem whole_iff {s : Session} {c : ReadCall} : Whole fd stream s c ↔
    takenBy fd stream c s.pos = 0 ∨ 0 < c.bufLen ∧ takenBy fd stream c s.pos = c.bufLen.toNat := by
  rw [Whole, takenBy]
  by_cases hbad : c.bufLen ≤ 0 ∨ fd = socketInvalid
  · rw [if_pos hbad]
    exact iff_of_true (hbad.imp_right Or.inl) (Or.inl rfl)
  · obtain ⟨hlen, hfd⟩ := not_or.1 hbad
    rw [if_neg hbad, taken]
    simp only [hlen, hfd, false_or]
    omega

/-- The bytes of a call that takes any join those reported before. -/
theorem reported_whole {s : Session} {c : ReadCall} (h : s.reported = stream.take s.pos) (hc : Whole fd stream s c) :
    s.reported ++ (netRead fd stream c s.pos).buf.take (netRead fd stream c s.pos).rc.toNat =
      stream.take (s.pos + takenBy fd stream c s.pos) := by
  obtain ⟨-, hbuf, hfull, -⟩ := netRead_eq fd stream c s.pos
  rw [h, hbuf]
  rcases (whole_iff fd stream).1 hc with hzero | ⟨hlen, hk⟩
  · rw [hzero]
    simp
  · rw [hfull hlen hk, hk, List.take_take, min_self, List.take_add]

/-- **`NetRead` loses no bytes** in the runs whose calls are whole, and in no others. -/
theorem lossless_iff (calls : List ReadCall) :
    Along (readStep fd stream) (Lossless fd stream) ⟨0, []⟩ calls ↔
      Orderly (readStep fd stream) (Whole fd stream) ⟨0, []⟩ calls := by
  apply along_iff_orderly (I := fun s => s.reported = stream.take s.pos)
  · intro s c t hs hgood ht
    obtain rfl := Option.some.inj ht
    obtain ⟨hpos, -, hfull, -⟩ := netRead_eq fd stream c s.pos
    have hrep := reported_whole fd stream hs hgood
    rw [← hpos] at hrep
    refine ⟨⟨hrep, fun hrc => ?_⟩, hrep⟩
    rcases (whole_iff fd stream).1 hgood with hzero | ⟨hlen, hk⟩
    · exact hpos.trans (by rw [hzero, Nat.add_zero])
    · rw [hfull hlen hk] at hrc
      omega
  · rintro s c t - hbad ht ⟨-, hnone⟩
    obtain rfl := Option.some.inj ht
    obtain ⟨hpos, -, -, hshort⟩ := netRead_eq fd stream c s.pos
    have hk := mt (whole_iff fd stream).2 hbad
    have hle : takenBy fd stream c s.pos ≤ c.bufLen.toNat := by
      rw [takenBy]
      split_ifs with h
      · exact Nat.zero_le _
      · exact min_le_left _ _
    have hrc := hshort (by omega)
    have hsame : (netRead fd stream c s.pos).pos = s.pos := hnone hrc
    rw [hpos] at hsame
    omega
  · rfl

end Runs

/-- Two of four bytes have arrived when the wait times out; they are gone. -/
theorem timeout_loses_bytes :
    ¬ Along (readStep 3 [1, 2, 3, 4]) (Lossless 3 [1, 2, 3, 4]) ⟨0, []⟩ [⟨4, [.ready false 2, .quiet false], 0⟩] := by
  intro h
  have hstep := (h _ rfl).1.2
  exact absurd hstep (by decide)

end W601.Mqtt.Net
