import W601.Mqtt.NetRead

/-!
# The socket of the MQTT client

`MqttClientNet_Init` marks the absent socket with `SOCKET_INVALID`, which is 0, `NetDisconnect` with -1, and `NetConnect`
takes every answer of `socket` but 0 for a descriptor, -1 included.

* `Sound`: what the context and the descriptors should be at any time.
* `sound_iff`: the runs of the four callbacks in which they are.
-/

namespace W601.Mqtt.Net

open Runs

/-- `NB_Stat`. -/
inductive NbStat where
  | sockBegin
  | sockConn
deriving DecidableEq

/-- `SocketContext`; the address is that of the broker and the port. -/
structure SocketContext where
  fd : ℤ
  stat : NbStat
  addr : Option (ℕ × UInt16)

/-- The context that `MqttClientNet_Init` makes. -/
def mqttClientNetInit : SocketContext := ⟨socketInvalid, .sockBegin, none⟩

/-- How `getaddrinfo` answers: with an error, without a result, without an address for IPv4, or with one. -/
inductive Resolved where
  | failed (rc : { n : ℤ // n ≠ 0 })
  | noResult
  | noIPv4
  | found (addr : ℕ)

/-- The context behind a callback, its answer and the calls that it has made. -/
abbrev Answer := SocketContext × ℤ × List SockOp

/-- `NetConnect` from `case SOCK_CONN` on; `connected` is the answer of `connect`. -/
def startConnect (connected : ℤ) (sock : SocketContext) : Answer :=
  if connected < 0 then (sock, errorNetwork, [.connect sock.fd, .getsockopt sock.fd])
  else (sock, connected, [.connect sock.fd])

/-- `NetConnect`; `fd` is the answer of `socket`. -/
def netConnect (port : UInt16) (resolved : Resolved) (fd connected : ℤ) (sock : SocketContext) : Answer :=
  match sock.stat with
  | .sockConn => startConnect connected sock
  | .sockBegin =>
    let sock := { sock with addr := none }
    match resolved with
    | .failed rc => (sock, rc, [])
    | .noResult => (sock, -1, [])
    | .noIPv4 => (sock, -1, [])
    | .found addr =>
      let sock := { sock with addr := some (addr, port), fd := fd }
      if fd = socketInvalid then (sock, -1, [.socket fd])
      else
        -- the case falls through to the next
        let (sock, rc, ops) := startConnect connected { sock with stat := .sockConn }
        (sock, rc, .socket fd :: ops)

/-- `NetWrite`; `sent` is the answer of `send`. -/
def netWrite (bufLen sent soError : ℤ) (sock : SocketContext) : Answer :=
  if bufLen ≤ 0 then (sock, badArg, [])
  else if sock.fd = socketInvalid then (sock, badArg, [])
  else if sent = -1 then
    (sock, if soError = 0 then 0 else errorNetwork, [.setsockopt sock.fd, .send sock.fd, .getsockopt sock.fd])
  else (sock, sent, [.setsockopt sock.fd, .send sock.fd])

/-- `NetRead` as a callback. -/
def netReadCall (stream : List UInt8) (c : ReadCall) (sock : SocketContext) : Answer :=
  let r := netRead sock.fd stream c 0
  (sock, r.rc, r.ops)

/-- `NetDisconnect`. -/
def netDisconnect (sock : SocketContext) : Answer :=
  let closed := { sock with stat := .sockBegin }
  if sock.fd ≠ socketInvalid then ({ closed with fd := -1 }, 0, [.close sock.fd]) else (closed, 0, [])

/-! ## Descriptors -/

/-- A call of one of the callbacks, with what it meets. -/
inductive NetCall where
  | connect (port : UInt16) (resolved : Resolved) (fd connected : ℤ)
  | read (stream : List UInt8) (c : ReadCall)
  | write (bufLen sent soError : ℤ)
  | disconnect

/-- The context and the descriptors that it has obtained. -/
structure Port where
  ctx : SocketContext
  /-- The descriptors obtained and not closed. -/
  opened : List ℤ
  /-- A descriptor that is not open has been closed. -/
  reclosed : Bool
  /-- A read or a write without a connection has called the socket layer, or answered something else than the error. -/
  stray : Bool

def Port.init : Port := ⟨mqttClientNetInit, [], false, false⟩

/-- The ledger of one call of the socket layer. -/
def Port.settle (p : Port) : SockOp → Port
  | .socket d => if 0 ≤ d then { p with opened := d :: p.opened } else p
  | .close d =>
    { p with opened := p.opened.erase d, reclosed := p.reclosed || decide (0 ≤ d ∧ d ∉ p.opened) }
  | _ => p

/-- The state behind a callback. -/
def Port.after (p : Port) (a : Answer) : Port := { a.2.2.foldl Port.settle p with ctx := a.1 }

/-- The state behind a read or a write. -/
def Port.transfer (p : Port) (a : Answer) : Port :=
  { p.after a with stray := p.stray || decide (p.ctx.stat = .sockBegin ∧ (a.2.1 ≠ badArg ∨ a.2.2 ≠ [])) }

/-- A call on the context. `socket` answers -1 or a descriptor that is not open. -/
def Port.step (p : Port) : NetCall → Option Port
  | .connect port resolved fd connected =>
    if fd = -1 ∨ (0 ≤ fd ∧ fd ∉ p.opened) then some (p.after (netConnect port resolved fd connected p.ctx)) else none
  | .read stream c => some (p.transfer (netReadCall stream c p.ctx))
  | .write bufLen sent soError => some (p.transfer (netWrite bufLen sent soError p.ctx))
  | .disconnect => some (p.after (netDisconnect p.ctx))

/-- What should hold of the context and the descriptors. -/
structure Sound (p : Port) : Prop where
  idle : p.ctx.stat = .sockBegin → p.ctx.fd = socketInvalid
  connected : p.ctx.stat = .sockConn → p.ctx.fd ∈ p.opened
  /-- A descriptor that is open can still be closed. -/
  kept : ∀ d ∈ p.opened, d = p.ctx.fd
  closedOnce : p.reclosed = false
  refused : p.stray = false

/-- A connect without a socket that finds the broker gets a descriptor, the first that is open; a disconnect meets no
socket. -/
def Undisturbed (p : Port) : NetCall → Prop
  | .connect _ resolved fd _ => p.ctx.stat = .sockBegin → (∃ addr, resolved = .found addr) → 0 ≤ fd ∧ p.opened = []
  | .disconnect => p.ctx.fd = socketInvalid
  | _ => True

/-- Besides, a socket that is connected is not that of descriptor 0. -/
structure Held (p : Port) : Prop where
  sound : Sound p
  nonzero : p.ctx.stat = .sockConn → p.ctx.fd ≠ socketInvalid

/-! ## Reads and writes -/

/-- A call that neither opens nor closes a descriptor. -/
def SockOp.Plain : SockOp → Prop
  | .socket _ | .close _ => False
  | _ => True

/-- A read or a write changes nothing in the context and opens and closes nothing; without a socket it answers the error
at once. -/
structure Transfers (sock : SocketContext) (a : Answer) : Prop where
  ctx : a.1 = sock
  plain : ∀ op ∈ a.2.2, op.Plain
  refused : sock.fd = socketInvalid → a.2.1 = badArg ∧ a.2.2 = []

theorem netWrite_transfers (bufLen sent soError : ℤ) (sock : SocketContext) :
    Transfers sock (netWrite bufLen sent soError sock) := by
  have hbad : Transfers sock (sock, badArg, []) := ⟨rfl, by simp, fun _ => ⟨rfl, rfl⟩⟩
  rw [netWrite]
  by_cases hlen : bufLen ≤ 0
  · rw [if_pos hlen]
    exact hbad
  · by_cases hfd : sock.fd = socketInvalid
    · rw [if_neg hlen, if_pos hfd]
      exact hbad
    · rw [if_neg hlen, if_neg hfd]
      split_ifs
      all_goals exact ⟨rfl, by simp [SockOp.Plain], fun h => absurd h hfd⟩

theorem plain_snoc {ops : List SockOp} {op : SockOp} (hops : ∀ o ∈ ops, o.Plain) (hop : op.Plain) :
    ∀ o ∈ ops ++ [op], o.Plain :=
  List.forall_mem_append.2 ⟨hops, List.forall_mem_singleton.2 hop⟩

theorem readLoop_plain {fd : ℤ} {stream : List UInt8} {bufLen : ℕ} {peek : Bool} {rounds : List Round} {errWatched : Bool}
    {r : Reading} (hr : ∀ op ∈ r.ops, op.Plain) :
    ∀ op ∈ (readLoop fd stream bufLen peek rounds errWatched r).ops, op.Plain := by
  induction rounds generalizing errWatched r with
  | nil =>
    rw [readLoop]
    split_ifs
    · exact hr
    · exact plain_snoc hr trivial
  | cons round rounds ih =>
    rw [readLoop]
    by_cases hfull : bufLen ≤ r.buf.length
    · rw [if_pos hfull]
      exact hr
    · have hselect : ∀ op ∈ r.ops ++ [SockOp.select fd], op.Plain := plain_snoc hr trivial
      have hrecv : ∀ op ∈ r.ops ++ [SockOp.select fd] ++ [SockOp.recv fd], op.Plain := plain_snoc hselect trivial
      rw [if_neg hfull]
      cases round with
      | quiet signal => exact hselect
      | ready err n =>
        by_cases herr : (err && errWatched) = true
        · simp only [herr, if_true]
          exact hselect
        · simp only [herr, Bool.false_eq_true, if_false]
          by_cases hnone : (stream.drop r.pos).take (min n (bufLen - r.buf.length)) = []
          · rw [if_pos hnone]
            exact hrecv
          · rw [if_neg hnone]
            exact ih hrecv

theorem netReadCall_transfers (stream : List UInt8) (c : ReadCall) (sock : SocketContext) :
    Transfers sock (netReadCall stream c sock) := by
  have hbad : Transfers sock (sock, badArg, []) := ⟨rfl, by simp, fun _ => ⟨rfl, rfl⟩⟩
  simp only [netReadCall, netRead, netReadEx]
  by_cases hlen : c.bufLen ≤ 0
  · rw [if_pos hlen]
    exact hbad
  · by_cases hfd : sock.fd = socketInvalid
    · rw [if_neg hlen, if_pos hfd]
      exact hbad
    · rw [if_neg hlen, if_neg hfd]
      refine ⟨rfl, ?_, fun h => absurd h hfd⟩
      have hloop : ∀ op ∈ (readLoop sock.fd stream c.bufLen.toNat false c.rounds true ⟨0, [], -1, false, []⟩).ops,
          op.Plain := readLoop_plain (by simp)
      rw [readExit]
      split_ifs
      · exact hloop
      · exact plain_snoc hloop trivial
      · exact plain_snoc hloop trivial
      · exact hloop

theorem settle_plain {ops : List SockOp} (h : ∀ op ∈ ops, op.Plain) (p : Port) : ops.foldl Port.settle p = p := by
  induction ops generalizing p with
  | nil => rfl
  | cons op ops ih =>
    have hop := h op List.mem_cons_self
    have hone : p.settle op = p := by
      cases op <;> first | rfl | exact absurd hop id
    rw [List.foldl_cons, hone, ih fun o ho => h o (List.mem_cons_of_mem _ ho)]

/-- A callback that opens and closes nothing changes the context only. -/
theorem after_plain {p : Port} {a : Answer} (h : ∀ op ∈ a.2.2, op.Plain) : p.after a = { p with ctx := a.1 } := by
  rw [Port.after, settle_plain h]

/-- **Reads and writes change nothing** as long as all holds. -/
theorem transfer_eq {p : Port} (h : Held p) {a : Answer} (ha : Transfers p.ctx a) : p.transfer a = p := by
  have hstray : ¬ (p.ctx.stat = .sockBegin ∧ (a.2.1 ≠ badArg ∨ a.2.2 ≠ [])) := by
    rintro ⟨hbegin, hbad⟩
    obtain ⟨hrc, hops⟩ := ha.refused (h.sound.idle hbegin)
    exact hbad.elim (· hrc) (· hops)
  rw [Port.transfer, after_plain ha.plain, ha.ctx, decide_eq_false hstray, Bool.or_false]

/-! ## Connecting and disconnecting -/

theorem startConnect_plain (connected : ℤ) (sock : SocketContext) :
    (startConnect connected sock).1 = sock ∧ ∀ op ∈ (startConnect connected sock).2.2, op.Plain := by
  rw [startConnect]
  split_ifs
  · exact ⟨rfl, by simp [SockOp.Plain]⟩
  · exact ⟨rfl, by simp [SockOp.Plain]⟩

/-- A connect of a context that has a socket. -/
theorem after_reconnect {p : Port} (hconn : p.ctx.stat = .sockConn) (port : UInt16) (resolved : Resolved)
    (fd connected : ℤ) : p.after (netConnect port resolved fd connected p.ctx) = p := by
  obtain ⟨hctx, hplain⟩ := startConnect_plain connected p.ctx
  simp only [netConnect, hconn]
  rw [after_plain hplain, hctx]

/-- A connect that does not find the broker. -/
theorem after_unresolved {p : Port} (hbegin : p.ctx.stat = .sockBegin) {resolved : Resolved}
    (hres : ¬ ∃ addr, resolved = .found addr) (port : UInt16) (fd connected : ℤ) :
    p.after (netConnect port resolved fd connected p.ctx) = { p with ctx := { p.ctx with addr := none } } := by
  cases resolved with
  | failed rc => simp [netConnect, hbegin, Port.after]
  | noResult => simp [netConnect, hbegin, Port.after]
  | noIPv4 => simp [netConnect, hbegin, Port.after]
  | found addr => exact absurd ⟨addr, rfl⟩ hres

/-- A callback that calls `socket` first and then opens and closes nothing. -/
theorem after_socket {p : Port} {a : Answer} {fd : ℤ} {ops : List SockOp} (hops : a.2.2 = .socket fd :: ops)
    (h : ∀ op ∈ ops, op.Plain) :
    p.after a = { p with ctx := a.1, opened := if 0 ≤ fd then fd :: p.opened else p.opened } := by
  rw [Port.after, hops, List.foldl_cons, settle_plain h, Port.settle]
  split_ifs <;> rfl

/-- A connect that finds the broker. -/
theorem after_resolved {p : Port} (hbegin : p.ctx.stat = .sockBegin) (port : UInt16) (addr : ℕ) (fd connected : ℤ) :
    p.after (netConnect port (.found addr) fd connected p.ctx) =
      { p with
        ctx := ⟨fd, if fd = socketInvalid then .sockBegin else .sockConn, some (addr, port)⟩
        opened := if 0 ≤ fd then fd :: p.opened else p.opened } := by
  by_cases hzero : fd = socketInvalid
  · rw [if_pos hzero]
    simp only [netConnect, hbegin, if_pos hzero]
    exact after_socket rfl (by simp)
  · obtain ⟨hctx, hplain⟩ := startConnect_plain connected ⟨fd, .sockConn, some (addr, port)⟩
    rw [if_neg hzero]
    simp only [netConnect, hbegin, if_neg hzero]
    rw [after_socket rfl hplain, hctx]

/-- **A connect** keeps it exactly when it is undisturbed. -/
theorem held_connect {p : Port} (h : Held p) (port : UInt16) (resolved : Resolved) {fd : ℤ} (connected : ℤ)
    (hfd : fd = -1 ∨ (0 ≤ fd ∧ fd ∉ p.opened)) :
    (Undisturbed p (.connect port resolved fd connected) → Held (p.after (netConnect port resolved fd connected p.ctx))) ∧
      (¬ Undisturbed p (.connect port resolved fd connected) →
        ¬ Sound (p.after (netConnect port resolved fd connected p.ctx))) := by
  cases hstat : p.ctx.stat with
  | sockConn =>
    rw [after_reconnect hstat]
    exact ⟨fun _ => h, fun hbad => absurd (fun hbegin => absurd (hstat.symm.trans hbegin) (by decide)) hbad⟩
  | sockBegin =>
    have hidle := h.sound.idle hstat
    by_cases hres : ∃ addr, resolved = .found addr
    · obtain ⟨addr, rfl⟩ := hres
      rw [after_resolved hstat]
      -- what is open without a connection is descriptor 0
      have hzero : ∀ d ∈ p.opened, d = 0 := fun d hd => (h.sound.kept d hd).trans hidle
      constructor
      · intro hgood
        obtain ⟨hpos, hnone⟩ := hgood hstat ⟨addr, rfl⟩
        rw [if_pos hpos, hnone]
        refine ⟨⟨fun hb => ?_, fun _ => List.mem_singleton.2 rfl, fun d hd => List.mem_singleton.1 hd,
          h.sound.closedOnce, h.sound.refused⟩, fun hc hz => ?_⟩
        · by_contra hne
          simp only [if_neg hne] at hb
          exact absurd hb (by decide)
        · simp only [if_pos hz] at hc
          exact absurd hc (by decide)
      · intro hbad hsound
        rcases hfd with rfl | ⟨hpos, hfresh⟩
        · have hopen : (-1 : ℤ) ∈ p.opened := hsound.connected rfl
          exact absurd (hzero _ hopen) (by decide)
        · have hnone : p.opened ≠ [] := fun hnone => hbad fun _ _ => ⟨hpos, hnone⟩
          obtain ⟨d, hd⟩ := List.exists_mem_of_ne_nil _ hnone
          have hsame : d = fd := hsound.kept d (by rw [if_pos hpos]; exact List.mem_cons_of_mem _ hd)
          exact hfresh (hsame ▸ hd)
    · rw [after_unresolved hstat hres]
      refine ⟨fun _ => ⟨⟨h.sound.idle, h.sound.connected, h.sound.kept, h.sound.closedOnce, h.sound.refused⟩, h.nonzero⟩,
        fun hbad => absurd (fun _ hfound => absurd hfound hres) hbad⟩

/-- **A disconnect** keeps it exactly when there is no socket. -/
theorem held_disconnect {p : Port} (h : Held p) :
    (p.ctx.fd = socketInvalid → Held (p.after (netDisconnect p.ctx))) ∧
      (p.ctx.fd ≠ socketInvalid → ¬ Sound (p.after (netDisconnect p.ctx))) := by
  constructor
  · intro hfd
    have hafter : p.after (netDisconnect p.ctx) = { p with ctx := { p.ctx with stat := .sockBegin } } := by
      rw [netDisconnect, if_neg (not_not.2 hfd)]
      exact after_plain (by simp)
    rw [hafter]
    have hne : NbStat.sockBegin ≠ .sockConn := by decide
    exact ⟨⟨fun _ => hfd, fun hc => absurd hc hne, h.sound.kept, h.sound.closedOnce, h.sound.refused⟩,
      fun hc => absurd hc hne⟩
  · intro hfd hsound
    have hafter : (p.after (netDisconnect p.ctx)).ctx = ⟨-1, .sockBegin, p.ctx.addr⟩ := by
      rw [netDisconnect, if_pos hfd]
      rfl
    have hidle := hsound.idle
    rw [hafter] at hidle
    have hinvalid : (-1 : ℤ) = socketInvalid := hidle rfl
    exact absurd hinvalid (by decide)

/-- **The context and the descriptors are as they should be** throughout the undisturbed runs, and in no others. -/
theorem sound_iff (calls : List NetCall) :
    Upholds Port.step Sound Port.init calls ↔ Orderly Port.step Undisturbed Port.init calls := by
  apply upholds_iff_orderly (I := Held)
  · exact fun p h => h.sound
  · intro p call t h hgood ht
    cases call with
    | connect port resolved fd connected =>
      obtain ⟨hfd, ht⟩ := Option.ite_none_right_eq_some.1 ht
      obtain rfl := Option.some.inj ht
      exact (held_connect h port resolved connected hfd).1 hgood
    | read stream c =>
      obtain rfl := Option.some.inj ht
      rw [transfer_eq h (netReadCall_transfers stream c p.ctx)]
      exact h
    | write bufLen sent soError =>
      obtain rfl := Option.some.inj ht
      rw [transfer_eq h (netWrite_transfers bufLen sent soError p.ctx)]
      exact h
    | disconnect =>
      obtain rfl := Option.some.inj ht
      exact (held_disconnect h).1 hgood
  · intro p call t h hbad ht
    cases call with
    | connect port resolved fd connected =>
      obtain ⟨hfd, ht⟩ := Option.ite_none_right_eq_some.1 ht
      obtain rfl := Option.some.inj ht
      exact (held_connect h port resolved connected hfd).2 hbad
    | read stream c => exact absurd trivial hbad
    | write bufLen sent soError => exact absurd trivial hbad
    | disconnect =>
      obtain rfl := Option.some.inj ht
      exact (held_disconnect h).2 hbad
  · exact ⟨⟨fun _ => rfl, fun h => absurd h (by decide), by simp [Port.init], rfl, rfl⟩, fun h => absurd h (by decide)⟩

/-- A connection that is closed leaves -1 in the context, which is taken for a descriptor. -/
theorem disconnect_leaves_descriptor :
    ¬ Upholds Port.step Sound Port.init [.connect 1883 (.found 1) 3 0, .disconnect] := by
  intro h
  have hlast := ((h.2 _ rfl).2 _ rfl).first
  exact absurd (hlast.idle rfl) (by decide)

end W601.Mqtt.Net
