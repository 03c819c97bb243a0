import W601.Lib.Runs

/-!
# The life of the MQTT context

`mqtt_init` creates the context and the socket, starts the receive thread `matt_thread` and the
publisher `mqtt_thread_entry`; the shell command `mqtt_publish_test` may run at any time. The context is
released by `mqtt_init` when it gives up, and by the receive thread when it ends. The global `mqtt_ctx`
is never cleared.

A step is what a thread does up to its next blocking call, with the outcome of the call it comes back
from.

* `inv_step`: an orderly step keeps the account of the context and its socket.
* `disorderly_step`: every other step leaks the context or the socket, or uses the context after it
  has been released.
* `lifecycle_upheld_iff`: the runs in which the context is used and released as it should be.
-/

namespace W601.Mqtt

open Runs

/-- The memory of the context. -/
inductive CtxMem
  | absent
  | live
  | freed
  deriving DecidableEq

/-- Where `mqtt_init` stands. -/
inductive InitPc
  | parse
  | create
  /-- in `getaddrinfo` -/
  | resolve
  /-- in `connect` -/
  | connect
  /-- in `MqttClient_Connect` -/
  | connack
  | subscribe
  /-- in the disconnect of `mqtt_close` -/
  | closing
  | startRecv
  | startApp
  /-- has returned `0` -/
  | ready
  /-- has returned `-1` -/
  | failed
  deriving DecidableEq

/-- Where `matt_thread` stands. -/
inductive RecvPc
  | off
  | waiting
  /-- in the publication that answers a property setting -/
  | replying
  | pinging
  | unsubscribing
  /-- in the disconnect of `mqtt_close` -/
  | closing
  | ended
  deriving DecidableEq

/-- Where a publishing thread stands: not started, between publications, in the send of one. -/
inductive PubPc
  | off
  | idle
  | sending
  deriving DecidableEq

structure Life where
  ctx : CtxMem
  /-- The global `mqtt_ctx` is not null. -/
  global : Bool
  frees : ℕ
  opened : ℕ
  closed : ℕ
  /-- The context was used after its release. -/
  useAfterFree : Bool
  /-- A null context was used. -/
  fault : Bool
  init : InitPc
  recv : RecvPc
  app : PubPc
  shell : PubPc
  deriving DecidableEq

def Life.boot : Life := ⟨.absent, false, 0, 0, 0, false, false, .parse, .off, .off, .idle⟩

/-- The outcomes of `mqtt_ctx_create`: no memory for the context, a later failure (it frees the context
again), the context. -/
inductive Created
  | noMemory
  | undone
  | ok
  deriving DecidableEq

/-- The steps of the threads, each with the outcome of the call it comes back from. -/
inductive LifeStep
  | cfgParse (ok : Bool)
  | ctxCreate (r : Created)
  /-- `getaddrinfo` and `socket`: an address and a socket, or one of them missing -/
  | resolve (ok : Bool)
  | connect (ok : Bool)
  | connack (ok : Bool)
  | subscribe (ok : Bool)
  | initDisconnect (ok : Bool)
  | startRecv (ok : Bool)
  | startApp (ok : Bool)
  /-- `MqttClient_WaitMessage` returns; a property setting is answered by a publication -/
  | message (answer : Bool)
  | replied
  | timeout
  | waitError
  | ping (ok : Bool)
  | unsubscribed
  | recvDisconnect (ok : Bool)
  /-- the publisher wakes; `json` says whether `mqtt_create_info` finds memory -/
  | appPublish (json : Bool)
  | appSent
  | shellPublish
  | shellSent
  deriving DecidableEq

namespace Life

/-- The thread uses the context. -/
def touch (s : Life) : Life := { s with useAfterFree := s.useAfterFree || decide (s.ctx = .freed) }

/-- `mqtt_ctx_free`: it frees the context, and leaves the socket as it is. -/
def ctxFree (s : Life) : Life := { s.touch with ctx := .freed, frees := s.frees + 1 }

/-- `mqtt_close` behind its disconnect: it returns early when that has failed. -/
def mqttClose (s : Life) (ok : Bool) : Life :=
  -- the early return skips both the close of the socket and the free
  if ok then { s.touch with closed := s.closed + 1 }.ctxFree else s.touch

/-- `mqtt_ctx_connect` has failed. -/
def giveUp (s : Life) : Life := { s.ctxFree with init := .failed }

def step (s : Life) : LifeStep → Option Life
  | .cfgParse ok => if s.init = .parse then some { s with init := if ok then .create else .failed } else none
  | .ctxCreate r =>
    if s.init = .create then
      match r with
      | .noMemory => some { s with init := .failed }
      -- `_free_ctx` on the way out; the global is not set
      | .undone => some { s with ctx := .freed, frees := s.frees + 1, init := .failed }
      | .ok => some { s with ctx := .live, global := true, init := .resolve }
    else none
  | .resolve ok =>
    if s.init = .resolve then
      some (if ok then { s.touch with opened := s.opened + 1, init := .connect } else s.touch.giveUp)
    else none
  | .connect ok =>
    if s.init = .connect then some (if ok then { s.touch with init := .connack } else s.touch.giveUp) else none
  | .connack ok =>
    if s.init = .connack then some (if ok then { s.touch with init := .subscribe } else s.touch.giveUp) else none
  | .subscribe ok =>
    if s.init = .subscribe then some { s.touch with init := if ok then .startRecv else .closing } else none
  | .initDisconnect ok =>
    if s.init = .closing then some { s.mqttClose ok with init := .failed } else none
  | .startRecv ok =>
    if s.init = .startRecv then some { s with init := .startApp, recv := if ok then .waiting else .off } else none
  | .startApp ok =>
    if s.init = .startApp then
      some (if ok then { s with init := .ready, app := .idle } else { s with init := .failed })
    else none
  | .message answer =>
    if s.recv = .waiting then some { s.touch with recv := if answer then .replying else .waiting } else none
  | .replied => if s.recv = .replying then some { s.touch with recv := .waiting } else none
  | .timeout => if s.recv = .waiting then some { s.touch with recv := .pinging } else none
  | .waitError => if s.recv = .waiting then some { s.touch with recv := .unsubscribing } else none
  | .ping ok =>
    if s.recv = .pinging then some { s.touch with recv := if ok then .waiting else .unsubscribing } else none
  | .unsubscribed => if s.recv = .unsubscribing then some { s.touch with recv := .closing } else none
  | .recvDisconnect ok => if s.recv = .closing then some { s.mqttClose ok with recv := .ended } else none
  | .appPublish json =>
    if s.app = .idle then some (if json then { s.touch with app := .sending } else s) else none
  | .appSent => if s.app = .sending then some { s.touch with app := .idle } else none
  | .shellPublish =>
    if s.shell = .idle then
      some (if s.global then { s.touch with shell := .sending } else { s with fault := true })
    else none
  | .shellSent => if s.shell = .sending then some { s.touch with shell := .idle } else none

end Life

/-- **The context is used and released as it should be**: no use after its release, and once the receive
thread has ended, or `mqtt_init` has failed with a context created, it has been freed once and each
socket opened for it has been closed once. -/
structure Upheld (s : Life) : Prop where
  safe : s.useAfterFree = false
  released : s.recv = .ended ∨ (s.init = .failed ∧ s.ctx ≠ .absent) →
    s.ctx = .freed ∧ s.frees = 1 ∧ s.closed = s.opened

/-- **The orderly steps**: a connection that fails does so before it has a socket, a disconnect is sent,
the publisher can be started or the context is gone already, and nobody publishes, or comes back from
a publication, when the context is gone. -/
def OrderlyStep (s : Life) : LifeStep → Prop
  | .connect ok => ok = true
  | .connack ok => ok = true
  | .initDisconnect ok => ok = true
  | .recvDisconnect ok => ok = true
  | .startApp ok => ok = true ∨ s.ctx = .freed
  | .appPublish json => json = true → s.ctx ≠ .freed
  | .appSent => s.ctx ≠ .freed
  | .shellPublish => s.global = true → s.ctx ≠ .freed
  | .shellSent => s.ctx ≠ .freed
  | _ => True

/-! ## The account of the context -/

/-- Nothing has been created. -/
structure Untouched (s : Life) : Prop where
  ctx : s.ctx = .absent
  frees : s.frees = 0
  opened : s.opened = 0
  closed : s.closed = 0
  recv : s.recv = .off

/-- The context is there, with `n` sockets open. -/
structure Held (n : ℕ) (s : Life) : Prop where
  ctx : s.ctx = .live
  frees : s.frees = 0
  opened : s.opened = n
  closed : s.closed = 0

/-- The context has been freed and its sockets closed. -/
structure Released (s : Life) : Prop where
  ctx : s.ctx = .freed
  frees : s.frees = 1
  closed : s.closed = s.opened

/-- What `mqtt_init` has made of the context, by where it stands. -/
def Account (s : Life) : Prop :=
  match s.init with
  | .parse | .create => Untouched s
  | .resolve => Held 0 s ∧ s.recv = .off
  | .connect | .connack | .subscribe | .closing | .startRecv => Held 1 s ∧ s.recv = .off
  | .startApp | .ready => (Held 1 s ∧ s.recv ≠ .ended) ∨ (Released s ∧ s.recv = .ended)
  | .failed => Untouched s ∨ (Released s ∧ (s.recv = .off ∨ s.recv = .ended))

structure Inv (s : Life) : Prop where
  safe : s.useAfterFree = false
  account : Account s

theorem Inv.upheld {s : Life} (h : Inv s) : Upheld s := by
  refine ⟨h.safe, fun hr => ?_⟩
  have ha := h.account
  -- a thread that has ended, or a failed start, has an account of its own
  have hrel : Released s := by
    cases hi : s.init <;> simp only [Account, hi] at ha hr
    case parse | create => simp [ha.recv] at hr
    case resolve | connect | connack | subscribe | closing | startRecv => simp [ha.2] at hr
    case startApp | ready =>
      rcases ha with ⟨-, hne⟩ | ⟨h, -⟩
      · simp [hne] at hr
      · exact h
    case failed =>
      rcases ha with h | ⟨h, -⟩
      · simp [h.ctx, h.recv] at hr
      · exact h
  exact ⟨hrel.ctx, hrel.frees, hrel.closed⟩

theorem Life.touch_eq {s : Life} (h : s.ctx ≠ .freed) : s.touch = s := by
  simp [Life.touch, h]

theorem Held.touch {n : ℕ} {s : Life} (h : Held n s) : s.touch = s := Life.touch_eq (by simp [h.ctx])

/-! The account of the context does not depend on where the threads stand. -/

theorem Held.moved {n : ℕ} {s : Life} (h : Held n s) {fault : Bool} {init : InitPc} {recv : RecvPc} {app shell : PubPc} :
    Held n { s with fault := fault, init := init, recv := recv, app := app, shell := shell } :=
  ⟨h.ctx, h.frees, h.opened, h.closed⟩

theorem Released.moved {s : Life} (h : Released s) {fault : Bool} {init : InitPc} {recv : RecvPc} {app shell : PubPc} :
    Released { s with fault := fault, init := init, recv := recv, app := app, shell := shell } :=
  ⟨h.ctx, h.frees, h.closed⟩

theorem Untouched.moved {s : Life} (h : Untouched s) {fault : Bool} {init : InitPc} {app shell : PubPc} :
    Untouched { s with fault := fault, init := init, app := app, shell := shell } :=
  ⟨h.ctx, h.frees, h.opened, h.closed, h.recv⟩

/-- A receive thread under way, or at its end, with the account of each. -/
theorem started_moved {s : Life} (h : (Held 1 s ∧ s.recv ≠ .ended) ∨ (Released s ∧ s.recv = .ended)) {fault : Bool}
    {init : InitPc} {app shell : PubPc} :
    (Held 1 { s with fault := fault, init := init, app := app, shell := shell } ∧ s.recv ≠ .ended) ∨
      (Released { s with fault := fault, init := init, app := app, shell := shell } ∧ s.recv = .ended) :=
  h.imp (fun hh => ⟨hh.1.moved, hh.2⟩) fun hr => ⟨hr.1.moved, hr.2⟩

theorem account_started {s : Life} (hi : s.init = .startApp ∨ s.init = .ready)
    (h : (Held 1 s ∧ s.recv ≠ .ended) ∨ (Released s ∧ s.recv = .ended)) : Account s := by
  rcases hi with hi | hi <;> simp only [Account, hi] <;> exact h

/-- While the receive thread is under way, the context is there. -/
theorem Inv.running {s : Life} (h : Inv s) (hoff : s.recv ≠ .off) (hend : s.recv ≠ .ended) :
    Held 1 s ∧ (s.init = .startApp ∨ s.init = .ready) := by
  have ha := h.account
  cases hi : s.init <;> simp only [Account, hi] at ha
  case parse | create => exact absurd ha.recv hoff
  case resolve | connect | connack | subscribe | closing | startRecv => exact absurd ha.2 hoff
  case startApp | ready =>
    rcases ha with ⟨hh, -⟩ | ⟨-, he⟩
    · exact ⟨hh, by simp⟩
    · exact absurd he hend
  case failed =>
    rcases ha with h | ⟨-, h | h⟩
    · exact absurd h.recv hoff
    · exact absurd h hoff
    · exact absurd h hend

/-- The receive thread goes on. -/
theorem Inv.recv {s : Life} (h : Inv s) (hoff : s.recv ≠ .off) (hend : s.recv ≠ .ended) {r : RecvPc}
    (hr : r ≠ .ended) : Inv { s.touch with recv := r } := by
  obtain ⟨hh, hi⟩ := h.running hoff hend
  rw [hh.touch]
  exact ⟨h.safe, account_started hi (Or.inl ⟨hh.moved, hr⟩)⟩

/-- Publishing threads do not change the account. -/
theorem Inv.publish {s : Life} (h : Inv s) (app shell : PubPc) (fault : Bool) :
    Inv { s with app := app, shell := shell, fault := fault } := by
  refine ⟨h.safe, ?_⟩
  have ha := h.account
  cases hi : s.init <;> simp only [Account, hi] at ha ⊢
  case parse | create => exact ha.moved
  case resolve | connect | connack | subscribe | closing | startRecv => exact ⟨ha.1.moved, ha.2⟩
  case startApp | ready => exact started_moved ha
  case failed => exact ha.imp (fun hu => hu.moved) fun hr => ⟨hr.1.moved, hr.2⟩

/-- `mqtt_init` goes on with its socket. -/
theorem Inv.init {s : Life} (h : Inv s) (hh : Held 1 s) (hr : s.recv = .off) {pc : InitPc}
    (hpc : pc ∈ [.connack, .subscribe, .closing, .startRecv]) : Inv { s.touch with init := pc } := by
  rw [hh.touch]
  refine ⟨h.safe, ?_⟩
  have hheld : Held 1 { s with init := pc } := hh.moved
  simp only [List.mem_cons, List.not_mem_nil, or_false] at hpc
  rcases hpc with rfl | rfl | rfl | rfl <;> exact ⟨hheld, hr⟩

/-- Without a socket, freeing the context is all there is to do. -/
theorem Held.giveUp {s : Life} (h : Held 0 s) : Released s.giveUp ∧ s.giveUp.useAfterFree = s.useAfterFree := by
  have ht := h.touch
  refine ⟨⟨rfl, ?_, ?_⟩, ?_⟩
  · simp [Life.giveUp, Life.ctxFree, h.frees]
  · simp [Life.giveUp, Life.ctxFree, ht, h.opened, h.closed]
  · simp [Life.giveUp, Life.ctxFree, ht]

/-- `mqtt_close` behind a disconnect that was sent closes the socket and frees the context. -/
theorem Held.mqttClose {s : Life} (h : Held 1 s) :
    Released (s.mqttClose true) ∧ (s.mqttClose true).useAfterFree = s.useAfterFree := by
  refine ⟨⟨rfl, ?_, ?_⟩, ?_⟩
  · simp [Life.mqttClose, Life.ctxFree, Life.touch, h.frees]
  · simp [Life.mqttClose, Life.ctxFree, Life.touch, h.opened, h.closed]
  · simp [Life.mqttClose, Life.ctxFree, Life.touch, h.ctx]

/-- **An orderly step keeps the account.** -/
theorem inv_step (s : Life) (x : LifeStep) (t : Life) (h : Inv s) (ho : OrderlyStep s x)
    (hs : s.step x = some t) : Inv t := by
  have ha := h.account
  have hsafe := h.safe
  cases x <;> simp only [Life.step, Option.ite_none_right_eq_some, Option.some.injEq] at hs
  case cfgParse ok =>
    obtain ⟨hi, rfl⟩ := hs
    simp only [Account, hi] at ha
    refine ⟨hsafe, ?_⟩
    cases ok
    · exact Or.inl ha.moved
    · exact ha.moved
  case ctxCreate r =>
    obtain ⟨hi, hs⟩ := hs
    simp only [Account, hi] at ha
    cases r with
    | noMemory =>
      obtain rfl := Option.some.inj hs
      exact ⟨hsafe, Or.inl ha.moved⟩
    | undone =>
      obtain rfl := Option.some.inj hs
      exact ⟨hsafe, Or.inr ⟨⟨rfl, by simp [ha.frees], by simp [ha.opened, ha.closed]⟩, Or.inl ha.recv⟩⟩
    | ok =>
      obtain rfl := Option.some.inj hs
      exact ⟨hsafe, ⟨rfl, ha.frees, ha.opened, ha.closed⟩, ha.recv⟩
  case resolve ok =>
    obtain ⟨hi, rfl⟩ := hs
    simp only [Account, hi] at ha
    obtain ⟨hh, hr⟩ := ha
    rw [hh.touch]
    cases ok with
    | true => exact ⟨hsafe, ⟨hh.ctx, hh.frees, by simp [hh.opened], hh.closed⟩, hr⟩
    | false =>
      obtain ⟨hrel, huse⟩ := hh.giveUp
      exact ⟨huse.trans hsafe, Or.inr ⟨hrel, Or.inl hr⟩⟩
  case connect ok | connack ok =>
    subst ho
    obtain ⟨hi, rfl⟩ := hs
    simp only [Account, hi] at ha
    exact h.init ha.1 ha.2 (by simp)
  case subscribe ok =>
    obtain ⟨hi, rfl⟩ := hs
    simp only [Account, hi] at ha
    exact h.init ha.1 ha.2 (by cases ok <;> simp)
  case initDisconnect ok =>
    subst ho
    obtain ⟨hi, rfl⟩ := hs
    simp only [Account, hi] at ha
    obtain ⟨hrel, huse⟩ := ha.1.mqttClose
    exact ⟨huse.trans hsafe, Or.inr ⟨hrel.moved, Or.inl ha.2⟩⟩
  case startRecv ok =>
    obtain ⟨hi, rfl⟩ := hs
    simp only [Account, hi] at ha
    refine ⟨hsafe, Or.inl ⟨ha.1.moved, ?_⟩⟩
    cases ok <;> simp
  case startApp ok =>
    obtain ⟨hi, rfl⟩ := hs
    simp only [Account, hi] at ha
    cases ok with
    | true => exact ⟨hsafe, started_moved ha⟩
    | false =>
      -- the receive thread has ended before the publisher could be started
      have hfreed : s.ctx = .freed := by simpa [OrderlyStep] using ho
      rcases ha with ⟨hh, -⟩ | ⟨hr, he⟩
      · simp [hh.ctx] at hfreed
      · exact ⟨hsafe, Or.inr ⟨hr.moved, Or.inr he⟩⟩
  case message ok | ping ok =>
    obtain ⟨hr, rfl⟩ := hs
    exact h.recv (by simp [hr]) (by simp [hr]) (by cases ok <;> simp)
  case replied | timeout | waitError | unsubscribed =>
    obtain ⟨hr, rfl⟩ := hs
    exact h.recv (by simp [hr]) (by simp [hr]) (by simp)
  case recvDisconnect ok =>
    subst ho
    obtain ⟨hr, rfl⟩ := hs
    obtain ⟨hh, hi⟩ := h.running (by simp [hr]) (by simp [hr])
    obtain ⟨hrel, huse⟩ := hh.mqttClose
    exact ⟨huse.trans hsafe, account_started hi (Or.inr ⟨hrel.moved, rfl⟩)⟩
  case appPublish json =>
    obtain ⟨-, rfl⟩ := hs
    cases json with
    | true =>
      rw [if_pos rfl, Life.touch_eq (ho rfl)]
      exact h.publish .sending s.shell s.fault
    | false => exact h
  case appSent =>
    obtain ⟨-, rfl⟩ := hs
    rw [Life.touch_eq ho]
    exact h.publish .idle s.shell s.fault
  case shellPublish =>
    obtain ⟨-, rfl⟩ := hs
    split
    · rename_i hg
      rw [Life.touch_eq (ho hg)]
      exact h.publish s.app .sending s.fault
    · exact h.publish s.app s.shell true
  case shellSent =>
    obtain ⟨-, rfl⟩ := hs
    rw [Life.touch_eq ho]
    exact h.publish s.app .idle s.fault

/-- **Every other step breaks the property.** -/
theorem disorderly_step (s : Life) (x : LifeStep) (t : Life) (h : Inv s) (ho : ¬ OrderlyStep s x)
    (hs : s.step x = some t) : ¬ Upheld t := by
  have ha := h.account
  cases x <;> simp only [Life.step, Option.ite_none_right_eq_some, Option.some.injEq] at hs
  case cfgParse _ | ctxCreate _ | resolve _ | subscribe _ | startRecv _ | message _ | replied | timeout | waitError
      | ping _ | unsubscribed =>
    exact absurd trivial ho
  case connect ok | connack ok =>
    obtain rfl : ok = false := by simpa [OrderlyStep] using ho
    obtain ⟨hi, rfl⟩ := hs
    simp only [Account, hi] at ha
    obtain ⟨hh, -⟩ := ha
    -- the socket is left open
    intro hup
    have hclosed := (hup.released (Or.inr ⟨rfl, by simp [Life.giveUp, Life.ctxFree]⟩)).2.2
    simp [Life.giveUp, Life.ctxFree, Life.touch, hh.opened, hh.closed] at hclosed
  case initDisconnect ok =>
    obtain rfl : ok = false := by simpa [OrderlyStep] using ho
    obtain ⟨hi, rfl⟩ := hs
    simp only [Account, hi] at ha
    obtain ⟨hh, -⟩ := ha
    -- the early return of `mqtt_close` leaves the context
    intro hup
    have hfreed := (hup.released (Or.inr ⟨rfl, by simp [Life.mqttClose, Life.touch, hh.ctx]⟩)).1
    simp [Life.mqttClose, Life.touch, hh.ctx] at hfreed
  case recvDisconnect ok =>
    obtain rfl : ok = false := by simpa [OrderlyStep] using ho
    obtain ⟨hr, rfl⟩ := hs
    obtain ⟨hh, -⟩ := h.running (by simp [hr]) (by simp [hr])
    intro hup
    have hfreed := (hup.released (Or.inl rfl)).1
    simp [Life.mqttClose, Life.touch, hh.ctx] at hfreed
  case startApp ok =>
    simp only [OrderlyStep, not_or] at ho
    obtain rfl : ok = false := by simpa using ho.1
    obtain ⟨hi, rfl⟩ := hs
    simp only [Account, hi] at ha
    rcases ha with ⟨hh, -⟩ | ⟨hr, -⟩
    · intro hup
      have hfreed := (hup.released (Or.inr ⟨rfl, by simp [hh.ctx]⟩)).1
      simp [hh.ctx] at hfreed
    · exact absurd hr.ctx ho.2
  case appPublish json =>
    simp only [OrderlyStep, Classical.not_imp, not_not] at ho
    obtain ⟨rfl, hf⟩ := ho
    obtain ⟨-, rfl⟩ := hs
    intro hup
    simpa [Life.touch, hf] using hup.safe
  case shellPublish =>
    simp only [OrderlyStep, Classical.not_imp, not_not] at ho
    obtain ⟨hg, hf⟩ := ho
    obtain ⟨-, rfl⟩ := hs
    intro hup
    simpa [Life.touch, hf, hg] using hup.safe
  case appSent | shellSent =>
    simp only [OrderlyStep, not_not] at ho
    obtain ⟨-, rfl⟩ := hs
    intro hup
    simpa [Life.touch, ho] using hup.safe

/-- **The runs that use and release the context as they should** are exactly the orderly ones. -/
theorem lifecycle_upheld_iff (steps : List LifeStep) :
    Upholds Life.step Upheld Life.boot steps ↔ Orderly Life.step OrderlyStep Life.boot steps :=
  upholds_iff_orderly (fun _ => Inv.upheld) inv_step disorderly_step
    ⟨rfl, rfl, rfl, rfl, rfl, rfl⟩

/-- `mqtt_init` succeeds with both threads, then the link goes away. -/
def linkLost : List LifeStep :=
  [.cfgParse true, .ctxCreate .ok, .resolve true, .connect true, .connack true, .subscribe true, .startRecv true,
    .startApp true, .waitError, .unsubscribed]

/-- **The link goes away**: when the disconnect cannot be sent the context is never released, and when
it can, the publisher that wakes later uses the released context. -/
theorem link_lost_breaks_lifecycle :
    ¬ Upholds Life.step Upheld Life.boot (linkLost ++ [.recvDisconnect false]) ∧
      ¬ Upholds Life.step Upheld Life.boot (linkLost ++ [.recvDisconnect true, .appPublish true]) := by
  refine ⟨fun h => ?_, fun h => ?_⟩
  · have hup := h.exec (t := ⟨.live, true, 0, 1, 0, false, false, .ready, .ended, .idle, .idle⟩) (by decide)
    exact absurd (hup.released (Or.inl rfl)).1 (by decide)
  · have hup := h.exec (t := ⟨.freed, true, 1, 1, 1, true, false, .ready, .ended, .sending, .idle⟩) (by decide)
    exact absurd hup.safe (by decide)

end W601.Mqtt
