import W601.Lib.Runs

/-!
# The WiFi status (`wifi_module.c`)

`wifi_start` registers two handlers and a semaphore, and takes one handler and the semaphore away again when it has waited
for an address. The handlers are called on the work thread of the WLAN management, which looks up the handler of an event
first and then runs it; automatic reconnection goes on raising events.

* `Follows`: the status is that of the last event, and the semaphore is used only while it is there.
* `status_follows_iff`: the runs in which it is.
-/

namespace W601.Wifi.Status

open Runs

/-- `RT_WLAN_EVT_READY` and `RT_WLAN_EVT_STA_DISCONNECTED`. -/
inductive Event where
  | ready
  | disconnected
deriving DecidableEq

/-- What `wifi_start` does next. -/
inductive Pc where
  | semInit
  | registerReady
  | registerDisconnected
  | connect
  | semTake
  | unregisterReady
  | semDetach
  | autoreconnect
  | returned
deriving DecidableEq

/-- What the work thread does next: wait for an event, run the handler of one, or release the semaphore in it. -/
inductive Work where
  | wait
  | run (e : Event)
  | release
deriving DecidableEq

/-- The state of the module, of the handlers and of what has come of them. -/
structure Station where
  pc : Pc
  /-- The entries of `event_tab`. -/
  readyHandler : Bool
  disconnectHandler : Bool
  /-- The value of `net_ready`, from its initialisation until it is detached. -/
  netReady : Option ℕ
  wifiReadyStatus : UInt8
  work : Work
  /-- The last event that has gone to its handler, or to none. -/
  last : Option Event
  /-- A handler has released the semaphore while it was not there. -/
  misused : Bool
deriving DecidableEq

/-- The device before `wifi_start`. -/
def Station.boot : Station := ⟨.semInit, false, false, none, 0, .wait, none, false⟩

/-- `wifi_ready_status_get`. -/
def wifiReadyStatusGet (s : Station) : UInt8 := s.wifiReadyStatus

/-- `rt_sem_release` of `net_ready`. -/
def semRelease (s : Station) : Station :=
  match s.netReady with
  | some n => { s with netReady := some (n + 1) }
  | none => { s with misused := true }

/-- The entry of an event in `event_tab`. -/
def Station.handler (s : Station) : Event → Bool
  | .ready => s.readyHandler
  | .disconnected => s.disconnectHandler

/-- `rt_wlan_mgnt_work`: the handler of the event is looked up. -/
def Station.dispatch (s : Station) (e : Event) : Option Station :=
  if s.work = .wait then some (if s.handler e then { s with work := .run e } else { s with last := some e })
  else none

/-- A step of `wlan_ready_handler` or of `wlan_station_disconnect_handler`. -/
def Station.handle (s : Station) : Option Station :=
  match s.work with
  | .wait => none
  | .run .ready => some { s with wifiReadyStatus := 1, last := some .ready, work := .release }
  | .run .disconnected => some { s with wifiReadyStatus := 0, last := some .disconnected, work := .wait }
  | .release => some { semRelease s with work := .wait }

/-- A step of `wifi_start`; the outcome is that of `rt_wlan_connect` and of `rt_sem_take`, which waits while there is
nothing to take. -/
def Station.start (s : Station) (ok : Bool) : Option Station :=
  match s.pc with
  | .semInit => some { s with netReady := some 0, pc := .registerReady }
  | .registerReady => some { s with readyHandler := true, pc := .registerDisconnected }
  | .registerDisconnected => some { s with disconnectHandler := true, pc := .connect }
  | .connect => some { s with pc := if ok then .semTake else .autoreconnect }
  | .semTake =>
    match s.netReady, ok with
    | some (n + 1), true => some { s with netReady := some n, pc := .unregisterReady }
    | some 0, false => some { s with pc := .unregisterReady }
    | _, _ => none
  | .unregisterReady => some { s with readyHandler := false, pc := .semDetach }
  | .semDetach => some { s with netReady := none, pc := .autoreconnect }
  | .autoreconnect => some { s with pc := .returned }
  | .returned => none

/-- A step of `wifi_start`, an event for the work thread, or a step of the handler it runs. -/
inductive Act where
  | start (ok : Bool)
  | event (e : Event)
  | handle

def Station.step (s : Station) : Act → Option Station
  | .start ok => s.start ok
  | .event e => s.dispatch e
  | .handle => s.handle

/-- `wifi_start` has registered its handlers. -/
def Pc.registered : Pc → Bool
  | .semInit | .registerReady | .registerDisconnected => false
  | _ => true

/-- The handler that runs comes to its end. -/
def Station.finish (s : Station) : Station := (s.handle.bind Station.handle).getD (s.handle.getD s)

/-- **The status follows the events** once the handlers are registered, and no handler uses the semaphore once it is
detached, the one that runs included. -/
structure Follows (s : Station) : Prop where
  status : s.pc.registered → (wifiReadyStatusGet s = 1 ↔ s.last = some .ready)
  netReady : s.finish.misused = false

/-- A step that goes well: the second handler is registered while the status is that of the last event, READY comes without
its handler only behind another one, and the semaphore is detached while no handler is going to release it. -/
def InTime (s : Station) : Act → Prop
  | .start _ =>
    match s.pc with
    | .registerDisconnected => s.wifiReadyStatus = 1 ↔ s.last = some .ready
    | .semDetach => s.work ≠ .run .ready ∧ s.work ≠ .release
    | _ => True
  | .event .ready => s.pc.registered → s.readyHandler = false → s.last = some .ready
  | _ => True

/-- What holds as long as all goes well. -/
structure Inv (s : Station) : Prop where
  status : s.pc.registered → (s.wifiReadyStatus = 1 ↔ s.last = some .ready)
  clean : s.misused = false
  disconnect : s.pc.registered → s.disconnectHandler = true
  started : s.pc = .registerReady → s.netReady ≠ none
  stopped : s.pc = .semDetach → s.readyHandler = false
  handler : s.readyHandler = true → s.netReady ≠ none
  running : s.work = .run .ready ∨ s.work = .release → s.netReady ≠ none

section Steps

variable {s t : Station}

/-- A handler that runs to its end uses the semaphore exactly when it is that of READY. -/
theorem finish_misused (hclean : s.misused = false) :
    s.finish.misused = false ↔ (s.work = .run .ready ∨ s.work = .release → s.netReady ≠ none) := by
  cases hw : s.work with
  | wait => simp [Station.finish, Station.handle, hw, hclean]
  | run e =>
    cases e with
    | ready => cases hn : s.netReady <;> simp [Station.finish, Station.handle, semRelease, hw, hn, hclean]
    | disconnected => simp [Station.finish, Station.handle, hw, hclean]
  | release => cases hn : s.netReady <;> simp [Station.finish, Station.handle, semRelease, hw, hn, hclean]

theorem Inv.follows (h : Inv s) : Follows s := ⟨h.status, (finish_misused h.clean).2 h.running⟩

theorem inv_boot : Inv .boot :=
  ⟨by decide, rfl, by decide, by decide, by decide, by decide, by decide⟩

/-- An event that goes to its handler or to none. -/
theorem dispatch_eq_some {e : Event} : s.dispatch e = some t ↔
    s.work = .wait ∧ (if s.handler e then { s with work := .run e } else { s with last := some e }) = t := by
  rw [Station.dispatch, Option.ite_none_right_eq_some, Option.some.injEq]

theorem inv_event (h : Inv s) {e : Event} (ht : s.step (.event e) = some t) (hgood : InTime s (.event e)) : Inv t := by
  obtain ⟨hwait, rfl⟩ := dispatch_eq_some.1 ht
  split_ifs with hhandler
  · refine ⟨h.status, h.clean, h.disconnect, h.started, h.stopped, h.handler, fun hrun => ?_⟩
    cases e with
    | ready => exact h.handler hhandler
    | disconnected => exact absurd hrun (by simp)
  · refine ⟨fun hreg => ?_, h.clean, h.disconnect, h.started, h.stopped, h.handler, h.running⟩
    cases e with
    | ready =>
      have hlast := hgood hreg (by simpa [Station.handler] using hhandler)
      exact iff_of_true ((h.status hreg).2 hlast) rfl
    | disconnected => exact absurd (h.disconnect hreg) hhandler

theorem inv_handle (h : Inv s) (ht : s.step .handle = some t) : Inv t := by
  simp only [Station.step, Station.handle] at ht
  split at ht
  · cases ht
  · next hw =>
    obtain rfl := Option.some.inj ht
    exact ⟨fun _ => iff_of_true rfl rfl, h.clean, h.disconnect, h.started, h.stopped, h.handler,
      fun _ => h.running (Or.inl hw)⟩
  · obtain rfl := Option.some.inj ht
    exact ⟨fun _ => iff_of_false (by simp) (by simp), h.clean, h.disconnect, h.started, h.stopped, h.handler,
      fun hrun => by simp at hrun⟩
  · next hw =>
    obtain rfl := Option.some.inj ht
    obtain ⟨n, hn⟩ := Option.ne_none_iff_exists'.1 (h.running (Or.inr hw))
    simp only [semRelease, hn]
    exact ⟨h.status, h.clean, h.disconnect, fun _ => nofun, h.stopped, fun _ => nofun, fun _ => nofun⟩

/-- Behind the registration `wifi_start` goes on, and nothing but its place changes. -/
theorem Inv.goesOn (h : Inv s) {p q : Pc} (hpc : s.pc = p) (hreg : p.registered) (hstart : q ≠ .registerReady)
    (hstop : q ≠ .semDetach) : Inv { s with pc := q } := by
  have hs : s.pc.registered := by rw [hpc]; exact hreg
  exact ⟨fun _ => h.status hs, h.clean, fun _ => h.disconnect hs, fun hq => absurd hq hstart,
    fun hq => absurd hq hstop, h.handler, h.running⟩

/-- **A step of `wifi_start`.** -/
theorem inv_start (h : Inv s) {ok : Bool} (ht : s.step (.start ok) = some t) (hgood : InTime s (.start ok)) : Inv t := by
  simp only [Station.step, Station.start] at ht
  split at ht
  · next hpc =>
    obtain rfl := Option.some.inj ht
    exact ⟨by simp [Pc.registered], h.clean, by simp [Pc.registered], fun _ => nofun, nofun, fun _ => nofun, fun _ => nofun⟩
  · next hpc =>
    obtain rfl := Option.some.inj ht
    exact ⟨by simp [Pc.registered], h.clean, by simp [Pc.registered], nofun, nofun, fun _ => h.started hpc, h.running⟩
  · next hpc =>
    obtain rfl := Option.some.inj ht
    rw [InTime, hpc] at hgood
    exact ⟨fun _ => hgood, h.clean, fun _ => rfl, nofun, nofun, h.handler, h.running⟩
  · next hpc =>
    obtain rfl := Option.some.inj ht
    cases ok
    · exact h.goesOn hpc rfl nofun nofun
    · exact h.goesOn hpc rfl nofun nofun
  · next hpc =>
    split at ht
    · obtain rfl := Option.some.inj ht
      have hreg : s.pc.registered := by rw [hpc]; rfl
      exact ⟨fun _ => h.status hreg, h.clean, fun _ => h.disconnect hreg, nofun, nofun, fun _ => nofun, fun _ => nofun⟩
    · obtain rfl := Option.some.inj ht
      exact h.goesOn hpc rfl nofun nofun
    · cases ht
  · next hpc =>
    obtain rfl := Option.some.inj ht
    have hreg : s.pc.registered := by rw [hpc]; rfl
    exact ⟨fun _ => h.status hreg, h.clean, fun _ => h.disconnect hreg, nofun, fun _ => rfl, nofun, h.running⟩
  · next hpc =>
    obtain rfl := Option.some.inj ht
    have hreg : s.pc.registered := by rw [hpc]; rfl
    rw [InTime, hpc] at hgood
    have hready := h.stopped hpc
    exact ⟨fun _ => h.status hreg, h.clean, fun _ => h.disconnect hreg, nofun, nofun,
      fun hr => absurd (hready.symm.trans hr) (by decide), fun hrun => absurd hrun (not_or.2 hgood)⟩
  · next hpc =>
    obtain rfl := Option.some.inj ht
    exact h.goesOn hpc rfl nofun nofun
  · cases ht

/-- **A step that does not go well** is seen at once, or when the handler that runs has come to its end. -/
theorem not_follows (h : Inv s) {act : Act} (ht : s.step act = some t) (hbad : ¬ InTime s act) : ¬ Follows t := by
  intro hfollows
  cases act with
  | start ok =>
    simp only [InTime] at hbad
    split at hbad
    · next hpc =>
      simp only [Station.step, Station.start, hpc, Option.some.injEq] at ht
      subst ht
      exact hbad (hfollows.status rfl)
    · next hpc =>
      simp only [Station.step, Station.start, hpc, Option.some.injEq] at ht
      subst ht
      have hrun : s.work = .run .ready ∨ s.work = .release := by
        by_contra hnone
        exact hbad (not_or.1 hnone)
      exact (finish_misused (s := { s with netReady := none, pc := .autoreconnect }) h.clean).1 hfollows.netReady hrun rfl
    · exact hbad trivial
  | event e =>
    cases e with
    | ready =>
      simp only [InTime, Classical.not_imp] at hbad
      obtain ⟨hreg, hhandler, hlast⟩ := hbad
      obtain ⟨-, rfl⟩ := dispatch_eq_some.1 ht
      rw [Station.handler, hhandler, if_neg Bool.false_ne_true] at hfollows
      exact hlast ((h.status hreg).1 ((hfollows.status hreg).2 rfl))
    | disconnected => exact hbad trivial
  | handle => exact hbad trivial

end Steps

/-- **The status follows the events**, and the semaphore is there whenever it is used, in the runs whose steps go well and
in no others. -/
theorem status_follows_iff (acts : List Act) :
    Upholds Station.step Follows .boot acts ↔ Orderly Station.step InTime .boot acts := by
  apply upholds_iff_orderly (I := Inv)
  · exact fun s h => h.follows
  · intro s act t h hgood ht
    cases act with
    | start ok => exact inv_start h ht hgood
    | event e => exact inv_event h ht hgood
    | handle => exact inv_handle h ht
  · exact fun s act t h hbad ht => not_follows h ht hbad
  · exact inv_boot

/-- The station connects, gets its address, loses the connection and gets it back. -/
def reconnection : List Act :=
  [.start true, .start true, .start true, .start true, .event .ready, .handle, .handle, .start true, .start true,
    .start true, .start true, .event .disconnected, .handle, .event .ready]

/-- Behind a reconnection the status stays 0. -/
theorem reconnection_missed : ¬ Upholds Station.step Follows .boot reconnection := by
  intro h
  have hend : exec Station.step .boot reconnection =
      some ⟨.returned, false, true, none, 0, .wait, some .ready, false⟩ := by decide
  exact absurd (h.exec hend).status (by decide)

end W601.Wifi.Status
