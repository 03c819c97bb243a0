import W601.Ulog.Servers

/-!
# The retry deadlines of the log backend

A node without a connection is tried again ten seconds after its deadline was set. Deadline and clock are
32-bit counters, and `ulog_tcp_handle_reconnect` compares their difference, taken modulo the width, with
half the range. The time behind the counter does not wrap around.

* `due_iff`: the comparison, in terms of the time that has passed.
* `backs_off`: in every run, no node is tried too early, and none is left out in time.
-/

namespace W601.UlogTcp

open Runs

/-- The difference of clock and deadline depends on the time that has passed since the deadline was set. -/
theorem tick_diff (tick0 : Tick) (t d r : ℕ) :
    tick0 + BitVec.ofNat 32 (t + d) - (tick0 + BitVec.ofNat 32 t + BitVec.ofNat 32 r) =
      BitVec.ofNat 32 d - BitVec.ofNat 32 r := by
  have hsum : BitVec.ofNat 32 (t + d) = BitVec.ofNat 32 t + BitVec.ofNat 32 d := BitVec.ofNat_add t d
  rw [hsum]
  generalize BitVec.ofNat 32 t = a
  generalize BitVec.ofNat 32 d = b
  generalize BitVec.ofNat 32 r = c
  bv_omega

/-- **Half the range behind the deadline**, and not before it. -/
theorem due_iff (tick0 : Tick) {t d : ℕ} (hd : d < retryTicks + (2 ^ 31 - 1)) :
    (tick0 + BitVec.ofNat 32 (t + d) - (tick0 + BitVec.ofNat 32 t + BitVec.ofNat 32 retryTicks)).toNat <
      rtTickMax / 2 ↔ retryTicks ≤ d := by
  have hr : retryTicks = 10000 := rfl
  have hmax : rtTickMax / 2 = 2 ^ 31 - 1 := by decide
  rw [tick_diff, BitVec.toNat_sub, BitVec.toNat_ofNat, BitVec.toNat_ofNat, hmax]
  rw [hr] at hd ⊢
  omega

/-- **Too early never, in time always**: what a pass does about a node that it finds without a connection,
whose deadline was last set at the time `t`. -/
structure Retried (v : Visit) (t : ℕ) : Prop where
  armed : v.node.armed = some t
  before : t ≤ v.time
  early : v.time - t < retryTicks → v.attempt = false
  due : retryTicks ≤ v.time - t → v.time - t < retryTicks + (2 ^ 31 - 1) → v.attempt = true

/-- Every node without a connection has a deadline, and a pass looks at each of them. -/
def BacksOff (tick0 : Tick) (m : Backend) (x : Ev) (t : Backend) : Prop :=
  (∀ n ∈ t.list, Armed tick0 n t.sys) ∧
    match x with
    | .iterate _ =>
      t.visits.map (·.node) = m.list.filter (·.socket ≤ 0) ∧ ∀ v ∈ t.visits, ∃ t0, Retried v t0
    | _ => True

/-- Nodes without a connection have a deadline behind every step. -/
theorem armed_step {tick0 : Tick} {m t : Backend} {x : Ev} (halloc : Alloc m)
    (h : ∀ n ∈ m.list, Armed tick0 n m.sys) (hs : step tick0 m x = some t) : ∀ n ∈ t.list, Armed tick0 n t.sys := by
  cases listStep halloc hs with
  | moved hm _ => exact hm.armed h
  | added n hlist _ _ hm ha =>
    intro k hk
    rw [hlist] at hk
    rcases List.mem_cons.1 hk with rfl | hk
    · exact ha
    · exact (h k hk).mono hm.time
  | deleted l n l' hold hlist _ hsys =>
    intro k hk
    have hmem : k ∈ m.list := by
      rw [hold]
      rw [hlist] at hk
      exact sublist_deleted.subset hk
    apply (h k hmem).mono
    rw [hsys, (closeSock_same n m.sys).2.2]

/-- **One pass.** -/
theorem retried_of_armed {tick0 : Tick} {v : Visit} {s : Sys} (h : Armed tick0 v.node s) (hsock : v.node.socket ≤ 0)
    (htime : s.time ≤ v.time)
    (hatt : v.attempt = decide ((tick0 + BitVec.ofNat 32 v.time - v.node.timeout).toNat < rtTickMax / 2)) :
    ∃ t, Retried v t := by
  obtain ⟨t, hle, harmed, hdl⟩ := h hsock
  -- the time since the deadline was set
  obtain ⟨d, hd⟩ := Nat.exists_eq_add_of_le (hle.trans htime)
  have hsub : v.time - t = d := by omega
  rw [hd, hdl] at hatt
  refine ⟨t, harmed, hle.trans htime, fun hearly => ?_, fun hdue hlt => ?_⟩
  · rw [hsub] at hearly
    rw [hatt]
    have hlt : d < retryTicks + (2 ^ 31 - 1) := Nat.lt_add_right _ hearly
    exact decide_eq_false fun hdue => absurd ((due_iff tick0 hlt).1 hdue) (not_le.2 hearly)
  · rw [hsub] at hdue hlt
    rw [hatt]
    exact decide_eq_true ((due_iff tick0 hlt).2 hdue)

theorem backsOff_step {tick0 : Tick} (m : Backend) (x : Ev) (t : Backend)
    (h : (∀ n ∈ m.list, Armed tick0 n m.sys) ∧ Alloc m) (hs : step tick0 m x = some t) :
    BacksOff tick0 m x t ∧ (∀ n ∈ t.list, Armed tick0 n t.sys) ∧ Alloc t := by
  have harmed := armed_step h.2 h.1 hs
  refine ⟨⟨harmed, ?_⟩, harmed, (listStep h.2 hs).alloc h.2⟩
  cases x with
  | add _ _ _ _ | delete _ _ | elapse _ => trivial
  | iterate o =>
    obtain ⟨-, -, hnodes, hvs⟩ := threadIter_moved hs
    refine ⟨hnodes, fun v hv => ?_⟩
    have hmem : v.node ∈ m.list.filter (·.socket ≤ 0) := by
      rw [← hnodes]
      exact List.mem_map_of_mem hv
    obtain ⟨hin, hsock⟩ := List.mem_filter.1 hmem
    obtain ⟨htime, hatt⟩ := hvs v hv
    exact retried_of_armed (h.1 _ hin) (by simpa using hsock) htime hatt

/-- **The back-off survives the wrap-around of the tick counter**, whatever it started at. -/
theorem backs_off (tick0 : Tick) (events : List Ev) :
    Along (step tick0) (BacksOff tick0) Backend.boot events :=
  along_of_inv backsOff_step ⟨by simp [Backend.boot], Alloc.boot⟩

end W601.UlogTcp
