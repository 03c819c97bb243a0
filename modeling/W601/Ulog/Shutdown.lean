import W601.Ulog.Servers

/-!
# Shutting the log backend down

`_ulog_tcp_deinit` sets a flag. `ulog_tcp_thread` tests it between its iterations, and then frees the list
without the mutex, takes and releases the mutex once and drops it. Calls of `ulog_tcp_add_server` and
`ulog_tcp_delete_server` test the flag before they take the mutex, and look at the list node by node.

* `World.step`: the steps of all parties, one access to the list at a time.
* `clean_of_orderly`: the shutdown is clean when no call is in its critical section, or enters it, from the
  time on at which the thread looks at the list to free it.
* `shutdown_races`: it is not clean otherwise.
-/

namespace W601.UlogTcp

open Runs

/-- A call of the backend. -/
inductive Req
  | add (ip : Ip) (port : UInt16)
  | delete (ip : Ip) (port : UInt16)
  deriving DecidableEq

def Req.key : Req → Ip × UInt16
  | .add ip port => (ip, port)
  | .delete ip port => (ip, port)

/-- Where a call stands. -/
inductive CallPc
  | idle
  /-- the flag was not set -/
  | tested (r : Req)
  /-- with the mutex, at a node of the list, behind so many others -/
  | walk (r : Req) (cursor : Option ℕ) (cnt : ℕ)
  /-- the node is in the list, and to be connected -/
  | connecting (id : ℕ)
  /-- about to release the mutex -/
  | leaving
  | done
  deriving DecidableEq

/-- Where the thread stands. -/
inductive ThreadPc
  | off
  /-- at the test of the flag -/
  | loop
  /-- about to take the mutex for an iteration -/
  | wait
  | locked
  /-- behind `shutdown:` -/
  | shutdown
  /-- in `ulog_tcp_close_all_connection`, at a node -/
  | freeing (id : ℕ)
  /-- about to take the mutex once more -/
  | lastTake
  | lastHeld
  | dropping
  | ended
  deriving DecidableEq

/-- Who may hold the mutex. -/
inductive Party
  | call (c : ℕ)
  | thread
  deriving DecidableEq

structure World where
  sys : Sys
  list : List Node
  nextId : ℕ
  /-- `ulog_tcp_shutdown`. -/
  flag : Bool
  /-- `ulog_tcp_mutex` is null. -/
  dropped : Bool
  holder : Option Party
  thread : ThreadPc
  calls : ℕ → CallPc
  /-- A freed node was touched. -/
  useAfterFree : Bool
  /-- The mutex was taken when it was null. -/
  lateTake : Bool

/-- The backend is registered, its thread created. -/
def World.boot : World := ⟨⟨0, [], false⟩, [], 0, false, false, none, .off, fun _ => .idle, false, false⟩

/-- The `next` of a node of the list; `none` when the node is not in it, and so has been freed. -/
def nextOf (id : ℕ) : List Node → Option (Option ℕ)
  | [] => none
  | n :: l => if n.id = id then some (l.head?.map (·.id)) else nextOf id l

/-- The head of the list. -/
def World.head (s : World) : Option ℕ := s.list.head?.map (·.id)

/-- A call goes on. -/
def World.set (s : World) (c : ℕ) (pc : CallPc) : World := { s with calls := Function.update s.calls c pc }

/-- `ulog_tcp_close_one_connection` with `del` true. -/
def World.closeOneConnectionDel (s : World) (n : Node) : World :=
  { s with list := s.list.eraseP (·.id = n.id), sys := (closeSock n s.sys).2 }

/-- Behind the test of the flag a call takes the mutex, as soon as nobody holds it. -/
def World.take (s : World) (c : ℕ) (r : Req) : Option World :=
  if s.dropped then some { s.set c .done with lateTake := true }
  else if s.holder = none then some { s.set c (.walk r s.head 0) with holder := some (.call c) }
  else none

/-- A call looks at one node of the list. -/
def World.look (s : World) (c : ℕ) (r : Req) (id cnt : ℕ) : World :=
  match s.list.find? (·.id = id), nextOf id s.list with
  | some n, some next =>
    if n.key = r.key then
      match r with
      | .add _ _ => s.set c .leaving
      | .delete _ _ => (s.closeOneConnectionDel n).set c .leaving
    else s.set c (.walk r next (cnt + 1))
  | _, _ => { s.set c .leaving with useAfterFree := true }

/-- A call is behind the last node of the list. -/
def World.last (s : World) (c : ℕ) (r : Req) (cnt : ℕ) (mem : Bool) : World :=
  match r with
  | .add ip port =>
    if cnt > maxServerCount then s.set c .leaving
    else if !mem then s.set c .leaving
    else
      { s with list := ⟨s.nextId, 0, ip, port, 0, none⟩ :: s.list, nextId := s.nextId + 1 }.set c (.connecting s.nextId)
  | .delete _ _ => s.set c .leaving

/-- The steps of all parties. -/
inductive Act
  | call (c : ℕ) (r : Req)
  | take (c : ℕ)
  /-- the mutex was not to be had in time -/
  | timeout (c : ℕ)
  | walk (c : ℕ) (mem : Bool)
  | connect (c : ℕ) (o : ConnectOut)
  | release (c : ℕ)
  | deinit
  | start
  | test
  | lock
  | iterate (o : IterOut)
  | look
  | free
  | lastTake
  | lastRelease
  | drop

variable (tick0 : Tick)

/-- `ulog_tcp_connect` on a node of the list. -/
def World.connect (s : World) (c id : ℕ) (o : ConnectOut) : Option World :=
  match s.list.find? (·.id = id) with
  | none => some { s.set c .leaving with useAfterFree := true }
  | some n =>
    (UlogTcp.connect tick0 o n s.sys).map fun r =>
      { s with list := s.list.map fun k : Node => if k.id = id then r.1 else k, sys := r.2 }.set c .leaving

/-- One iteration under the mutex, and its release. -/
def World.iterate (s : World) (o : IterOut) : Option World :=
  (threadIter tick0 o ⟨s.sys, s.list, s.nextId, 0, []⟩).map fun m =>
    { s with sys := m.sys, list := m.list, holder := none, thread := .loop }

/-- One round of `ulog_tcp_close_all_connection` with `del` true. -/
def World.free (s : World) (id : ℕ) : World :=
  match s.list.find? (·.id = id), nextOf id s.list with
  | some n, some next =>
    { s.closeOneConnectionDel n with thread := match next with | none => .lastTake | some k => .freeing k }
  | _, _ => { s with useAfterFree := true, thread := .lastTake }

def World.step (s : World) : Act → Option World
  | .call c r => if s.calls c = .idle then some (s.set c (if s.flag then .done else .tested r)) else none
  | .take c =>
    match s.calls c with
    | .tested r => s.take c r
    | _ => none
  | .timeout c =>
    match s.calls c with
    | .tested _ => if !s.dropped && s.holder.isSome then some (s.set c .done) else none
    | _ => none
  | .walk c mem =>
    match s.calls c with
    | .walk r (some id) cnt => some (s.look c r id cnt)
    | .walk r none cnt => some (s.last c r cnt mem)
    | _ => none
  | .connect c o =>
    match s.calls c with
    | .connecting id => s.connect tick0 c id o
    | _ => none
  | .release c => if s.calls c = .leaving then some { s.set c .done with holder := none } else none
  | .deinit => some { s with flag := true }
  -- the thread clears the flag, whoever has set it before
  | .start => if s.thread = .off then some { s with flag := false, thread := .loop } else none
  | .test => if s.thread = .loop then some { s with thread := if s.flag then .shutdown else .wait } else none
  | .lock =>
    if s.thread = .wait ∧ s.holder = none then some { s with holder := some .thread, thread := .locked } else none
  | .iterate o => if s.thread = .locked then s.iterate tick0 o else none
  -- no mutex is taken to look at the list and to free it
  | .look =>
    if s.thread = .shutdown then
      some { s with thread := match s.head with | none => .lastTake | some id => .freeing id }
    else none
  | .free =>
    match s.thread with
    | .freeing id => some (s.free id)
    | _ => none
  | .lastTake =>
    if s.thread = .lastTake ∧ s.holder = none then some { s with holder := some .thread, thread := .lastHeld } else none
  | .lastRelease => if s.thread = .lastHeld then some { s with holder := none, thread := .dropping } else none
  | .drop => if s.thread = .dropping then some { s with dropped := true, thread := .ended } else none

/-- A call has completed, or was not made. -/
def CallPc.over : CallPc → Prop
  | .idle | .done => True
  | _ => False

/-- **A clean shutdown**: no freed node is touched, the mutex is not taken when it is gone, and in the end list
and sockets are gone too. -/
structure Clean (s : World) : Prop where
  live : s.useAfterFree = false
  inTime : s.lateTake = false
  gone : s.thread = .ended → (∀ c, (s.calls c).over) → s.list = [] ∧ s.sys.sockets = []

/-- The thread has looked at the list to free it. -/
def ThreadPc.looked : ThreadPc → Bool
  | .off | .loop | .wait | .locked | .shutdown => false
  | _ => true

/-- The thread looks at the list to free it when no call is in its critical section, and no call takes the mutex
after that. -/
def Undisturbed (s : World) : Act → Prop
  | .look => s.holder = none
  | .take _ => s.thread.looked = false
  | _ => True

/-! ## What holds in between -/

/-- The call holds the mutex. -/
def CallPc.critical : CallPc → Bool
  | .walk _ _ _ | .connecting _ | .leaving => true
  | _ => false

/-- The node that the call is about to touch. -/
def CallPc.pointer : CallPc → Option ℕ
  | .walk _ cursor _ => cursor
  | .connecting id => some id
  | _ => none

/-- The list and its memory. -/
def World.backend (s : World) : Backend := ⟨s.sys, s.list, s.nextId, 0, []⟩

/-- The nodes are different allocations, and their sockets are the open ones. -/
structure Stored (s : World) : Prop where
  alloc : Alloc s.backend
  owned : Owned (fdsOf s.list) s.sys

/-- What the thread has and has done, by where it stands. -/
def Phase (s : World) : Prop :=
  match s.thread with
  | .off | .loop | .wait | .shutdown => s.dropped = false ∧ s.holder ≠ some .thread
  | .locked => s.dropped = false ∧ s.holder = some .thread
  | .freeing id => s.dropped = false ∧ s.holder = none ∧ s.head = some id
  | .lastTake | .dropping => s.dropped = false ∧ s.holder = none ∧ s.list = []
  | .lastHeld => s.dropped = false ∧ s.holder = some .thread ∧ s.list = []
  | .ended => s.holder = none ∧ s.list = []

structure Sound (s : World) : Prop where
  stored : Stored s
  live : s.useAfterFree = false
  inTime : s.lateTake = false
  held : ∀ c, (s.calls c).critical = true → s.holder = some (.call c)
  valid : ∀ c id, (s.calls c).pointer = some id → id ∈ s.list.map (·.id)
  phase : Phase s

variable {tick0}

theorem CallPc.pointer_critical {pc : CallPc} {id : ℕ} (h : pc.pointer = some id) : pc.critical = true := by
  cases pc <;> simp_all [CallPc.pointer, CallPc.critical]

theorem Sound.clean {s : World} (h : Sound s) : Clean s := by
  refine ⟨h.live, h.inTime, fun hend _ => ?_⟩
  have hphase := h.phase
  simp only [Phase, hend] at hphase
  have hperm := h.stored.owned.perm
  rw [hphase.2] at hperm
  exact ⟨hphase.2, List.nil_perm.1 hperm⟩

/-- While a call is in its critical section, the thread is outside of its own. -/
theorem Sound.apart {s : World} (h : Sound s) {c : ℕ} (hc : (s.calls c).critical = true) :
    s.dropped = false ∧ (s.thread = .off ∨ s.thread = .loop ∨ s.thread = .wait ∨ s.thread = .shutdown) := by
  have hheld := h.held c hc
  have hphase := h.phase
  cases ht : s.thread <;> simp only [Phase, ht, hheld] at hphase <;> simp_all

/-- **A step of a call in its critical section**: the others are not in theirs. -/
theorem Sound.call_step {s t : World} (h : Sound s) {c : ℕ} {pc : CallPc} (hc : (s.calls c).critical = true)
    (hstored : Stored t) (hcalls : t.calls = Function.update s.calls c pc)
    (hpc : ∀ id, pc.pointer = some id → id ∈ t.list.map (·.id)) (hholder : t.holder = s.holder)
    (hthread : t.thread = s.thread) (hdropped : t.dropped = s.dropped) (hlive : t.useAfterFree = s.useAfterFree)
    (htime : t.lateTake = s.lateTake) : Sound t := by
  have hheld := h.held c hc
  obtain ⟨hdrop, hthr⟩ := h.apart hc
  have hother : ∀ c', c' ≠ c → (s.calls c').critical = false := by
    intro c' hne
    by_contra hcrit
    have hc' := h.held c' (by simpa using hcrit)
    rw [hheld] at hc'
    simp only [Option.some.injEq, Party.call.injEq] at hc'
    exact hne hc'.symm
  refine ⟨hstored, hlive.trans h.live, htime.trans h.inTime, fun c' hcrit => ?_, fun c' id hptr => ?_, ?_⟩
  · rw [hcalls] at hcrit
    by_cases hcc : c' = c
    · rw [hholder, hheld, hcc]
    · rw [Function.update_of_ne hcc, hother c' hcc] at hcrit
      simp at hcrit
  · rw [hcalls] at hptr
    by_cases hcc : c' = c
    · rw [hcc, Function.update_self] at hptr
      exact hpc id hptr
    · rw [Function.update_of_ne hcc] at hptr
      have hcrit := CallPc.pointer_critical hptr
      rw [hother c' hcc] at hcrit
      simp at hcrit
  · have hne : t.holder ≠ some .thread := by
      rw [hholder, hheld]
      simp
    have hdrop' : t.dropped = false := hdropped.trans hdrop
    rw [← hthread] at hthr
    rcases hthr with ht | ht | ht | ht <;> simp only [Phase, ht] <;> exact ⟨hdrop', hne⟩

/-- The list and the sockets are the same wherever the parties stand. -/
theorem Stored.elsewhere {s : World} (h : Stored s) {flag dropped useAfterFree lateTake : Bool} {holder : Option Party}
    {thread : ThreadPc} {calls : ℕ → CallPc} :
    Stored { s with
      flag := flag, dropped := dropped, holder := holder, thread := thread, calls := calls,
      useAfterFree := useAfterFree, lateTake := lateTake } :=
  ⟨h.alloc, h.owned⟩

/-- **A step of the thread while no call holds the mutex.** -/
theorem Sound.thread_step {s t : World} (h : Sound s) (hfree : ∀ c, s.holder ≠ some (.call c)) (hstored : Stored t)
    (hcalls : t.calls = s.calls) (hlive : t.useAfterFree = s.useAfterFree) (htime : t.lateTake = s.lateTake)
    (hphase : Phase t) : Sound t := by
  have hnone : ∀ c, (t.calls c).critical = false := by
    intro c
    by_contra hcrit
    rw [hcalls] at hcrit
    exact hfree c (h.held c (by simpa using hcrit))
  refine ⟨hstored, hlive.trans h.live, htime.trans h.inTime, fun c hcrit => ?_, fun c id hptr => ?_, hphase⟩
  · rw [hnone c] at hcrit
    simp at hcrit
  · have hcrit := CallPc.pointer_critical hptr
    rw [hnone c] at hcrit
    simp at hcrit

theorem World.set_calls (s : World) (c : ℕ) (pc : CallPc) : (s.set c pc).calls = Function.update s.calls c pc := rfl

/-- A call outside of its critical section. -/
theorem Sound.set {s : World} (h : Sound s) (c : ℕ) {pc : CallPc} (hpc : pc.critical = false) :
    Sound (s.set c pc) := by
  refine ⟨h.stored.elsewhere, h.live, h.inTime, fun c' hcrit => ?_, fun c' id hptr => ?_, h.phase⟩
  · by_cases hcc : c' = c
    · rw [hcc, World.set_calls, Function.update_self, hpc] at hcrit
      simp at hcrit
    · rw [World.set_calls, Function.update_of_ne hcc] at hcrit
      exact h.held c' hcrit
  · by_cases hcc : c' = c
    · rw [hcc, World.set_calls, Function.update_self] at hptr
      have hcrit := CallPc.pointer_critical hptr
      rw [hpc] at hcrit
      simp at hcrit
    · rw [World.set_calls, Function.update_of_ne hcc] at hptr
      exact h.valid c' id hptr

/-- A node of the list is found, and its link leads to a node of the list. -/
theorem find_next {id : ℕ} {l : List Node} (h : id ∈ l.map (·.id)) :
    ∃ n next, l.find? (·.id = id) = some n ∧ nextOf id l = some next ∧ n.id = id ∧ n ∈ l ∧
      ∀ k, next = some k → k ∈ l.map (·.id) := by
  induction l with
  | nil => simp at h
  | cons m l ih =>
    by_cases hm : m.id = id
    · refine ⟨m, l.head?.map (·.id), by simp [hm], by simp [nextOf, hm], hm, List.mem_cons_self, fun k hk => ?_⟩
      obtain ⟨n, hn, rfl⟩ := Option.map_eq_some_iff.1 hk
      exact List.mem_map_of_mem (List.mem_cons_of_mem _ (List.mem_of_mem_head? hn))
    · have hl : id ∈ l.map (·.id) := by
        rcases List.mem_cons.1 h with he | hl
        · exact absurd he.symm hm
        · exact hl
      obtain ⟨n, next, hf, hn, hid, hmem, hnext⟩ := ih hl
      refine ⟨n, next, by simp [hm, hf], by simp [nextOf, hm, hn], hid, List.mem_cons_of_mem _ hmem, fun k hk => ?_⟩
      exact List.mem_cons_of_mem _ (hnext k hk)

/-- A node of the list is taken out, closed and freed. -/
theorem Stored.deleted {s : World} (h : Stored s) {n : Node} (hn : n ∈ s.list) :
    Stored (s.closeOneConnectionDel n) := by
  obtain ⟨l, l', hl⟩ := List.append_of_mem hn
  have hnodup := h.alloc.nodup
  have hlist : s.backend.list = l ++ n :: l' := hl
  rw [hlist] at hnodup
  have herase : (s.closeOneConnectionDel n).backend.list = l ++ l' := by
    show s.list.eraseP (·.id = n.id) = l ++ l'
    rw [hl, eraseP_id hnodup]
  have hstep : ListStep 0 s.backend (s.closeOneConnectionDel n).backend := .deleted l n l' hl herase rfl rfl
  exact ⟨hstep.alloc h.alloc, hstep.owned h.owned⟩

/-- A node of the list is moved. -/
theorem movedAll_one {n n' : Node} {s s' : Sys} (hm : Moved tick0 n s n' s') : ∀ {l : List Node},
    (l.map (·.id)).Nodup → n ∈ l → MovedAll tick0 l s (l.map fun k => if k.id = n.id then n' else k) s' := by
  -- behind the node the others stay as they are
  have hrest : ∀ {l : List Node}, n.id ∉ l.map (·.id) → l.map (fun k => if k.id = n.id then n' else k) = l := by
    intro l hnot
    refine (List.map_congr_left fun k hk => ?_).trans (List.map_id l)
    have hne : k.id ≠ n.id := by
      intro he
      rw [← he] at hnot
      exact hnot (List.mem_map_of_mem hk)
    rw [if_neg hne, id]
  intro l
  induction l with
  | nil => intro _ hn; simp at hn
  | cons m l ih =>
    intro hnodup hn
    obtain ⟨hnot, hl⟩ := List.nodup_cons.1 hnodup
    rw [List.map_cons]
    by_cases hmn : m.id = n.id
    · have heq : n = m := by
        rcases List.mem_cons.1 hn with he | hmem
        · exact he
        · have hm' : m.id ∈ l.map (·.id) := by
            rw [hmn]
            exact List.mem_map_of_mem hmem
          exact absurd hm' hnot
      subst heq
      rw [if_pos rfl, hrest hnot]
      exact MovedAll.cons hm (MovedAll.refl tick0 l s')
    · have hmem : n ∈ l := by
        rcases List.mem_cons.1 hn with he | hmem
        · exact absurd (he ▸ rfl) hmn
        · exact hmem
      rw [if_neg hmn]
      exact MovedAll.cons (Moved.refl tick0 m s) (ih hl hmem)

section Calls

variable {s : World} (h : Sound s) {c : ℕ}
include h

/-- **A call looks at a node**, which is there. -/
theorem Sound.look {r : Req} {id cnt : ℕ} (hpc : s.calls c = .walk r (some id) cnt) : Sound (s.look c r id cnt) := by
  have hc : (s.calls c).critical = true := by rw [hpc]; rfl
  obtain ⟨n, next, hf, hn, -, hmem, hnext⟩ := find_next (h.valid c id (by rw [hpc]; rfl))
  unfold World.look
  simp only [hf, hn]
  split_ifs
  · cases r with
    | add ip port =>
      exact h.call_step hc h.stored.elsewhere rfl (fun _ hp => by simp [CallPc.pointer] at hp)
        rfl rfl rfl rfl rfl
    | delete ip port =>
      have hdel := h.stored.deleted hmem
      exact h.call_step hc ⟨hdel.alloc, hdel.owned⟩ rfl (fun _ hp => by simp [CallPc.pointer] at hp) rfl rfl rfl rfl rfl
  · exact h.call_step hc h.stored.elsewhere rfl (fun k hk => hnext k hk) rfl rfl rfl rfl rfl

/-- **A call is through with the list.** -/
theorem Sound.last {r : Req} {cnt : ℕ} (mem : Bool) (hpc : s.calls c = .walk r none cnt) :
    Sound (s.last c r cnt mem) := by
  have hc : (s.calls c).critical = true := by rw [hpc]; rfl
  have hleave : Sound (s.set c .leaving) :=
    h.call_step hc h.stored.elsewhere rfl (fun _ hp => by simp [CallPc.pointer] at hp) rfl rfl rfl rfl rfl
  unfold World.last
  cases r with
  | delete ip port => exact hleave
  | add ip port =>
    simp only
    split_ifs
    · exact hleave
    · exact hleave
    · refine h.call_step hc ⟨?_, ?_⟩ rfl (fun k hk => ?_) rfl rfl rfl rfl rfl
      · exact h.stored.alloc.cons rfl rfl rfl
      · -- the new node has no socket yet
        exact h.stored.owned
      · obtain rfl : s.nextId = k := Option.some.inj hk
        exact List.mem_cons_self

/-- **The new node is connected**, and is still in the list. -/
theorem Sound.connect {id : ℕ} {o : ConnectOut} {t : World} (hpc : s.calls c = .connecting id)
    (hs : s.connect tick0 c id o = some t) : Sound t := by
  have hc : (s.calls c).critical = true := by rw [hpc]; rfl
  obtain ⟨n, next, hf, -, hid, hmem, -⟩ := find_next (h.valid c id (by rw [hpc]; rfl))
  unfold World.connect at hs
  simp only [hf] at hs
  obtain ⟨⟨n', s'⟩, hcon, rfl⟩ := Option.map_eq_some_iff.1 hs
  subst hid
  have hm := movedAll_one (connect_moved hcon).1 h.stored.alloc.nodup hmem
  refine h.call_step hc ⟨?_, hm.owned [] h.stored.owned⟩ rfl (fun _ hp => by simp [CallPc.pointer] at hp)
    rfl rfl rfl rfl rfl
  exact h.stored.alloc.moved hm rfl

/-- A call takes the mutex. -/
theorem Sound.take {r : Req} {t : World} (hlook : s.thread.looked = false) (hs : s.take c r = some t) : Sound t := by
  have hphase := h.phase
  have hdropped : s.dropped = false := by
    cases ht : s.thread <;> simp only [Phase, ht] at hphase <;> simp_all [ThreadPc.looked]
  unfold World.take at hs
  rw [if_neg (by simp [hdropped])] at hs
  split_ifs at hs with hfree
  obtain rfl := Option.some.inj hs
  have hnone : ∀ c', (s.calls c').critical = false := by
    intro c'
    by_contra hcrit
    have hc' := h.held c' (by simpa using hcrit)
    rw [hfree] at hc'
    simp at hc'
  refine ⟨h.stored.elsewhere, h.live, h.inTime, fun c' hcrit => ?_, fun c' id hptr => ?_, ?_⟩
  · by_cases hcc : c' = c
    · rw [hcc]
    · have hcrit' : (Function.update s.calls c (.walk r s.head 0) c').critical = true := hcrit
      rw [Function.update_of_ne hcc, hnone c'] at hcrit'
      simp at hcrit'
  · have hptr' : (Function.update s.calls c (.walk r s.head 0) c').pointer = some id := hptr
    by_cases hcc : c' = c
    · rw [hcc, Function.update_self] at hptr'
      obtain ⟨n, hn, rfl⟩ := Option.map_eq_some_iff.1 hptr'
      exact List.mem_map_of_mem (List.mem_of_mem_head? hn)
    · rw [Function.update_of_ne hcc] at hptr'
      exact h.valid c' id hptr'
  · cases ht : s.thread <;> simp only [Phase, ht] at hphase ⊢ <;> simp_all [ThreadPc.looked, World.set]

/-- A call gives the mutex back. -/
theorem Sound.release (hpc : s.calls c = .leaving) : Sound { s.set c .done with holder := none } := by
  have hc : (s.calls c).critical = true := by rw [hpc]; rfl
  have hheld := h.held c hc
  obtain ⟨hdrop, hthr⟩ := h.apart hc
  have hset : Sound (s.set c .done) := h.set c rfl
  have hnone : ∀ c', ((s.set c .done).calls c').critical = false := by
    intro c'
    by_contra hcrit
    have hcrit' : ((s.set c .done).calls c').critical = true := by simpa using hcrit
    have hc' : s.holder = some (.call c') := hset.held c' hcrit'
    rw [hheld] at hc'
    simp only [Option.some.injEq, Party.call.injEq] at hc'
    rw [← hc', World.set_calls, Function.update_self] at hcrit'
    simp [CallPc.critical] at hcrit'
  refine ⟨h.stored.elsewhere, h.live, h.inTime, fun c' hcrit => ?_, fun c' id hptr => ?_, ?_⟩
  · have hcrit' : ((s.set c .done).calls c').critical = true := hcrit
    rw [hnone c'] at hcrit'
    simp at hcrit'
  · exact hset.valid c' id hptr
  · have hthr' : (s.set c .done).thread = .off ∨ (s.set c .done).thread = .loop ∨ (s.set c .done).thread = .wait ∨
        (s.set c .done).thread = .shutdown := hthr
    rcases hthr' with ht | ht | ht | ht <;> simp only [Phase, ht] <;> exact ⟨hdrop, by simp⟩

end Calls

section Thread

variable {s : World} (h : Sound s)
include h

/-- **One node is freed.** -/
theorem Sound.free {id : ℕ} (hpc : s.thread = .freeing id) : Sound (s.free id) := by
  have hphase := h.phase
  simp only [Phase, hpc] at hphase
  obtain ⟨hdrop, hfree, hhead⟩ := hphase
  cases hl : s.list with
  | nil => simp [World.head, hl] at hhead
  | cons n l =>
    obtain rfl : n.id = id := by simpa [World.head, hl] using hhead
    have hdel := h.stored.deleted (n := n) (by rw [hl]; exact List.mem_cons_self)
    have hlist : (s.closeOneConnectionDel n).list = l := by simp [World.closeOneConnectionDel, hl]
    have hcall : ∀ c, s.holder ≠ some (.call c) := by simp [hfree]
    have hfind : s.list.find? (·.id = n.id) = some n := by simp [hl]
    have hnext : nextOf n.id s.list = some (l.head?.map (·.id)) := by simp [hl, nextOf]
    unfold World.free
    simp only [hfind, hnext]
    refine h.thread_step hcall ⟨hdel.alloc, hdel.owned⟩ rfl rfl rfl ?_
    cases hk : l.head?.map (·.id) with
    | none =>
      have hnil : l = [] := by simpa using hk
      exact ⟨hdrop, hfree, hlist.trans hnil⟩
    | some k =>
      refine ⟨hdrop, hfree, ?_⟩
      show (s.closeOneConnectionDel n).list.head?.map (·.id) = some k
      rw [hlist, hk]

theorem Sound.iterate {o : IterOut} {t : World} (hpc : s.thread = .locked) (hs : s.iterate tick0 o = some t) :
    Sound t := by
  have hphase := h.phase
  simp only [Phase, hpc] at hphase
  obtain ⟨m, hm, rfl⟩ := Option.map_eq_some_iff.1 hs
  obtain ⟨hmoved, hnext, -⟩ := threadIter_moved hm
  have hcall : ∀ c, s.holder ≠ some (.call c) := by simp [hphase.2]
  refine h.thread_step hcall ⟨?_, hmoved.owned [] h.stored.owned⟩ rfl rfl rfl ⟨hphase.1, by simp⟩
  exact h.stored.alloc.moved hmoved rfl

end Thread

/-- **An undisturbed step is sound.** -/
theorem sound_step (s : World) (x : Act) (t : World) (h : Sound s) (hgood : Undisturbed s x)
    (hs : s.step tick0 x = some t) : Sound t := by
  have hphase := h.phase
  cases x with
  | call c r =>
    simp only [World.step, Option.ite_none_right_eq_some, Option.some.injEq] at hs
    obtain ⟨-, rfl⟩ := hs
    apply h.set c
    cases s.flag <;> rfl
  | take c =>
    simp only [World.step] at hs
    split at hs
    · exact h.take hgood hs
    · simp at hs
  | timeout c =>
    simp only [World.step] at hs
    split at hs
    · split_ifs at hs
      obtain rfl := Option.some.inj hs
      exact h.set c rfl
    · simp at hs
  | walk c mem =>
    simp only [World.step] at hs
    split at hs
    · rename_i r id cnt hpc
      obtain rfl := Option.some.inj hs
      exact h.look hpc
    · rename_i r cnt hpc
      obtain rfl := Option.some.inj hs
      exact h.last mem hpc
    · simp at hs
  | connect c o =>
    simp only [World.step] at hs
    split at hs
    · rename_i id hpc
      exact h.connect hpc hs
    · simp at hs
  | release c =>
    simp only [World.step, Option.ite_none_right_eq_some, Option.some.injEq] at hs
    obtain ⟨hpc, rfl⟩ := hs
    exact h.release hpc
  | deinit =>
    obtain rfl := Option.some.inj hs
    exact ⟨h.stored.elsewhere, h.live, h.inTime, h.held, h.valid, h.phase⟩
  | start =>
    simp only [World.step, Option.ite_none_right_eq_some, Option.some.injEq] at hs
    obtain ⟨hpc, rfl⟩ := hs
    simp only [Phase, hpc] at hphase
    exact ⟨h.stored.elsewhere, h.live, h.inTime, h.held, h.valid, hphase⟩
  | test =>
    simp only [World.step, Option.ite_none_right_eq_some, Option.some.injEq] at hs
    obtain ⟨hpc, rfl⟩ := hs
    simp only [Phase, hpc] at hphase
    refine ⟨h.stored.elsewhere, h.live, h.inTime, h.held, h.valid, ?_⟩
    cases s.flag <;> exact hphase
  | lock =>
    simp only [World.step, Option.ite_none_right_eq_some, Option.some.injEq] at hs
    obtain ⟨⟨hpc, hfree⟩, rfl⟩ := hs
    simp only [Phase, hpc] at hphase
    exact h.thread_step (by simp [hfree]) h.stored.elsewhere rfl rfl rfl ⟨hphase.1, rfl⟩
  | iterate o =>
    simp only [World.step, Option.ite_none_right_eq_some] at hs
    exact h.iterate hs.1 hs.2
  | look =>
    simp only [World.step, Option.ite_none_right_eq_some, Option.some.injEq] at hs
    obtain ⟨hpc, rfl⟩ := hs
    simp only [Phase, hpc] at hphase
    have hfree : s.holder = none := hgood
    refine h.thread_step (by simp [hfree]) h.stored.elsewhere rfl rfl rfl ?_
    cases hhead : s.head with
    | none =>
      have hnil : s.list = [] := by simpa [World.head] using hhead
      exact ⟨hphase.1, hfree, hnil⟩
    | some id => exact ⟨hphase.1, hfree, hhead⟩
  | free =>
    simp only [World.step] at hs
    split at hs
    · rename_i id hpc
      obtain rfl := Option.some.inj hs
      exact h.free hpc
    · simp at hs
  | lastTake =>
    simp only [World.step, Option.ite_none_right_eq_some, Option.some.injEq] at hs
    obtain ⟨⟨hpc, hfree⟩, rfl⟩ := hs
    simp only [Phase, hpc] at hphase
    exact h.thread_step (by simp [hfree]) h.stored.elsewhere rfl rfl rfl ⟨hphase.1, rfl, hphase.2.2⟩
  | lastRelease =>
    simp only [World.step, Option.ite_none_right_eq_some, Option.some.injEq] at hs
    obtain ⟨hpc, rfl⟩ := hs
    simp only [Phase, hpc] at hphase
    exact h.thread_step (by simp [hphase.2.1]) h.stored.elsewhere rfl rfl rfl ⟨hphase.1, rfl, hphase.2.2⟩
  | drop =>
    simp only [World.step, Option.ite_none_right_eq_some, Option.some.injEq] at hs
    obtain ⟨hpc, rfl⟩ := hs
    simp only [Phase, hpc] at hphase
    exact h.thread_step (by simp [hphase.2.1]) h.stored.elsewhere rfl rfl rfl ⟨hphase.2.1, hphase.2.2⟩

theorem Sound.boot : Sound World.boot :=
  ⟨⟨Alloc.boot, List.Perm.refl _, List.nodup_nil, rfl⟩, rfl, rfl, fun c hc => by simp [World.boot, CallPc.critical] at hc,
    fun c id hc => by simp [World.boot, CallPc.pointer] at hc, rfl, by simp [World.boot]⟩

/-- **The shutdown is clean in every run without a call in its critical section from the time on at which the thread
looks at the list to free it.** -/
theorem clean_of_orderly (tick0 : Tick) (acts : List Act) (h : Orderly (World.step tick0) Undisturbed World.boot acts) :
    Upholds (World.step tick0) Clean World.boot acts :=
  upholds_of_orderly (fun _ => Sound.clean) sound_step Sound.boot h

/-- A server is added. -/
def addOne : List Act :=
  [.start, .call 0 (.add (10, 0, 0, 1) 514), .take 0, .walk 0 true, .connect 0 (pending 1), .release 0]

/-- The thread ends, with one node to free. -/
def endOne : List Act := [.deinit, .test, .look, .free, .lastTake, .lastRelease, .drop]

theorem clean_of_orderly_one : Upholds (World.step 0) Clean World.boot (addOne ++ endOne) := by
  apply clean_of_orderly 0 (addOne ++ endOne)
  refine Orderly.cons rfl trivial (Orderly.cons rfl trivial (Orderly.cons rfl rfl (Orderly.cons rfl trivial ?_)))
  refine Orderly.cons rfl trivial (Orderly.cons rfl trivial (Orderly.cons rfl trivial (Orderly.cons rfl trivial ?_)))
  refine Orderly.cons rfl rfl (Orderly.cons rfl trivial (Orderly.cons rfl trivial (Orderly.cons rfl trivial ?_)))
  exact Orderly.cons rfl trivial trivial

/-- A call is at a node when the thread frees it. -/
def freedUnderCall : List Act :=
  addOne ++ [.call 1 (.delete (10, 0, 0, 1) 514), .take 1, .deinit, .test, .look, .free, .walk 1 true]

/-- A call has tested the flag before the thread ends, and takes the mutex after it. -/
def takenAfterDrop : List Act :=
  [.start, .call 0 (.add (10, 0, 0, 1) 514), .deinit, .test, .look, .lastTake, .lastRelease, .drop, .take 0]

/-- A call adds its node when the thread is through with the list. -/
def addedAfterLook : List Act :=
  [.start, .call 0 (.add (10, 0, 0, 1) 514), .deinit, .test, .look, .take 0, .walk 0 true, .connect 0 (pending 1),
    .release 0, .lastTake, .lastRelease, .drop]

/-- **A call in its critical section disturbs the shutdown**: a freed node is touched, the mutex is taken when it is
gone, or a node and its socket are left behind. -/
theorem shutdown_races :
    ¬ Upholds (World.step 0) Clean World.boot freedUnderCall ∧
      ¬ Upholds (World.step 0) Clean World.boot takenAfterDrop ∧
      ¬ Upholds (World.step 0) Clean World.boot addedAfterLook := by
  refine ⟨fun h => ?_, fun h => ?_, fun h => ?_⟩
  · have hup := h.exec (rfl : exec (World.step 0) World.boot freedUnderCall = some _)
    exact absurd hup.live (by decide)
  · have hup := h.exec (rfl : exec (World.step 0) World.boot takenAfterDrop = some _)
    exact absurd hup.inTime (by decide)
  · have hup := h.exec (rfl : exec (World.step 0) World.boot addedAfterLook = some _)
    refine absurd (hup.gone rfl fun c => ?_).1 (by decide)
    change CallPc.over (Function.update (Function.update (Function.update (Function.update (Function.update
      (fun _ => CallPc.idle) 0 _) 0 _) 0 _) 0 _) 0 CallPc.done c)
    by_cases hc : c = 0
    · rw [hc, Function.update_self]
      trivial
    · simp only [Function.update_of_ne hc]
      trivial

end W601.UlogTcp
