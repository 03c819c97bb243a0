import W601.Lib.Runs

/-!
# The TCP backend of the log (`ulog_tcp.c`)

The list of log servers, and what works on it: `ulog_tcp_add_server`, `ulog_tcp_delete_server` and the
iterations of `ulog_tcp_thread`, each under the mutex of the backend. The calls of the system come with
their outcome; `socket` gives a descriptor that is not open, or an error.

* `Moved`: what closing and connecting do to one node, said once for all invariants.
* `MovedAll`: the same for a pass over the list.
* `threadIter_moved`: what an iteration of the thread does.
-/

namespace W601.UlogTcp

/-- The bytes of an address. -/
abbrev Ip := UInt8 × UInt8 × UInt8 × UInt8

/-- `rt_tick_t`. -/
abbrev Tick := BitVec 32

/-- `RT_TICK_PER_SECOND`. -/
def rtTickPerSecond : ℕ := 1000

/-- `RT_TICK_MAX`. -/
def rtTickMax : ℕ := 0xffffffff

/-- `ULOG_TCP_CONN_RETRY_TIMEOUT`. -/
def connRetryTimeout : ℤ := 1000 * 10

/-- `ULOG_TCP_MAX_SERVER_COUNT`. -/
def maxServerCount : ℕ := 3

/-- `rt_tick_from_millisecond`. -/
@[irreducible] def rtTickFromMillisecond (ms : ℤ) : Tick :=
  if ms < 0 then BitVec.ofInt 32 (-1)
  else BitVec.ofInt 32 (rtTickPerSecond * (ms / 1000) + (rtTickPerSecond * (ms % 1000) + 999) / 1000)

/-- `ulog_tcp_t`, without its link. -/
structure Node where
  /-- The address of the allocation. -/
  id : ℕ
  socket : ℤ
  ip : Ip
  port : UInt16
  timeout : Tick
  /-- The time at which `timeout` was last set; the code does not keep it. -/
  armed : Option ℕ
  deriving DecidableEq

/-- What the nodes are told apart by. -/
def Node.key (n : Node) : Ip × UInt16 := (n.ip, n.port)

/-- Clock and sockets. -/
structure Sys where
  /-- Ticks since the counter was started. -/
  time : ℕ
  /-- The sockets that the backend has created and not closed. -/
  sockets : List ℤ
  /-- `closesocket` was called on something else. -/
  misuse : Bool
  deriving DecidableEq

/-- `socket`: a descriptor that is open already cannot come back. -/
def Sys.socket (r : ℤ) (s : Sys) : Option Sys :=
  if 0 < r then if r ∈ s.sockets then none else some { s with sockets := r :: s.sockets } else some s

/-- `closesocket`. -/
def Sys.closesocket (fd : ℤ) (s : Sys) : Sys :=
  if fd ∈ s.sockets then { s with sockets := s.sockets.erase fd } else { s with misuse := true }

/-- Time passes. -/
def Sys.wait (d : ℕ) (s : Sys) : Sys := { s with time := s.time + d }

/-- How `connect` comes back. -/
inductive ConnectRes
  | ok
  | inProgress
  | failed
  deriving DecidableEq

/-- The outcomes of the calls of `ulog_tcp_connect`, with the ticks that pass before its readings of the
clock. -/
structure ConnectOut where
  sock : ℤ
  ioctlOk : Bool
  res : ConnectRes
  wait : ℕ
  wait' : ℕ

/-- The last `recv` of a reading loop. -/
inductive RecvEnd
  | closed
  | wouldBlock
  | error
  deriving DecidableEq

/-- The outcomes of a reading loop: bytes, then the last `recv`. -/
structure RecvOut where
  bytes : ℕ
  last : RecvEnd
  wait : ℕ

/-- How `select` comes back. -/
inductive SelectRes
  | timeout
  | error
  | ready (set : ℤ → Bool)

/-- A node of the list that `ulog_tcp_handle_reconnect` finds disconnected. -/
structure Visit where
  node : Node
  /-- The time of the reading of the clock. -/
  time : ℕ
  /-- `ulog_tcp_connect` is called. -/
  attempt : Bool

/-- The state of the backend. -/
structure Backend where
  sys : Sys
  /-- `ulog_tcp_list`. -/
  list : List Node
  /-- The next allocation. -/
  nextId : ℕ
  /-- The answer of the last call. -/
  answer : ℤ
  /-- What the last pass of `ulog_tcp_handle_reconnect` has found. -/
  visits : List Visit

def Backend.boot : Backend := ⟨⟨0, [], false⟩, [], 0, 0, []⟩

section Code

variable (tick0 : Tick)

/-- `rt_tick_get`: the counter started at `tick0`. -/
def rtTickGet (s : Sys) : Tick := tick0 + BitVec.ofNat 32 s.time

/-- A new deadline for a node. -/
def arm (n : Node) (s : Sys) : Node :=
  { n with timeout := rtTickGet tick0 s + rtTickFromMillisecond connRetryTimeout, armed := some s.time }

/-- The socket of a node is closed. -/
def closeSock (n : Node) (s : Sys) : Node × Sys :=
  if 0 < n.socket then ({ n with socket := -1 }, s.closesocket n.socket) else (n, s)

/-- `ulog_tcp_close_one_connection` with `del` false. -/
def closeOneConnection (d : ℕ) (n : Node) (s : Sys) : Node × Sys :=
  let s' := (closeSock n s).2.wait d
  (arm tick0 (closeSock n s).1 s', s')

/-- `ulog_tcp_close_one_connection` with `del` true: the node at that address is taken from the list and
freed. -/
def closeOneConnectionDel (n : Node) (m : Backend) : Backend :=
  { m with list := m.list.eraseP (·.id = n.id), sys := (closeSock n m.sys).2 }

/-- The error exit of `ulog_tcp_connect`: it sets the deadline once more. -/
def connectErr (o : ConnectOut) (n : Node) (s : Sys) : Node × Sys :=
  let c := closeOneConnection tick0 o.wait n s
  let s' := c.2.wait o.wait'
  (arm tick0 c.1 s', s')

/-- `ulog_tcp_connect` behind its socket. -/
def connectSock (o : ConnectOut) (n : Node) (s : Sys) : Node × Sys :=
  if !o.ioctlOk then connectErr tick0 o n s
  -- a connection that is in progress counts as made
  else if o.res = .failed then connectErr tick0 o n s
  else (n, s)

/-- `ulog_tcp_connect`. -/
def connect (o : ConnectOut) (n : Node) (s : Sys) : Option (Node × Sys) :=
  if n.socket ≤ 0 then
    (s.socket o.sock).map fun s =>
      let n := { n with socket := o.sock }
      if o.sock ≤ 0 then connectErr tick0 o n s else connectSock tick0 o n s
  else some (connectSock tick0 o n s)

/-- `ulog_tcp_handle_reconnect`, for the rest of the list; `out` has the ticks that pass before a node is
looked at and the outcomes of its connection. -/
def handleReconnect (out : ℕ → ℕ × ConnectOut) : List Node → Sys → Option (List Node × Sys × List Visit)
  | [], s => some ([], s, [])
  | n :: l, s =>
    if n.socket ≤ 0 then
      let s := s.wait (out n.id).1
      -- the difference is taken modulo the width of the counter
      let due : Bool := (rtTickGet tick0 s - n.timeout).toNat < rtTickMax / 2
      (if due then connect tick0 (out n.id).2 n s else some (n, s)).bind fun c =>
        (handleReconnect out l c.2).map fun r => (c.1 :: r.1, r.2.1, ⟨n, s.time, due⟩ :: r.2.2)
    else (handleReconnect out l s).map fun r => (n :: r.1, r.2)

/-- `ulog_tcp_close_all_connection` with `del` false, for the rest of the list. -/
def closeAllConnection (out : ℕ → ℕ) : List Node → Sys → List Node × Sys
  | [], s => ([], s)
  | n :: l, s =>
    let c := closeOneConnection tick0 (out n.id) n s
    let r := closeAllConnection out l c.2
    (c.1 :: r.1, r.2)

/-- `ulog_tcp_list_set_fds`. -/
def listSetFds (l : List Node) (fd : ℤ) : Bool := l.any fun n => 0 < n.socket ∧ n.socket = fd

/-- The reading loop of `ulog_tcp_list_handle_fds`. -/
def recvLoop (last : RecvEnd) (d : ℕ) (n : Node) (s : Sys) : ℕ → Node × Sys
  | k + 1 => recvLoop last d n s k
  | 0 =>
    match last with
    | .closed => closeOneConnection tick0 d n s
    | .error => closeOneConnection tick0 d n s
    | .wouldBlock => (n, s)

/-- `ulog_tcp_list_handle_fds`, for the rest of the list. -/
def listHandleFds (readset : ℤ → Bool) (out : ℕ → RecvOut) : List Node → Sys → List Node × Sys
  | [], s => ([], s)
  | n :: l, s =>
    let c := if n.socket < 0 then (n, s) else if readset n.socket then
      recvLoop tick0 (out n.id).last (out n.id).wait n s (out n.id).bytes else (n, s)
    let r := listHandleFds readset out l c.2
    (c.1 :: r.1, r.2)

/-- The outcomes of one iteration. -/
structure IterOut where
  select : SelectRes
  reconnect : ℕ → ℕ × ConnectOut
  closing : ℕ → ℕ
  delay : ℕ
  recv : ℕ → RecvOut

/-- What follows `ulog_tcp_handle_reconnect` in an iteration. The set was filled from the list before
it, and `select` leaves it as it was when it fails. -/
def afterSelect (o : IterOut) (readset : ℤ → Bool) (l : List Node) (s : Sys) : List Node × Sys :=
  match o.select with
  | .timeout => (l, s)
  | .error =>
    let c := closeAllConnection tick0 o.closing l s
    listHandleFds tick0 readset o.recv c.1 (c.2.wait o.delay)
  | .ready set => listHandleFds tick0 (fun fd => readset fd && set fd) o.recv l s

/-- One iteration of `ulog_tcp_thread` under the mutex. -/
def threadIter (o : IterOut) (m : Backend) : Option Backend :=
  (handleReconnect tick0 o.reconnect m.list m.sys).map fun r =>
    let c := afterSelect tick0 o (listSetFds m.list) r.1 r.2.1
    { m with list := c.1, sys := c.2, visits := r.2.2 }

/-- `ulog_tcp_add_server` under the mutex; `mem` says whether `rt_malloc` finds memory. -/
def addServer (ip : Ip) (port : UInt16) (mem : Bool) (o : ConnectOut) (m : Backend) : Option Backend :=
  if m.list.any fun n => n.ip = ip ∧ n.port = port then some { m with answer := -1 }
  else if m.list.length > maxServerCount then some { m with answer := -1 }
  else if !mem then some { m with answer := -1 }
  else
    -- the node is in the list before its connection is tried, and stays in it
    (connect tick0 o ⟨m.nextId, 0, ip, port, 0, none⟩ m.sys).map fun c =>
      { m with list := c.1 :: m.list, sys := c.2, nextId := m.nextId + 1, answer := 0 }

/-- `ulog_tcp_delete_server` under the mutex. -/
def deleteServer (ip : Ip) (port : UInt16) (m : Backend) : Backend :=
  match m.list.find? fun n => n.ip = ip ∧ n.port = port with
  | some n => { closeOneConnectionDel n m with answer := 0 }
  | none => { m with answer := -1 }

/-- The critical sections, and the time between them. -/
inductive Ev
  | add (ip : Ip) (port : UInt16) (mem : Bool) (o : ConnectOut)
  | delete (ip : Ip) (port : UInt16)
  | iterate (o : IterOut)
  | elapse (d : ℕ)

def step (m : Backend) : Ev → Option Backend
  | .add ip port mem o => addServer tick0 ip port mem o m
  | .delete ip port => some (deleteServer ip port m)
  | .iterate o => threadIter tick0 o m
  | .elapse d => some { m with sys := m.sys.wait d }

end Code

/-! ## One node -/

/-- The descriptor of a node, if it has one. -/
def Node.fds (n : Node) : List ℤ := if 0 < n.socket then [n.socket] else []

/-- The open sockets of the backend are `F`, each once, and nothing else was ever closed. -/
structure Owned (F : List ℤ) (s : Sys) : Prop where
  perm : F.Perm s.sockets
  nodup : s.sockets.Nodup
  clean : s.misuse = false

/-- Ticks between the setting of a deadline and the deadline. -/
def retryTicks : ℕ := 10000

theorem rtTickFromMillisecond_retry : rtTickFromMillisecond connRetryTimeout = BitVec.ofNat 32 retryTicks := by
  unfold rtTickFromMillisecond
  decide

/-- A node without a connection has a deadline. -/
def Armed (tick0 : Tick) (n : Node) (s : Sys) : Prop :=
  n.socket ≤ 0 → ∃ t ≤ s.time, n.armed = some t ∧ n.timeout = tick0 + BitVec.ofNat 32 t + BitVec.ofNat 32 retryTicks

/-- **What closing and connecting do to a node**: it stays what it is, time goes on, its socket is
accounted for, and its deadline is kept or renewed. -/
structure Moved (tick0 : Tick) (n : Node) (s : Sys) (n' : Node) (s' : Sys) : Prop where
  id : n'.id = n.id
  key : n'.key = n.key
  time : s.time ≤ s'.time
  owned : ∀ F, Owned (F ++ n.fds) s → Owned (F ++ n'.fds) s'
  armed : Armed tick0 n s → Armed tick0 n' s'

section Node

variable {tick0 : Tick} {n n' n'' : Node} {s s' s'' : Sys} {F : List ℤ}

theorem Armed.mono (h : Armed tick0 n s) (ht : s.time ≤ s'.time) : Armed tick0 n s' := by
  intro hn
  obtain ⟨t, hle, hrest⟩ := h hn
  exact ⟨t, hle.trans ht, hrest⟩

theorem Moved.refl (tick0 : Tick) (n : Node) (s : Sys) : Moved tick0 n s n s :=
  ⟨rfl, rfl, le_rfl, fun _ h => h, fun h => h⟩

@[simp] theorem Sys.wait_time (s : Sys) (d : ℕ) : (s.wait d).time = s.time + d := rfl

theorem Owned.wait (h : Owned F s) (d : ℕ) : Owned F (s.wait d) := ⟨h.perm, h.nodup, h.clean⟩

theorem Owned.closesocket {fd : ℤ} (h : Owned (F ++ [fd]) s) : Owned F (s.closesocket fd) := by
  have hmem : fd ∈ s.sockets := h.perm.subset (by simp)
  have hperm : F.Perm (s.sockets.erase fd) := by
    have hcons : (fd :: F).Perm s.sockets := (List.perm_append_singleton fd F).symm.trans h.perm
    have herase := hcons.erase fd
    rwa [List.erase_cons_head] at herase
  unfold Sys.closesocket
  rw [if_pos hmem]
  exact ⟨hperm, h.nodup.erase fd, h.clean⟩

theorem Owned.socket {r : ℤ} (h : Owned F s) (hs : s.socket r = some s') :
    s'.time = s.time ∧ Owned (F ++ if 0 < r then [r] else []) s' := by
  unfold Sys.socket at hs
  split_ifs at hs with hpos hmem
  · obtain rfl := Option.some.inj hs
    rw [if_pos hpos]
    have hperm : (F ++ [r]).Perm (r :: s.sockets) :=
      (List.perm_append_singleton r F).trans (h.perm.cons r)
    exact ⟨rfl, hperm, List.nodup_cons.2 ⟨hmem, h.nodup⟩, h.clean⟩
  · obtain rfl := Option.some.inj hs
    rw [if_neg hpos, List.append_nil]
    exact ⟨rfl, h⟩

theorem closeSock_owned (h : Owned (F ++ n.fds) s) : Owned (F ++ (closeSock n s).1.fds) (closeSock n s).2 := by
  unfold closeSock
  split_ifs with hpos
  · have hfds : n.fds = [n.socket] := if_pos hpos
    have hnone : ({ n with socket := -1 } : Node).fds = [] := rfl
    rw [hfds] at h
    rw [hnone, List.append_nil]
    exact h.closesocket
  · exact h

theorem closeSock_socket (n : Node) (s : Sys) : (closeSock n s).1.socket ≤ 0 := by
  unfold closeSock
  split_ifs with hpos
  · show (-1 : ℤ) ≤ 0
    omega
  · show n.socket ≤ 0
    omega

/-- Apart from its socket and its deadline, a node stays what it is. -/
theorem closeSock_same (n : Node) (s : Sys) :
    (closeSock n s).1.id = n.id ∧ (closeSock n s).1.key = n.key ∧ (closeSock n s).2.time = s.time := by
  unfold closeSock Sys.closesocket
  split_ifs <;> exact ⟨rfl, rfl, rfl⟩

@[simp] theorem arm_id (tick0 : Tick) (n : Node) (s : Sys) : (arm tick0 n s).id = n.id := rfl

@[simp] theorem arm_key (tick0 : Tick) (n : Node) (s : Sys) : (arm tick0 n s).key = n.key := rfl

@[simp] theorem arm_fds (tick0 : Tick) (n : Node) (s : Sys) : (arm tick0 n s).fds = n.fds := rfl

theorem arm_armed (tick0 : Tick) (n : Node) (s : Sys) : Armed tick0 (arm tick0 n s) s := by
  intro _
  refine ⟨s.time, le_rfl, rfl, ?_⟩
  simp only [arm, rtTickGet, rtTickFromMillisecond_retry]

theorem closeOneConnection_moved (tick0 : Tick) (d : ℕ) (n : Node) (s : Sys) :
    Moved tick0 n s (closeOneConnection tick0 d n s).1 (closeOneConnection tick0 d n s).2 ∧
      Armed tick0 (closeOneConnection tick0 d n s).1 (closeOneConnection tick0 d n s).2 := by
  obtain ⟨hid, hkey, htime⟩ := closeSock_same n s
  have harm := arm_armed tick0 (closeSock n s).1 ((closeSock n s).2.wait d)
  rw [closeOneConnection]
  refine ⟨⟨?_, ?_, ?_, fun F hF => ?_, fun _ => harm⟩, harm⟩
  · rw [arm_id, hid]
  · rw [arm_key, hkey]
  · rw [Sys.wait_time]
    omega
  · rw [arm_fds]
    exact (closeSock_owned hF).wait d

theorem connectErr_moved (tick0 : Tick) (o : ConnectOut) (n : Node) (s : Sys) :
    Moved tick0 n s (connectErr tick0 o n s).1 (connectErr tick0 o n s).2 ∧
      Armed tick0 (connectErr tick0 o n s).1 (connectErr tick0 o n s).2 := by
  obtain ⟨hm, -⟩ := closeOneConnection_moved tick0 o.wait n s
  have harm := arm_armed tick0 (closeOneConnection tick0 o.wait n s).1
    ((closeOneConnection tick0 o.wait n s).2.wait o.wait')
  rw [connectErr]
  refine ⟨⟨?_, ?_, ?_, fun F hF => ?_, fun _ => harm⟩, harm⟩
  · rw [arm_id, hm.id]
  · rw [arm_key, hm.key]
  · rw [Sys.wait_time]
    exact Nat.le_add_right_of_le hm.time
  · rw [arm_fds]
    exact (hm.owned F hF).wait o.wait'

theorem connectSock_moved (tick0 : Tick) (o : ConnectOut) (n : Node) (s : Sys) :
    Moved tick0 n s (connectSock tick0 o n s).1 (connectSock tick0 o n s).2 ∧
      (0 < n.socket → Armed tick0 (connectSock tick0 o n s).1 (connectSock tick0 o n s).2) := by
  obtain ⟨hm, ha⟩ := connectErr_moved tick0 o n s
  unfold connectSock
  split_ifs
  · exact ⟨hm, fun _ => ha⟩
  · exact ⟨hm, fun _ => ha⟩
  · exact ⟨Moved.refl tick0 n s, fun hpos hle => absurd hle (not_le.2 hpos)⟩

/-- **`ulog_tcp_connect`**: a node that was not connected has a connection or a deadline behind it. -/
theorem connect_moved {o : ConnectOut} (h : connect tick0 o n s = some (n', s')) :
    Moved tick0 n s n' s' ∧ (n.socket ≤ 0 → Armed tick0 n' s') := by
  unfold connect at h
  by_cases hn : n.socket ≤ 0
  · rw [if_pos hn] at h
    obtain ⟨s1, hs1, hc⟩ := Option.map_eq_some_iff.1 h
    set n1 : Node := { n with socket := o.sock } with hn1
    have hfds : n.fds = [] := if_neg (not_lt.2 hn)
    -- the new socket comes to the node
    have howned : ∀ F, Owned (F ++ n.fds) s → s1.time = s.time ∧ Owned (F ++ n1.fds) s1 := by
      intro F hF
      rw [hfds, List.append_nil] at hF
      exact hF.socket hs1
    have htime : s1.time = s.time := by
      unfold Sys.socket at hs1
      split_ifs at hs1 <;> obtain rfl := Option.some.inj hs1 <;> rfl
    have key : ∀ c : Node × Sys, Moved tick0 n1 s1 c.1 c.2 → Armed tick0 c.1 c.2 →
        Moved tick0 n s c.1 c.2 ∧ (n.socket ≤ 0 → Armed tick0 c.1 c.2) := by
      intro c hm ha
      exact ⟨⟨hm.id, hm.key, htime ▸ hm.time, fun F hF => hm.owned F (howned F hF).2, fun _ => ha⟩, fun _ => ha⟩
    by_cases hle : o.sock ≤ 0
    · obtain ⟨hm, ha⟩ := connectErr_moved tick0 o n1 s1
      rw [if_pos hle] at hc
      rw [hc] at hm ha
      exact key (n', s') hm ha
    · obtain ⟨hm, ha⟩ := connectSock_moved tick0 o n1 s1
      rw [if_neg hle] at hc
      rw [hc] at hm ha
      exact key (n', s') hm (ha (not_le.1 hle))
  · obtain ⟨hm, -⟩ := connectSock_moved tick0 o n s
    rw [if_neg hn] at h
    rw [Option.some.inj h] at hm
    exact ⟨hm, fun hle => absurd hle hn⟩

end Node

/-! ## Passes over the list -/

/-- The descriptors of the listed nodes. -/
def fdsOf (l : List Node) : List ℤ := l.flatMap Node.fds

/-- **What a pass does to the list**: the nodes stay, in their order, and each is moved. -/
structure MovedAll (tick0 : Tick) (l : List Node) (s : Sys) (l' : List Node) (s' : Sys) : Prop where
  ids : l'.map (·.id) = l.map (·.id)
  keys : l'.map Node.key = l.map Node.key
  time : s.time ≤ s'.time
  owned : ∀ F, Owned (F ++ fdsOf l) s → Owned (F ++ fdsOf l') s'
  armed : (∀ n ∈ l, Armed tick0 n s) → ∀ n ∈ l', Armed tick0 n s'

section Pass

variable {tick0 : Tick} {n n' : Node} {l l' l'' : List Node} {s s' s'' : Sys}

theorem Owned.of_perm {F G : List ℤ} (h : Owned F s) (hp : G.Perm F) : Owned G s :=
  ⟨hp.trans h.perm, h.nodup, h.clean⟩

theorem MovedAll.refl (tick0 : Tick) (l : List Node) (s : Sys) : MovedAll tick0 l s l s :=
  ⟨rfl, rfl, le_rfl, fun _ h => h, fun h => h⟩

theorem MovedAll.trans (h : MovedAll tick0 l s l' s') (h' : MovedAll tick0 l' s' l'' s'') :
    MovedAll tick0 l s l'' s'' :=
  ⟨h'.ids.trans h.ids, h'.keys.trans h.keys, h.time.trans h'.time, fun F hF => h'.owned F (h.owned F hF),
    fun ha => h'.armed (h.armed ha)⟩

theorem MovedAll.wait (l : List Node) (s : Sys) (d : ℕ) : MovedAll tick0 l s l (s.wait d) :=
  ⟨rfl, rfl, Nat.le_add_right _ _, fun _ h => h.wait d, fun h n hn => (h n hn).mono (Nat.le_add_right _ _)⟩

/-- The first node is moved, then the others are. -/
theorem MovedAll.cons (h : Moved tick0 n s n' s') (h' : MovedAll tick0 l s' l' s'') :
    MovedAll tick0 (n :: l) s (n' :: l') s'' := by
  refine ⟨?_, ?_, h.time.trans h'.time, fun F hF => ?_, fun ha => ?_⟩
  · rw [List.map_cons, List.map_cons, h.id, h'.ids]
  · rw [List.map_cons, List.map_cons, h.key, h'.keys]
  · -- the node's descriptor goes behind the others and comes back
    have hlast : Owned ((F ++ fdsOf l) ++ n.fds) s := by
      apply hF.of_perm
      rw [List.append_assoc]
      exact List.perm_append_comm.append_left F
    have hmid : Owned ((F ++ n'.fds) ++ fdsOf l) s' := by
      apply (h.owned _ hlast).of_perm
      rw [List.append_assoc, List.append_assoc]
      exact List.perm_append_comm.append_left F
    have hend := h'.owned _ hmid
    rwa [List.append_assoc] at hend
  · intro m hm
    rcases List.mem_cons.1 hm with rfl | hm
    · exact (h.armed (ha n List.mem_cons_self)).mono h'.time
    · exact h'.armed (fun k hk => (ha k (List.mem_cons_of_mem _ hk)).mono h.time) m hm

theorem closeAllConnection_moved (tick0 : Tick) (out : ℕ → ℕ) (l : List Node) : ∀ s : Sys,
    MovedAll tick0 l s (closeAllConnection tick0 out l s).1 (closeAllConnection tick0 out l s).2 := by
  induction l with
  | nil => exact fun s => MovedAll.refl tick0 [] s
  | cons n l ih => exact fun s => MovedAll.cons (closeOneConnection_moved tick0 _ n s).1 (ih _)

theorem recvLoop_moved (last : RecvEnd) (d : ℕ) (n : Node) (s : Sys) (k : ℕ) :
    Moved tick0 n s (recvLoop tick0 last d n s k).1 (recvLoop tick0 last d n s k).2 := by
  induction k with
  | succ k ih => exact ih
  | zero =>
    cases last with
    | closed => exact (closeOneConnection_moved tick0 d n s).1
    | error => exact (closeOneConnection_moved tick0 d n s).1
    | wouldBlock => exact Moved.refl tick0 n s

theorem listHandleFds_moved (readset : ℤ → Bool) (out : ℕ → RecvOut) (l : List Node) : ∀ s : Sys,
    MovedAll tick0 l s (listHandleFds tick0 readset out l s).1 (listHandleFds tick0 readset out l s).2 := by
  induction l with
  | nil => exact fun s => MovedAll.refl tick0 [] s
  | cons n l ih =>
    intro s
    refine MovedAll.cons ?_ (ih _)
    split_ifs
    · exact Moved.refl tick0 n s
    · exact recvLoop_moved _ _ n s _
    · exact Moved.refl tick0 n s

/-- **`ulog_tcp_handle_reconnect`** looks at the nodes without a connection, each once, and calls
`ulog_tcp_connect` where the clock is past the deadline. -/
theorem handleReconnect_moved {out : ℕ → ℕ × ConnectOut} : ∀ {l : List Node} {s : Sys} {l' : List Node}
    {s' : Sys} {vs : List Visit}, handleReconnect tick0 out l s = some (l', s', vs) →
    MovedAll tick0 l s l' s' ∧ vs.map (·.node) = l.filter (·.socket ≤ 0) ∧
      ∀ v ∈ vs, s.time ≤ v.time ∧
        v.attempt = decide ((tick0 + BitVec.ofNat 32 v.time - v.node.timeout).toNat < rtTickMax / 2) := by
  intro l
  induction l with
  | nil =>
    intro s l' s' vs h
    obtain ⟨rfl, rfl, rfl⟩ : [] = l' ∧ s = s' ∧ [] = vs := by simpa [handleReconnect] using h
    exact ⟨MovedAll.refl tick0 [] s, rfl, by simp⟩
  | cons n l ih =>
    intro s l' s' vs h
    unfold handleReconnect at h
    by_cases hn : n.socket ≤ 0
    · rw [if_pos hn] at h
      set s1 := s.wait (out n.id).1 with hs1
      obtain ⟨⟨n2, s2⟩, hc, hrest⟩ := Option.bind_eq_some_iff.1 h
      obtain ⟨⟨l3, s3, vs3⟩, hr, heq⟩ := Option.map_eq_some_iff.1 hrest
      obtain ⟨rfl, rfl, rfl⟩ : n2 :: l3 = l' ∧ s3 = s' ∧ _ = vs := by simpa using heq
      obtain ⟨hm, hnodes, hvs⟩ := ih hr
      have hle : s.time ≤ s1.time := Nat.le_add_right _ _
      have hone : Moved tick0 n s1 n2 s2 := by
        split_ifs at hc
        · exact (connect_moved hc).1
        · obtain ⟨rfl, rfl⟩ := Prod.mk.inj (Option.some.inj hc)
          exact Moved.refl tick0 n s1
      refine ⟨(MovedAll.wait (n :: l) s _).trans (MovedAll.cons hone hm), ?_, ?_⟩
      · rw [List.map_cons, hnodes, List.filter_cons_of_pos (by simpa using hn)]
      · intro v hv
        rcases List.mem_cons.1 hv with rfl | hv
        · exact ⟨hle, rfl⟩
        · obtain ⟨ht, ha⟩ := hvs v hv
          exact ⟨(hle.trans hone.time).trans ht, ha⟩
    · rw [if_neg hn] at h
      obtain ⟨⟨l3, s3, vs3⟩, hr, heq⟩ := Option.map_eq_some_iff.1 h
      obtain ⟨rfl, rfl, rfl⟩ : n :: l3 = l' ∧ s3 = s' ∧ vs3 = vs := by simpa using heq
      obtain ⟨hm, hnodes, hvs⟩ := ih hr
      refine ⟨MovedAll.cons (Moved.refl tick0 n s) hm, ?_, hvs⟩
      rw [hnodes, List.filter_cons_of_neg (by simpa using hn)]

theorem afterSelect_moved (o : IterOut) (readset : ℤ → Bool) (l : List Node) (s : Sys) :
    MovedAll tick0 l s (afterSelect tick0 o readset l s).1 (afterSelect tick0 o readset l s).2 := by
  unfold afterSelect
  cases o.select with
  | timeout => exact MovedAll.refl tick0 l s
  | error =>
    have hclose := closeAllConnection_moved tick0 o.closing l s
    exact (hclose.trans (MovedAll.wait _ _ o.delay)).trans (listHandleFds_moved _ _ _ _)
  | ready set => exact listHandleFds_moved _ _ _ _

/-- **One iteration of the thread.** -/
theorem threadIter_moved {o : IterOut} {m t : Backend} (h : threadIter tick0 o m = some t) :
    MovedAll tick0 m.list m.sys t.list t.sys ∧ t.nextId = m.nextId ∧
      t.visits.map (·.node) = m.list.filter (·.socket ≤ 0) ∧
      ∀ v ∈ t.visits, m.sys.time ≤ v.time ∧
        v.attempt = decide ((tick0 + BitVec.ofNat 32 v.time - v.node.timeout).toNat < rtTickMax / 2) := by
  obtain ⟨⟨l, s, vs⟩, hr, rfl⟩ := Option.map_eq_some_iff.1 h
  obtain ⟨hm, hnodes, hvs⟩ := handleReconnect_moved hr
  exact ⟨hm.trans (afterSelect_moved o _ l s), rfl, hnodes, hvs⟩

end Pass

end W601.UlogTcp
