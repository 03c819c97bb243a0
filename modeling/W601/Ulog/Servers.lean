import W601.Ulog.Tcp

/-!
# The server list and its sockets

Over every sequence of critical sections of the backend:

* `servers_kept_iff`: the list is kept as it should be unless a new server is added to a list that is
  full, because the count is compared with `>`.
* `sockets_owned`: the open sockets of the backend are those of the listed nodes.
-/

namespace W601.UlogTcp

open Runs

/-! ## The cases of a step -/

theorem any_listed {l : List Node} {ip : Ip} {port : UInt16} :
    (l.any fun n => n.ip = ip ∧ n.port = port) = true ↔ (ip, port) ∈ l.map Node.key := by
  simp [Node.key]

theorem find_listed {l : List Node} {ip : Ip} {port : UInt16} :
    (l.find? fun n => n.ip = ip ∧ n.port = port) = none ↔ (ip, port) ∉ l.map Node.key := by
  simp [Node.key]

/-- **The cases of `ulog_tcp_add_server`.** -/
theorem addServer_cases {tick0 : Tick} {ip : Ip} {port : UInt16} {mem : Bool} {o : ConnectOut} {m t : Backend}
    (h : addServer tick0 ip port mem o m = some t) :
    (((ip, port) ∈ m.list.map Node.key ∨ maxServerCount < m.list.length ∨ mem = false) ∧
        t = { m with answer := -1 }) ∨
      ((ip, port) ∉ m.list.map Node.key ∧ m.list.length ≤ maxServerCount ∧ mem = true ∧
        ∃ n s, connect tick0 o ⟨m.nextId, 0, ip, port, 0, none⟩ m.sys = some (n, s) ∧
          t = { m with list := n :: m.list, sys := s, nextId := m.nextId + 1, answer := 0 }) := by
  unfold addServer at h
  by_cases h1 : (m.list.any fun n => n.ip = ip ∧ n.port = port) = true
  · rw [if_pos h1] at h
    exact Or.inl ⟨Or.inl (any_listed.1 h1), (Option.some.inj h).symm⟩
  rw [if_neg h1] at h
  by_cases h2 : m.list.length > maxServerCount
  · rw [if_pos h2] at h
    exact Or.inl ⟨Or.inr (Or.inl h2), (Option.some.inj h).symm⟩
  rw [if_neg h2] at h
  cases mem with
  | false => exact Or.inl ⟨Or.inr (Or.inr rfl), (Option.some.inj h).symm⟩
  | true =>
    obtain ⟨⟨n, s⟩, hc, ht⟩ := Option.map_eq_some_iff.1 h
    exact Or.inr ⟨fun hk => h1 (any_listed.2 hk), not_lt.1 h2, rfl, n, s, hc, ht.symm⟩

/-- A node is the only one at its address. -/
theorem eraseP_id {l l' : List Node} {n : Node} (hnodup : ((l ++ n :: l').map (·.id)).Nodup) :
    (l ++ n :: l').eraseP (·.id = n.id) = l ++ l' := by
  rw [List.map_append, List.map_cons, List.nodup_append] at hnodup
  have hnot : ∀ k ∈ l, ¬ decide (k.id = n.id) = true := by
    intro k hk he
    exact hnodup.2.2 k.id (List.mem_map_of_mem hk) n.id List.mem_cons_self (by simpa using he)
  rw [List.eraseP_append_right _ hnot, List.eraseP_cons_of_pos (by simp)]

/-- **The cases of `ulog_tcp_delete_server`**, on a list without two nodes at one address. -/
theorem deleteServer_cases {m : Backend} (hnodup : (m.list.map (·.id)).Nodup) (ip : Ip) (port : UInt16) :
    ((ip, port) ∉ m.list.map Node.key ∧ deleteServer ip port m = { m with answer := -1 }) ∨
      ∃ l n l', m.list = l ++ n :: l' ∧ n.key = (ip, port) ∧
        deleteServer ip port m = { m with list := l ++ l', sys := (closeSock n m.sys).2, answer := 0 } := by
  unfold deleteServer
  cases hf : m.list.find? fun n => n.ip = ip ∧ n.port = port with
  | none => exact Or.inl ⟨find_listed.1 hf, rfl⟩
  | some n =>
    obtain ⟨hkey, l, l', hl, -⟩ := List.find?_eq_some_iff_append.1 hf
    refine Or.inr ⟨l, n, l', hl, ?_, ?_⟩
    · simpa [Node.key] using hkey
    · rw [hl] at hnodup
      simp only [closeOneConnectionDel, hl, eraseP_id hnodup]

/-- The nodes are different allocations. -/
structure Alloc (m : Backend) : Prop where
  nodup : (m.list.map (·.id)).Nodup
  lt : ∀ n ∈ m.list, n.id < m.nextId

theorem Alloc.sublist {m t : Backend} (h : Alloc m) (hsub : t.list.Sublist m.list) (hnext : t.nextId = m.nextId) :
    Alloc t := by
  refine ⟨(hsub.map _).nodup h.nodup, fun n hn => ?_⟩
  rw [hnext]
  exact h.lt n (hsub.subset hn)

theorem Alloc.cons {m t : Backend} {n : Node} (h : Alloc m) (hlist : t.list = n :: m.list) (hid : n.id = m.nextId)
    (hnext : t.nextId = m.nextId + 1) : Alloc t := by
  refine ⟨?_, fun k hk => ?_⟩
  · rw [hlist]
    refine List.nodup_cons.2 ⟨fun hmem => ?_, h.nodup⟩
    obtain ⟨k, hk, hkn⟩ := List.mem_map.1 hmem
    have hkn' : k.id = n.id := hkn
    have := h.lt k hk
    omega
  · rw [hlist] at hk
    rw [hnext]
    rcases List.mem_cons.1 hk with rfl | hk
    · omega
    · exact Nat.lt_succ_of_lt (h.lt k hk)

theorem Alloc.moved {tick0 : Tick} {m t : Backend} (h : Alloc m) (hm : MovedAll tick0 m.list m.sys t.list t.sys)
    (hnext : t.nextId = m.nextId) : Alloc t := by
  refine ⟨?_, fun n hn => ?_⟩
  · rw [hm.ids]
    exact h.nodup
  · have hid : n.id ∈ m.list.map (·.id) := by
      rw [← hm.ids]
      exact List.mem_map_of_mem hn
    obtain ⟨k, hk, hkn⟩ := List.mem_map.1 hid
    rw [hnext, ← hkn]
    exact h.lt k hk

/-- **What a step does to the list**: nothing but to the connections, a node in front, or a node less. -/
inductive ListStep (tick0 : Tick) (m t : Backend) : Prop
  | moved (hm : MovedAll tick0 m.list m.sys t.list t.sys) (hnext : t.nextId = m.nextId)
  | added (n : Node) (hlist : t.list = n :: m.list) (hid : n.id = m.nextId) (hnext : t.nextId = m.nextId + 1)
      (hm : Moved tick0 ⟨m.nextId, 0, n.ip, n.port, 0, none⟩ m.sys n t.sys) (ha : Armed tick0 n t.sys)
  | deleted (l : List Node) (n : Node) (l' : List Node) (hold : m.list = l ++ n :: l') (hlist : t.list = l ++ l')
      (hnext : t.nextId = m.nextId) (hsys : t.sys = (closeSock n m.sys).2)

theorem listStep {tick0 : Tick} {m t : Backend} {x : Ev} (h : Alloc m) (hs : step tick0 m x = some t) :
    ListStep tick0 m t := by
  cases x with
  | add ip port mem o =>
    rcases addServer_cases hs with ⟨-, rfl⟩ | ⟨-, -, -, n, s, hc, rfl⟩
    · exact .moved (MovedAll.refl tick0 _ _) rfl
    · obtain ⟨hm, ha⟩ := connect_moved hc
      obtain ⟨hip, hport⟩ := Prod.mk.inj hm.key
      refine .added n rfl hm.id rfl ?_ (ha le_rfl)
      rw [hip, hport]
      exact hm
  | delete ip port =>
    obtain rfl := Option.some.inj hs
    rcases deleteServer_cases h.nodup ip port with ⟨-, heq⟩ | ⟨l, n, l', hl, -, heq⟩
    · rw [heq]
      exact .moved (MovedAll.refl tick0 _ _) rfl
    · rw [heq]
      exact .deleted l n l' hl rfl rfl rfl
  | iterate o =>
    obtain ⟨hm, hnext, -⟩ := threadIter_moved hs
    exact .moved hm hnext
  | elapse d =>
    obtain rfl := Option.some.inj hs
    exact .moved (MovedAll.wait m.list m.sys d) rfl

theorem sublist_deleted {l l' : List Node} {n : Node} : (l ++ l').Sublist (l ++ n :: l') :=
  (List.sublist_cons_self n l').append_left l

theorem ListStep.alloc {tick0 : Tick} {m t : Backend} (h : ListStep tick0 m t) (halloc : Alloc m) : Alloc t := by
  cases h with
  | moved hm hnext => exact halloc.moved hm hnext
  | added n hlist hid hnext _ _ => exact halloc.cons hlist hid hnext
  | deleted l n l' hold hlist hnext _ =>
    refine halloc.sublist ?_ hnext
    rw [hlist, hold]
    exact sublist_deleted

theorem ListStep.owned {tick0 : Tick} {m t : Backend} (h : ListStep tick0 m t) (howned : Owned (fdsOf m.list) m.sys) :
    Owned (fdsOf t.list) t.sys := by
  cases h with
  | moved hm _ => exact hm.owned [] howned
  | added n hlist _ _ hm _ =>
    have hF : Owned (fdsOf m.list ++ Node.fds ⟨m.nextId, 0, n.ip, n.port, 0, none⟩) m.sys := by
      have hnone : Node.fds ⟨m.nextId, 0, n.ip, n.port, 0, none⟩ = [] := rfl
      rw [hnone, List.append_nil]
      exact howned
    rw [hlist]
    exact (hm.owned _ hF).of_perm List.perm_append_comm
  | deleted l n l' hold hlist _ hsys =>
    -- the node's descriptor is closed, and the node is gone with it
    have hF : Owned (fdsOf (l ++ l') ++ n.fds) m.sys := by
      apply howned.of_perm
      rw [hold, fdsOf, fdsOf, List.flatMap_append, List.flatMap_append, List.flatMap_cons, List.append_assoc]
      exact List.perm_append_comm.append_left _
    have hclosed := closeSock_owned hF
    have hnone : (closeSock n m.sys).1.fds = [] := if_neg (not_lt.2 (closeSock_socket n m.sys))
    rw [hnone, List.append_nil] at hclosed
    rw [hlist, hsys]
    exact hclosed

/-! ## The list -/

/-- The listed servers are different ones, and not too many. -/
structure Kept (m : Backend) : Prop where
  distinct : (m.list.map Node.key).Nodup
  room : m.list.length ≤ maxServerCount

/-- The answers of the calls, and what they do to the list. -/
def CallOk (m : Backend) : Ev → Backend → Prop
  | .add ip port mem _, t =>
    ((ip, port) ∉ m.list.map Node.key → (t.answer = 0 ↔ m.list.length < maxServerCount ∧ mem = true)) ∧
      (t.answer = 0 ∧ (∃ n : Node, n.key = (ip, port) ∧ t.list = n :: m.list) ∨ t.answer = -1 ∧ t.list = m.list)
  | .delete ip port, t =>
    ((ip, port) ∈ m.list.map Node.key ∧ t.answer = 0 ∧
        ∃ l n l', m.list = l ++ n :: l' ∧ n.key = (ip, port) ∧ t.list = l ++ l') ∨
      ((ip, port) ∉ m.list.map Node.key ∧ t.answer = -1 ∧ t.list = m.list)
  | .iterate _, t => t.list.map Node.key = m.list.map Node.key
  | .elapse _, t => t.list = m.list

/-- A new server is not added to a full list. -/
def RoomFor (m : Backend) : Ev → Prop
  | .add ip port mem _ => (ip, port) ∈ m.list.map Node.key ∨ m.list.length ≠ maxServerCount ∨ mem = false
  | _ => True

theorem Kept.of_keys {m t : Backend} (h : Kept m) (hkeys : t.list.map Node.key = m.list.map Node.key) : Kept t := by
  have hlen : t.list.length = m.list.length := by simpa using congrArg List.length hkeys
  refine ⟨?_, ?_⟩
  · rw [hkeys]
    exact h.distinct
  · rw [hlen]
    exact h.room

theorem kept_add {tick0 : Tick} {ip : Ip} {port : UInt16} {mem : Bool} {o : ConnectOut} {m t : Backend} (h : Kept m)
    (hroom : RoomFor m (.add ip port mem o)) (hs : addServer tick0 ip port mem o m = some t) :
    Kept t ∧ CallOk m (.add ip port mem o) t := by
  rcases addServer_cases hs with ⟨hno, rfl⟩ | ⟨hnew, hle, rfl, n, s, hc, rfl⟩
  · refine ⟨h.of_keys rfl, fun hnew => ?_, Or.inr ⟨rfl, rfl⟩⟩
    have hle := h.room
    rcases hno with hk | hgt | rfl
    · exact absurd hk hnew
    · omega
    · simp
  · -- the list is not full, so one more node fits
    have hlt : m.list.length < maxServerCount := by
      rcases hroom with hk | hne | hmem
      · exact absurd hk hnew
      · omega
      · simp at hmem
    obtain ⟨hm, -⟩ := connect_moved hc
    have hkey : n.key = (ip, port) := hm.key
    refine ⟨⟨List.nodup_cons.2 ⟨?_, h.distinct⟩, hlt⟩, fun _ => ⟨fun _ => ⟨hlt, rfl⟩, fun _ => rfl⟩,
      Or.inl ⟨rfl, n, hkey, rfl⟩⟩
    rw [hkey]
    exact hnew

theorem kept_delete {m : Backend} (h : Kept m) (hnodup : (m.list.map (·.id)).Nodup) (ip : Ip) (port : UInt16) :
    Kept (deleteServer ip port m) ∧ CallOk m (.delete ip port) (deleteServer ip port m) := by
  rcases deleteServer_cases hnodup ip port with ⟨hnot, heq⟩ | ⟨l, n, l', hl, hkey, heq⟩
  · rw [heq]
    exact ⟨h.of_keys rfl, Or.inr ⟨hnot, rfl, rfl⟩⟩
  · have hsub : (l ++ l').Sublist m.list := hl ▸ sublist_deleted
    have hmem : (ip, port) ∈ m.list.map Node.key := by
      rw [hl, ← hkey]
      simp
    rw [heq]
    exact ⟨⟨(hsub.map _).nodup h.distinct, hsub.length_le.trans h.room⟩, Or.inl ⟨hmem, rfl, l, n, l', hl, hkey, rfl⟩⟩

/-- **A step that has room keeps the list, and its call is answered as it should be.** -/
theorem kept_step {tick0 : Tick} (m : Backend) (x : Ev) (t : Backend) (h : Kept m ∧ Alloc m) (hroom : RoomFor m x)
    (hs : step tick0 m x = some t) : (Kept t ∧ CallOk m x t) ∧ Kept t ∧ Alloc t := by
  suffices hcall : Kept t ∧ CallOk m x t from ⟨hcall, hcall.1, (listStep h.2 hs).alloc h.2⟩
  cases x with
  | add ip port mem o => exact kept_add h.1 hroom hs
  | delete ip port =>
    obtain rfl := Option.some.inj hs
    exact kept_delete h.1 h.2.nodup ip port
  | iterate o =>
    obtain ⟨hm, -⟩ := threadIter_moved hs
    exact ⟨h.1.of_keys hm.keys, hm.keys⟩
  | elapse d =>
    obtain rfl := Option.some.inj hs
    exact ⟨h.1.of_keys rfl, rfl⟩

/-- **A new server is taken into a full list.** -/
theorem crowded_step {tick0 : Tick} (m : Backend) (x : Ev) (t : Backend) (_ : Kept m ∧ Alloc m) (hroom : ¬ RoomFor m x)
    (hs : step tick0 m x = some t) : ¬ (Kept t ∧ CallOk m x t) := by
  cases x with
  | delete _ _ | iterate _ | elapse _ => exact absurd trivial hroom
  | add ip port mem o =>
    simp only [RoomFor, not_or, not_not] at hroom
    obtain ⟨hnew, hfull, hmem⟩ := hroom
    rcases addServer_cases hs with ⟨hno, -⟩ | ⟨-, -, -, n, s, -, rfl⟩
    · rcases hno with hk | hgt | hm
      · exact absurd hk hnew
      · omega
      · exact absurd hm hmem
    · rintro ⟨hkept, -⟩
      have hlen : m.list.length + 1 ≤ maxServerCount := hkept.room
      omega

theorem Alloc.boot : Alloc Backend.boot := ⟨List.nodup_nil, by simp [Backend.boot]⟩

/-- **The list is kept as it should be in exactly those runs that add no new server to a full list.** -/
theorem servers_kept_iff (tick0 : Tick) (events : List Ev) :
    Along (step tick0) (fun m x t => Kept t ∧ CallOk m x t) Backend.boot events ↔
      Orderly (step tick0) RoomFor Backend.boot events :=
  along_iff_orderly kept_step crowded_step ⟨⟨List.nodup_nil, Nat.zero_le _⟩, Alloc.boot⟩

/-- A connection that is in progress on the descriptor `fd`. -/
def pending (fd : ℤ) : ConnectOut := ⟨fd, true, .inProgress, 0, 0⟩

/-- Four servers are added, one after the other. -/
def fourServers : List Ev :=
  [.add (10, 0, 0, 1) 514 true (pending 1), .add (10, 0, 0, 2) 514 true (pending 2),
    .add (10, 0, 0, 3) 514 true (pending 3), .add (10, 0, 0, 4) 514 true (pending 4)]

/-- **The fourth server is listed**: three nodes are not more than `ULOG_TCP_MAX_SERVER_COUNT`. -/
theorem fourth_server_listed :
    ¬ Along (step 0) (fun m x t => Kept t ∧ CallOk m x t) Backend.boot fourServers := by
  intro h
  have hlast := Along.last (fourServers.take 3) h rfl rfl
  exact absurd hlast.1.room (by decide)

/-! ## The sockets -/

/-- **The open sockets of the backend are those of the listed nodes**: as sets they are the same, no two nodes
share a descriptor, and `closesocket` was called on open sockets of the backend only. -/
structure SocketsOwned (m : Backend) : Prop where
  same : ∀ fd, fd ∈ m.sys.sockets ↔ 0 < fd ∧ ∃ n ∈ m.list, n.socket = fd
  once : m.list.Pairwise fun n n' => 0 < n.socket → n.socket ≠ n'.socket
  clean : m.sys.misuse = false

theorem mem_fdsOf {l : List Node} {fd : ℤ} : fd ∈ fdsOf l ↔ 0 < fd ∧ ∃ n ∈ l, n.socket = fd := by
  simp only [fdsOf, List.mem_flatMap, Node.fds]
  constructor
  · rintro ⟨n, hn, hfd⟩
    split_ifs at hfd with hpos
    · obtain rfl := List.mem_singleton.1 hfd
      exact ⟨hpos, n, hn, rfl⟩
    · simp at hfd
  · rintro ⟨hpos, n, hn, rfl⟩
    exact ⟨n, hn, by rw [if_pos hpos]; exact List.mem_singleton_self _⟩

theorem Owned.pairwise {l : List Node} (h : (fdsOf l).Nodup) :
    l.Pairwise fun n n' => 0 < n.socket → n.socket ≠ n'.socket := by
  induction l with
  | nil => exact List.Pairwise.nil
  | cons n l ih =>
    have hcons : fdsOf (n :: l) = n.fds ++ fdsOf l := rfl
    rw [hcons, List.nodup_append] at h
    refine List.pairwise_cons.2 ⟨fun n' hn' hpos heq => ?_, ih h.2.1⟩
    have hn : n.socket ∈ n.fds := by
      rw [Node.fds, if_pos hpos]
      exact List.mem_singleton_self _
    exact h.2.2 _ hn _ (mem_fdsOf.2 ⟨hpos, n', hn', heq.symm⟩) rfl

theorem Owned.sockets {m : Backend} (h : Owned (fdsOf m.list) m.sys) : SocketsOwned m :=
  ⟨fun _ => (h.perm.mem_iff).symm.trans mem_fdsOf, Owned.pairwise (h.perm.nodup_iff.2 h.nodup), h.clean⟩

/-- **Every step accounts for its sockets.** -/
theorem owned_step {tick0 : Tick} (m : Backend) (x : Ev) (t : Backend) (h : Owned (fdsOf m.list) m.sys ∧ Alloc m)
    (hs : step tick0 m x = some t) : Owned (fdsOf t.list) t.sys ∧ Alloc t :=
  have hstep := listStep h.2 hs
  ⟨hstep.owned h.1, hstep.alloc h.2⟩

/-- **The backend owns its sockets exactly**, in every state of every run. -/
theorem sockets_owned (tick0 : Tick) (events : List Ev) :
    Upholds (step tick0) SocketsOwned Backend.boot events :=
  upholds_of_inv (fun _ h => h.1.sockets) owned_step ⟨⟨List.Perm.refl _, List.nodup_nil, rfl⟩, Alloc.boot⟩

end W601.UlogTcp
