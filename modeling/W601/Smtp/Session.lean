import W601.Lib.Heap
import W601.Smtp.Base64

/-!
# The session in memory

`smtp_session` with its pointers: three strings and the list of the receivers, whose nodes and addresses are blocks of
the heap. The functions here follow the pointers; `none` is a null pointer, or one to a block that was freed, that is
followed, and a loop that does not end. Each allocation has its own outcome.

* `Receivers`: the list in the heap, with what each call does to it (`addReceiver_spec`, `deleteReceiver_spec`, …).
* `Stores`: what a session holds.
-/

namespace W601.Smtp.Mem

open CMem

/-- A string argument. It lies in one region of the address space, which has 512 MiB. -/
structure CStr where
  bytes : List UInt8
  nulFree : 0 ∉ bytes
  short : bytes.length < 2 ^ 29

/-- The outcome of `rt_malloc`: null, or what happens to be in the block. -/
abbrev Malloc := Option (ℤ → UInt8)

/-- A block of the heap: a string, or `smtp_address_to_t`. -/
inductive Block
  | str (mem : ℤ → UInt8)
  | node (addr next : Option ℕ)

/-- The strings of the server. -/
inductive ServerString
  | serverDomain
  | serverIp
  | serverPort
  deriving DecidableEq

/-- `smtp_session`, but for what belongs to a mail that is being sent. -/
structure Session where
  heap : Heap Block
  server : ServerString → Option ℕ
  /-- `username`, `password` and `address_from`, one behind the other. -/
  fields : ℤ → UInt8
  addressTo : Option ℕ

def usernameAt : ℤ := 0
def passwordAt : ℤ := 100
def addressFromAt : ℤ := 200

/-- `smtp_client_init`. -/
def Session.init : Session := ⟨.empty, fun _ => none, fun _ => 0, none⟩

/-! ## Pointers -/

section Pointers

variable (s : Session) (p : ℕ)

/-- `p->addr` and `p->next`. -/
def Session.node : Option (Option ℕ × Option ℕ) :=
  match s.heap.cells p with
  | some (.node addr next) => some (addr, next)
  | _ => none

/-- The string at `p`. -/
def Session.str : Option (ℤ → UInt8) :=
  match s.heap.cells p with
  | some (.str m) => some m
  | _ => none

/-- `p->next`. -/
def Session.next : Option (Option ℕ) := (s.node p).map (·.2)

/-- Write a block. -/
def Session.put (b : Block) : Option Session := (s.heap.put p b).map fun h => { s with heap := h }

/-- `p->next = next`. -/
def Session.setNext (next : Option ℕ) : Option Session := (s.node p).bind fun n => s.put p (.node n.1 next)

/-- `p->addr = addr`. -/
def Session.setAddr (addr : Option ℕ) : Option Session := (s.node p).bind fun n => s.put p (.node addr n.2)

/-- `memset` and `memcpy` to the start of a string. -/
def Session.write (bytes : List UInt8) : Option Session := (s.str p).bind fun m => s.put p (.str (store m 0 bytes))

/-- `rt_free`. -/
def Session.free : Option ℕ → Option Session
  | none => some s
  | some p => (s.heap.dealloc p).map fun h => { s with heap := h }

/-- A block is allocated; its address is the bound of the heap before. -/
def Session.alloc (b : Block) : Session := { s with heap := s.heap.alloc b }

/-- Enough steps to go through a list. -/
def Session.fuel : ℕ := s.heap.bound + 1

end Pointers

/-! ## The server -/

/-- `rt_strdup`. -/
def rtStrdup (mem : Malloc) (str : CStr) (s : Session) : Session × Option ℕ :=
  match mem with
  | none => (s, none)
  | some dirt => (s.alloc (.str (store dirt 0 (str.bytes ++ [0]))), some s.heap.bound)

/-- Free a string of the server, and keep a copy of another one. -/
def replace (f : ServerString) (mem : Malloc) (str : CStr) (s : Session) : Option Session := do
  let s ← s.free (s.server f)
  let (s, p) := rtStrdup mem str s
  return { s with server := Function.update s.server f p }

/-- `smtp_set_server_addr`; `domain` says whether the address type is `ADDRESS_TYPE_DOMAIN`. -/
def smtpSetServerAddr (addrMem portMem : Malloc) (serverAddr : CStr) (domain : Bool) (port : CStr) (s : Session) :
    Option (Session × Bool) :=
  let addrLen := serverAddr.bytes.length % 2 ^ 16
  let setPort (s : Session) : Option (Session × Bool) :=
    if port.bytes.length ≤ 0 then some (s, false) else (replace .serverPort portMem port s).map (·, true)
  if domain then (replace .serverDomain addrMem serverAddr s).bind setPort
  else if addrLen > 15 then some (s, false)
  else (replace .serverIp addrMem serverAddr s).bind setPort

/-! ## The credentials -/

/-- `smtp_base64_encode` to a target in the session. -/
def encodeAt (target : ℤ) (targetLen : ℕ) (source : List UInt8) (m : ℤ → UInt8) : ℕ × (ℤ → UInt8) :=
  let r := smtpBase64EncodeMem (fun i => m (target + i)) targetLen source
  (r.1, fun i => r.2 (i - target))

/-- The three `memset` of `smtp_set_auth`. -/
def cleared (m : ℤ → UInt8) : ℤ → UInt8 :=
  let m := store m addressFromAt (List.replicate maxAddrLen 0)
  let m := store m usernameAt (List.replicate (maxAuthLen * 2) 0)
  store m passwordAt (List.replicate (maxAuthLen * 2) 0)

/-- `smtp_set_auth`. -/
def smtpSetAuth (username password : CStr) (s : Session) : Session × Bool :=
  let usernameLen := username.bytes.length % 2 ^ 32
  let passwordLen := password.bytes.length % 2 ^ 32
  if usernameLen = 0 ∨ passwordLen = 0 then (s, false)
  else if usernameLen > maxAddrLen then (s, false)
  else
    let m := store (cleared s.fields) addressFromAt (username.bytes.take usernameLen)
    let u := encodeAt usernameAt (maxAuthLen * 2) username.bytes m
    if u.1 = 0 then ({ s with fields := u.2 }, false)
    else
      let p := encodeAt passwordAt (maxAuthLen * 2) password.bytes u.2
      ({ s with fields := p.2 }, p.1 ≠ 0)

/-! ## The receivers -/

/-- `smtp_add_receiver` behind the new node `p`. -/
def addAddr (strMem : Malloc) (receiverAddr : CStr) (p : ℕ) (s : Session) : Option (Session × Bool) :=
  match strMem with
  | none => do
    let s ← s.setAddr p none
    -- find the node in front of the new one
    let last ← seek s.next (some p) s.fuel s.addressTo
    let s ← s.setNext last none
    let s ← s.free (some p)
    return (s, false)
  | some dirt => do
    let q := s.heap.bound
    let s ← (s.alloc (.str dirt)).setAddr p (some q)
    let s ← s.write q (List.replicate (receiverAddr.bytes.length + 1) 0)
    let s ← s.write q receiverAddr.bytes
    return (s, true)

/-- `smtp_add_receiver`. -/
def smtpAddReceiver (nodeMem strMem : Malloc) (receiverAddr : CStr) (s : Session) : Option (Session × Bool) :=
  let p := s.heap.bound
  match s.addressTo with
  | none =>
    match nodeMem with
    | none => some ({ s with addressTo := none }, false)
    -- `memset` clears the whole node
    | some _ => addAddr strMem receiverAddr p { s.alloc (.node none none) with addressTo := some p }
  | some head => do
    let last ← seek s.next none s.fuel (some head)
    match nodeMem with
    | none => (s.setNext last none).map (·, false)
    | some _ => ((s.alloc (.node none none)).setNext last (some p)).bind (addAddr strMem receiverAddr p)

/-- The loop of `smtp_clear_receiver`. -/
def clearLoop : ℕ → Option ℕ → Session → Option Session
  | 0, _, _ => none
  | _ + 1, none, s => some { s with addressTo := none }
  | n + 1, some p, s => do
    let (addr, next) ← s.node p
    let s ← s.free addr
    let s ← s.free (some p)
    clearLoop n next s

/-- `smtp_clear_receiver`. -/
def smtpClearReceiver (s : Session) : Option Session := clearLoop s.fuel s.addressTo s

/-- The link in front of a node, which is behind `last`. -/
def Session.linkBehind (last next : Option ℕ) (s : Session) : Option Session :=
  match last with
  | none => some { s with addressTo := next }
  | some l => s.setNext l next

/-- The loop of `smtp_delete_receiver`; `last` is the node in front of `p`. -/
def deleteLoop (receiverAddr : CStr) (s : Session) : ℕ → Option ℕ → Option ℕ → Option (Session × Bool)
  | 0, _, _ => none
  | _ + 1, _, none => some (s, false)
  | n + 1, last, some p => do
    let (addr, next) ← s.node p
    let m ← addr.bind s.str
    -- `memcmp` over the length of the string that is looked for
    if At m 0 receiverAddr.bytes then
      let s ← s.linkBehind last next
      let s ← s.free addr
      let s ← s.free (some p)
      return (s, true)
    else deleteLoop receiverAddr s n (some p) next

/-- `smtp_delete_receiver`. -/
def smtpDeleteReceiver (receiverAddr : CStr) (s : Session) : Option (Session × Bool) :=
  deleteLoop receiverAddr s s.fuel none s.addressTo

/-! ## Following pointers -/

section Steps

variable {s : Session} {p : ℕ} {a n : Option ℕ} {m : ℤ → UInt8} {b : Block}

theorem node_eq (hp : s.heap.cells p = some (.node a n)) : s.node p = some (a, n) := by rw [Session.node, hp]

theorem next_eq (hp : s.heap.cells p = some (.node a n)) : s.next p = some n := by
  rw [Session.next, node_eq hp]
  rfl

theorem str_eq (hp : s.heap.cells p = some (.str m)) : s.str p = some m := by rw [Session.str, hp]

theorem put_eq (b' : Block) (hp : s.heap.cells p = some b) : s.put p b' = some { s with heap := s.heap.set p b' } := by
  rw [Session.put, Heap.put_eq hp]
  rfl

theorem setNext_eq (k : Option ℕ) (hp : s.heap.cells p = some (.node a n)) :
    s.setNext p k = some { s with heap := s.heap.set p (.node a k) } := by
  rw [Session.setNext, node_eq hp, Option.bind_some, put_eq _ hp]

theorem setAddr_eq (k : Option ℕ) (hp : s.heap.cells p = some (.node a n)) :
    s.setAddr p k = some { s with heap := s.heap.set p (.node k n) } := by
  rw [Session.setAddr, node_eq hp, Option.bind_some, put_eq _ hp]

theorem write_eq (bytes : List UInt8) (hp : s.heap.cells p = some (.str m)) :
    s.write p bytes = some { s with heap := s.heap.set p (.str (store m 0 bytes)) } := by
  rw [Session.write, str_eq hp, Option.bind_some, put_eq _ hp]

theorem free_eq (hp : s.heap.cells p = some b) : s.free (some p) = some { s with heap := s.heap.drop p } := by
  rw [Session.free, Heap.dealloc_eq hp]
  rfl

end Steps

/-! ## The list in the heap -/

/-- A receiver: its node, the block of its address, and the address. -/
structure Entry where
  node : ℕ
  str : ℕ
  addr : List UInt8

/-- The receiver is in memory, with the given link. -/
def Entry.In (cells : ℕ → Option Block) (e : Entry) (next : Option ℕ) : Prop :=
  cells e.node = some (.node (some e.str) next) ∧ ∃ m, cells e.str = some (.str m) ∧ StrAt m 0 e.addr

/-- The blocks of the receivers. -/
def footprint (l : List Entry) : List ℕ := l.flatMap fun e => [e.node, e.str]

@[simp] theorem footprint_nil : footprint [] = [] := rfl

@[simp] theorem footprint_append (l l' : List Entry) : footprint (l ++ l') = footprint l ++ footprint l' :=
  List.flatMap_append

@[simp] theorem footprint_cons (e : Entry) (l : List Entry) : footprint (e :: l) = e.node :: e.str :: footprint l := rfl

theorem node_mem {e : Entry} {l : List Entry} (h : e ∈ l) : e.node ∈ footprint l :=
  List.mem_flatMap.2 ⟨e, h, by simp⟩

theorem str_mem {e : Entry} {l : List Entry} (h : e ∈ l) : e.str ∈ footprint l :=
  List.mem_flatMap.2 ⟨e, h, by simp⟩

/-- A segment of the list. -/
abbrev Part (cells : ℕ → Option Block) (p : Option ℕ) (l : List Entry) (q : Option ℕ) : Prop :=
  Seg Entry.node (Entry.In cells) p l q

section Part

variable {cells cells' : ℕ → Option Block} {p q : Option ℕ} {l : List Entry} {e : Entry} {n : Option ℕ}

theorem Entry.In.congr (h : e.In cells n) (h1 : cells' e.node = cells e.node) (h2 : cells' e.str = cells e.str) :
    e.In cells' n := by
  rw [Entry.In, h1, h2]
  exact h

/-- What leaves the blocks alone leaves the segment alone. -/
theorem Part.frame (h : Part cells p l q) (hf : ∀ x ∈ footprint l, cells' x = cells x) : Part cells' p l q := by
  apply Seg.mono h
  intro e he n hn
  exact hn.congr (hf _ (node_mem he)) (hf _ (str_mem he))

/-- The last receiver gets another link. -/
theorem Part.relink {q' : Option ℕ} (h : Part cells p (l ++ [e]) q) (hf : ∀ x ∈ footprint l, cells' x = cells x)
    (hn : cells' e.node = some (.node (some e.str) q')) (hs : cells' e.str = cells e.str) : Part cells' p (l ++ [e]) q' := by
  obtain ⟨k, -, m, hm, htext⟩ := Seg.mem h (show e ∈ l ++ [e] by simp)
  apply Seg.relink h
  · intro y hy k hk
    exact hk.congr (hf _ (node_mem hy)) (hf _ (str_mem hy))
  · exact ⟨hn, m, hs.trans hm, htext⟩

theorem Part.lt_bound {h : Heap Block} (hl : Part h.cells p l q) {x : ℕ} (hx : x ∈ footprint l) : x < h.bound := by
  obtain ⟨e, he, hx⟩ := List.mem_flatMap.1 hx
  obtain ⟨n, hnode, m, hstr, -⟩ := Seg.mem hl he
  rcases List.mem_cons.1 hx with rfl | hx
  · exact Heap.lt_bound hnode
  · obtain rfl := List.mem_singleton.1 hx
    exact Heap.lt_bound hstr

/-- There is fuel for a walk through the segment. -/
theorem Part.length_lt {s : Session} (hl : Part s.heap.cells p l q) (hnodup : (footprint l).Nodup) : l.length < s.fuel := by
  have hle := Heap.length_le_bound hnodup fun x hx => hl.lt_bound hx
  have htwo : (footprint l).length = 2 * l.length := by
    clear hl hnodup hle
    induction l with
    | nil => rfl
    | cons e l ih =>
      simp only [footprint_cons, List.length_cons, ih]
      ring
  unfold Session.fuel
  omega

end Part

/-- **The receivers of a session**: a list that ends with a null pointer, every block of it another one. -/
structure Receivers (h : Heap Block) (head : Option ℕ) (l : List Entry) : Prop where
  part : Part h.cells head l none
  nodup : (footprint l).Nodup

theorem Receivers.frame {h h' : Heap Block} {head : Option ℕ} {l : List Entry} (hl : Receivers h head l)
    (hf : ∀ x ∈ footprint l, h'.cells x = h.cells x) : Receivers h' head l :=
  ⟨hl.part.frame hf, hl.nodup⟩

/-! ## `smtp_add_receiver` -/

/-- The list behind the allocation of the new node `p`. -/
structure Opened (s : Session) (l : List Entry) (p : ℕ) : Prop where
  part : Part s.heap.cells s.addressTo l (some p)
  node : s.heap.cells p = some (.node none none)
  nodup : (p :: footprint l).Nodup

/-- A string that is copied over zero cells. -/
theorem strAt_copied (dirt : ℤ → UInt8) (a : CStr) :
    StrAt (store (store dirt 0 (List.replicate (a.bytes.length + 1) 0)) 0 a.bytes) 0 a.bytes := by
  refine ⟨(at_append _ _ _ _).2 ⟨at_store _ _ _, ?_, trivial⟩, a.nulFree⟩
  have hzero := (at_store (List.replicate (a.bytes.length + 1) 0) dirt 0).getElem a.bytes.length (by simp)
  rw [store_outside a.bytes _ _ (by omega), hzero, List.getElem_replicate]

section Add

variable {s : Session} {l : List Entry} {p : ℕ}

/-- **The address is stored.** -/
theorem addAddr_stored (h : Opened s l p) (dirt : ℤ → UInt8) (a : CStr) :
    ∃ h', addAddr (some dirt) a p s = some ({ s with heap := h' }, true) ∧
      Receivers h' s.addressTo (l ++ [⟨p, s.heap.bound, a.bytes⟩]) ∧
      ∀ x, x ≠ p → x < s.heap.bound → h'.cells x = s.heap.cells x := by
  have hlt : p < s.heap.bound := Heap.lt_bound h.node
  have hpq : p ≠ s.heap.bound := hlt.ne
  -- the cells of the node and of the string behind each statement
  have hp1 : (s.heap.alloc (.str dirt)).cells p = some (.node none none) := (Heap.alloc_old _ hpq).trans h.node
  have hq1 : (s.heap.alloc (.str dirt)).cells s.heap.bound = some (.str dirt) := Heap.alloc_new ..
  set h1 := s.heap.alloc (.str dirt)
  have hp2 := Heap.set_same (.node (some s.heap.bound) none) hp1
  have hq2 := (Heap.set_other h1 (.node (some s.heap.bound) none) hpq.symm).trans hq1
  set h2 := h1.set p (.node (some s.heap.bound) none)
  set zeros := store dirt 0 (List.replicate (a.bytes.length + 1) 0)
  have hq3 := Heap.set_same (.str zeros) hq2
  have hp3 := (Heap.set_other h2 (.str zeros) hpq).trans hp2
  set h3 := h2.set s.heap.bound (.str zeros)
  have hq4 := Heap.set_same (.str (store zeros 0 a.bytes)) hq3
  have hp4 := (Heap.set_other h3 (.str (store zeros 0 a.bytes)) hpq).trans hp3
  have hframe : ∀ x, x ≠ p → x < s.heap.bound → (h3.set s.heap.bound (.str (store zeros 0 a.bytes))).cells x = s.heap.cells x := by
    intro x hxp hx
    rw [Heap.set_other _ _ hx.ne, Heap.set_other _ _ hx.ne, Heap.set_other _ _ hxp, Heap.alloc_old _ hx.ne]
  obtain ⟨hpl, hnodup⟩ := List.nodup_cons.1 h.nodup
  have hold : ∀ x ∈ footprint l, x ≠ p ∧ x < s.heap.bound := fun x hx => ⟨fun he => hpl (he ▸ hx), h.part.lt_bound hx⟩
  refine ⟨h3.set s.heap.bound (.str (store zeros 0 a.bytes)), ?_, ⟨?_, ?_⟩, hframe⟩
  · have e1 : (s.alloc (.str dirt)).setAddr p (some s.heap.bound) = some { s with heap := h2 } := setAddr_eq _ hp1
    have e2 : ({ s with heap := h2 } : Session).write s.heap.bound (List.replicate (a.bytes.length + 1) 0) =
        some { s with heap := h3 } := write_eq _ hq2
    have e3 : ({ s with heap := h3 } : Session).write s.heap.bound a.bytes =
        some { s with heap := h3.set s.heap.bound (.str (store zeros 0 a.bytes)) } := write_eq _ hq3
    simp only [addAddr, e1, e2, e3, Option.bind_eq_bind, Option.bind_some]
    rfl
  · apply seg_append.2
    refine ⟨some p, h.part.frame fun x hx => hframe x (hold x hx).1 (hold x hx).2, ?_⟩
    exact seg_singleton.2 ⟨rfl, hp4, _, hq4, strAt_copied dirt a⟩
  · rw [footprint_append, footprint_cons, footprint_nil, List.nodup_append]
    refine ⟨hnodup, by simp [hpq], ?_⟩
    intro x hx y hy
    rcases List.mem_cons.1 hy with rfl | hy
    · exact (hold x hx).1
    · obtain rfl := List.mem_singleton.1 hy
      exact (hold x hx).2.ne

/-- **The roll-back** takes the node out again, when it is not the first one. -/
theorem addAddr_rolledBack {e : Entry} (h : Opened s (l ++ [e]) p) (a : CStr) :
    ∃ h', addAddr none a p s = some ({ s with heap := h' }, false) ∧ Receivers h' s.addressTo (l ++ [e]) ∧
      ∀ x, x ≠ p → x ∉ footprint (l ++ [e]) → h'.cells x = s.heap.cells x := by
  obtain ⟨hpl, hnodup⟩ := List.nodup_cons.1 h.nodup
  have hel : e ∈ l ++ [e] := by simp
  have hep : e.node ≠ p := fun he => hpl (he ▸ node_mem hel)
  have hesp : e.str ≠ p := fun he => hpl (he ▸ str_mem hel)
  have hfront : (footprint l).Nodup ∧ (e.node ∉ footprint l ∧ e.str ∉ footprint l) ∧ e.node ≠ e.str := by
    rw [footprint_append, footprint_cons, footprint_nil, List.nodup_append] at hnodup
    obtain ⟨h1, h2, h3⟩ := hnodup
    exact ⟨h1, ⟨fun hx => h3 _ hx _ (by simp) rfl, fun hx => h3 _ hx _ (by simp) rfl⟩, by simpa using h2⟩
  set h1 := s.heap.set p (.node none none)
  have hpart1 : Part h1.cells s.addressTo (l ++ [e]) (some p) :=
    h.part.frame fun x hx => Heap.set_other _ _ fun he => hpl (he ▸ hx)
  have hp1 : h1.cells p = some (.node none none) := Heap.set_same _ h.node
  obtain ⟨-, he1⟩ := seg_singleton.1 (seg_append.1 hpart1).choose_spec.2
  set h2 := h1.set e.node (.node (some e.str) none)
  have hp2 : h2.cells p = some (.node none none) := (Heap.set_other _ _ hep.symm).trans hp1
  have hpart2 : Part h2.cells s.addressTo (l ++ [e]) none := by
    apply hpart1.relink
    · intro x hx
      exact Heap.set_other _ _ fun he => hfront.2.1.1 (he ▸ hx)
    · exact Heap.set_same _ he1.1
    · exact Heap.set_other _ _ hfront.2.2.symm
  refine ⟨h2.drop p, ?_, ⟨?_, hnodup⟩, ?_⟩
  · have e1 : s.setAddr p none = some { s with heap := h1 } := setAddr_eq _ h.node
    have hlink : ∀ (x : Entry) n, x.In h1.cells n → ({ s with heap := h1 } : Session).next x.node = some n :=
      fun x n hx => next_eq hx.1
    have e2 : seek ({ s with heap := h1 } : Session).next (some p) ({ s with heap := h1 } : Session).fuel s.addressTo = some e.node := by
      apply seek_eq hlink hpart1
      · intro y hy hyp
        exact hpl (Option.some.inj hyp ▸ node_mem hy)
      · have hlen := Part.length_lt (s := { s with heap := h1 }) hpart1 hnodup
        rw [List.length_append, List.length_singleton] at hlen
        omega
    have e3 : ({ s with heap := h1 } : Session).setNext e.node none = some { s with heap := h2 } := setNext_eq _ he1.1
    have e4 : ({ s with heap := h2 } : Session).free (some p) = some { s with heap := h2.drop p } := free_eq hp2
    simp only [addAddr, e1, e2, e3, e4, Option.bind_eq_bind, Option.bind_some]
    rfl
  · exact hpart2.frame fun x hx => Heap.drop_other _ fun he => hpl (he ▸ hx)
  · intro x hxp hx
    have hxe : x ≠ e.node := fun he => hx (he ▸ node_mem hel)
    rw [Heap.drop_other _ hxp, Heap.set_other _ _ hxe, Heap.set_other _ _ hxp]

/-- **The roll-back of the first node** follows a null pointer: no node stands in front of it. -/
theorem addAddr_first (h : Opened s [] p) (a : CStr) : addAddr none a p s = none := by
  have e1 : s.setAddr p none = some { s with heap := s.heap.set p (.node none none) } := setAddr_eq _ h.node
  have hhead : s.addressTo = some p := h.part
  set h1 := s.heap.set p (.node none none)
  have hnext : ({ s with heap := h1 } : Session).next p = some none := next_eq (Heap.set_same _ h.node)
  have e2 : seek ({ s with heap := h1 } : Session).next (some p) ({ s with heap := h1 } : Session).fuel s.addressTo = none :=
    (congrArg _ hhead).trans (seek_null hnext (by simp) _)
  simp only [addAddr, e1, e2, Option.bind_eq_bind, Option.bind_some, Option.bind_none]

/-- The first node. -/
theorem opened_first (s : Session) :
    Opened { s.alloc (.node none none) with addressTo := some s.heap.bound } [] s.heap.bound :=
  ⟨rfl, Heap.alloc_new .., by simp⟩

/-- The last node is found. -/
theorem seek_last {e : Entry} (h : Receivers s.heap s.addressTo (l ++ [e])) :
    seek s.next none s.fuel s.addressTo = some e.node := by
  have hlink : ∀ (x : Entry) n, x.In s.heap.cells n → s.next x.node = some n := fun x n hx => next_eq hx.1
  apply seek_eq hlink h.part
  · intro y _
    simp
  · have hlen := h.part.length_lt h.nodup
    rw [List.length_append, List.length_singleton] at hlen
    omega

/-- The last node, which the new one is linked to. -/
theorem Receivers.last {h : Heap Block} {head : Option ℕ} {e : Entry} (hl : Receivers h head (l ++ [e])) :
    h.cells e.node = some (.node (some e.str) none) ∧ e.node ∉ footprint l ∧ e.node ≠ e.str := by
  obtain ⟨-, he⟩ := seg_singleton.1 (seg_append.1 hl.part).choose_spec.2
  have hnodup := hl.nodup
  rw [footprint_append, footprint_cons, footprint_nil, List.nodup_append] at hnodup
  exact ⟨he.1, fun hx => hnodup.2.2 _ hx _ (by simp) rfl, by simpa using hnodup.2.1⟩

/-- **A node behind the last one.** -/
theorem opened_behind {e : Entry} (h : Receivers s.heap s.addressTo (l ++ [e])) :
    ∃ h', (s.alloc (.node none none)).setNext e.node (some s.heap.bound) = some { s with heap := h' } ∧
      Opened { s with heap := h' } (l ++ [e]) s.heap.bound ∧ h'.bound = s.heap.bound + 1 ∧
      ∀ x < s.heap.bound, x ∉ footprint (l ++ [e]) → h'.cells x = s.heap.cells x := by
  obtain ⟨hnode, hfront, hstr⟩ := h.last
  have hlt : ∀ x ∈ footprint (l ++ [e]), x < s.heap.bound := fun x hx => h.part.lt_bound hx
  have hel : e ∈ l ++ [e] := by simp
  set h1 := s.heap.alloc (.node none none)
  have hnode1 : h1.cells e.node = some (.node (some e.str) none) := (Heap.alloc_old _ (hlt _ (node_mem hel)).ne).trans hnode
  have hpart1 : Part h1.cells s.addressTo (l ++ [e]) none := h.part.frame fun x hx => Heap.alloc_old _ (hlt x hx).ne
  have hnew : h1.cells s.heap.bound = some (.node none none) := Heap.alloc_new ..
  refine ⟨h1.set e.node (.node (some e.str) (some s.heap.bound)), setNext_eq _ hnode1, ⟨?_, ?_, ?_⟩, rfl, ?_⟩
  · apply hpart1.relink
    · intro x hx
      exact Heap.set_other _ _ fun he => hfront (he ▸ hx)
    · exact Heap.set_same _ hnode1
    · exact Heap.set_other _ _ hstr.symm
  · rw [Heap.set_other _ _ (hlt _ (node_mem hel)).ne', hnew]
  · exact List.nodup_cons.2 ⟨fun hx => (hlt _ hx).ne rfl, h.nodup⟩
  · intro x hx hxl
    have hxe : x ≠ e.node := fun he => hxl (he ▸ node_mem hel)
    rw [Heap.set_other _ _ hxe, Heap.alloc_old _ hx.ne]

theorem Receivers.head_none {h : Heap Block} {head : Option ℕ} (hl : Receivers h head []) : head = none := hl.part

theorem Receivers.head_some {h : Heap Block} {head : Option ℕ} {e : Entry} (hl : Receivers h head (e :: l)) : head = some e.node :=
  hl.part.1

/-- `smtp_add_receiver` for a list that is not empty. -/
theorem addReceiver_behind {e : Entry} (h : Receivers s.heap s.addressTo (l ++ [e])) (nodeMem strMem : Malloc) (a : CStr) :
    smtpAddReceiver nodeMem strMem a s =
      match nodeMem with
      | none => (s.setNext e.node none).map (·, false)
      | some _ => ((s.alloc (.node none none)).setNext e.node (some s.heap.bound)).bind (addAddr strMem a s.heap.bound) := by
  obtain ⟨head, hhead⟩ : ∃ p, s.addressTo = some p := by
    cases l with
    | nil => exact ⟨_, h.head_some⟩
    | cons x l => exact ⟨_, h.head_some⟩
  have hlast := seek_last h
  rw [hhead] at hlast
  simp only [smtpAddReceiver, hhead, hlast, Option.bind_eq_bind, Option.bind_some]

/-- **A receiver is added** at the end of the list. -/
theorem addReceiver_stored (h : Receivers s.heap s.addressTo l) (dirtNode dirt : ℤ → UInt8) (a : CStr) :
    ∃ h' head, smtpAddReceiver (some dirtNode) (some dirt) a s = some ({ s with heap := h', addressTo := head }, true) ∧
      Receivers h' head (l ++ [⟨s.heap.bound, s.heap.bound + 1, a.bytes⟩]) ∧
      ∀ x < s.heap.bound, x ∉ footprint l → h'.cells x = s.heap.cells x := by
  rcases List.eq_nil_or_concat l with rfl | ⟨l, e, rfl⟩
  · obtain ⟨h', hrun, hlist, hframe⟩ := addAddr_stored (opened_first s) dirt a
    refine ⟨h', some s.heap.bound, ?_, hlist, fun x hx _ => ?_⟩
    · have hhead := h.head_none
      simp only [smtpAddReceiver, hhead]
      exact hrun
    · rw [hframe x hx.ne (by simp [Session.alloc]; omega)]
      exact Heap.alloc_old _ hx.ne
  · rw [List.concat_eq_append] at h ⊢
    obtain ⟨h1, hset, hopen, hbound, hframe1⟩ := opened_behind h
    obtain ⟨h', hrun, hlist, hframe⟩ := addAddr_stored hopen dirt a
    refine ⟨h', s.addressTo, ?_, ?_, fun x hx hxl => ?_⟩
    · rw [addReceiver_behind h]
      simp only [hset, Option.bind_some]
      exact hrun
    · simp only [hbound] at hlist
      exact hlist
    · rw [hframe x hx.ne (by simp only [hbound]; omega), hframe1 x hx hxl]

/-- **No node**: the list stays. -/
theorem addReceiver_noNode (h : Receivers s.heap s.addressTo l) (strMem : Malloc) (a : CStr) :
    ∃ h', smtpAddReceiver none strMem a s = some ({ s with heap := h' }, false) ∧ Receivers h' s.addressTo l ∧
      ∀ x, x ∉ footprint l → h'.cells x = s.heap.cells x := by
  rcases List.eq_nil_or_concat l with rfl | ⟨l, e, rfl⟩
  · refine ⟨s.heap, ?_, h, fun x _ => rfl⟩
    obtain ⟨heap, server, fields, head⟩ := s
    obtain rfl : head = none := h.head_none
    rfl
  · rw [List.concat_eq_append] at h ⊢
    obtain ⟨hnode, hfront, hstr⟩ := h.last
    refine ⟨s.heap.set e.node (.node (some e.str) none), ?_, ⟨?_, h.nodup⟩, fun x hx => ?_⟩
    · rw [addReceiver_behind h]
      simp only [setNext_eq none hnode]
      rfl
    · apply h.part.relink
      · intro x hx
        exact Heap.set_other _ _ fun he => hfront (he ▸ hx)
      · exact Heap.set_same _ hnode
      · exact Heap.set_other _ _ hstr.symm
    · exact Heap.set_other _ _ fun he => hx (he ▸ node_mem (by simp))

/-- **No string, behind another receiver**: the list stays. -/
theorem addReceiver_noStr {e : Entry} (h : Receivers s.heap s.addressTo (l ++ [e])) (dirtNode : ℤ → UInt8) (a : CStr) :
    ∃ h', smtpAddReceiver (some dirtNode) none a s = some ({ s with heap := h' }, false) ∧ Receivers h' s.addressTo (l ++ [e]) ∧
      ∀ x < s.heap.bound, x ∉ footprint (l ++ [e]) → h'.cells x = s.heap.cells x := by
  obtain ⟨h1, hset, hopen, -, hframe1⟩ := opened_behind h
  obtain ⟨h', hrun, hlist, hframe⟩ := addAddr_rolledBack hopen a
  refine ⟨h', ?_, hlist, fun x hx hxl => ?_⟩
  · rw [addReceiver_behind h]
    simp only [hset, Option.bind_some]
    exact hrun
  · rw [hframe x hx.ne hxl, hframe1 x hx hxl]

/-- **No string for the first receiver**: the call does not return. -/
theorem addReceiver_first (h : s.addressTo = none) (dirtNode : ℤ → UInt8) (a : CStr) :
    smtpAddReceiver (some dirtNode) none a s = none := by
  simp only [smtpAddReceiver, h]
  exact addAddr_first (opened_first s) a

end Add

/-! ## `smtp_clear_receiver` and `smtp_delete_receiver` -/

section Remove

variable {s : Session} {l front back : List Entry} {e : Entry} {p n : Option ℕ} {a : CStr}

/-- A node is not a string. -/
theorem Entry.In.ne {cells : ℕ → Option Block} (h : e.In cells n) : e.node ≠ e.str := by
  obtain ⟨hnode, m, hstr, -⟩ := h
  intro he
  rw [he, hstr] at hnode
  exact Block.noConfusion (Option.some.inj hnode)

/-- Both blocks of a receiver are freed. -/
theorem free_entry (h : e.In s.heap.cells n) :
    s.free (some e.str) = some { s with heap := s.heap.drop e.str } ∧
      ({ s with heap := s.heap.drop e.str } : Session).free (some e.node) =
        some { s with heap := (s.heap.drop e.str).drop e.node } := by
  have hne := h.ne
  obtain ⟨hnode, m, hstr, -⟩ := h
  have hnode' : (s.heap.drop e.str).cells e.node = some (.node (some e.str) n) := (Heap.drop_other _ hne).trans hnode
  exact ⟨free_eq hstr, free_eq (s := { s with heap := s.heap.drop e.str }) hnode'⟩

/-- **The list is cleared.** -/
theorem clearLoop_spec : ∀ {l : List Entry} {p : Option ℕ} {k : ℕ} {s : Session}, Part s.heap.cells p l none →
    (footprint l).Nodup → l.length < k → ∃ h', clearLoop k p s = some { s with heap := h', addressTo := none } ∧
      ∀ x, x ∉ footprint l → h'.cells x = s.heap.cells x := by
  intro l
  induction l with
  | nil =>
    intro p k s hpart _ hk
    obtain ⟨k, rfl⟩ := Nat.exists_eq_succ_of_ne_zero (show k ≠ 0 by omega)
    obtain rfl : p = none := hpart
    exact ⟨s.heap, rfl, fun x _ => rfl⟩
  | cons e l ih =>
    intro p k s hpart hnodup hk
    obtain ⟨k, rfl⟩ := Nat.exists_eq_succ_of_ne_zero (show k ≠ 0 by omega)
    obtain ⟨rfl, n, he, hrest⟩ := hpart
    rw [footprint_cons, List.nodup_cons, List.nodup_cons] at hnodup
    obtain ⟨hnode, hstr, hnodup⟩ := hnodup
    obtain ⟨e1, e2⟩ := free_entry he
    have hframe : ∀ x, x ≠ e.node → x ≠ e.str → ((s.heap.drop e.str).drop e.node).cells x = s.heap.cells x :=
      fun x h1 h2 => (Heap.drop_other _ h1).trans (Heap.drop_other _ h2)
    have hrest' : Part ((s.heap.drop e.str).drop e.node).cells n l none := by
      apply Part.frame hrest
      intro x hx
      exact hframe x (fun h => hnode (h ▸ List.mem_cons_of_mem _ hx)) fun h => hstr (h ▸ hx)
    obtain ⟨h', hrun, hkeep⟩ := ih (s := { s with heap := (s.heap.drop e.str).drop e.node }) hrest' hnodup
      (Nat.lt_of_succ_lt_succ hk)
    refine ⟨h', ?_, fun x hx => ?_⟩
    · rw [clearLoop, node_eq he.1]
      simp only [e1, e2, Option.bind_eq_bind, Option.bind_some]
      exact hrun
    · obtain ⟨h1, hx⟩ := not_or.1 (List.mem_cons.not.1 hx)
      obtain ⟨h2, hx⟩ := not_or.1 (List.mem_cons.not.1 hx)
      rw [hkeep x hx, hframe x h1 h2]

theorem clearReceiver_spec (h : Receivers s.heap s.addressTo l) :
    ∃ h', smtpClearReceiver s = some { s with heap := h', addressTo := none } ∧
      ∀ x, x ∉ footprint l → h'.cells x = s.heap.cells x :=
  clearLoop_spec h.part h.nodup (h.part.length_lt h.nodup)

/-- A receiver that the loop goes past. -/
theorem deleteLoop_next (he : e.In s.heap.cells n) (hno : ¬ a.bytes <+: e.addr) (k : ℕ) (last : Option ℕ) :
    deleteLoop a s (k + 1) last (some e.node) = deleteLoop a s k (some e.node) n := by
  obtain ⟨hnode, m, hstr, htext⟩ := he
  have hat : ¬ At m 0 a.bytes := fun hat => hno ((at_iff_begins htext a.nulFree).1 hat)
  rw [deleteLoop, node_eq hnode]
  simp only [Option.bind_eq_bind, Option.bind_some, str_eq hstr, if_neg hat]

/-- **The receivers in front of the one that is found.** -/
theorem deleteLoop_front : ∀ {front : List Entry} {p q last : Option ℕ} {k : ℕ}, Part s.heap.cells p front q →
    (∀ e ∈ front, ¬ a.bytes <+: e.addr) →
    deleteLoop a s (front.length + k) last p = deleteLoop a s k ((front.getLast?.map (·.node)).or last) q := by
  intro front
  induction front with
  | nil =>
    intro p q last k hpart _
    obtain rfl : p = q := hpart
    rw [List.length_nil, Nat.zero_add]
    rfl
  | cons e front ih =>
    intro p q last k hpart hno
    obtain ⟨rfl, n, he, hrest⟩ := hpart
    have hk : (e :: front).length + k = front.length + k + 1 := by
      rw [List.length_cons]
      omega
    rw [hk, deleteLoop_next he (hno e List.mem_cons_self), ih hrest fun x hx => hno x (List.mem_cons_of_mem e hx)]
    congr 1
    cases hlast : front.getLast? with
    | none =>
      obtain rfl := List.getLast?_eq_none_iff.1 hlast
      rfl
    | some x =>
      rw [List.getLast?_cons, hlast]
      rfl

/-- **No receiver begins with the string.** -/
theorem deleteReceiver_absent (h : Receivers s.heap s.addressTo l) (hno : ∀ e ∈ l, ¬ a.bytes <+: e.addr) :
    smtpDeleteReceiver a s = some (s, false) := by
  obtain ⟨k, hk⟩ : ∃ k, s.fuel = l.length + (k + 1) := ⟨s.fuel - l.length - 1, by have := h.part.length_lt h.nodup; omega⟩
  rw [smtpDeleteReceiver, hk, deleteLoop_front h.part hno, deleteLoop]

theorem footprint_perm (front back : List Entry) (e : Entry) :
    (footprint (front ++ e :: back)).Perm (e.node :: e.str :: footprint (front ++ back)) :=
  List.Perm.flatMap_right _ List.perm_middle

/-- The receiver that the loop takes out: `t` is the session behind the change of the link in front of it. -/
theorem deleteLoop_found {t : Session} {last : Option ℕ} (he : e.In s.heap.cells n) (he' : e.In t.heap.cells n)
    (hyes : a.bytes <+: e.addr) (hlink : s.linkBehind last n = some t) (k : ℕ) :
    deleteLoop a s (k + 1) last (some e.node) = some ({ t with heap := (t.heap.drop e.str).drop e.node }, true) := by
  obtain ⟨e1, e2⟩ := free_entry he'
  obtain ⟨hnode, m, hstr, htext⟩ := he
  have hat : At m 0 a.bytes := (at_iff_begins htext a.nulFree).2 hyes
  rw [deleteLoop, node_eq hnode]
  simp only [Option.bind_eq_bind, Option.bind_some, str_eq hstr, if_pos hat, hlink, e1, e2]
  rfl

/-- The list when a node that is not in it is freed with its string. -/
theorem Part.dropped {h : Heap Block} {head : Option ℕ} (hl : Part h.cells head l none)
    (hout : ∀ x ∈ footprint l, x ≠ e.node ∧ x ≠ e.str) : Part ((h.drop e.str).drop e.node).cells head l none := by
  apply hl.frame
  intro x hx
  rw [Heap.drop_other _ (hout x hx).1, Heap.drop_other _ (hout x hx).2]

/-- The list when the last node of its front is linked to its back. -/
theorem Part.unlinked {h : Heap Block} {head q n : Option ℕ} {y : Entry} (hfront : Part h.cells head (front ++ [y]) q)
    (hback : Part h.cells n back none) (hnodup : (footprint (front ++ [y] ++ back)).Nodup) :
    Part (h.set y.node (.node (some y.str) n)).cells head (front ++ [y] ++ back) none := by
  obtain ⟨-, hy⟩ := seg_singleton.1 (seg_append.1 hfront).choose_spec.2
  -- the other blocks keep what is in them
  rw [footprint_append, footprint_append, footprint_cons, footprint_nil, List.nodup_append, List.nodup_append] at hnodup
  obtain ⟨⟨-, -, h1⟩, -, h2⟩ := hnodup
  apply seg_append.2
  refine ⟨n, Part.relink hfront ?_ (Heap.set_same _ hy.1) (Heap.set_other _ _ hy.ne.symm), Part.frame hback ?_⟩
  · intro x hx
    exact Heap.set_other _ _ fun he => h1 _ (he ▸ hx) _ (by simp) rfl
  · intro x hx
    exact Heap.set_other _ _ fun he => h2 _ (by simp) _ (he ▸ hx) rfl

/-- **The first receiver that begins with the string** is taken out. -/
theorem deleteReceiver_found (h : Receivers s.heap s.addressTo (front ++ e :: back)) (hno : ∀ x ∈ front, ¬ a.bytes <+: x.addr)
    (hyes : a.bytes <+: e.addr) :
    ∃ h' head, smtpDeleteReceiver a s = some ({ s with heap := h', addressTo := head }, true) ∧
      Receivers h' head (front ++ back) ∧ ∀ x, x ∉ footprint (front ++ e :: back) → h'.cells x = s.heap.cells x := by
  obtain ⟨k, hk⟩ : ∃ k, s.fuel = front.length + (k + 1) := ⟨s.fuel - front.length - 1, by
    have hlen := h.part.length_lt h.nodup
    rw [List.length_append] at hlen
    omega⟩
  have hperm := footprint_perm front back e
  obtain ⟨hnode, hstr, hnodup⟩ : e.node ∉ e.str :: footprint (front ++ back) ∧ e.str ∉ footprint (front ++ back) ∧
      (footprint (front ++ back)).Nodup := by
    rw [← List.nodup_cons, ← List.nodup_cons]
    exact hperm.nodup_iff.1 h.nodup
  have hin : ∀ x ∈ footprint (front ++ back), x ≠ e.node ∧ x ≠ e.str :=
    fun x hx => ⟨fun he => hnode (he ▸ List.mem_cons_of_mem _ hx), fun he => hstr (he ▸ hx)⟩
  obtain ⟨q, hfront, rfl, n, he, hback⟩ := seg_append.1 h.part
  rw [smtpDeleteReceiver, hk, deleteLoop_front hfront hno]
  rcases List.eq_nil_or_concat front with rfl | ⟨front, y, rfl⟩
  · refine ⟨_, n, deleteLoop_found (t := { s with addressTo := n }) he he hyes rfl k, ⟨?_, hnodup⟩, fun x hx => ?_⟩
    · exact Part.dropped hback hin
    · rw [List.nil_append, footprint_cons, List.mem_cons, List.mem_cons, not_or, not_or] at hx
      rw [Heap.drop_other _ hx.1, Heap.drop_other _ hx.2.1]
  · rw [List.concat_eq_append] at *
    have hyl : y.node ∈ footprint (front ++ [y] ++ back) := by
      rw [footprint_append]
      exact List.mem_append_left _ (node_mem (by simp))
    obtain ⟨-, hy⟩ := seg_singleton.1 (seg_append.1 hfront).choose_spec.2
    set h1 := s.heap.set y.node (.node (some y.str) n)
    have he1 : e.In h1.cells n :=
      he.congr (Heap.set_other _ _ (hin _ hyl).1.symm) (Heap.set_other _ _ (hin _ hyl).2.symm)
    have hlast : ((front ++ [y]).getLast?.map (·.node)).or none = some y.node := by simp
    have hlink : s.linkBehind (some y.node) n = some { s with heap := h1 } := setNext_eq n hy.1
    refine ⟨(h1.drop e.str).drop e.node, s.addressTo, ?_, ⟨?_, hnodup⟩, fun x hx => ?_⟩
    · rw [hlast]
      exact deleteLoop_found (t := { s with heap := h1 }) he he1 hyes hlink k
    · exact Part.dropped (Part.unlinked hfront hback hnodup) hin
    · rw [hperm.mem_iff, List.mem_cons, List.mem_cons, not_or, not_or] at hx
      have hxy : x ≠ y.node := fun h => hx.2.2 (h ▸ hyl)
      rw [Heap.drop_other _ hx.1, Heap.drop_other _ hx.2.1, Heap.set_other _ _ hxy]

end Remove

end W601.Smtp.Mem
