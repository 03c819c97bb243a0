import Mathlib

/-!
# Command and status dialogues over a socket

A client writes commands to a peer and reads a status behind each. `Net` is the peer and the network:
any state, any answers. `Item` is what a client has to say: a command with the status it expects, or
plain data. `play` says a list of items, one after the other, and stops at the first command that
cannot be written or is not answered as expected; before each command it reads once more, whatever comes.

* `play_append`: a list of items is said piece by piece.
* `play_complete`: a dialogue that was played to its end was heard as it is written down.
* `play_stops`: behind a check that fails, nothing is written.
* `ledger`: the sockets that are open behind a list of calls, if each close was for an open one.
* `dial`: the address, of those of a name, that takes the connection.
-/

namespace Dialogue

variable {σ : Type*}

/-- The resolver, the network and the peer, with their state. -/
structure Net (σ : Type*) where
  getaddrinfo : σ → Option (List ℕ) × σ
  socket : σ → ℤ × σ
  connect : ℤ → ℕ → σ → Bool × σ
  /-- `none` is an error, no byte the end of the stream. -/
  read : ℤ → ℕ → σ → Option (List UInt8) × σ
  /-- The number of bytes taken, or a negative error. -/
  write : ℤ → List UInt8 → σ → ℤ × σ
  read_le : ∀ fd n e l, (read fd n e).1 = some l → l.length ≤ n

/-- A socket call with its result. -/
inductive NetEv
  | socket (fd : ℤ)
  | connect (fd : ℤ) (ok : Bool)
  | read (fd : ℤ) (n : ℕ) (r : Option (List UInt8))
  | write (fd : ℤ) (buf : List UInt8) (ret : ℤ)
  | close (fd : ℤ)
  deriving DecidableEq

/-- The buffer of a call of `write`. -/
def NetEv.text : NetEv → Option (List UInt8)
  | .write _ b _ => some b
  | _ => none

/-- The result of a read of `n` bytes. -/
def NetEv.status (n : ℕ) : NetEv → Option (Option (List UInt8))
  | .read _ m r => if m = n then some r else none
  | _ => none

/-- The buffers passed to `write`, in order. -/
def writes (es : List NetEv) : List (List UInt8) := es.filterMap NetEv.text

/-- The results of the reads of `n` bytes, in order. -/
def statuses (n : ℕ) (es : List NetEv) : List (Option (List UInt8)) := es.filterMap (NetEv.status n)

@[simp] theorem writes_nil : writes [] = [] := rfl

@[simp] theorem statuses_nil (n : ℕ) : statuses n [] = [] := rfl

section Cons

variable (fd : ℤ) (b : List UInt8) (k : ℤ) (m n : ℕ) (r : Option (List UInt8)) (ok : Bool) (es : List NetEv)

@[simp] theorem writes_socket : writes (.socket fd :: es) = writes es := rfl

@[simp] theorem writes_connect : writes (.connect fd ok :: es) = writes es := rfl

@[simp] theorem writes_read : writes (.read fd m r :: es) = writes es := rfl

@[simp] theorem writes_write : writes (.write fd b k :: es) = b :: writes es := rfl

@[simp] theorem writes_close : writes (.close fd :: es) = writes es := rfl

@[simp] theorem statuses_socket : statuses n (.socket fd :: es) = statuses n es := rfl

@[simp] theorem statuses_connect : statuses n (.connect fd ok :: es) = statuses n es := rfl

@[simp] theorem statuses_read : statuses n (.read fd n r :: es) = r :: statuses n es := by
  simp [statuses, NetEv.status]

theorem statuses_read_ne (h : m ≠ n) : statuses n (.read fd m r :: es) = statuses n es := by
  simp [statuses, NetEv.status, h]

@[simp] theorem statuses_write : statuses n (.write fd b k :: es) = statuses n es := rfl

@[simp] theorem statuses_close : statuses n (.close fd :: es) = statuses n es := rfl

end Cons

@[simp] theorem writes_append (es fs : List NetEv) : writes (es ++ fs) = writes es ++ writes fs :=
  List.filterMap_append

@[simp] theorem statuses_append (n : ℕ) (es fs : List NetEv) :
    statuses n (es ++ fs) = statuses n es ++ statuses n fs :=
  List.filterMap_append

/-- What is heard of a call: a buffer written, or a status read. -/
inductive Utter
  | said (buf : List UInt8)
  | heard (r : Option (List UInt8))
  deriving DecidableEq

def NetEv.utter (n : ℕ) : NetEv → Option Utter
  | .write _ b _ => some (.said b)
  | .read _ m r => if m = n then some (.heard r) else none
  | _ => none

/-- The buffers passed to `write` and the results of the reads of `n` bytes, in order. -/
def talk (n : ℕ) (es : List NetEv) : List Utter := es.filterMap (NetEv.utter n)

theorem talk_append (n : ℕ) (es fs : List NetEv) : talk n (es ++ fs) = talk n es ++ talk n fs :=
  List.filterMap_append

/-- Where nothing is said, the statuses are all there is to hear. -/
theorem talk_of_silent (n : ℕ) {es : List NetEv} (h : writes es = []) :
    talk n es = (statuses n es).map .heard := by
  induction es with
  | nil => rfl
  | cons ev es ih =>
    have hes : writes es = [] := by cases ev <;> simp_all
    have hcons : talk n (ev :: es) = talk n [ev] ++ talk n es := talk_append n [ev] es
    rw [hcons, ih hes]
    cases ev with
    | write fd b k => simp at h
    | read fd m r => by_cases hm : m = n <;> simp [talk, NetEv.utter, statuses, NetEv.status, hm]
    | socket fd => rfl
    | connect fd ok => rfl
    | close fd => rfl

/-- What the client has to say next. -/
inductive Item
  /-- a command and the status that must answer it -/
  | cmd (buf code : List UInt8)
  | data (buf : List UInt8)
  deriving DecidableEq

def Item.text : Item → List UInt8
  | .cmd b _ => b
  | .data b => b

def Item.code : Item → Option (List UInt8)
  | .cmd _ c => some c
  | .data _ => none

/-- The texts of a dialogue. -/
def texts (L : List Item) : List (List UInt8) := L.map Item.text

/-- The statuses that a dialogue expects. -/
def codes (L : List Item) : List (List UInt8) := L.filterMap Item.code

/-- What is to be heard of a dialogue. -/
def script (L : List Item) : List Utter :=
  L.flatMap fun
    | .cmd b c => [.said b, .heard (some c)]
    | .data b => [.said b]

@[simp] theorem codes_cmd (b c : List UInt8) (L : List Item) : codes (.cmd b c :: L) = c :: codes L := rfl

@[simp] theorem codes_data (b : List UInt8) (L : List Item) : codes (.data b :: L) = codes L := rfl

/-- What became of a dialogue. -/
structure Played (σ : Type*) where
  env : σ
  events : List NetEv
  ok : Bool

/-- Events in front of what was played. -/
def Played.after (es : List NetEv) (p : Played σ) : Played σ := { p with events := es ++ p.events }

@[simp] theorem Played.after_env (es : List NetEv) (p : Played σ) : (p.after es).env = p.env := rfl

@[simp] theorem Played.after_events (es : List NetEv) (p : Played σ) : (p.after es).events = es ++ p.events :=
  rfl

@[simp] theorem Played.after_ok (es : List NetEv) (p : Played σ) : (p.after es).ok = p.ok := rfl

/-- Go on with `f` if all went well. -/
def Played.andThen (p : Played σ) (f : σ → Played σ) : Played σ :=
  match p.ok with
  | true => (f p.env).after p.events
  | false => p

theorem Played.after_andThen (es : List NetEv) (p : Played σ) (f : σ → Played σ) :
    (p.after es).andThen f = (p.andThen f).after es := by
  obtain ⟨e, fs, ok⟩ := p
  cases ok <;> simp [Played.andThen, Played.after]

section Play

variable (net : Net σ) (fd : ℤ) (flush status : ℕ)

/-- Say the items: reads of `flush` bytes before, of `status` bytes behind each command. -/
def play : List Item → σ → Played σ
  | [], e => ⟨e, [], true⟩
  | .cmd b c :: L, e =>
    let r := net.read fd flush e
    let n := net.write fd b r.2
    if n.1 ≠ b.length then ⟨n.2, [.read fd flush r.1, .write fd b n.1], false⟩
    else
      let a := net.read fd status n.2
      if a.1 = some c then
        (play L a.2).after [.read fd flush r.1, .write fd b n.1, .read fd status a.1]
      else ⟨a.2, [.read fd flush r.1, .write fd b n.1, .read fd status a.1], false⟩
  | .data b :: L, e =>
    let n := net.write fd b e
    (play L n.2).after [.write fd b n.1]

/-- **A dialogue is said piece by piece.** -/
theorem play_append (L M : List Item) : ∀ e, play net fd flush status (L ++ M) e =
    (play net fd flush status L e).andThen (play net fd flush status M) := by
  induction L with
  | nil => intro e; rfl
  | cons i L ih =>
    intro e
    cases i with
    | cmd b c =>
      simp only [List.cons_append, play]
      split_ifs with h1 h2
      · rfl
      · rw [ih, Played.after_andThen]
      · rfl
    | data b =>
      simp only [List.cons_append, play]
      rw [ih, Played.after_andThen]

variable {net fd flush status}

/-- **A dialogue that was played to its end** was heard as it is written down. -/
theorem play_complete (hfs : flush ≠ status) {L : List Item} : ∀ {e : σ},
    (play net fd flush status L e).ok = true → talk status (play net fd flush status L e).events = script L := by
  induction L with
  | nil => intro e _; rfl
  | cons i L ih =>
    intro e h
    cases i with
    | cmd b c =>
      simp only [play] at h ⊢
      split_ifs at h ⊢ with h1 h2
      rw [Played.after_events, talk_append, ih h, h2]
      simp [talk, NetEv.utter, script, hfs]
    | data b =>
      simp only [play] at h ⊢
      rw [Played.after_events, talk_append, ih h]
      rfl

variable (net fd flush status) in
/-- A command is written, whatever comes of it. -/
theorem play_says (b c : List UInt8) (L : List Item) (e : σ) :
    ∃ t, writes (play net fd flush status (.cmd b c :: L) e).events = b :: t := by
  simp only [play]
  split_ifs <;> exact ⟨_, rfl⟩

variable (net fd flush status) in
/-- Plain data, and one command behind it, are written whatever comes. -/
theorem writes_play_data (b c : List UInt8) (bufs : List (List UInt8)) : ∀ e : σ,
    writes (play net fd flush status (bufs.map .data ++ [.cmd b c]) e).events = bufs ++ [b] := by
  induction bufs with
  | nil =>
    intro e
    simp only [List.map_nil, List.nil_append, play]
    split_ifs <;> rfl
  | cons d bufs ih =>
    intro e
    rw [List.map_cons, List.cons_append, play, Played.after_events, writes_append, ih]
    rfl

/-- The event is a check of the dialogue `L` that fails, the events `pre` having gone before: a status
other than the next one expected, or a command that was not written whole. -/
def CheckFails (status : ℕ) (L : List Item) (pre : List NetEv) : NetEv → Prop
  | .read _ n r => n = status ∧ r ≠ (codes L)[(statuses status pre).length]?
  | .write _ b n => n ≠ b.length ∧ ∃ c, L[(writes pre).length]? = some (.cmd b c)
  | _ => False

/-- A check of the rest of a dialogue, seen from behind its first item. -/
theorem CheckFails.behind (es : List NetEv) {i : Item} {L : List Item} {pre : List NetEv} {ev : NetEv}
    (h : CheckFails status (i :: L) (es ++ pre) ev) (hs : (statuses status es).length = (codes [i]).length)
    (hw : (writes es).length = 1) : CheckFails status L pre ev := by
  cases ev with
  | read fd n r =>
    have hcodes : codes ([i] ++ L) = codes [i] ++ codes L := List.filterMap_append
    rw [List.singleton_append] at hcodes
    refine ⟨h.1, fun hr => h.2 ?_⟩
    rw [hcodes, statuses_append, List.length_append, hs, List.getElem?_append_right (Nat.le_add_right _ _),
      Nat.add_sub_cancel_left]
    exact hr
  | write fd b n =>
    obtain ⟨hn, c, hc⟩ := h
    rw [writes_append, List.length_append, hw, Nat.add_comm, List.getElem?_cons_succ] at hc
    exact ⟨hn, c, hc⟩
  | socket fd => exact h
  | connect fd ok => exact h
  | close fd => exact h

/-- The flush in front of a command is no check. -/
theorem CheckFails.behind_flush (hfs : flush ≠ status) {L : List Item} {r : Option (List UInt8)} {es pre post : List NetEv}
    {ev : NetEv} (h : .read fd flush r :: es = pre ++ ev :: post) (hf : CheckFails status L pre ev) :
    ∃ mid, pre = .read fd flush r :: mid ∧ es = mid ++ ev :: post := by
  cases pre with
  | nil =>
    obtain ⟨rfl, -⟩ := List.cons.inj h
    exact absurd hf.1 hfs
  | cons x mid =>
    obtain ⟨rfl, hes⟩ := List.cons.inj h
    exact ⟨mid, rfl, hes⟩

/-- **Behind a check that fails, nothing is written.** -/
theorem play_stops (hfs : flush ≠ status) {L : List Item} : ∀ {e : σ} {pre post : List NetEv} {ev : NetEv},
    (play net fd flush status L e).events = pre ++ ev :: post → CheckFails status L pre ev →
    writes post = [] := by
  induction L with
  | nil => intro e pre post ev h _; simp [play] at h
  | cons i L ih =>
    intro e pre post ev h hf
    cases i with
    | cmd b c =>
      simp only [play] at h
      split_ifs at h with h1 h2
      · -- the write is the last event
        obtain ⟨mid, rfl, hrest⟩ := hf.behind_flush hfs h
        rcases mid with _ | ⟨y, mid⟩
        · obtain ⟨-, rfl⟩ := List.cons.inj hrest
          rfl
        · simp at hrest
      · -- flush, write and status of this command pass, so the check is one of the rest
        simp only [Played.after_events, List.cons_append, List.nil_append] at h
        obtain ⟨mid, rfl, hrest⟩ := hf.behind_flush hfs h
        rcases mid with _ | ⟨y, _ | ⟨z, mid⟩⟩
        · obtain ⟨rfl, -⟩ := List.cons.inj hrest
          exact absurd hf.1 h1
        · simp only [List.cons_append, List.nil_append, List.cons.injEq] at hrest
          obtain ⟨rfl, rfl, -⟩ := hrest
          refine absurd ?_ hf.2
          rw [statuses_read_ne _ _ _ _ _ hfs]
          simpa using h2
        · simp only [List.cons_append, List.cons.injEq] at hrest
          obtain ⟨rfl, rfl, hrest⟩ := hrest
          refine ih hrest (CheckFails.behind [_, _, _] hf ?_ rfl)
          rw [statuses_read_ne _ _ _ _ _ hfs, statuses_write, statuses_read]
          rfl
      · -- the status is the last event
        obtain ⟨mid, rfl, hrest⟩ := hf.behind_flush hfs h
        rcases mid with _ | ⟨y, _ | ⟨z, mid⟩⟩
        · obtain ⟨rfl, -⟩ := List.cons.inj hrest
          exact absurd hf.1 h1
        · simp only [List.cons_append, List.nil_append, List.cons.injEq] at hrest
          obtain ⟨-, -, rfl⟩ := hrest
          rfl
        · simp at hrest
    | data b =>
      simp only [play, Played.after_events] at h
      rcases pre with _ | ⟨x, pre⟩
      · -- nobody looks at the result of this write
        obtain ⟨rfl, -⟩ := List.cons.inj h
        obtain ⟨c, hc⟩ := hf.2
        simp at hc
      · simp only [List.cons_append, List.nil_append, List.cons.injEq] at h
        obtain ⟨rfl, h⟩ := h
        exact ih h (CheckFails.behind [_] hf rfl rfl)

end Play

/-! ## Sockets -/

/-- The sockets that are open behind one more call; `none` when a close was for none of them. -/
def ledgerStep : Option (List ℤ) → NetEv → Option (List ℤ)
  | none, _ => none
  | some l, .socket fd => some (if fd < 0 then l else fd :: l)
  | some l, .close fd => if fd ∈ l then some (l.erase fd) else none
  | some l, _ => some l

/-- The sockets that are open behind the calls, `l` being open before. -/
def ledger (l : List ℤ) (es : List NetEv) : Option (List ℤ) := es.foldl ledgerStep (some l)

theorem foldl_ledgerStep_none (es : List NetEv) : es.foldl ledgerStep none = none := by
  induction es with
  | nil => rfl
  | cons ev es ih => exact ih

@[simp] theorem ledger_nil (l : List ℤ) : ledger l [] = some l := rfl

theorem ledger_append (l : List ℤ) (es fs : List NetEv) :
    ledger l (es ++ fs) = (ledger l es).bind fun k => ledger k fs := by
  unfold ledger
  rw [List.foldl_append]
  cases es.foldl ledgerStep (some l) with
  | none => exact foldl_ledgerStep_none fs
  | some k => rfl

/-- **A dialogue opens and closes nothing.** -/
theorem play_ledger (net : Net σ) (fd : ℤ) (flush status : ℕ) (l : List ℤ) (L : List Item) : ∀ e : σ,
    ledger l (play net fd flush status L e).events = some l := by
  induction L with
  | nil => intro e; rfl
  | cons i L ih =>
    intro e
    cases i with
    | cmd b c =>
      simp only [play]
      split_ifs
      · rfl
      · rw [Played.after_events, ledger_append]
        exact ih _
      · rfl
    | data b =>
      simp only [play]
      rw [Played.after_events, ledger_append]
      exact ih _

/-- **Dialling**: the first address that can be connected to, its socket and the state behind its greeting;
`none` when there is no such address, or the greeting is another one. -/
def dial (net : Net σ) (greeting : List UInt8) : List ℕ → σ → Option (ℤ × σ)
  | [], _ => none
  | a :: rest, e =>
    let s := net.socket e
    if s.1 < 0 then dial net greeting rest s.2
    else
      let c := net.connect s.1 a s.2
      if c.1 then
        let r := net.read s.1 greeting.length c.2
        if r.1 = some greeting then some (s.1, r.2) else none
      else dial net greeting rest c.2

end Dialogue
