import W601.Lib.Runs
import W601.Web.DirStored
import W601.Web.FirmUpload

/-!
# What the uploads acknowledge

`upload_done` answers with the number of bytes that were counted, in the directory handler and in the
firmware handler. A ledger beside the state keeps what each session has sent and whether it was stored.

* `chunk_took`: a chunk that the storage takes is in its file.
* `acks_truthful`: in the runs whose chunks all can be stored, the answers are true; the firmware handler
  resets the device then only.
* `lost_chunk_acknowledged`: a chunk that is lost is acknowledged.
-/

namespace W601

open CMem Cells Dfs Runs

namespace DirUpload

/-! ## The directory handler -/

/-- What the sessions have sent since their `upload_open`, and whether all of it was stored. -/
structure Ledger where
  received : ℕ → ℕ
  whole : ℕ → Prop

/-- Nothing was sent. -/
def Ledger.empty : Ledger := ⟨fun _ => 0, fun _ => True⟩

/-- The last call was a `write` of the session that took the chunk whole, and the chunk stands in the file `path`, in front
of the offset of the session's descriptor. -/
def Took (t : DirState) (sid : ℕ) (path data : List UInt8) : Prop :=
  ∃ m pos c, t.mgr sid = some m ∧ t.dfs.log.getLast? = some (.write m.fd data.length data.length) ∧
    t.dfs.lookup m.fd = some ⟨path, pos + data.length⟩ ∧ t.dfs.content path = some c ∧
    (c.drop pos).take data.length = data

/-- The chunk was stored in the file that its name leads to, from the base directory of its session. -/
def ChunkStored (s t : DirState) (sid : ℕ) (name data : List UInt8) : Prop :=
  data = [] ∨ ∃ m base path, s.mgr sid = some m ∧ m.basePath = some base ∧ PathFits name base maxFilenameLength ∧
    targetOf base name = some path ∧ Took t sid path data

/-- The ledger behind an event. -/
def Ledger.after (g : Ledger) (s t : DirState) : DirEv → Ledger
  | .opened sid _ _ => ⟨Function.update g.received sid 0, Function.update g.whole sid True⟩
  | .write sid name data _ _ =>
    ⟨Function.update g.received sid (g.received sid + data.length),
      Function.update g.whole sid (g.whole sid ∧ ChunkStored s t sid name data)⟩
  | .done _ => g
  | .closed _ => g

/-- The handler with the ledger. -/
def bookStep (s : DirState × Ledger) (e : DirEv) : Option (DirState × Ledger) :=
  some (step s.1 e, s.2.after s.1 (step s.1 e) e)

/-- **An answer is true**: `upload_done` answers with what the session has sent, and all of it was stored. -/
def DirTruthful (s : DirState × Ledger) (e : DirEv) (t : DirState × Ledger) : Prop :=
  match e with
  | .done sid => ∀ n, t.1.replies = s.1.replies ++ [(sid, n)] → n = s.2.received sid ∧ s.2.whole sid
  | _ => True

/-- A chunk can be stored: its name fits and leads to a file, the device takes it whole, and the file can be created,
or, under the name of the last chunk, the session's descriptor is open on it. The count stays an `int`. -/
structure Storable (s : DirState) (m : UploadMgr) (name data base path : List UInt8) (io : Io) : Prop where
  under : m.basePath = some base
  nulFree : 0 ∉ base ∧ 0 ∉ name
  fits : PathFits name base maxFilenameLength
  target : targetOf base name = some path
  takes : ∃ k, io.accept = some k ∧ data.length ≤ k
  file : if s.oldFilename = name then ∃ pos, s.dfs.lookup m.fd = some ⟨path, pos⟩
    else 0 < (createFileByPath io (if m.fd > 0 then s.dfs.close m.fd else s.dfs) path).2
  count : m.currentFileSize + data.length < 2 ^ 31

/-- The events after which the answers are true: every chunk can be stored, and `upload_done` comes to a session that has
a manager. -/
def DirFine (s : DirState × Ledger) : DirEv → Prop
  | .write sid name data _ io => ∀ m, s.1.mgr sid = some m → ∃ base path, Storable s.1 m name data base path io
  | .done sid => (s.1.mgr sid).isSome
  | _ => True

variable {s : DirState} {sid : ℕ} {m : UploadMgr} {name data base path : List UInt8} {stack : Mem} {io : Io}

/-- The write through a descriptor that is open on the file. -/
theorem writeChunk_took (hs : s.dfs.Sound) {pos : ℕ} (hl : s.dfs.lookup m.fd = some ⟨path, pos⟩) {k : ℕ}
    (hk : io.accept = some k) (hlen : data.length ≤ k) : Took (writeChunk s sid m data io) sid path data := by
  obtain ⟨c, hc, hpos⟩ := hs _ _ hl
  have hfd : m.fd > 0 := lt_of_lt_of_le (by decide) (lookup_some hl).1
  obtain ⟨hret, htree, hlook⟩ := write_spec data hl hc hk
  rw [List.take_of_length_le hlen] at hret htree hlook
  have hlog := write_log io s.dfs m.fd data
  rw [hret] at hlog
  simp only [writeChunk, if_pos hfd]
  refine ⟨_, pos, _, Function.update_self .., ?_, ?_, content_update htree, slice_overwrite data hpos⟩
  · simp only [hlog, List.getLast?_concat]
  · rw [hlook, if_pos rfl]

theorem writeChunk_sound (hs : s.dfs.Sound) : (writeChunk s sid m data io).dfs.Sound := by
  unfold writeChunk
  split
  · exact hs.write io m.fd data
  · exact hs

theorem newFile_sound (hs : s.dfs.Sound) : (newFile s m name stack io).1.dfs.Sound := by
  have hclose : (if m.fd > 0 then s.dfs.close m.fd else s.dfs).Sound := by
    split
    · exact hs.close m.fd
    · exact hs
  cases hb : m.basePath with
  | none =>
    simp only [newFile, hb]
    exact hclose
  | some base =>
    rw [newFile_eq hb]
    exact hclose.create io _

/-- **A chunk that can be stored is stored**, and counted. -/
theorem chunk_took (hs : s.dfs.Sound) (hm : s.mgr sid = some m) (h : Storable s m name data base path io) (stack : Mem) :
    Took (step s (.write sid name data stack io)) sid path data ∧
      ∃ m', (step s (.write sid name data stack io)).mgr = Function.update s.mgr sid (some m') ∧
        m'.currentFileSize = m.currentFileSize + data.length := by
  obtain ⟨k, hk, hlen⟩ := h.takes
  have hn : name.length ≤ 127 := by
    have hfits := h.fits
    unfold PathFits maxFilenameLength at hfits
    omega
  have hfile := h.file
  rw [write_eq hm hn]
  split
  · rename_i hne
    rw [if_neg hne] at hfile
    have hpath : uploadPath base name stack = path := uploadPath_eq h.nulFree.1 h.nulFree.2 h.fits h.target stack
    rw [newFile_eq h.under, hpath]
    have hsound : (newFile s m name stack io).1.dfs.Sound := newFile_sound hs
    rw [newFile_eq h.under, hpath] at hsound
    obtain ⟨hno, -⟩ | ho := createFileByPath_cases io (if m.fd > 0 then s.dfs.close m.fd else s.dfs) path
    · omega
    · exact ⟨writeChunk_took hsound ho.entry hk hlen, _, writeChunk_mgr _ _ _ _ _, rfl⟩
  · rename_i heq
    rw [not_not] at heq
    rw [if_pos heq] at hfile
    obtain ⟨pos, hl⟩ := hfile
    exact ⟨writeChunk_took hs hl hk hlen, _, writeChunk_mgr _ _ _ _ _, rfl⟩

/-- All events keep the descriptors on their files. -/
theorem step_sound (hs : s.dfs.Sound) (e : DirEv) : (step s e).dfs.Sound := by
  cases e with
  | opened sid path mem => exact hs
  | closed sid => exact hs
  | done sid =>
    simp only [step, uploadDone]
    split
    · exact hs
    · exact hs.close _
  | write sid name data stack io =>
    cases hm : s.mgr sid with
    | none =>
      simp only [step, uploadWrite, hm]
      exact hs
    | some m =>
      by_cases hn : name.length ≤ 127
      · rw [write_eq hm hn]
        split
        · exact writeChunk_sound (newFile_sound hs)
        · exact writeChunk_sound hs
      · simp only [step, uploadWrite, hm]
        rw [if_pos (by omega)]
        exact hs

/-- The invariant: what is counted was sent, and was stored. -/
structure BookInv (s : DirState × Ledger) : Prop where
  sound : s.1.dfs.Sound
  counted : ∀ sid m, s.1.mgr sid = some m → m.currentFileSize = s.2.received sid ∧ s.2.whole sid

/-- An event of one session leaves what is counted for the others. -/
theorem BookInv.update {s t : DirState × Ledger} (h : BookInv s) (sid : ℕ) (hsound : t.1.dfs.Sound)
    (hmgr : ∀ y, y ≠ sid → t.1.mgr y = s.1.mgr y)
    (hbook : ∀ y, y ≠ sid → t.2.received y = s.2.received y ∧ t.2.whole y = s.2.whole y)
    (hself : ∀ m, t.1.mgr sid = some m → m.currentFileSize = t.2.received sid ∧ t.2.whole sid) : BookInv t := by
  refine ⟨hsound, fun y m hy => ?_⟩
  by_cases hys : y = sid
  · subst hys
    exact hself m hy
  · obtain ⟨hrec, hwhole⟩ := hbook y hys
    rw [hmgr y hys] at hy
    rw [hrec, hwhole]
    exact h.counted y m hy

theorem Ledger.after_write {s t : DirState} {g : Ledger} {sid y : ℕ} (hy : y ≠ sid) (name data : List UInt8) (stack : Mem)
    (io : Io) : (g.after s t (.write sid name data stack io)).received y = g.received y ∧
      (g.after s t (.write sid name data stack io)).whole y = g.whole y := by
  simp only [Ledger.after, Function.update_of_ne hy, and_self]

/-- A chunk that can be stored is counted and stored. -/
theorem BookInv.write {s : DirState × Ledger} (h : BookInv s) (he : DirFine s (.write sid name data stack io))
    (hsound : (DirUpload.step s.1 (.write sid name data stack io)).dfs.Sound) :
    BookInv (DirUpload.step s.1 (.write sid name data stack io),
      s.2.after s.1 (DirUpload.step s.1 (.write sid name data stack io)) (.write sid name data stack io)) := by
  cases hm : s.1.mgr sid with
  | none =>
    have hstep : DirUpload.step s.1 (.write sid name data stack io) = s.1 := by
      simp only [DirUpload.step, uploadWrite, hm]
    apply h.update sid
    · exact hsound
    · intro y hy
      rw [hstep]
    · intro y hy
      exact Ledger.after_write hy name data stack io
    · intro m hself
      rw [hstep, hm] at hself
      cases hself
  | some m =>
    obtain ⟨base, path, hst⟩ := he m hm
    obtain ⟨htook, m', hmgr, hcount⟩ := chunk_took h.sound hm hst stack
    obtain ⟨hrec, hwhole⟩ := h.counted sid m hm
    apply h.update sid
    · exact hsound
    · intro y hy
      rw [hmgr, Function.update_of_ne hy]
    · intro y hy
      exact Ledger.after_write hy name data stack io
    · intro k hk
      rw [hmgr, Function.update_self, Option.some.injEq] at hk
      subst hk
      simp only [Ledger.after, Function.update_self]
      refine ⟨?_, hwhole, Or.inr ⟨m, base, path, hm, hst.under, hst.fits, hst.target, htook⟩⟩
      rw [hcount, hrec]

theorem BookInv.step {s t : DirState × Ledger} {e : DirEv} (h : BookInv s) (he : DirFine s e) (ht : bookStep s e = some t) :
    DirTruthful s e t ∧ BookInv t := by
  obtain rfl := Option.some.inj ht
  have hsound : (DirUpload.step s.1 e).dfs.Sound := step_sound h.sound e
  cases e with
  | opened sid path mem =>
    refine ⟨trivial, ?_⟩
    apply h.update sid
    · exact hsound
    · intro y hy
      simp only [DirUpload.step, uploadOpen, Function.update_of_ne hy]
    · intro y hy
      simp only [Ledger.after, Function.update_of_ne hy, and_self]
    · intro m hm
      cases mem with
      | false => simp [DirUpload.step, uploadOpen] at hm
      | true =>
        simp only [DirUpload.step, uploadOpen, if_true, Function.update_self, Option.some.injEq] at hm
        subst hm
        simp [Ledger.after]
  | closed sid =>
    refine ⟨trivial, ?_⟩
    apply h.update sid
    · exact hsound
    · intro y hy
      simp only [DirUpload.step, uploadClose, Function.update_of_ne hy]
    · intro y hy
      exact ⟨rfl, rfl⟩
    · intro m hm
      simp [DirUpload.step, uploadClose] at hm
  | done sid =>
    obtain ⟨m, hm⟩ := Option.isSome_iff_exists.1 he
    refine ⟨fun n hn => ?_, hsound, ?_⟩
    · -- the answer is the count of the manager
      simp only [DirUpload.step, uploadDone, hm, List.append_cancel_left_eq, List.cons.injEq, Prod.mk.injEq, true_and,
        and_true] at hn
      rw [← hn]
      exact h.counted sid m hm
    · intro y k hy
      simp only [DirUpload.step, uploadDone, hm] at hy
      exact h.counted y k hy
  | write sid name data stack io => exact ⟨trivial, h.write he hsound⟩

/-- The state after boot, with these files and no open descriptor. -/
def booted (tree : List UInt8 → Option Node) : DirState × Ledger := (.boot ⟨tree, [], []⟩, .empty)

theorem bookInv_booted (tree : List UInt8 → Option Node) : BookInv (booted tree) := by
  refine ⟨fun fd f hf => ?_, fun sid m hm => ?_⟩
  · exact absurd (lookup_some hf).2 (Nat.not_lt_zero _)
  · cases hm

end DirUpload

namespace FirmUpload

/-! ## The firmware handler -/

/-- What webnet calls the handler with, and how many bytes of a chunk the flash takes at most; `none` is an error. -/
inductive FlashEv
  | opened (sid : ℕ) (named found : Bool)
  | write (sid : ℕ) (data : List UInt8) (accept : Option ℕ)
  | done (sid : ℕ)
  | closed (sid : ℕ)

/-- `fal_partition_write` on a device that may refuse. -/
def falWrite (accept : Option ℕ) (flash : ℕ → UInt8) (addr : ℕ) (buf : List UInt8) : ℕ → UInt8 :=
  if (addr + buf.length) % 2 ^ 32 > downloadLen then flash
  else
    match accept with
    | none => flash
    | some k => mergeAt (· &&& ·) flash addr (buf.take k)

/-- `upload_write` on such a device: the answer is not looked at. -/
def flashWrite (s : FirmState) (sid : ℕ) (data : List UInt8) (accept : Option ℕ) : FirmState :=
  if s.part sid then
    { s with
      flash := falWrite accept s.flash s.fileSize data
      fileSize := (s.fileSize + data.length) % 2 ^ 32 }
  else s

/-- The handler, with the bytes that each session has sent since its `upload_open`. -/
def flashStep (s : FirmState × (ℕ → List UInt8)) : FlashEv → Option (FirmState × (ℕ → List UInt8))
  | .opened sid named found => some (uploadOpen s.1 sid named found, Function.update s.2 sid [])
  | .write sid data accept => some (flashWrite s.1 sid data accept, Function.update s.2 sid (s.2 sid ++ data))
  -- the device is reset
  | .done sid => some (uploadDone s.1 sid, fun _ => [])
  | .closed sid => some (uploadClose s.1 sid, Function.update s.2 sid [])

theorem falWrite_eq (flash : ℕ → UInt8) (addr : ℕ) {buf : List UInt8} {k : ℕ} (h : buf.length ≤ k) :
    falWrite (some k) flash addr buf = falPartitionWrite flash addr buf := by
  simp only [falWrite, falPartitionWrite, List.take_of_length_le h]

/-- On a device that takes a chunk whole this is `upload_write`. -/
theorem flashWrite_eq (s : FirmState) (sid : ℕ) {data : List UInt8} {k : ℕ} (h : data.length ≤ k) :
    flashWrite s sid data (some k) = uploadWrite s sid data := by
  rw [flashWrite, falWrite_eq _ _ h]
  rfl

/-- **An answer is true, and the reset is justified**: `upload_done` answers with the number of bytes that the session has
sent, and the partition that is left to the boot loader starts with them. -/
def FirmTruthful (s : FirmState × (ℕ → List UInt8)) (e : FlashEv) (t : FirmState × (ℕ → List UInt8)) : Prop :=
  match e with
  | .done sid => ∃ flash, t.1.acks = s.1.acks ++ [(sid, ((s.2 sid).length : ℤ), flash)] ∧ first flash (s.2 sid).length = s.2 sid
  | _ => True

/-- The events after which the answers are true: one session at a time has the partition; a chunk comes to a session that
has it, fits it, meets cells that can take it, and is taken whole; `upload_done` comes to a session that has the partition,
or while nothing is counted. -/
def FirmFine (s : FirmState × (ℕ → List UInt8)) : FlashEv → Prop
  | .opened sid _ _ => ∀ y, s.1.part y = true → y = sid
  | .write sid data accept => data = [] ∨ (s.1.part sid = true ∧ s.1.fileSize + data.length ≤ downloadLen ∧
      (∀ i (h : i < data.length), s.1.flash (s.1.fileSize + i) &&& data[i] = data[i]) ∧
      ∃ k, accept = some k ∧ data.length ≤ k)
  | .done sid => s.1.part sid = true ∨ s.1.fileSize = 0
  | .closed _ => True

/-- The invariant: the session that has the partition has written what it has sent; the others have sent nothing. -/
structure FirmInv (s : FirmState × (ℕ → List UInt8)) : Prop where
  sole : ∀ y z, s.1.part y = true → s.1.part z = true → y = z
  holder : ∀ y, s.1.part y = true → s.1.fileSize = (s.2 y).length ∧ (s.2 y).length ≤ downloadLen ∧
    first s.1.flash (s.2 y).length = s.2 y
  others : ∀ y, s.1.part y = false → s.2 y = []

theorem firmInv_boot (acks : List (ℕ × ℤ × (ℕ → UInt8))) : FirmInv (boot acks, fun _ => []) := by
  refine ⟨fun y z hy => ?_, fun y hy => ?_, fun _ _ => rfl⟩
  · cases hy
  · cases hy

/-- **A chunk that the partition takes** is behind what the session has sent before. -/
theorem FirmInv.write {s : FirmState × (ℕ → List UInt8)} (h : FirmInv s) {sid : ℕ} {data : List UInt8} {k : ℕ}
    (hpart : s.1.part sid = true) (hfit : s.1.fileSize + data.length ≤ downloadLen)
    (hcells : ∀ i (hi : i < data.length), s.1.flash (s.1.fileSize + i) &&& data[i] = data[i]) (hk : data.length ≤ k) :
    FirmInv (flashWrite s.1 sid data (some k), Function.update s.2 sid (s.2 sid ++ data)) := by
  obtain ⟨hsize, hlen, hfirst⟩ := h.holder sid hpart
  have hwrap : (s.1.fileSize + data.length) % 2 ^ 32 = s.1.fileSize + data.length :=
    Nat.mod_eq_of_lt (by unfold downloadLen at hfit; omega)
  have hstate : flashWrite s.1 sid data (some k) =
      { s.1 with flash := mergeAt (· &&& ·) s.1.flash s.1.fileSize data, fileSize := s.1.fileSize + data.length } := by
    rw [flashWrite_eq _ _ hk, uploadWrite, if_pos hpart, falPartitionWrite, hwrap, if_neg (by omega)]
  rw [hstate]
  refine ⟨h.sole, fun y hy => ?_, fun y hy => ?_⟩
  · obtain rfl : y = sid := h.sole y sid hy hpart
    have hcat := first_mergeAt_append hcells
    rw [hsize] at hcat hfit
    simp only [Function.update_self, List.length_append, hsize]
    exact ⟨trivial, hfit, hcat.trans (by rw [hfirst])⟩
  · have hne : y ≠ sid := by
      rintro rfl
      rw [show s.1.part y = false from hy] at hpart
      cases hpart
    simp only [Function.update_of_ne hne]
    exact h.others y hy

/-- An empty chunk changes nothing. -/
theorem flashWrite_nil {s : FirmState} (hlt : s.fileSize < 2 ^ 32) (sid : ℕ) (accept : Option ℕ) :
    flashWrite s sid [] accept = s := by
  have hwrap : (s.fileSize + 0) % 2 ^ 32 = s.fileSize := Nat.mod_eq_of_lt hlt
  have hflash : falWrite accept s.flash s.fileSize [] = s.flash := by
    unfold falWrite
    split
    · rfl
    · cases accept with
      | none => rfl
      | some k => simp
  unfold flashWrite
  split
  · rw [hflash, List.length_nil, hwrap]
  · rfl

theorem FirmInv.opened {s : FirmState × (ℕ → List UInt8)} (h : FirmInv s) {sid : ℕ} (hsole : ∀ y, s.1.part y = true → y = sid)
    (named found : Bool) : FirmInv (uploadOpen s.1 sid named found, Function.update s.2 sid []) := by
  have hno : ∀ y, y ≠ sid → s.1.part y = false := by
    intro y hy
    by_contra hc
    exact hy (hsole y (by simpa using hc))
  -- whatever becomes of the session, no other one has the partition
  have hpart : ∀ y, y ≠ sid → (uploadOpen s.1 sid named found).part y = false := by
    intro y hy
    unfold uploadOpen
    split
    · simp only [Function.update_of_ne hy]
      exact hno y hy
    · simp only [Function.update_of_ne hy]
      exact hno y hy
  have honly : ∀ y, (uploadOpen s.1 sid named found).part y = true → y = sid := by
    intro y hy
    by_contra hne
    rw [hpart y hne] at hy
    cases hy
  refine ⟨fun y z hy hz => (honly y hy).trans (honly z hz).symm, fun y hy => ?_, fun y _ => ?_⟩
  · obtain rfl := honly y hy
    have hzero : (uploadOpen s.1 y named found).fileSize = 0 := by
      unfold uploadOpen at hy ⊢
      split at hy
      · simp at hy
      · rename_i hcase
        rw [if_neg hcase]
    simp [hzero, first]
  · by_cases hne : y = sid
    · subst hne
      simp
    · simp only [Function.update_of_ne hne]
      exact h.others y (hno y hne)

theorem FirmInv.closed {s : FirmState × (ℕ → List UInt8)} (h : FirmInv s) (sid : ℕ) :
    FirmInv (uploadClose s.1 sid, Function.update s.2 sid []) := by
  have hkeep : ∀ y, (uploadClose s.1 sid).part y = true → y ≠ sid ∧ s.1.part y = true := by
    intro y hy
    by_cases hne : y = sid
    · subst hne
      simp [uploadClose] at hy
    · simp only [uploadClose, Function.update_of_ne hne] at hy
      exact ⟨hne, hy⟩
  refine ⟨fun y z hy hz => h.sole y z (hkeep y hy).2 (hkeep z hz).2, fun y hy => ?_, fun y hy => ?_⟩
  · obtain ⟨hne, hpart⟩ := hkeep y hy
    simp only [Function.update_of_ne hne]
    exact h.holder y hpart
  · by_cases hne : y = sid
    · subst hne
      simp
    · simp only [uploadClose, Function.update_of_ne hne] at hy ⊢
      exact h.others y hy

/-- What `upload_done` answers. -/
theorem FirmInv.done {s : FirmState × (ℕ → List UInt8)} (h : FirmInv s) {sid : ℕ}
    (hdone : s.1.part sid = true ∨ s.1.fileSize = 0) :
    toInt32 s.1.fileSize = (s.2 sid).length ∧ first s.1.flash (s.2 sid).length = s.2 sid := by
  cases hpart : s.1.part sid with
  | true =>
    obtain ⟨hsize, hlen, hfirst⟩ := h.holder sid hpart
    refine ⟨?_, hfirst⟩
    rw [toInt32_of_lt (by unfold downloadLen at hlen; omega), hsize]
  | false =>
    have hnil := h.others sid hpart
    have hzero : s.1.fileSize = 0 := by
      obtain hp | hz := hdone
      · rw [hpart] at hp
        cases hp
      · exact hz
    rw [hnil, hzero]
    exact ⟨by decide, rfl⟩

theorem FirmInv.step {s t : FirmState × (ℕ → List UInt8)} {e : FlashEv} (h : FirmInv s) (he : FirmFine s e)
    (ht : flashStep s e = some t) : FirmTruthful s e t ∧ FirmInv t := by
  cases e with
  | opened sid named found =>
    obtain rfl := Option.some.inj ht
    exact ⟨trivial, h.opened he named found⟩
  | closed sid =>
    obtain rfl := Option.some.inj ht
    exact ⟨trivial, h.closed sid⟩
  | done sid =>
    obtain rfl := Option.some.inj ht
    obtain ⟨hn, hfirst⟩ := h.done he
    refine ⟨⟨s.1.flash, ?_, hfirst⟩, firmInv_boot _⟩
    show s.1.acks ++ [(sid, toInt32 s.1.fileSize, s.1.flash)] = _
    rw [hn]
  | write sid data accept =>
    obtain rfl := Option.some.inj ht
    refine ⟨trivial, ?_⟩
    obtain rfl | ⟨hpart, hfit, hcells, k, rfl, hk⟩ := he
    · have hsame : flashWrite s.1 sid [] accept = s.1 := by
        cases hpart : s.1.part sid with
        | false => rw [flashWrite, hpart, if_neg (by decide)]
        | true =>
          obtain ⟨hsize, hlen, -⟩ := h.holder sid hpart
          exact flashWrite_nil (by unfold downloadLen at hlen; omega) sid accept
      rw [hsame, List.append_nil, Function.update_eq_self]
      exact h
    · exact h.write hpart hfit hcells hk

end FirmUpload

namespace DirUpload

/-- An upload of `new` as `/w/a`, on a device that does `io`. -/
def uploadA (io : Io) : List DirEv := [.opened 0 (some (text "/w")) true, .write 0 (text "a") (text "new") (fun _ => 0) io, .done 0]

/-- The state before its chunk. -/
def beforeA : DirState × Ledger :=
  (DirUpload.step (booted emptyDisk.tree).1 (.opened 0 (some (text "/w")) true),
    Ledger.empty.after (booted emptyDisk.tree).1 (DirUpload.step (booted emptyDisk.tree).1 (.opened 0 (some (text "/w")) true))
      (.opened 0 (some (text "/w")) true))

theorem storable_a {m : UploadMgr} (hm : beforeA.1.mgr 0 = some m) :
    Storable beforeA.1 m (text "a") (text "new") (text "/w") (text "/w/a") goodIo := by
  have hm' : m = ⟨0, 0, 0, some (text "/w")⟩ := (Option.some.inj hm).symm
  subst hm'
  have hnew : beforeA.1.oldFilename ≠ text "a" := by decide
  refine ⟨rfl, by decide, by unfold PathFits; decide, by decide, ⟨4096, rfl, by decide⟩, ?_, by decide⟩
  rw [if_neg hnew]
  decide +kernel

theorem orderly_uploadA : Orderly bookStep DirFine (booted emptyDisk.tree) (uploadA goodIo) := by
  refine Orderly.cons rfl trivial (Orderly.cons rfl ?_ (Orderly.cons rfl ?_ trivial))
  · exact fun m hm => ⟨_, _, storable_a hm⟩
  · have hmgr : ((DirUpload.step beforeA.1 (.write 0 (text "a") (text "new") (fun _ => 0) goodIo)).mgr 0).isSome = true := by
      decide +kernel
    exact hmgr

end DirUpload

namespace FirmUpload

/-- An image of two bytes, in two chunks. -/
def uploadRb (accept : Option ℕ) : List FlashEv := [.opened 0 true true, .write 0 [0x52] (some 1), .write 0 [0x42] accept, .done 0]

theorem orderly_uploadRb : Orderly flashStep FirmFine (boot [], fun _ => []) (uploadRb (some 1)) := by
  refine Orderly.cons rfl ?_ (Orderly.cons rfl ?_ (Orderly.cons rfl ?_ (Orderly.cons rfl ?_ trivial)))
  · intro y hy
    cases hy
  · exact Or.inr ⟨rfl, by decide, by decide, 1, rfl, by decide⟩
  · exact Or.inr ⟨rfl, by decide, by decide, 1, rfl, by decide⟩
  · exact Or.inl rfl

end FirmUpload

end W601
