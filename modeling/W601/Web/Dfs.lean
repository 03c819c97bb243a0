import W601.Lib.Cells
import W601.Web.Paths

/-!
# The file system under the uploads, and `create_file_by_path`

Files are named by the path text handed to `open`. `open(O_CREAT | O_RDWR)` yields a descriptor
at offset `0` and keeps existing content; `write` overwrites at the descriptor's offset and
advances it. Descriptors are handed out as `fd_alloc` does, the lowest free entry first, from
`DFS_FD_OFFSET` on. `Io` holds what the device decides: a `mkdir`, `open` or `write` it refuses,
a `write` it cuts short.

* `createFileByPath_cases`: creating a file fails without touching files or descriptors, or
  opens a fresh descriptor at the start of the file.
* `write_spec`: what a write does to the file and to the table.
* `Dfs.Sound`: every descriptor stands inside of a file; all calls keep that.
-/

namespace W601

open CMem Cells

inductive Node
  | dir
  | file (data : List UInt8)
  deriving DecidableEq

/-- An entry of the descriptor table. -/
structure OpenFile where
  path : List UInt8
  pos : ℕ
  deriving DecidableEq

/-- The calls of one event that the device refuses or cuts short. -/
structure Io where
  mkdirOk : List UInt8 → Bool
  openOk : Bool
  /-- The number of bytes a `write` takes at most; `none` is an error. -/
  accept : Option ℕ

/-- A file system call with its result. -/
inductive FsCall
  | opendir (path : List UInt8) (ok : Bool)
  | mkdir (path : List UInt8) (ok : Bool)
  | openFile (path : List UInt8) (fd : ℤ)
  | write (fd : ℤ) (length : ℕ) (ret : ℤ)
  | close (fd : ℤ)
  deriving DecidableEq

structure Dfs where
  tree : List UInt8 → Option Node
  fds : List (Option OpenFile)
  log : List FsCall

namespace Dfs

/-- `DFS_FD_OFFSET`. -/
def fdOffset : ℤ := 3

/-- The table entry of a descriptor. -/
def lookup (d : Dfs) (fd : ℤ) : Option OpenFile :=
  if fdOffset ≤ fd then (d.fds[(fd - fdOffset).toNat]?).join else none

/-- `fd_alloc`: the lowest free entry, or one behind the end. -/
def fdAlloc (d : Dfs) : ℕ := d.fds.findIdx (·.isNone)

/-- Set entry `i`, extending the table by one when `i` is its end. -/
def setFd (d : Dfs) (i : ℕ) (f : Option OpenFile) : List (Option OpenFile) :=
  if i < d.fds.length then d.fds.set i f else d.fds ++ [f]

def opendir (d : Dfs) (path : List UInt8) : Dfs × Bool :=
  ({ d with log := d.log ++ [.opendir path (d.tree path = some .dir)] }, d.tree path = some .dir)

/-- `mkdir`. The caller has made the parent directories before. -/
def mkdir (io : Io) (d : Dfs) (path : List UInt8) : Dfs × Bool :=
  if io.mkdirOk path ∧ d.tree path = none then
    ({ d with tree := Function.update d.tree path (some .dir), log := d.log ++ [.mkdir path true] }, true)
  else ({ d with log := d.log ++ [.mkdir path false] }, false)

/-- `open(path, O_CREAT | O_RDWR)`. -/
def openFile (io : Io) (d : Dfs) (path : List UInt8) : Dfs × ℤ :=
  if io.openOk ∧ d.tree path ≠ some .dir then
    -- no `O_TRUNC`: what the file held stays, and the offset is `0`
    let fd : ℤ := fdOffset + d.fdAlloc
    ({ tree := if d.tree path = none then Function.update d.tree path (some (.file [])) else d.tree
       fds := d.setFd d.fdAlloc (some ⟨path, 0⟩)
       log := d.log ++ [.openFile path fd] }, fd)
  else ({ d with log := d.log ++ [.openFile path (-1)] }, -1)

def write (io : Io) (d : Dfs) (fd : ℤ) (data : List UInt8) : Dfs × ℤ :=
  match d.lookup fd, io.accept with
  | some f, some k =>
    match d.tree f.path with
    | some (.file c) =>
      let taken := data.take k
      ({ tree := Function.update d.tree f.path (some (.file (overwrite c f.pos taken)))
         fds := d.setFd (fd - fdOffset).toNat (some ⟨f.path, f.pos + taken.length⟩)
         log := d.log ++ [.write fd data.length taken.length] }, taken.length)
    | _ => ({ d with log := d.log ++ [.write fd data.length (-1)] }, -1)
  | _, _ => ({ d with log := d.log ++ [.write fd data.length (-1)] }, -1)

/-- `close`; an unknown descriptor is an error without effect. -/
def close (d : Dfs) (fd : ℤ) : Dfs :=
  { d with
    fds := if (d.lookup fd).isSome then d.setFd (fd - fdOffset).toNat none else d.fds
    log := d.log ++ [.close fd] }

/-- The content of the file at a path. -/
def content (d : Dfs) (path : List UInt8) : Option (List UInt8) :=
  match d.tree path with
  | some (.file c) => some c
  | _ => none

end Dfs

/-- `_check_or_create_directory`: `false` is its `-1`. -/
def checkOrCreateDirectory (io : Io) (d : Dfs) (dirPath : List UInt8) : Dfs × Bool :=
  match d.opendir dirPath with
  | (d, true) => (d, true)
  | (d, false) => d.mkdir io dirPath

/-- The loop of `create_file_by_path`: `buff` is `path_buff` so far, the list is what is left
of `path`. -/
def createLoop (io : Io) : Dfs → List UInt8 → List UInt8 → Dfs × ℤ
  | d, _, [] => (d, -1)
  | d, buff, c :: rest =>
    match rest with
    | [] =>
      -- a path that ends in a slash names no file
      if c = slash then (d, -1)
      else
        match d.openFile io (buff ++ [c]) with
        | (d, fd) => if fd > 0 then (d, fd) else (d, -1)
    | a :: t =>
      if a = slash then
        match checkOrCreateDirectory io d (buff ++ [c]) with
        | (d, true) => createLoop io d (buff ++ [c]) (a :: t)
        | (d, false) => (d, -1)
      else createLoop io d (buff ++ [c]) (a :: t)

/-- `create_file_by_path`. -/
def createFileByPath (io : Io) (d : Dfs) (path : List UInt8) : Dfs × ℤ := createLoop io d [] path

/-! ## The descriptor table -/

namespace Dfs

variable {d d' : Dfs} {io : Io} {path : List UInt8} {fd : ℤ}

theorem setFd_getElem? {i : ℕ} (hi : i ≤ d.fds.length) (f : Option OpenFile) (j : ℕ) :
    ((d.setFd i f)[j]?).join = if j = i then f else (d.fds[j]?).join := by
  unfold setFd
  split
  · rename_i hlt
    rw [List.getElem?_set]
    by_cases hj : j = i
    · subst hj; simp [hlt]
    · rw [if_neg (fun h => hj h.symm), if_neg hj]
  · rename_i hge
    have he : i = d.fds.length := by omega
    subst he
    rcases Nat.lt_trichotomy j d.fds.length with h | rfl | h
    · rw [List.getElem?_append_left h, if_neg (by omega)]
    · simp
    · rw [List.getElem?_eq_none (by simp; omega), if_neg (by omega), List.getElem?_eq_none (by omega)]

theorem fdAlloc_le (d : Dfs) : d.fdAlloc ≤ d.fds.length := List.findIdx_le_length

/-- The entry `fd_alloc` finds is free. -/
theorem fdAlloc_free (d : Dfs) : (d.fds[d.fdAlloc]?).join = none := by
  by_cases h : d.fdAlloc < d.fds.length
  · have hfree : (d.fds[d.fdAlloc]).isNone := List.findIdx_getElem (p := fun e : Option OpenFile => e.isNone) (w := h)
    rw [List.getElem?_eq_getElem h]
    simpa using hfree
  · rw [List.getElem?_eq_none (by omega)]; rfl

theorem lookup_eq (h : d'.fds = d.fds) (fd : ℤ) : d'.lookup fd = d.lookup fd := by
  simp [lookup, h]

/-- A descriptor that is in use lies inside the table. -/
theorem lookup_some {f : OpenFile} (h : d.lookup fd = some f) :
    fdOffset ≤ fd ∧ (fd - fdOffset).toNat < d.fds.length := by
  unfold lookup at h
  split at h
  · rename_i hle
    refine ⟨hle, ?_⟩
    by_contra hge
    rw [List.getElem?_eq_none (by omega)] at h
    simp at h
  · simp at h

/-- Setting an entry changes the lookup of its own descriptor only. -/
theorem lookup_setFd {i : ℕ} (hi : i ≤ d.fds.length) {f : Option OpenFile} (hd : d'.fds = d.setFd i f)
    (fd : ℤ) : d'.lookup fd = if fd = fdOffset + i then f else d.lookup fd := by
  unfold lookup
  rw [hd, setFd_getElem? hi]
  by_cases hle : fdOffset ≤ fd
  · rw [if_pos hle, if_pos hle]
    have : (fd - fdOffset).toNat = i ↔ fd = fdOffset + i := by omega
    simp only [this]
  · rw [if_neg hle, if_neg hle, if_neg (by omega)]

/-! ## What the calls do -/

/-- What a successful open has done. -/
structure Opened (d d' : Dfs) (path : List UInt8) (fd : ℤ) : Prop where
  pos : 0 < fd
  fresh : d.lookup fd = none
  entry : d'.lookup fd = some ⟨path, 0⟩
  others : ∀ fd', fd' ≠ fd → d'.lookup fd' = d.lookup fd'
  target : d'.content path = some ((d.content path).getD [])
  frame : ∀ q, q ≠ path → d'.content q = d.content q

/-- Nothing that a file or a descriptor holds has changed. -/
structure Same (d d' : Dfs) : Prop where
  lookup : ∀ fd, d'.lookup fd = d.lookup fd
  content : ∀ q, d'.content q = d.content q

theorem Same.refl (d : Dfs) : Same d d := ⟨fun _ => rfl, fun _ => rfl⟩

theorem Same.trans {d'' : Dfs} (h : Same d d') (h' : Same d' d'') : Same d d'' :=
  ⟨fun fd => (h'.lookup fd).trans (h.lookup fd), fun q => (h'.content q).trans (h.content q)⟩

theorem Same.opened {d'' : Dfs} (h : Same d d') (h' : Opened d' d'' path fd) : Opened d d'' path fd where
  pos := h'.pos
  fresh := (h.lookup fd).symm.trans h'.fresh
  entry := h'.entry
  others := fun fd' hne => (h'.others fd' hne).trans (h.lookup fd')
  target := by rw [h'.target, h.content]
  frame := fun q hq => (h'.frame q hq).trans (h.content q)

theorem opendir_same (d : Dfs) (path : List UInt8) : Same d (d.opendir path).1 :=
  ⟨fun _ => rfl, fun _ => rfl⟩

/-- A directory appears only where nothing was, so no file is lost. -/
theorem mkdir_same (io : Io) (d : Dfs) (path : List UInt8) : Same d (d.mkdir io path).1 := by
  unfold mkdir
  split
  · rename_i h
    refine ⟨fun _ => rfl, fun q => ?_⟩
    simp only [content]
    by_cases hq : q = path
    · subst hq; rw [Function.update_self, h.2]
    · rw [Function.update_of_ne hq]
  · exact ⟨fun _ => rfl, fun _ => rfl⟩

theorem openFile_cases (io : Io) (d : Dfs) (path : List UInt8) :
    ((d.openFile io path).2 = -1 ∧ Same d (d.openFile io path).1) ∨
      Opened d (d.openFile io path).1 path (d.openFile io path).2 := by
  unfold openFile
  split
  · rename_i h
    right
    dsimp only
    have hl : ∀ fd', Dfs.lookup
        { tree := if d.tree path = none then Function.update d.tree path (some (.file [])) else d.tree
          fds := d.setFd d.fdAlloc (some ⟨path, 0⟩)
          log := d.log ++ [.openFile path (fdOffset + d.fdAlloc)] } fd' =
        if fd' = fdOffset + d.fdAlloc then some ⟨path, 0⟩ else d.lookup fd' :=
      fun fd' => lookup_setFd d.fdAlloc_le rfl fd'
    -- in the order of the fields: descriptor free before, in use now, others, target, frame
    refine ⟨by unfold fdOffset; omega, ?_, ?_, ?_, ?_, ?_⟩
    · unfold lookup
      rw [if_pos (by omega)]
      have : (fdOffset + (d.fdAlloc : ℤ) - fdOffset).toNat = d.fdAlloc := by omega
      simp only [this]
      exact fdAlloc_free d
    · simp only [hl, if_true]
    · intro fd' hne
      simp only [hl, if_neg hne]
    · simp only [content]
      by_cases hn : d.tree path = none
      · simp [hn]
      · simp only [if_neg hn]
        cases ht : d.tree path with
        | none => exact absurd ht hn
        | some nd =>
          cases nd with
          | dir => exact absurd ht h.2
          | file c => rfl
    · intro q hq
      simp only [content]
      split_ifs
      · rw [Function.update_of_ne hq]
      · rfl
  · left; exact ⟨rfl, fun _ => rfl, fun _ => rfl⟩

theorem close_lookup (d : Dfs) (fd fd' : ℤ) :
    (d.close fd).lookup fd' = if fd' = fd then none else d.lookup fd' := by
  by_cases h : (d.lookup fd).isSome
  · obtain ⟨f, hf⟩ := Option.isSome_iff_exists.1 h
    obtain ⟨h1, h2⟩ := lookup_some hf
    -- a descriptor in use: its entry becomes free
    have hset : (d.close fd).fds = d.setFd (fd - fdOffset).toNat none := by simp [close, h]
    rw [lookup_setFd h2.le hset fd', show fdOffset + ((fd - fdOffset).toNat : ℤ) = fd by omega]
  · have hl : (d.close fd).lookup fd' = d.lookup fd' := lookup_eq (by simp [close, h]) fd'
    rw [hl]
    split
    · rename_i he
      subst he
      simpa using h
    · rfl

@[simp] theorem close_tree (d : Dfs) (fd : ℤ) : (d.close fd).tree = d.tree := rfl

/-- **A write through a descriptor** overwrites its file at the offset and advances it. -/
theorem write_spec (data : List UInt8) {f : OpenFile} {c : List UInt8} (hf : d.lookup fd = some f)
    (hc : d.content f.path = some c) {k : ℕ} (hk : io.accept = some k) :
    (d.write io fd data).2 = (data.take k).length ∧
      (d.write io fd data).1.tree =
        Function.update d.tree f.path (some (.file (overwrite c f.pos (data.take k)))) ∧
      ∀ fd', (d.write io fd data).1.lookup fd' =
        if fd' = fd then some ⟨f.path, f.pos + (data.take k).length⟩ else d.lookup fd' := by
  have ht : d.tree f.path = some (.file c) := by
    unfold content at hc
    split at hc
    · rename_i c' h
      simp only [Option.some.injEq] at hc
      rw [h, hc]
    · simp at hc
  obtain ⟨h1, h2⟩ := lookup_some hf
  have hw : d.write io fd data =
      ({ tree := Function.update d.tree f.path (some (.file (overwrite c f.pos (data.take k))))
         fds := d.setFd (fd - fdOffset).toNat (some ⟨f.path, f.pos + (data.take k).length⟩)
         log := d.log ++ [.write fd data.length (data.take k).length] }, ((data.take k).length : ℤ)) := by
    simp only [write, hf, hk, ht]
  rw [hw]
  refine ⟨rfl, rfl, fun fd' => ?_⟩
  rw [lookup_setFd h2.le rfl fd', show fdOffset + ((fd - fdOffset).toNat : ℤ) = fd by omega]

theorem content_update {t : List UInt8 → Option Node} {p : List UInt8} {c : List UInt8}
    (h : d'.tree = Function.update t p (some (.file c))) : d'.content p = some c := by
  simp [content, h]

theorem content_update_ne {p q : List UInt8} {nd : Option Node}
    (h : d'.tree = Function.update d.tree p nd) (hq : q ≠ p) : d'.content q = d.content q := by
  simp [content, h, Function.update_of_ne hq]

end Dfs

/-! ## Creating a file -/

open Dfs

theorem checkOrCreateDirectory_same (io : Io) (d : Dfs) (p : List UInt8) :
    Same d (checkOrCreateDirectory io d p).1 := by
  unfold checkOrCreateDirectory
  have ho := opendir_same d p
  split
  · rename_i d1 h; rw [h] at ho; exact ho
  · rename_i d1 h; rw [h] at ho; exact ho.trans (mkdir_same io d1 p)

/-- The loop fails without touching files or descriptors, or opens the whole path. -/
theorem createLoop_cases (io : Io) (rest : List UInt8) : ∀ (d : Dfs) (buff : List UInt8),
    ((createLoop io d buff rest).2 = -1 ∧ Same d (createLoop io d buff rest).1) ∨
      Opened d (createLoop io d buff rest).1 (buff ++ rest) (createLoop io d buff rest).2 := by
  induction rest with
  | nil => intro d buff; left; exact ⟨rfl, Same.refl d⟩
  | cons c rest ih =>
    intro d buff
    cases rest with
    | nil =>
      simp only [createLoop]
      split
      · left; exact ⟨rfl, Same.refl d⟩
      rcases openFile_cases io d (buff ++ [c]) with ⟨h1, h2⟩ | h
      · left; rw [h1, if_neg (by omega)]; exact ⟨rfl, h2⟩
      · right; rw [if_pos h.pos]; exact h
    | cons a t =>
      rw [createLoop]
      have hcat : buff ++ c :: a :: t = (buff ++ [c]) ++ a :: t := by simp
      rw [hcat]
      split
      · have hs := checkOrCreateDirectory_same io d (buff ++ [c])
        split
        · rename_i d1 h
          rw [h] at hs
          rcases ih d1 (buff ++ [c]) with ⟨h1, h2⟩ | h'
          · left; exact ⟨h1, hs.trans h2⟩
          · right; exact hs.opened h'
        · rename_i d1 h
          rw [h] at hs
          left; exact ⟨rfl, hs⟩
      · exact ih d (buff ++ [c])

/-- **Creating a file** fails without touching files or descriptors, or opens the path. -/
theorem createFileByPath_cases (io : Io) (d : Dfs) (path : List UInt8) :
    ((createFileByPath io d path).2 = -1 ∧ Same d (createFileByPath io d path).1) ∨
      Opened d (createFileByPath io d path).1 path (createFileByPath io d path).2 := by
  have := createLoop_cases io path d []
  simpa [createFileByPath] using this

/-! ## Descriptors stay on their files -/

namespace Dfs

/-- The descriptors are open on files, and stand inside of them or at their end. -/
def Sound (d : Dfs) : Prop := ∀ fd f, d.lookup fd = some f → ∃ c, d.content f.path = some c ∧ f.pos ≤ c.length

variable {d d' : Dfs} {io : Io} {fd : ℤ}

theorem Sound.same (h : Sound d) (hs : Same d d') : Sound d' := by
  intro fd f hf
  rw [hs.lookup] at hf
  rw [hs.content]
  exact h fd f hf

theorem Sound.opened {path : List UInt8} (h : Sound d) (ho : Opened d d' path fd) : Sound d' := by
  intro fd' f hf
  by_cases hfd : fd' = fd
  · subst hfd
    rw [ho.entry] at hf
    obtain rfl := Option.some.inj hf
    exact ⟨_, ho.target, Nat.zero_le _⟩
  · rw [ho.others fd' hfd] at hf
    obtain ⟨c, hc, hpos⟩ := h fd' f hf
    by_cases hq : f.path = path
    · refine ⟨c, ?_, hpos⟩
      rw [hq] at hc ⊢
      rw [ho.target, hc]
      rfl
    · exact ⟨c, (ho.frame _ hq).trans hc, hpos⟩

theorem Sound.close (h : Sound d) (fd : ℤ) : Sound (d.close fd) := by
  intro fd' f hf
  rw [close_lookup] at hf
  split at hf
  · cases hf
  · exact h fd' f hf

theorem Sound.create (h : Sound d) (io : Io) (path : List UInt8) : Sound (createFileByPath io d path).1 := by
  obtain ⟨-, hs⟩ | ho := createFileByPath_cases io d path
  · exact h.same hs
  · exact h.opened ho

theorem write_log (io : Io) (d : Dfs) (fd : ℤ) (data : List UInt8) :
    (d.write io fd data).1.log = d.log ++ [.write fd data.length (d.write io fd data).2] := by
  unfold write
  split
  · split
    · rfl
    · rfl
  · rfl

/-- A write is taken, or changes no file and no descriptor. -/
theorem write_cases (h : Sound d) (io : Io) (fd : ℤ) (data : List UInt8) :
    Same d (d.write io fd data).1 ∨ ∃ f c k, d.lookup fd = some f ∧ d.content f.path = some c ∧ io.accept = some k := by
  cases hl : d.lookup fd with
  | none =>
    left
    simp only [write, hl]
    exact ⟨fun _ => rfl, fun _ => rfl⟩
  | some f =>
    cases hk : io.accept with
    | none =>
      left
      simp only [write, hl, hk]
      exact ⟨fun _ => rfl, fun _ => rfl⟩
    | some k =>
      obtain ⟨c, hc, -⟩ := h fd f hl
      exact Or.inr ⟨f, c, k, rfl, hc, rfl⟩

theorem Sound.write (h : Sound d) (io : Io) (fd : ℤ) (data : List UInt8) : Sound (d.write io fd data).1 := by
  obtain hs | ⟨f, c, k, hl, hc, hk⟩ := write_cases h io fd data
  · exact h.same hs
  · obtain ⟨-, htree, hlook⟩ := write_spec data hl hc hk
    obtain ⟨c₀, hc₀, hpos⟩ := h fd f hl
    obtain rfl := Option.some.inj (hc.symm.trans hc₀)
    have hlen := length_overwrite (data.take k) hpos
    intro fd' g hg
    rw [hlook] at hg
    split at hg
    · obtain rfl := Option.some.inj hg
      exact ⟨_, content_update htree, by rw [hlen]; exact le_max_right _ _⟩
    · obtain ⟨c', hc', hpos'⟩ := h fd' g hg
      by_cases hq : g.path = f.path
      · rw [hq] at hc' ⊢
        obtain rfl := Option.some.inj (hc.symm.trans hc')
        exact ⟨_, content_update htree, by rw [hlen]; omega⟩
      · exact ⟨c', (content_update_ne htree hq).trans hc', hpos'⟩

end Dfs

end W601
