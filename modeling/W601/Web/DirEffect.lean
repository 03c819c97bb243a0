import W601.Web.DirStored

/-!
# What a chunk of a directory upload touches

webnet serves all sessions from one loop, so the events of several uploads may alternate. This module
says what one of them can see of a chunk of another one.

* `createFileByPath_tree`: creating a file changes the tree at the file and makes directories above it.
* `Rel`: two file systems agree on the files of one session, up to directories made by others above them.
* `createLoop_rel`, `create_apart`: the agreement is kept by the session's own files, and by files apart from them.
* `chunk_effect`: a chunk works on its own session's descriptor and files.
-/

namespace W601.DirUpload

open CMem Cells Dfs

/-- `q` is one of the directories that `create_file_by_path` makes for `p`. -/
def IsParent (q p : List UInt8) : Prop := q ≠ [] ∧ q ++ [slash] <+: p

/-! ## What creating a file does to the tree -/

section Tree

variable {io : Io} {d : Dfs} {p : List UInt8}

theorem checkOrCreateDirectory_eq (hio : io.mkdirOk p = true) :
    (checkOrCreateDirectory io d p).1.tree =
        (if d.tree p = none then Function.update d.tree p (some .dir) else d.tree) ∧
      (checkOrCreateDirectory io d p).2 = decide (d.tree p = none ∨ d.tree p = some .dir) := by
  unfold checkOrCreateDirectory Dfs.opendir Dfs.mkdir
  by_cases h1 : d.tree p = some .dir
  · simp [h1]
  · by_cases h2 : d.tree p = none
    · simp [h2, hio]
    · simp [h1, h2]

theorem openFile_eq (io : Io) (d : Dfs) (p : List UInt8) :
    (d.openFile io p).1.tree =
        (if io.openOk ∧ d.tree p = none then Function.update d.tree p (some (.file [])) else d.tree) ∧
      (0 < (d.openFile io p).2 ↔ io.openOk = true ∧ d.tree p ≠ some .dir) := by
  unfold Dfs.openFile
  by_cases h : io.openOk = true ∧ d.tree p ≠ some .dir
  · rw [if_pos h]
    refine ⟨by simp only [h.1, true_and], fun _ => h, fun _ => ?_⟩
    simp only [fdOffset]; omega
  · rw [if_neg h]
    refine ⟨?_, by simp only [h, iff_false]; omega⟩
    by_cases hn : d.tree p = none
    · have : io.openOk = false := by
        by_contra hc
        exact h ⟨by simpa using hc, by simp [hn]⟩
      simp [this]
    · simp [hn]

/-- One directory above the file: unchanged, or made where nothing was. -/
theorem checkOrCreateDirectory_tree (io : Io) (d : Dfs) (u v : List UInt8) :
    (checkOrCreateDirectory io d u).1.tree v = d.tree v ∨
      (v = u ∧ d.tree v = none ∧ (checkOrCreateDirectory io d u).1.tree v = some .dir) := by
  unfold checkOrCreateDirectory Dfs.opendir Dfs.mkdir
  by_cases h1 : d.tree u = some .dir
  · left; simp [h1]
  · by_cases h2 : io.mkdirOk u = true ∧ d.tree u = none
    · by_cases hv : v = u
      · right; subst hv; simp [h2]
      · left; simp [h2, Function.update_of_ne hv]
    · left
      have hopen : decide (d.tree u = some .dir) = false := by simp [h1]
      simp only [hopen, if_neg h2]

theorem openFile_tree_ne (io : Io) (d : Dfs) {p v : List UInt8} (hv : v ≠ p) :
    (d.openFile io p).1.tree v = d.tree v := by
  rw [(openFile_eq io d p).1]
  split_ifs
  · rw [Function.update_of_ne hv]
  · rfl

/-- Creating a file changes the tree at the file itself and makes directories above it. -/
theorem createLoop_tree (io : Io) (rest : List UInt8) : ∀ (d : Dfs) (buff : List UInt8) (v : List UInt8),
    (createLoop io d buff rest).1.tree v = d.tree v ∨ v = buff ++ rest ∨
      (IsParent v (buff ++ rest) ∧ d.tree v = none ∧ (createLoop io d buff rest).1.tree v = some .dir) := by
  induction rest with
  | nil => intro d buff v; left; rfl
  | cons c rest ih =>
    intro d buff v
    cases rest with
    | nil =>
      simp only [createLoop]
      split
      · left; rfl
      by_cases hv : v = buff ++ [c]
      · right; left; exact hv
      · left
        have hopen := openFile_tree_ne io d hv
        split_ifs <;> exact hopen
    | cons a t =>
      have hcat : buff ++ c :: a :: t = (buff ++ [c]) ++ a :: t := by simp
      rw [createLoop, hcat]
      split
      · rename_i ha
        subst ha
        have hpar : IsParent (buff ++ [c]) ((buff ++ [c]) ++ slash :: t) := ⟨by simp, ⟨t, by simp⟩⟩
        have hdir := checkOrCreateDirectory_tree io d (buff ++ [c]) v
        split
        · rename_i d1 hd1
          rw [hd1] at hdir
          rcases ih d1 (buff ++ [c]) v with h | h | ⟨h, h', h''⟩
          · rcases hdir with hd | ⟨rfl, hd, hd'⟩
            · left; rw [h, hd]
            · right; right; exact ⟨hpar, hd, by rw [h, hd']⟩
          · right; left; exact h
          · rcases hdir with hd | ⟨rfl, hd, hd'⟩
            · right; right; exact ⟨h, by rw [← hd]; exact h', h''⟩
            · exact absurd (h'.symm.trans hd') (by simp)
        · rename_i d1 hd1
          rw [hd1] at hdir
          rcases hdir with hd | ⟨rfl, hd, hd'⟩
          · left; exact hd
          · right; right; exact ⟨hpar, hd, hd'⟩
      · exact ih d (buff ++ [c]) v

theorem createFileByPath_tree (io : Io) (d : Dfs) (p v : List UInt8) :
    (createFileByPath io d p).1.tree v = d.tree v ∨ v = p ∨
      (IsParent v p ∧ d.tree v = none ∧ (createFileByPath io d p).1.tree v = some .dir) := by
  simpa [createFileByPath] using createLoop_tree io p d [] v

end Tree

/-! ## Two file systems that agree on one session's files -/

/-- The trees agree on the files `T`; above them the first may have more directories. -/
structure Rel (T : Set (List UInt8)) (d e : Dfs) : Prop where
  targets : ∀ p ∈ T, d.tree p = e.tree p
  parents : ∀ p ∈ T, ∀ q, IsParent q p → d.tree q = e.tree q ∨ (e.tree q = none ∧ d.tree q = some .dir)

theorem Rel.refl (T : Set (List UInt8)) (d : Dfs) : Rel T d d := ⟨fun _ _ => rfl, fun _ _ _ _ => Or.inl rfl⟩

variable {T : Set (List UInt8)} {d e : Dfs} {io : Io} {p : List UInt8}

theorem Rel.of_tree {d' e' : Dfs} (h : Rel T d e) (hd : d'.tree = d.tree) (he : e'.tree = e.tree) :
    Rel T d' e' := by
  refine ⟨?_, ?_⟩
  · rw [hd, he]; exact h.targets
  · rw [hd, he]; exact h.parents

/-- The same entry put at one path of both keeps the agreement. -/
theorem Rel.update {d' e' : Dfs} (h : Rel T d e) (u : List UInt8) (nd : Node)
    (hd : d'.tree = Function.update d.tree u (some nd)) (he : e'.tree = Function.update e.tree u (some nd)) :
    Rel T d' e' := by
  refine ⟨fun p hp => ?_, fun p hp q hq => ?_⟩
  · by_cases hu : p = u
    · subst hu; rw [hd, he, Function.update_self, Function.update_self]
    · rw [hd, he, Function.update_of_ne hu, Function.update_of_ne hu]; exact h.targets p hp
  · by_cases hu : q = u
    · subst hu; left; rw [hd, he, Function.update_self, Function.update_self]
    · rw [hd, he, Function.update_of_ne hu, Function.update_of_ne hu]; exact h.parents p hp q hq

/-- Opening one of the files in both: it is made in both trees or is there in both. -/
theorem openFile_rel (io : Io) (h : Rel T d e) (hp : p ∈ T) :
    Rel T (d.openFile io p).1 (e.openFile io p).1 ∧
      (0 < (d.openFile io p).2 ↔ 0 < (e.openFile io p).2) := by
  have ht := h.targets _ hp
  obtain ⟨d1, d2⟩ := openFile_eq io d p
  obtain ⟨e1, e2⟩ := openFile_eq io e p
  rw [ht] at d1 d2
  refine ⟨?_, d2.trans e2.symm⟩
  by_cases hn : io.openOk = true ∧ e.tree p = none
  · exact h.update _ _ (by rw [d1, if_pos hn]) (by rw [e1, if_pos hn])
  · exact h.of_tree (by rw [d1, if_neg hn]) (by rw [e1, if_neg hn])

/-- A directory above one of the files: the same in both, or made by another session. -/
theorem checkOrCreateDirectory_rel {u : List UInt8} (hio : io.mkdirOk u = true) (h : Rel T d e) (hp : p ∈ T)
    (hu : IsParent u p) :
    Rel T (checkOrCreateDirectory io d u).1 (checkOrCreateDirectory io e u).1 ∧
      (checkOrCreateDirectory io d u).2 = (checkOrCreateDirectory io e u).2 := by
  obtain ⟨d1, d2⟩ := checkOrCreateDirectory_eq (d := d) hio
  obtain ⟨e1, e2⟩ := checkOrCreateDirectory_eq (d := e) hio
  rw [d2, e2]
  rcases h.parents _ hp u hu with hc | ⟨hc, hc'⟩
  · rw [hc] at d1 ⊢
    refine ⟨?_, rfl⟩
    by_cases hn : e.tree u = none
    · exact h.update u .dir (by rw [d1, if_pos hn]) (by rw [e1, if_pos hn])
    · exact h.of_tree (by rw [d1, if_neg hn]) (by rw [e1, if_neg hn])
  · -- the directory that another session has made is made here now
    refine ⟨h.update u .dir ?_ (by rw [e1, if_pos hc]), by simp [hc, hc']⟩
    rw [d1, if_neg (by simp [hc']), ← hc', Function.update_eq_self]

/-- **Creating one of the files in both** keeps the agreement and succeeds in both or in none. -/
theorem createLoop_rel (hio : ∀ q, io.mkdirOk q = true) (rest : List UInt8) :
    ∀ {d e : Dfs} {buff : List UInt8}, Rel T d e → buff ++ rest ∈ T →
      Rel T (createLoop io d buff rest).1 (createLoop io e buff rest).1 ∧
        (0 < (createLoop io d buff rest).2 ↔ 0 < (createLoop io e buff rest).2) := by
  induction rest with
  | nil => intro d e buff h _; exact ⟨h, Iff.rfl⟩
  | cons c rest ih =>
    intro d e buff h hT
    cases rest with
    | nil =>
      simp only [createLoop]
      split
      · exact ⟨h, Iff.rfl⟩
      obtain ⟨hrel, hfd⟩ := openFile_rel io h hT
      by_cases hok : 0 < (d.openFile io (buff ++ [c])).2
      · rw [if_pos hok, if_pos (hfd.1 hok)]
        exact ⟨hrel, hfd⟩
      · rw [if_neg hok, if_neg (fun hp => hok (hfd.2 hp))]
        exact ⟨hrel, Iff.rfl⟩
    | cons a t =>
      have hcat : buff ++ c :: a :: t = (buff ++ [c]) ++ a :: t := by simp
      rw [hcat] at hT
      rw [createLoop, createLoop]
      split
      · rename_i ha
        subst ha
        have hpar : IsParent (buff ++ [c]) ((buff ++ [c]) ++ slash :: t) := ⟨by simp, ⟨t, by simp⟩⟩
        obtain ⟨hrel, hans⟩ := checkOrCreateDirectory_rel (hio (buff ++ [c])) h hT hpar
        split
        · rename_i d' hd'
          rw [hd'] at hans hrel
          split
          · rename_i e' he'
            rw [he'] at hrel
            exact ih hrel hT
          · rename_i e' he'
            rw [he'] at hans
            simp at hans
        · rename_i d' hd'
          rw [hd'] at hans hrel
          split
          · rename_i e' he'
            rw [he'] at hans
            simp at hans
          · rename_i e' he'
            rw [he'] at hrel
            exact ⟨hrel, Iff.rfl⟩
      · exact ih h hT

/-- Files `q` of another session: not one of ours, not one of our directories, and none of ours is
a directory it needs. -/
def Apart (T : Set (List UInt8)) (q : List UInt8) : Prop :=
  ∀ p ∈ T, q ≠ p ∧ ¬ IsParent q p ∧ ¬ IsParent p q

/-- Creating a file of another session keeps the agreement. -/
theorem create_apart {q : List UInt8} (h : Rel T d e) (hq : Apart T q) :
    Rel T (createFileByPath io d q).1 e := by
  refine ⟨fun p hp => ?_, fun p hp v hv => ?_⟩
  · rcases createFileByPath_tree io d q p with h1 | h1 | ⟨h1, -, -⟩
    · rw [h1]; exact h.targets p hp
    · exact absurd h1.symm (hq p hp).1
    · exact absurd h1 (hq p hp).2.2
  · rcases createFileByPath_tree io d q v with h1 | h1 | ⟨-, h2, h3⟩
    · rw [h1]; exact h.parents p hp v hv
    · subst h1; exact absurd hv (hq p hp).2.1
    · right
      rcases h.parents p hp v hv with h4 | ⟨h4, -⟩
      · exact ⟨by rw [← h4, h2], h3⟩
      · exact ⟨h4, h3⟩

theorem update_apart {d' : Dfs} {q : List UInt8} (h : Rel T d e) (hq : Apart T q) {nd : Option Node}
    (hd : d'.tree = Function.update d.tree q nd) : Rel T d' e := by
  refine ⟨fun p hp => ?_, fun p hp v hv => ?_⟩
  · rw [hd, Function.update_of_ne (fun he => (hq p hp).1 he.symm)]; exact h.targets p hp
  · have hne : v ≠ q := fun he => (hq p hp).2.1 (he ▸ hv)
    rw [hd, Function.update_of_ne hne]; exact h.parents p hp v hv

/-! ## Sessions and their descriptors -/

/-- The base directory of each session in progress: between its `upload_open` and `upload_done`. -/
abbrev Live := ℕ → Option (List UInt8)

def liveStep (live : Live) : DirEv → Live
  | .opened sid path mem => Function.update live sid (if mem then path else none)
  | .write _ _ _ _ _ => live
  | .done sid => Function.update live sid none
  | .closed sid => Function.update live sid none

/-- The event keeps to the protocol: chunks and `upload_done` come for sessions in progress, and
the chunks of session `sid` go to the files `T sid`, in directories that can be made. -/
def EvOk (T : ℕ → Set (List UInt8)) (live : Live) : DirEv → Prop
  | .opened _ _ _ => True
  | .write sid name _ stack io =>
    (∃ base, live sid = some base ∧ uploadPath base name stack ∈ T sid) ∧ ∀ q, io.mkdirOk q = true
  | .done sid => ∃ base, live sid = some base
  | .closed _ => True

/-- Every event of the run keeps to the protocol. -/
def Proto (T : ℕ → Set (List UInt8)) : Live → List DirEv → Prop
  | _, [] => True
  | live, e :: es => EvOk T live e ∧ Proto T (liveStep live e) es

/-- The descriptor of a manager: none, or one in use on a file of `T`. -/
def Holds (T : Set (List UInt8)) (d : Dfs) (fd : ℤ) : Prop :=
  fd ≤ 0 ∨ ∃ f, d.lookup fd = some f ∧ f.path ∈ T

/-- **Each session in progress holds its own descriptor.** -/
structure Owned (T : ℕ → Set (List UInt8)) (live : Live) (s : DirState) : Prop where
  holds : ∀ y base, live y = some base →
    ∃ m, s.mgr y = some m ∧ m.basePath = some base ∧ Holds (T y) s.dfs m.fd
  distinct : ∀ y z, y ≠ z → (live y).isSome → (live z).isSome → ∀ m k, s.mgr y = some m →
    s.mgr z = some k → 0 < m.fd → m.fd ≠ k.fd

/-- Close the descriptor at hand and create the file (`upload_write` under a new name). -/
def reopen (io : Io) (d : Dfs) (m : UploadMgr) (path : List UInt8) : Dfs × UploadMgr :=
  ((createFileByPath io (if m.fd > 0 then d.close m.fd else d) path).1,
    { m with fd := (createFileByPath io (if m.fd > 0 then d.close m.fd else d) path).2 })

/-- Write through the descriptor at hand. -/
def put (io : Io) (d : Dfs) (m : UploadMgr) (data : List UInt8) : Dfs :=
  if m.fd > 0 then (d.write io m.fd data).1 else d

/-- The file system and the manager behind a chunk. -/
def chunkStep (fresh : Bool) (io : Io) (d : Dfs) (m : UploadMgr) (path data : List UInt8) : Dfs × UploadMgr :=
  let r := if fresh then reopen io d m path else (d, m)
  (put io r.1 r.2 data, { r.2 with currentFileSize := r.2.currentFileSize + data.length })

/-- **A chunk of a session in progress**: dropped when its name is too long, else the file is reopened
when `old_filename` holds another name. -/
theorem step_write (name data : List UInt8) (stack : Mem) (io : Io) {s : DirState} {sid : ℕ}
    {base : List UInt8} {m : UploadMgr} (hm : s.mgr sid = some m) (hb : m.basePath = some base) :
    (name.length > 127 → step s (.write sid name data stack io) = s) ∧
    (name.length ≤ 127 →
      (step s (.write sid name data stack io)).dfs =
          (chunkStep (decide (s.oldFilename ≠ name)) io s.dfs m (uploadPath base name stack) data).1 ∧
        (step s (.write sid name data stack io)).mgr = Function.update s.mgr sid (some
          (chunkStep (decide (s.oldFilename ≠ name)) io s.dfs m (uploadPath base name stack) data).2) ∧
        (step s (.write sid name data stack io)).oldFilename = name) := by
  refine ⟨fun hn => ?_, fun hn => ?_⟩
  · simp only [step, uploadWrite, hm]
    rw [if_pos (by omega)]
  · simp only [step, uploadWrite, hm]
    rw [if_neg (by omega)]
    by_cases ho : s.oldFilename = name
    · rw [if_neg (by simp [ho])]
      simp only [writeChunk, chunkStep, put, ho, ne_eq, not_true_eq_false, decide_false, Bool.false_eq_true,
        if_false]
      split_ifs <;> exact ⟨rfl, rfl, rfl⟩
    · rw [if_pos ho, newFile_eq hb]
      simp only [writeChunk, chunkStep, put, reopen, ho, ne_eq, not_false_eq_true, decide_true, if_true]
      split_ifs <;> exact ⟨rfl, rfl, rfl⟩

theorem chunkStep_base (fresh : Bool) (io : Io) (d : Dfs) (m : UploadMgr) (path data : List UInt8) :
    (chunkStep fresh io d m path data).2.basePath = m.basePath := by
  cases fresh <;> rfl

theorem ite_close_lookup (d : Dfs) (fd fd' : ℤ) (h : fd' ≠ fd) :
    (if fd > 0 then d.close fd else d).lookup fd' = d.lookup fd' := by
  split_ifs
  · rw [close_lookup, if_neg h]
  · rfl

theorem ite_close_tree (d : Dfs) (fd : ℤ) : (if fd > 0 then d.close fd else d).tree = d.tree := by
  split_ifs <;> rfl

/-- A write to a descriptor whose path holds no file changes nothing. -/
theorem write_noFile (data : List UInt8) {fd : ℤ} {f : OpenFile} (hf : d.lookup fd = some f)
    (hc : d.content f.path = none) :
    (∀ io, (d.write io fd data).1.tree = d.tree) ∧ ∀ io, (d.write io fd data).1.fds = d.fds := by
  have hno : ∀ c, d.tree f.path ≠ some (.file c) := fun c ht => by simp [Dfs.content, ht] at hc
  refine ⟨fun io => ?_, fun io => ?_⟩ <;>
  · simp only [Dfs.write, hf]
    split
    · rename_i g k hg _
      obtain rfl := Option.some.inj hg
      split
      · rename_i c ht
        exact absurd ht (hno c)
      · rfl
    · rfl

/-- The table behind a write: the entry written through moves on, on the same file. -/
theorem write_lookup (io : Io) (d : Dfs) (fd : ℤ) (data : List UInt8) (fd' : ℤ) :
    (fd' ≠ fd → (d.write io fd data).1.lookup fd' = d.lookup fd') ∧
    (∀ f, d.lookup fd = some f → ∃ f', (d.write io fd data).1.lookup fd = some f' ∧ f'.path = f.path) := by
  cases hl : d.lookup fd with
  | none =>
    have hw : (d.write io fd data).1.fds = d.fds := by simp [Dfs.write, hl]
    exact ⟨fun _ => lookup_eq hw fd', fun f hf => by simp at hf⟩
  | some f =>
    cases hk : io.accept with
    | none =>
      have hw : (d.write io fd data).1.fds = d.fds := by simp [Dfs.write, hl, hk]
      exact ⟨fun _ => lookup_eq hw fd', fun g hg => ⟨g, by rw [lookup_eq hw, hl, hg], rfl⟩⟩
    | some k =>
      cases hc : d.content f.path with
      | none =>
        have hw := (write_noFile data hl hc).2 io
        exact ⟨fun _ => lookup_eq hw fd', fun g hg => ⟨g, by rw [lookup_eq hw, hl, hg], rfl⟩⟩
      | some c =>
        obtain ⟨-, -, h3⟩ := write_spec data hl hc hk
        refine ⟨fun hne => by rw [h3, if_neg hne], fun g hg => ?_⟩
        rw [Option.some.injEq] at hg
        exact ⟨_, by rw [h3, if_pos rfl], by rw [hg]⟩

/-- The tree behind a write: at most the file written through changes. -/
theorem write_tree (io : Io) (d : Dfs) (fd : ℤ) (data : List UInt8) {f : OpenFile}
    (hf : d.lookup fd = some f) :
    ∃ nd, (d.write io fd data).1.tree = Function.update d.tree f.path nd := by
  refine ⟨(d.write io fd data).1.tree f.path, ?_⟩
  simp only [Dfs.write, hf]
  split
  · rename_i g k hg _
    obtain rfl := Option.some.inj hg
    split
    · simp
    · simp
  · simp

/-! ## What a chunk does to the other sessions -/

/-- What a chunk of a session with the files `T` leaves: a descriptor on one of its files, the
descriptors of others as they were, and the files of others as they were. -/
structure ChunkEffect (T : Set (List UInt8)) (d : Dfs) (m : UploadMgr) (d' : Dfs) (m' : UploadMgr) : Prop where
  base : m'.basePath = m.basePath
  holds : Holds T d' m'.fd
  others : ∀ fd f, fd ≠ m.fd → d.lookup fd = some f → m'.fd ≠ fd ∧ d'.lookup fd = some f
  rel : ∀ (U : Set (List UInt8)) (e : Dfs), (∀ q ∈ T, Apart U q) → Rel U d e → Rel U d' e

theorem reopen_effect {m : UploadMgr} (hp : p ∈ T) :
    ChunkEffect T d m (reopen io d m p).1 (reopen io d m p).2 := by
  set d0 := if m.fd > 0 then d.close m.fd else d with hd0
  have hl : ∀ fd, fd ≠ m.fd → d0.lookup fd = d.lookup fd := fun fd h => ite_close_lookup d m.fd fd h
  have ht : d0.tree = d.tree := ite_close_tree d m.fd
  have hrel : ∀ (U : Set (List UInt8)) (e : Dfs), (∀ q ∈ T, Apart U q) → Rel U d e →
      Rel U (createFileByPath io d0 p).1 e :=
    fun U e hU h => create_apart (h.of_tree ht rfl) (hU p hp)
  rcases createFileByPath_cases io d0 p with ⟨h1, h2⟩ | h
  · refine ⟨rfl, Or.inl ?_, fun fd f hne hf => ⟨?_, ?_⟩, hrel⟩
    · simp only [reopen, ← hd0, h1]; omega
    · simp only [reopen, ← hd0, h1]
      rintro rfl
      exact absurd (lookup_some hf).1 (by decide)
    · simp only [reopen, ← hd0, h2.lookup, hl fd hne, hf]
  · refine ⟨rfl, Or.inr ⟨_, h.entry, hp⟩, fun fd f hne hf => ?_, hrel⟩
    have hfd : fd ≠ (createFileByPath io d0 p).2 := by
      rintro rfl
      rw [← hl _ hne, h.fresh] at hf
      simp at hf
    exact ⟨fun he => hfd he.symm, by simp only [reopen, ← hd0, h.others fd hfd, hl fd hne, hf]⟩

theorem put_effect (io : Io) {m : UploadMgr} (hm : Holds T d m.fd) (data : List UInt8) :
    ChunkEffect T d m (put io d m data) m := by
  unfold put
  split
  · rename_i hpos
    obtain ⟨f, hf, hT⟩ := hm.resolve_left (by omega)
    obtain ⟨f', hf', hpath⟩ := (write_lookup io d m.fd data m.fd).2 f hf
    refine ⟨rfl, Or.inr ⟨f', hf', by rw [hpath]; exact hT⟩, fun fd g hne hg => ⟨hne.symm, ?_⟩, ?_⟩
    · rw [(write_lookup io d m.fd data fd).1 hne, hg]
    · intro U e hU h
      obtain ⟨nd, hnd⟩ := write_tree io d m.fd data hf
      exact update_apart h (hU _ hT) hnd
  · exact ⟨rfl, hm, fun fd g hne hg => ⟨hne.symm, hg⟩, fun _ _ _ h => h⟩

theorem ChunkEffect.trans {d1 d2 : Dfs} {m m1 m2 : UploadMgr} (h : ChunkEffect T d m d1 m1)
    (h' : ChunkEffect T d1 m1 d2 m2) : ChunkEffect T d m d2 m2 where
  base := h'.base.trans h.base
  holds := h'.holds
  others := fun fd f hne hf => by
    obtain ⟨h1, h2⟩ := h.others fd f hne hf
    exact h'.others fd f (fun he => h1 he.symm) h2
  rel := fun U e hU hr => h'.rel U e hU (h.rel U e hU hr)

/-- **A chunk works on its own session's descriptor and files.** -/
theorem chunk_effect (io : Io) {m : UploadMgr} (hm : Holds T d m.fd) (hp : p ∈ T) (fresh : Bool)
    (data : List UInt8) :
    ChunkEffect T d m (chunkStep fresh io d m p data).1 (chunkStep fresh io d m p data).2 := by
  cases fresh with
  | false =>
    have h := put_effect io hm data
    exact ⟨h.base, h.holds, h.others, h.rel⟩
  | true =>
    have h1 : ChunkEffect T d m (reopen io d m p).1 (reopen io d m p).2 := reopen_effect hp
    have h := h1.trans (put_effect io h1.holds data)
    exact ⟨h.base, h.holds, h.others, h.rel⟩

end W601.DirUpload
