import W601.Lib.Runs
import W601.Web.DirStored

/-!
# A request to `/upload/directory` (`wn_module_upload.c`)

webnet reads a multipart request and calls the handler of `wn_dir_upload.c`: `upload_open` at the first
file part, `upload_close` at a form field or when the session ends, `upload_write` for the data of a file part,
`upload_done` at the last boundary. The connection may break at any point. Between two calls of one session
other sessions may change the files, the descriptors and `old_filename`.

The session keeps book of the descriptors that its own calls have opened and closed.

* `createFileByPath_log`: the calls of `create_file_by_path`.
* `session_step`: what one event of an orderly session keeps.
* `session_tidy`: an orderly session follows no null pointer, opens converted paths only, and closes what it has opened.
* `sessions_out_of_order`: sessions that do not.
-/

namespace W601

open CMem Dfs Runs

/-! ## The descriptors of a session -/

/-- The calls that open and close no file. -/
def FsCall.Plain : FsCall → Prop
  | .openFile _ _ => False
  | .close _ => False
  | _ => True

/-- The book of descriptors: those that were opened, those that are open, and whether one was closed twice. -/
structure Fds where
  opened : List ℤ
  held : List ℤ
  twice : Bool

namespace Fds

/-- The book behind a call. -/
def call (b : Fds) : FsCall → Fds
  | .openFile _ fd => if 0 < fd then { b with opened := fd :: b.opened, held := fd :: b.held } else b
  | .close fd =>
    if fd ∈ b.held then { b with held := b.held.erase fd } else { b with twice := b.twice || decide (fd ∈ b.opened) }
  | _ => b

/-- The book of a session whose manager has the descriptor `fd`: it is the one that is open, if it is one. -/
structure Clean (b : Fds) (fd : ℤ) : Prop where
  held : b.held = if 0 < fd then [fd] else []
  twice : b.twice = false
  pos : ∀ x ∈ b.opened, 0 < x

variable {b : Fds} {fd : ℤ}

theorem foldl_plain : ∀ {calls : List FsCall} {b : Fds}, (∀ c ∈ calls, c.Plain) → calls.foldl call b = b := by
  intro calls
  induction calls with
  | nil => intro b _; rfl
  | cons c calls ih =>
    intro b h
    have hc : b.call c = b := by
      have hplain := h c List.mem_cons_self
      cases c with
      | openFile path fd => exact hplain.elim
      | close fd => exact hplain.elim
      | opendir path ok => rfl
      | mkdir path ok => rfl
      | write fd length ret => rfl
    rw [List.foldl_cons, hc]
    exact ih fun c' hc' => h c' (List.mem_cons_of_mem _ hc')

/-- The manager closes its descriptor, or calls `close` with what is none. -/
theorem Clean.close (h : b.Clean fd) : (b.call (.close fd)).Clean 0 := by
  by_cases hfd : 0 < fd
  · have hheld : b.held = [fd] := by rw [h.held, if_pos hfd]
    have hcall : b.call (.close fd) = { b with held := [] } := by simp [call, hheld]
    rw [hcall]
    exact ⟨rfl, h.twice, h.pos⟩
  · have hheld : b.held = [] := by rw [h.held, if_neg hfd]
    have hnew : fd ∉ b.opened := fun hmem => hfd (h.pos fd hmem)
    have hcall : b.call (.close fd) = b := by
      simp only [call, hheld, List.not_mem_nil, if_false, hnew, decide_false, Bool.or_false]
      cases b
      simp_all
    rw [hcall]
    exact ⟨hheld, h.twice, h.pos⟩

/-- A manager without a descriptor. -/
theorem Clean.none (h : b.Clean fd) (hfd : ¬ 0 < fd) : b.Clean 0 := ⟨by rw [h.held, if_neg hfd]; rfl, h.twice, h.pos⟩

theorem Clean.openFile (h : b.Clean 0) (path : List UInt8) (hfd : 0 < fd) : (b.call (.openFile path fd)).Clean fd := by
  have hheld : b.held = [] := h.held
  simp only [call, if_pos hfd]
  refine ⟨by rw [hheld, if_pos hfd], h.twice, fun x hx => ?_⟩
  obtain rfl | hx := List.mem_cons.1 hx
  · exact hfd
  · exact h.pos x hx

theorem call_openFails (b : Fds) (path : List UInt8) (hfd : ¬ 0 < fd) : b.call (.openFile path fd) = b := if_neg hfd

end Fds

/-! ## The calls of `create_file_by_path` -/

theorem mkdir_log (io : Io) (d : Dfs) (p : List UInt8) : ∃ c, (d.mkdir io p).1.log = d.log ++ [c] ∧ c.Plain := by
  unfold Dfs.mkdir
  split
  · exact ⟨_, rfl, trivial⟩
  · exact ⟨_, rfl, trivial⟩

theorem checkOrCreateDirectory_log (io : Io) (d : Dfs) (p : List UInt8) :
    ∃ calls, (checkOrCreateDirectory io d p).1.log = d.log ++ calls ∧ ∀ c ∈ calls, c.Plain := by
  unfold checkOrCreateDirectory
  split
  · rename_i d1 h
    obtain rfl := (Prod.mk.inj h).1
    exact ⟨_, rfl, by simp [FsCall.Plain]⟩
  · rename_i d1 h
    obtain rfl := (Prod.mk.inj h).1
    obtain ⟨c, hlog, hplain⟩ := mkdir_log io (d.opendir p).1 p
    refine ⟨[.opendir p (d.tree p = some .dir), c], hlog.trans ?_, fun x hx => ?_⟩
    · simp [Dfs.opendir]
    · obtain rfl | hx := List.mem_cons.1 hx
      · trivial
      · rw [List.mem_singleton.1 hx]
        exact hplain

/-- What a creation has logged: calls for the directories, and the opening of the file if it came to that. -/
def CreateLog (log log' : List FsCall) (path : List UInt8) (ret : ℤ) : Prop :=
  ∃ dirs, (∀ c ∈ dirs, c.Plain) ∧ ((log' = log ++ dirs ∧ ret = -1) ∨
    ∃ fd, log' = log ++ dirs ++ [.openFile path fd] ∧ ((0 < fd ∧ ret = fd) ∨ (¬ 0 < fd ∧ ret = -1)))

/-- Directories that were made before. -/
theorem CreateLog.prepend {log log₁ log' : List FsCall} {path : List UInt8} {ret : ℤ} {calls : List FsCall}
    (h : CreateLog log₁ log' path ret) (hlog : log₁ = log ++ calls) (hplain : ∀ c ∈ calls, c.Plain) :
    CreateLog log log' path ret := by
  obtain ⟨dirs, hdirs, h⟩ := h
  refine ⟨calls ++ dirs, fun c hc => ?_, ?_⟩
  · obtain hc | hc := List.mem_append.1 hc
    · exact hplain c hc
    · exact hdirs c hc
  · rw [hlog] at h
    simpa only [List.append_assoc] using h

theorem openFile_log (io : Io) (d : Dfs) (p : List UInt8) :
    (d.openFile io p).1.log = d.log ++ [.openFile p (d.openFile io p).2] := by
  unfold Dfs.openFile
  split
  · rfl
  · rfl

/-- **The calls of `create_file_by_path`**: the loop. -/
theorem createLoop_log (io : Io) (rest : List UInt8) : ∀ (d : Dfs) (buff : List UInt8),
    CreateLog d.log (createLoop io d buff rest).1.log (buff ++ rest) (createLoop io d buff rest).2 := by
  induction rest with
  | nil => intro d buff; exact ⟨[], by simp, Or.inl ⟨by simp [createLoop], rfl⟩⟩
  | cons c rest ih =>
    intro d buff
    cases rest with
    | nil =>
      simp only [createLoop]
      split
      · exact ⟨[], by simp, Or.inl ⟨by simp, rfl⟩⟩
      · have hlog := openFile_log io d (buff ++ [c])
        refine ⟨[], by simp, Or.inr ⟨(d.openFile io (buff ++ [c])).2, ?_, ?_⟩⟩
        · rw [List.append_nil, ← hlog]
          split
          · rfl
          · rfl
        · split
          · rename_i hpos
            exact Or.inl ⟨hpos, rfl⟩
          · rename_i hneg
            exact Or.inr ⟨hneg, rfl⟩
    | cons a t =>
      have hcat : buff ++ c :: a :: t = (buff ++ [c]) ++ a :: t := by simp
      rw [createLoop, hcat]
      split
      · obtain ⟨calls, hlog, hplain⟩ := checkOrCreateDirectory_log io d (buff ++ [c])
        split
        · rename_i d1 h
          rw [h] at hlog
          exact (ih d1 (buff ++ [c])).prepend hlog hplain
        · rename_i d1 h
          rw [h] at hlog
          exact ⟨calls, hplain, Or.inl ⟨hlog, rfl⟩⟩
      · exact ih d (buff ++ [c])

theorem createFileByPath_log (io : Io) (d : Dfs) (path : List UInt8) :
    CreateLog d.log (createFileByPath io d path).1.log path (createFileByPath io d path).2 := by
  simpa [createFileByPath] using createLoop_log io path d []

/-- The book behind a creation. -/
theorem Fds.Clean.create {b : Fds} (hb : b.Clean 0) {log log' : List FsCall} {path : List UInt8} {ret : ℤ}
    (h : CreateLog log log' path ret) :
    ∃ calls, log' = log ++ calls ∧ (calls.foldl Fds.call b).Clean ret ∧ ∀ p fd, .openFile p fd ∈ calls → p = path := by
  obtain ⟨dirs, hdirs, ⟨hlog, rfl⟩ | ⟨fd, hlog, hret⟩⟩ := h
  · refine ⟨dirs, hlog, ?_, fun p fd hmem => (hdirs _ hmem).elim⟩
    rw [Fds.foldl_plain hdirs]
    exact ⟨hb.held, hb.twice, hb.pos⟩
  · refine ⟨dirs ++ [.openFile path fd], by rw [hlog, List.append_assoc], ?_, fun p fd' hmem => ?_⟩
    · rw [List.foldl_append, Fds.foldl_plain hdirs]
      obtain ⟨hpos, rfl⟩ | ⟨hneg, rfl⟩ := hret
      · exact hb.openFile path hpos
      · rw [List.foldl_cons, List.foldl_nil, Fds.call_openFails _ _ hneg]
        exact ⟨hb.held, hb.twice, hb.pos⟩
    · obtain hmem | hmem := List.mem_append.1 hmem
      · exact (hdirs _ hmem).elim
      · exact (FsCall.openFile.inj (List.mem_singleton.1 hmem)).1

namespace DirUpload

variable {s : DirState} {sid : ℕ} {m : UploadMgr} {name data : List UInt8} {stack : Mem} {io : Io}

theorem writeChunk_log (s : DirState) (sid : ℕ) (m : UploadMgr) (data : List UInt8) (io : Io) :
    ∃ calls, (writeChunk s sid m data io).dfs.log = s.dfs.log ++ calls ∧ ∀ c ∈ calls, c.Plain := by
  unfold writeChunk
  split
  · exact ⟨_, write_log io s.dfs m.fd data, by simp [FsCall.Plain]⟩
  · exact ⟨[], by simp, by simp⟩

theorem writeChunk_fault (s : DirState) (sid : ℕ) (m : UploadMgr) (data : List UInt8) (io : Io) :
    (writeChunk s sid m data io).fault = s.fault := by
  unfold writeChunk
  split
  · rfl
  · rfl

/-- The name leads to this path by a conversion that succeeds. -/
def Converted (query : Option (List UInt8)) (name path : List UInt8) : Prop :=
  ∃ base, query = some base ∧ PathFits name base maxFilenameLength ∧ targetOf base name = some path

/-- A chunk has left the manager `m'`: its calls keep the book, and open the paths `ok` only. -/
structure Booked (s t : DirState) (sid : ℕ) (m : UploadMgr) (b : Fds) (ok : List UInt8 → Prop) : Prop where
  mgr : ∃ m', t.mgr sid = some m' ∧ m'.basePath = m.basePath ∧
    ∃ calls, t.dfs.log = s.dfs.log ++ calls ∧ (calls.foldl Fds.call b).Clean m'.fd ∧ ∀ p fd, .openFile p fd ∈ calls → ok p
  fault : t.fault = s.fault

/-- The tail of `upload_write` behind some calls. -/
theorem writeChunk_booked {s₀ : DirState} {b : Fds} {ok : List UInt8 → Prop} {calls : List FsCall} {m₀ : UploadMgr}
    (hlog : s.dfs.log = s₀.dfs.log ++ calls) (hbook : (calls.foldl Fds.call b).Clean m.fd) (hbase : m.basePath = m₀.basePath)
    (hok : ∀ p fd, .openFile p fd ∈ calls → ok p) (hfault : s.fault = s₀.fault) :
    Booked s₀ (writeChunk s sid m data io) sid m₀ b ok := by
  obtain ⟨more, hmore, hplain⟩ := writeChunk_log s sid m data io
  refine ⟨⟨{ m with currentFileSize := m.currentFileSize + data.length }, by rw [writeChunk_mgr, Function.update_self], hbase,
    calls ++ more, ?_, ?_, fun p fd hmem => ?_⟩, ?_⟩
  · rw [hmore, hlog, List.append_assoc]
  · rw [List.foldl_append, Fds.foldl_plain hplain]
    exact hbook
  · obtain hmem | hmem := List.mem_append.1 hmem
    · exact hok p fd hmem
    · exact (hplain _ hmem).elim
  · rw [writeChunk_fault, hfault]

/-- **A chunk of a session**: under a new name the manager closes its descriptor and opens the converted path. -/
theorem uploadWrite_booked (hm : s.mgr sid = some m) {b : Fds} (hb : b.Clean m.fd)
    (hconv : s.oldFilename ≠ name → 0 ∉ name ∧ ∃ base path, m.basePath = some base ∧ 0 ∉ base ∧
      PathFits name base maxFilenameLength ∧ targetOf base name = some path) (hn : name.length ≤ 127) :
    Booked s (step s (.write sid name data stack io)) sid m b (Converted m.basePath name) := by
  rw [write_eq hm hn]
  split
  · rename_i hne
    obtain ⟨hname, base, path, hbase, hnul, hfits, htarget⟩ := hconv hne
    have hpath : uploadPath base name stack = path := uploadPath_eq hnul hname hfits htarget stack
    set d := if m.fd > 0 then s.dfs.close m.fd else s.dfs with hd
    -- the descriptor of the last file is closed
    obtain ⟨pre, hpre, hclean, hnone⟩ : ∃ pre, d.log = s.dfs.log ++ pre ∧ (pre.foldl Fds.call b).Clean 0 ∧
        ∀ p fd, FsCall.openFile p fd ∉ pre := by
      by_cases hfd : m.fd > 0
      · refine ⟨[.close m.fd], by rw [hd, if_pos hfd]; rfl, hb.close, by simp⟩
      · exact ⟨[], by rw [hd, if_neg hfd]; simp, hb.none hfd, by simp⟩
    obtain ⟨calls, hlog, hbook, hopens⟩ := hclean.create (createFileByPath_log io d path)
    rw [newFile_eq hbase, hpath, ← hd]
    have hboth : (createFileByPath io d path).1.log = s.dfs.log ++ (pre ++ calls) := by
      rw [hlog, hpre, List.append_assoc]
    refine writeChunk_booked hboth ?_ rfl (fun p fd hmem => ?_) rfl
    · rw [List.foldl_append]
      exact hbook
    · obtain hmem | hmem := List.mem_append.1 hmem
      · exact absurd hmem (hnone p fd)
      · rw [hopens p fd hmem]
        exact ⟨base, hbase, hfits, htarget⟩
  · have hsame : s.dfs.log = s.dfs.log ++ [] := by simp
    exact writeChunk_booked hsame hb rfl (by simp) rfl

end DirUpload

/-! ## The session -/

namespace UploadSession

open DirUpload

/-- `session_phase`, as far as the upload module sees it. -/
inductive Phase
  | serving
  | closing
  | closed
  deriving DecidableEq

/-- `struct webnet_module_upload_session` over the state of the handler, with the book of the session's descriptors, and
whether it has opened a path that no conversion gave. -/
structure Sess where
  dir : DirState
  filename : Option (List UInt8)
  contentType : Option (List UInt8)
  fileOpened : Bool
  phase : Phase
  book : Fds
  stray : Prop

/-- What happens in a session. -/
inductive SessEv
  /-- The header of a part. `mem` says whether `upload_open`, if it is called, finds memory. -/
  | header (filename contentType : Option (List UInt8)) (mem : Bool)
  /-- Data of a part. -/
  | chunk (data : List UInt8) (stack : Mem) (io : Io)
  /-- The last boundary. -/
  | last
  /-- The connection breaks. -/
  | broken
  /-- webnet closes the session. -/
  | close
  /-- Other sessions are served: they leave the manager of this one. -/
  | other (dir : DirState)

/-- The handler has been called: its calls go to the book. -/
def Sess.account (x : Sess) (dir : DirState) (ok : List UInt8 → Prop) : Sess :=
  let calls := dir.dfs.log.drop x.dir.dfs.log.length
  { x with
    dir := dir
    book := calls.foldl Fds.call x.book
    stray := x.stray ∨ ∃ p fd, FsCall.openFile p fd ∈ calls ∧ ¬ ok p }

/-- A part header in `_webnet_module_upload_handle`. -/
def header (query : Option (List UInt8)) (sid : ℕ) (x : Sess) (filename contentType : Option (List UInt8)) (mem : Bool) :
    Sess :=
  let x := { x with filename := filename, contentType := contentType }
  if filename.isSome && contentType.isSome then
    -- the manager stays from one file part to the next
    if x.fileOpened then x
    else { x with dir := uploadOpen x.dir sid query mem, fileOpened := true }
  else if x.fileOpened then { x with dir := uploadClose x.dir sid, fileOpened := false }
  else x

/-- `_handle_section`. -/
def handleSection (query : Option (List UInt8)) (sid : ℕ) (x : Sess) (data : List UInt8) (stack : Mem) (io : Io) : Sess :=
  match x.filename, x.contentType with
  | some name, some _ =>
    if data = [] then x else x.account (uploadWrite x.dir sid name data stack io).1 (Converted query name)
  -- the value of a form field is kept by webnet
  | _, _ => x

/-- `_webnet_module_upload_close`. -/
def uploadSessionClose (sid : ℕ) (x : Sess) : Sess :=
  { x with
    dir := if x.fileOpened then uploadClose x.dir sid else x.dir
    filename := none
    contentType := none
    fileOpened := false
    phase := .closed }

/-- One event of the session `sid`, whose request has the parameter `path` as in `query`. -/
def sessStep (query : Option (List UInt8)) (sid : ℕ) (x : Sess) : SessEv → Option Sess
  | .header filename contentType mem =>
    if x.phase = .serving then some (header query sid x filename contentType mem) else none
  | .chunk data stack io => if x.phase = .serving then some (handleSection query sid x data stack io) else none
  | .last =>
    if x.phase = .serving then some { x.account (uploadDone x.dir sid) fun _ => False with phase := .closing } else none
  | .broken => if x.phase = .serving then some { x with phase := .closing } else none
  | .close => if x.phase = .closing then some (uploadSessionClose sid x) else none
  | .other dir =>
    some { x with dir := { dir with mgr := Function.update dir.mgr sid (x.dir.mgr sid), fault := x.dir.fault } }

/-- The session when it is made: it has no manager yet. Files, descriptors and `old_filename` are as they are. -/
def fresh (dir : DirState) (sid : ℕ) : Sess :=
  ⟨{ dir with mgr := Function.update dir.mgr sid none, fault := false }, none, none, false, .serving, ⟨[], [], false⟩, False⟩

/-- **The session keeps its resources in order**: no null pointer was followed, no path was opened that no conversion gave, no
descriptor was closed twice, and when the session is closed, all that it has opened are. -/
def InOrder (x : Sess) : Prop :=
  x.dir.fault = false ∧ ¬ x.stray ∧ x.book.twice = false ∧ (x.phase = .closed → x.book.held = [])

/-- The manager of the session has no descriptor. -/
def NoFd (sid : ℕ) (x : Sess) : Prop := ∀ m, x.dir.mgr sid = some m → ¬ 0 < m.fd

/-- The events after which it does: a form field or a break does not come while a descriptor is open; a file under a new
name comes in a request with the parameter `path`, from which its name can be converted; the last boundary comes while the
session has a manager. -/
def Fine (query : Option (List UInt8)) (sid : ℕ) (x : Sess) : SessEv → Prop
  | .header filename contentType _ => (filename.isSome = true ∧ contentType.isSome = true) ∨ NoFd sid x
  | .chunk data _ _ => ∀ name, x.filename = some name → x.contentType.isSome = true → data ≠ [] →
      (x.dir.mgr sid).isSome = true → name.length ≤ 127 → x.dir.oldFilename ≠ name →
      0 ∉ name ∧ ∃ base path, query = some base ∧ 0 ∉ base ∧ PathFits name base maxFilenameLength ∧
        targetOf base name = some path
  | .last => (x.dir.mgr sid).isSome = true
  | .broken => NoFd sid x
  | .close => True
  | .other _ => True

/-- The descriptor that the session may have open: that of its manager, until it is done. -/
def fdOf (sid : ℕ) (x : Sess) : ℤ := if x.phase = .serving then (x.dir.mgr sid).elim 0 (·.fd) else 0

/-- The invariant of an orderly session. -/
structure Inv (query : Option (List UInt8)) (sid : ℕ) (x : Sess) : Prop where
  fault : x.dir.fault = false
  stray : ¬ x.stray
  book : x.book.Clean (fdOf sid x)
  base : ∀ m, x.dir.mgr sid = some m → m.basePath = query
  none : x.phase = .serving → x.fileOpened = false → x.dir.mgr sid = none

variable {query : Option (List UInt8)} {sid : ℕ} {x y : Sess}

theorem Inv.inOrder (h : Inv query sid x) : InOrder x := by
  refine ⟨h.fault, h.stray, h.book.twice, fun hp => ?_⟩
  have hfd : fdOf sid x = 0 := by
    unfold fdOf
    rw [hp]
    rfl
  rw [h.book.held, hfd]
  rfl

theorem fdOf_none (h : x.dir.mgr sid = Option.none) : fdOf sid x = 0 := by
  unfold fdOf
  rw [h]
  exact ite_self _

theorem fdOf_some (hp : x.phase = .serving) {m : UploadMgr} (h : x.dir.mgr sid = some m) : fdOf sid x = m.fd := by
  unfold fdOf
  rw [if_pos hp, h]
  rfl

theorem not_pos_fdOf (h : NoFd sid x) : ¬ 0 < fdOf sid x := by
  unfold fdOf
  split
  · cases hm : x.dir.mgr sid with
    | none => exact lt_irrefl _
    | some m => exact h m hm
  · exact lt_irrefl _

theorem inv_fresh (query : Option (List UInt8)) (dir : DirState) (sid : ℕ) : Inv query sid (fresh dir sid) := by
  have hmgr : (fresh dir sid).dir.mgr sid = Option.none := Function.update_self ..
  refine ⟨rfl, id, ?_, fun m hm => ?_, fun _ _ => hmgr⟩
  · rw [fdOf_none hmgr]
    exact ⟨rfl, rfl, by simp [fresh]⟩
  · rw [hmgr] at hm
    cases hm

/-- A session that has no manager any more, or not yet. -/
theorem Inv.of_none (h : Inv query sid x) (hfd : ¬ 0 < fdOf sid x) (hfault : y.dir.fault = false) (hstray : y.stray = x.stray)
    (hbook : y.book = x.book) (hmgr : y.dir.mgr sid = Option.none) : Inv query sid y := by
  refine ⟨hfault, ?_, ?_, fun m hm => ?_, fun _ _ => hmgr⟩
  · rw [hstray]
    exact h.stray
  · rw [fdOf_none hmgr, hbook]
    exact h.book.none hfd
  · rw [hmgr] at hm
    cases hm

/-- The manager and the handler's flags are untouched. -/
theorem Inv.same (h : Inv query sid x) (hmgr : y.dir.mgr sid = x.dir.mgr sid) (hfault : y.dir.fault = x.dir.fault)
    (hstray : y.stray = x.stray) (hbook : y.book = x.book) (hphase : y.phase = x.phase)
    (hopened : y.fileOpened = x.fileOpened) : Inv query sid y := by
  refine ⟨hfault.trans h.fault, ?_, ?_, ?_, ?_⟩
  · rw [hstray]
    exact h.stray
  · have hfd : fdOf sid y = fdOf sid x := by
      unfold fdOf
      rw [hphase, hmgr]
    rw [hfd, hbook]
    exact h.book
  · rw [hmgr]
    exact h.base
  · rw [hphase, hopened, hmgr]
    exact h.none

/-- The first file part: the manager starts without a descriptor. -/
theorem Inv.opened (h : Inv query sid x) (hp : x.phase = .serving) (ho : ¬ x.fileOpened = true) {mem : Bool}
    (hdir : y.dir = uploadOpen x.dir sid query mem) (hstray : y.stray = x.stray) (hbook : y.book = x.book)
    (hopened : y.fileOpened = true) : Inv query sid y := by
  have hmgr : y.dir.mgr sid = if mem then some ⟨0, 0, 0, query⟩ else Option.none := by
    rw [hdir, uploadOpen]
    exact Function.update_self ..
  have hnew : ∀ m, y.dir.mgr sid = some m → m = ⟨0, 0, 0, query⟩ := by
    intro m hm
    rw [hmgr] at hm
    split at hm
    · exact (Option.some.inj hm).symm
    · cases hm
  have hfd : ¬ 0 < fdOf sid y := not_pos_fdOf fun m hm => by
    rw [hnew m hm]
    exact lt_irrefl _
  have hclean := h.book
  rw [fdOf_none (h.none hp (by simpa using ho))] at hclean
  refine ⟨?_, ?_, ?_, fun m hm => ?_, fun _ hc => ?_⟩
  · rw [hdir]
    exact h.fault
  · rw [hstray]
    exact h.stray
  · rw [hbook]
    exact ⟨by rw [if_neg hfd]; exact hclean.held, hclean.twice, hclean.pos⟩
  · rw [hnew m hm]
  · rw [hopened] at hc
    cases hc

/-- **A part header.** -/
theorem Inv.header (h : Inv query sid x) (hp : x.phase = .serving) {filename contentType : Option (List UInt8)} {mem : Bool}
    (hf : Fine query sid x (.header filename contentType mem)) :
    Inv query sid (UploadSession.header query sid x filename contentType mem) := by
  unfold UploadSession.header
  by_cases ho : x.fileOpened = true
  · split
    · rw [if_pos ho]
      exact h.same rfl rfl rfl rfl rfl rfl
    · rename_i hfield
      have hno : NoFd sid x := by
        obtain ⟨h1, h2⟩ | hno := hf
        · exact absurd (by rw [h1, h2]; rfl) hfield
        · exact hno
      rw [if_pos ho]
      exact h.of_none (not_pos_fdOf hno) h.fault rfl rfl (Function.update_self ..)
  · split
    · rw [if_neg ho]
      exact h.opened hp ho rfl rfl rfl rfl
    · rw [if_neg ho]
      exact h.same rfl rfl rfl rfl rfl rfl

/-- The calls of the handler, from the log. -/
theorem account_eq {dir : DirState} {calls : List FsCall} (ok : List UInt8 → Prop)
    (hlog : dir.dfs.log = x.dir.dfs.log ++ calls) (hok : ∀ p fd, .openFile p fd ∈ calls → ok p) :
    (x.account dir ok).book = calls.foldl Fds.call x.book ∧ (¬ x.stray → ¬ (x.account dir ok).stray) := by
  have hcalls : dir.dfs.log.drop x.dir.dfs.log.length = calls := by rw [hlog, List.drop_left]
  simp only [Sess.account, hcalls]
  refine ⟨trivial, fun hx => ?_⟩
  rintro (hs | ⟨p, fd, hmem, hbad⟩)
  · exact hx hs
  · exact hbad (hok p fd hmem)

/-- A call of the handler that changes nothing. -/
theorem account_same (h : Inv query sid x) (ok : List UInt8 → Prop) : Inv query sid (x.account x.dir ok) := by
  have hlog : x.dir.dfs.log = x.dir.dfs.log ++ [] := by simp
  obtain ⟨hbook, hstray⟩ := account_eq ok hlog (by simp)
  refine ⟨h.fault, hstray h.stray, ?_, h.base, h.none⟩
  rw [hbook]
  exact h.book

/-- A call of the handler that writes a chunk. -/
theorem Inv.booked (h : Inv query sid x) (hp : x.phase = .serving) {m : UploadMgr} (hm : x.dir.mgr sid = some m)
    {dir : DirState} {ok : List UInt8 → Prop} (hb : Booked x.dir dir sid m x.book ok) : Inv query sid (x.account dir ok) := by
  obtain ⟨⟨m', hm', hbase', calls, hlog, hbook, hopens⟩, hfault⟩ := hb
  obtain ⟨hcalls, hstray⟩ := account_eq ok hlog hopens
  refine ⟨hfault.trans h.fault, hstray h.stray, ?_, fun k hk => ?_, fun _ hc => ?_⟩
  · have hp' : (x.account dir ok).phase = .serving := hp
    rw [fdOf_some hp' hm', hcalls]
    exact hbook
  · obtain rfl := Option.some.inj (hm'.symm.trans hk)
    rw [hbase']
    exact h.base m hm
  · have hnone := h.none hp hc
    rw [hm] at hnone
    cases hnone

/-- **Data of a file part.** -/
theorem Inv.chunk (h : Inv query sid x) (hp : x.phase = .serving) {data : List UInt8} {stack : Mem} {io : Io}
    (hf : Fine query sid x (.chunk data stack io)) : Inv query sid (handleSection query sid x data stack io) := by
  unfold handleSection
  split
  · rename_i name ctype hname htype
    split
    · exact h
    · rename_i hdata
      cases hm : x.dir.mgr sid with
      | none =>
        have hsame : (uploadWrite x.dir sid name data stack io).1 = x.dir := by simp only [uploadWrite, hm]
        rw [hsame]
        exact account_same h _
      | some m =>
        by_cases hn : name.length ≤ 127
        · have hbase := h.base m hm
          have hclean := h.book
          rw [fdOf_some hp hm] at hclean
          have hconv : x.dir.oldFilename ≠ name → 0 ∉ name ∧ ∃ base path, m.basePath = some base ∧ 0 ∉ base ∧
              PathFits name base maxFilenameLength ∧ targetOf base name = some path := by
            rw [hbase]
            exact hf name hname (by rw [htype]; rfl) hdata (by rw [hm]; rfl) hn
          have hbooked : Booked x.dir (DirUpload.step x.dir (.write sid name data stack io)) sid m x.book
              (Converted m.basePath name) := uploadWrite_booked hm hclean hconv hn
          rw [hbase] at hbooked
          exact h.booked hp hm hbooked
        · have hsame : (uploadWrite x.dir sid name data stack io).1 = x.dir := by
            simp only [uploadWrite, hm]
            rw [if_pos (by omega)]
          rw [hsame]
          exact account_same h _
  · exact h

/-- **The last boundary**: the manager's descriptor is closed. -/
theorem Inv.last (h : Inv query sid x) (hp : x.phase = .serving) (hf : Fine query sid x .last) :
    Inv query sid { x.account (uploadDone x.dir sid) fun _ => False with phase := .closing } := by
  obtain ⟨m, hm⟩ := Option.isSome_iff_exists.1 hf
  have hdone : uploadDone x.dir sid =
      { x.dir with dfs := x.dir.dfs.close m.fd, replies := x.dir.replies ++ [(sid, m.currentFileSize)] } := by
    simp only [uploadDone, hm]
  have hlog : (uploadDone x.dir sid).dfs.log = x.dir.dfs.log ++ [.close m.fd] := by
    rw [hdone]
    rfl
  obtain ⟨hb, hs⟩ := account_eq (fun _ => False) hlog (by simp)
  have hclean := h.book
  rw [fdOf_some hp hm] at hclean
  refine ⟨?_, hs h.stray, ?_, fun k hk => ?_, fun hc => ?_⟩
  · show (uploadDone x.dir sid).fault = false
    rw [hdone]
    exact h.fault
  · have hfd : fdOf sid { x.account (uploadDone x.dir sid) fun _ => False with phase := .closing } = 0 := rfl
    have hclosed := hclean.close
    rw [hfd]
    exact ⟨hb ▸ hclosed.held, hb ▸ hclosed.twice, hb ▸ hclosed.pos⟩
  · have hmgr : (uploadDone x.dir sid).mgr sid = x.dir.mgr sid := by rw [hdone]
    rw [show (uploadDone x.dir sid).mgr sid = some k from hk] at hmgr
    exact h.base k hmgr.symm
  · cases hc

/-- The session leaves the phase in which it is served. -/
theorem Inv.leave (h : Inv query sid x) (hfd : ¬ 0 < fdOf sid x) (hphase : y.phase ≠ .serving) (hbook : y.book = x.book)
    (hstray : y.stray = x.stray) (hfault : y.dir.fault = x.dir.fault)
    (hmgr : ∀ m, y.dir.mgr sid = some m → x.dir.mgr sid = some m) : Inv query sid y := by
  refine ⟨hfault.trans h.fault, ?_, ?_, fun m hm => h.base m (hmgr m hm), fun hp => absurd hp hphase⟩
  · rw [hstray]
    exact h.stray
  · have hzero : fdOf sid y = 0 := if_neg hphase
    rw [hzero, hbook]
    exact h.book.none hfd

/-- An event that is possible in one phase only. -/
theorem of_phase {p q : Phase} {a : Sess} (h : (if p = q then some a else Option.none) = some y) : p = q ∧ a = y := by
  obtain ⟨hp, ha⟩ := Option.ite_none_right_eq_some.1 h
  exact ⟨hp, Option.some.inj ha⟩

/-- **One event** of an orderly session. -/
theorem session_step {e : SessEv} (h : Inv query sid x) (hf : Fine query sid x e) (hs : sessStep query sid x e = some y) :
    Inv query sid y := by
  cases e with
  | header filename contentType mem =>
    obtain ⟨hp, rfl⟩ := of_phase hs
    exact h.header hp hf
  | chunk data stack io =>
    obtain ⟨hp, rfl⟩ := of_phase hs
    exact h.chunk hp hf
  | last =>
    obtain ⟨hp, rfl⟩ := of_phase hs
    exact h.last hp hf
  | broken =>
    obtain ⟨hp, rfl⟩ := of_phase hs
    exact h.leave (not_pos_fdOf hf) (by decide : Phase.closing ≠ Phase.serving) rfl rfl rfl fun m hm => hm
  | close =>
    obtain ⟨hp, rfl⟩ := of_phase hs
    have hfd : ¬ 0 < fdOf sid x := by
      unfold fdOf
      rw [hp]
      exact lt_irrefl _
    refine h.leave hfd (by decide : Phase.closed ≠ Phase.serving) rfl rfl ?_ fun m hm => ?_
    · unfold uploadSessionClose
      split
      · rfl
      · rfl
    · by_cases ho : x.fileOpened = true
      · simp [uploadSessionClose, ho, uploadClose] at hm
      · simpa [uploadSessionClose, ho] using hm
  | other dir =>
    obtain rfl := Option.some.inj hs
    exact h.same (Function.update_self ..) rfl rfl rfl rfl rfl

/-- **A session keeps its resources in order**, from any files, descriptors and `old_filename`, whatever other sessions do in
between, when all its events are fine. -/
theorem session_tidy (query : Option (List UInt8)) (dir : DirState) (sid : ℕ) (es : List SessEv)
    (h : Runs.Orderly (sessStep query sid) (Fine query sid) (fresh dir sid) es) :
    Upholds (sessStep query sid) InOrder (fresh dir sid) es :=
  upholds_of_orderly (fun _ hx => hx.inOrder) (fun _ _ _ hx hf hs => session_step hx hf hs) (inv_fresh query dir sid) h

/-- The header of a file part, and its data. -/
def filePart : List SessEv := [.header (some (text "a")) (some (text "text/plain")) true, .chunk (text "new") (fun _ => 0) goodIo]

/-- The session of a request to a device that was just started. -/
def started : Sess := fresh (.boot emptyDisk) 0

theorem session_tidy_upload :
    Upholds (sessStep (some (text "/w")) 0) InOrder started (filePart ++ [.last, .close]) := by
  refine session_tidy (some (text "/w")) (.boot emptyDisk) 0 (filePart ++ [.last, .close]) ?_
  refine Orderly.cons rfl (Or.inl ⟨rfl, rfl⟩) (Orderly.cons rfl ?_ (Orderly.cons rfl ?_ (Orderly.cons rfl trivial trivial)))
  · intro name hname _ _ _ _ _
    obtain rfl := Option.some.inj hname
    exact ⟨by decide, text "/w", text "/w/a", rfl, by decide, by unfold PathFits; decide, by decide⟩
  · unfold Fine
    decide +kernel

/-- **Sessions that do not.** A request with a form field only comes to `upload_done` without a manager; one without the parameter
`path` makes `upload_write` follow a null pointer; one that breaks behind the first data leaves its descriptor open. -/
theorem sessions_out_of_order :
    ¬ Upholds (sessStep (some (text "/w")) 0) InOrder started [.header none none true, .chunk (text "v") (fun _ => 0) goodIo, .last] ∧
      ¬ Upholds (sessStep none 0) InOrder started filePart ∧
      ¬ Upholds (sessStep (some (text "/w")) 0) InOrder started (filePart ++ [.broken, .close]) := by
  refine ⟨fun h => ?_, fun h => ?_, fun h => ?_⟩
  · have hfault := (h.exec rfl).1
    revert hfault
    decide +kernel
  · have hfault := (h.exec rfl).1
    revert hfault
    decide +kernel
  · have hheld := (h.exec rfl).2.2.2 rfl
    revert hheld
    decide +kernel

end UploadSession

end W601
