import W601.Web.Dfs

/-!
# Directory uploads (`wn_dir_upload.c`)

The handler keeps a manager per session (descriptor, byte count, base path) and, in the static
buffer `old_filename` shared by all sessions, the name under which the last chunk came. A chunk
under another name closes the manager's descriptor and creates the file; a chunk under the same
name goes to the descriptor as it is.

webnet serves all sessions from one loop, so a run is a list of events, each tagged with its
session.
-/

namespace W601

open CMem Cells Dfs

/-- `upload_mgr_t`. -/
structure UploadMgr where
  fd : ℤ
  totalFileSize : ℤ
  currentFileSize : ℕ
  basePath : Option (List UInt8)

structure DirState where
  dfs : Dfs
  /-- The static `old_filename`. -/
  oldFilename : List UInt8
  /-- The manager each session holds as user data. -/
  mgr : ℕ → Option UploadMgr
  /-- The answers sent, `{"code":0,"filesize":n}`, by session. -/
  replies : List (ℕ × ℕ)
  /-- A file could not be created or a write was not taken whole. -/
  failed : Bool
  /-- A null pointer was followed. -/
  fault : Bool

/-- The state after boot: the static buffer is zero, no session is open. -/
def DirState.boot (d : Dfs) : DirState := ⟨d, [], fun _ => none, [], false, false⟩

namespace DirUpload

/-- `upload_open`; `mem` says whether `rt_malloc` finds memory, `path` is the query parameter. -/
def uploadOpen (s : DirState) (sid : ℕ) (path : Option (List UInt8)) (mem : Bool) : DirState :=
  { s with mgr := Function.update s.mgr sid (if mem then some ⟨0, 0, 0, path⟩ else none) }

/-- `upload_close`. -/
def uploadClose (s : DirState) (sid : ℕ) : DirState :=
  { s with mgr := Function.update s.mgr sid none }

/-- The path that `upload_write` hands to `create_file_by_path`. `stack` is what its buffer
`filename` holds before the conversion, which leaves it alone when the text does not fit. -/
def uploadPath (base name : List UInt8) (stack : Mem) : List UInt8 :=
  readStr (relativePath2Absolute name stack maxFilenameLength base).2 maxFilenameLength 0

/-- The branch of `upload_write` for a new file name. -/
def newFile (s : DirState) (mgr : UploadMgr) (name : List UInt8) (stack : Mem) (io : Io) :
    DirState × UploadMgr :=
  let s := { s with dfs := if mgr.fd > 0 then s.dfs.close mgr.fd else s.dfs, oldFilename := name }
  -- without a `path` query the conversion gets a null prefix
  match mgr.basePath with
  | none => ({ s with fault := true }, mgr)
  | some base =>
    match createFileByPath io s.dfs (uploadPath base name stack) with
    | (dfs, fd) => ({ s with dfs := dfs, failed := s.failed || decide (fd ≤ 0) }, { mgr with fd := fd })

/-- The tail of `upload_write`: write through the descriptor, count the bytes. -/
def writeChunk (s : DirState) (sid : ℕ) (mgr : UploadMgr) (data : List UInt8) (io : Io) : DirState :=
  let mgr' := { mgr with currentFileSize := mgr.currentFileSize + data.length }
  let s := { s with mgr := Function.update s.mgr sid (some mgr') }
  -- a manager without a file: the bytes are counted and dropped
  if mgr.fd > 0 then
    match s.dfs.write io mgr.fd data with
    | (dfs, ret) => { s with dfs := dfs, failed := s.failed || decide (ret ≠ data.length) }
  else s

/-- `upload_write`: the state and the return value. -/
def uploadWrite (s : DirState) (sid : ℕ) (name data : List UInt8) (stack : Mem) (io : Io) : DirState × ℤ :=
  match s.mgr sid with
  | none => (s, 0)
  | some mgr =>
    -- `old_filename` holds 128 bytes; a longer name drops the chunk without an error
    if name.length > 128 - 1 then (s, 0)
    else if s.oldFilename ≠ name then
      match newFile s mgr name stack io with
      | (s, mgr) => (writeChunk s sid mgr data io, data.length)
    else (writeChunk s sid mgr data io, data.length)

/-- `upload_done`. -/
def uploadDone (s : DirState) (sid : ℕ) : DirState :=
  match s.mgr sid with
  | none => { s with fault := true }
  | some mgr => { s with dfs := s.dfs.close mgr.fd, replies := s.replies ++ [(sid, mgr.currentFileSize)] }

end DirUpload

/-- What webnet calls the handler with. -/
inductive DirEv
  | opened (sid : ℕ) (path : Option (List UInt8)) (mem : Bool)
  | write (sid : ℕ) (name data : List UInt8) (stack : Mem) (io : Io)
  | done (sid : ℕ)
  | closed (sid : ℕ)

/-- The session of an event. -/
def DirEv.sid : DirEv → ℕ
  | .opened sid _ _ => sid
  | .write sid _ _ _ _ => sid
  | .done sid => sid
  | .closed sid => sid

namespace DirUpload

def step (s : DirState) : DirEv → DirState
  | .opened sid path mem => uploadOpen s sid path mem
  | .write sid name data stack io => (uploadWrite s sid name data stack io).1
  | .done sid => uploadDone s sid
  | .closed sid => uploadClose s sid

def run (s : DirState) (es : List DirEv) : DirState := es.foldl step s

@[simp] theorem run_nil (s : DirState) : run s [] = s := rfl

@[simp] theorem run_cons (s : DirState) (e : DirEv) (es : List DirEv) :
    run s (e :: es) = run (step s e) es := rfl

theorem run_append (s : DirState) (es fs : List DirEv) : run s (es ++ fs) = run (run s es) fs :=
  List.foldl_append

end DirUpload

/-- A chunk of an upload: the bytes, and what the stack and the device do to its event. -/
structure Chunk where
  data : List UInt8
  stack : Mem
  io : Io

/-- The chunks that a session sends under one file name. -/
structure Part where
  name : List UInt8
  chunks : List Chunk
  nonempty : chunks ≠ []
  nulFree : 0 ∉ name

/-- The bytes sent under the name. -/
def Part.bytes (p : Part) : List UInt8 := p.chunks.flatMap (·.data)

/-- A directory upload: its file parts, under the directory of its `path` query. -/
structure DirSession where
  sid : ℕ
  base : Option (List UInt8)
  mem : Bool
  parts : List Part
  nulFree : ∀ b ∈ base, 0 ∉ b

namespace DirSession

def partEvs (sid : ℕ) (p : Part) : List DirEv :=
  p.chunks.map fun c => .write sid p.name c.data c.stack c.io

/-- The events up to and including `upload_done`. -/
def untilDone (s : DirSession) : List DirEv :=
  .opened s.sid s.base s.mem :: s.parts.flatMap (partEvs s.sid) ++ [.done s.sid]

/-- All events of the session. -/
def events (s : DirSession) : List DirEv := s.untilDone ++ [.closed s.sid]

end DirSession

end W601
