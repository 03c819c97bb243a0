import W601.Web.DirUpload

/-!
# What a directory upload leaves in its files

* `Writing`: a session is in the middle of a file; the file holds what was sent so far, written
  over its old content.
* `part_writes`: a part under a new name leaves its bytes over the old content of its file.
* `stored_of_clean`: in every run of sessions, one after the other, a session that starts with
  another name than the last one seen, whose names lead to different files, none longer before
  than what is sent, leaves in each file exactly what was sent.
-/

namespace W601.DirUpload

open CMem CompPath Cells Dfs

/-- The file that a name leads to from a base directory. -/
def targetOf (base name : List UInt8) : Option (List UInt8) :=
  (resolve slash dot (base ++ slash :: name)).map (join slash)

/-- A name that fits the buffer leads to its target, whatever the stack held before. -/
theorem uploadPath_eq {base name path : List UInt8} (hb : 0 ∉ base) (hn : 0 ∉ name)
    (hfit : PathFits name base maxFilenameLength) (ht : targetOf base name = some path) (stack : Mem) :
    uploadPath base name stack = path := by
  obtain ⟨stk, hr, rfl⟩ := Option.map_eq_some_iff.1 ht
  have hl := resolve_length hr
  unfold PathFits at hfit
  rw [List.length_append, List.length_cons] at hl
  exact readStr_eq (relativePath2Absolute_spec hfit hb hn hr stack) (by omega)

/-! ## Failures stay recorded -/

theorem writeChunk_failed {s : DirState} {sid : ℕ} {mgr : UploadMgr} {data : List UInt8} {io : Io}
    (h : (writeChunk s sid mgr data io).failed = false) : s.failed = false := by
  unfold writeChunk at h
  split at h
  · simp only [Bool.or_eq_false_iff] at h; exact h.1
  · exact h

theorem newFile_failed {s : DirState} {mgr : UploadMgr} {name : List UInt8} {stack : Mem} {io : Io}
    (h : (newFile s mgr name stack io).1.failed = false) : s.failed = false := by
  cases hb : mgr.basePath with
  | none => simpa [newFile, hb] using h
  | some base =>
    simp only [newFile, hb, Bool.or_eq_false_iff] at h
    exact h.1

theorem step_failed {s : DirState} {e : DirEv} (h : (step s e).failed = false) : s.failed = false := by
  cases e with
  | opened sid path mem => exact h
  | write sid name data stack io =>
    simp only [step, uploadWrite] at h
    split at h
    · exact h
    · split_ifs at h
      · exact h
      · exact newFile_failed (writeChunk_failed h)
      · exact writeChunk_failed h
  | done sid =>
    simp only [step, uploadDone] at h
    split at h <;> exact h
  | closed sid => exact h

theorem run_failed {es : List DirEv} : ∀ {s : DirState}, (run s es).failed = false → s.failed = false := by
  induction es with
  | nil => intro s h; exact h
  | cons e es ih => intro s h; exact step_failed (ih h)

/-! ## One file -/

/-- Session `sid` writes the file `path` under `name`: `sent` has gone over the old content `c`. -/
structure Writing (s : DirState) (sid : ℕ) (base name path c sent : List UInt8) : Prop where
  mgr : ∃ m, s.mgr sid = some m ∧ m.basePath = some base ∧ 0 < m.fd ∧
    s.dfs.lookup m.fd = some ⟨path, sent.length⟩
  content : s.dfs.content path = some (overwrite c 0 sent)
  old : s.oldFilename = name

variable {s : DirState} {sid : ℕ} {base name path c sent data : List UInt8} {stack : Mem} {io : Io}

/-- The write through an open descriptor adds the chunk to what was sent. -/
theorem writeChunk_writing {m : UploadMgr} (hb : m.basePath = some base) (hfd : 0 < m.fd)
    (hl : s.dfs.lookup m.fd = some ⟨path, sent.length⟩)
    (hc : s.dfs.content path = some (overwrite c 0 sent)) (ho : s.oldFilename = name)
    (hok : (writeChunk s sid m data io).failed = false) :
    Writing (writeChunk s sid m data io) sid base name path c (sent ++ data) ∧
      ∀ q, q ≠ path → (writeChunk s sid m data io).dfs.content q = s.dfs.content q := by
  unfold writeChunk at hok ⊢
  simp only [if_pos hfd] at hok ⊢
  -- a refused or a short write would have been recorded
  obtain ⟨k, hk, hkl⟩ : ∃ k, io.accept = some k ∧ data.take k = data := by
    rw [Bool.or_eq_false_iff, decide_eq_false_iff_not, not_not] at hok
    cases hk : io.accept with
    | none =>
      have : (s.dfs.write io m.fd data).2 = -1 := by simp [Dfs.write, hl, hk]
      omega
    | some k =>
      refine ⟨k, rfl, ?_⟩
      have hlen := (write_spec data hl hc hk).1.symm.trans hok.2
      rw [List.length_take] at hlen
      exact List.take_of_length_le (by omega)
  obtain ⟨-, h2, h3⟩ := write_spec data hl hc hk
  rw [hkl] at h2 h3
  -- the offset of the descriptor is the end of what was sent
  have hover : overwrite (overwrite c 0 sent) sent.length data = overwrite c 0 (sent ++ data) := by
    have := overwrite_append (c := c) (d := sent) (e := data) (p := 0) (Nat.zero_le _)
    rwa [Nat.zero_add] at this
  refine ⟨⟨⟨_, Function.update_self .., hb, hfd, ?_⟩, ?_, ho⟩, fun q hq => content_update_ne h2 hq⟩
  · rw [h3, if_pos rfl, List.length_append]
  · rw [content_update h2, hover]

/-- A chunk under the name of the last one. -/
theorem write_continue (hw : Writing s sid base name path c sent) (hn : name.length ≤ 127)
    (hok : (step s (.write sid name data stack io)).failed = false) :
    Writing (step s (.write sid name data stack io)) sid base name path c (sent ++ data) ∧
      ∀ q, q ≠ path → (step s (.write sid name data stack io)).dfs.content q = s.dfs.content q := by
  obtain ⟨⟨m, hm, hb, hfd, hl⟩, hc, ho⟩ := hw
  have hstep : step s (.write sid name data stack io) = writeChunk s sid m data io := by
    simp only [step, uploadWrite, hm]
    rw [if_neg (by omega), if_neg (by simp [ho])]
  rw [hstep] at hok ⊢
  exact writeChunk_writing hb hfd hl hc ho hok

/-- A session has a manager and a base directory. -/
def Ready (s : DirState) (sid : ℕ) (base : List UInt8) : Prop :=
  ∃ m, s.mgr sid = some m ∧ m.basePath = some base

theorem Writing.ready (h : Writing s sid base name path c sent) : Ready s sid base := by
  obtain ⟨m, h1, h2, -⟩ := h.mgr
  exact ⟨m, h1, h2⟩

theorem newFile_eq {m : UploadMgr} (hb : m.basePath = some base) :
    newFile s m name stack io =
      ({ s with
          dfs := (createFileByPath io (if m.fd > 0 then s.dfs.close m.fd else s.dfs)
            (uploadPath base name stack)).1
          oldFilename := name
          failed := s.failed || decide ((createFileByPath io
            (if m.fd > 0 then s.dfs.close m.fd else s.dfs) (uploadPath base name stack)).2 ≤ 0) },
        { m with fd := (createFileByPath io (if m.fd > 0 then s.dfs.close m.fd else s.dfs)
            (uploadPath base name stack)).2 }) := by
  simp only [newFile, hb]

theorem writeChunk_mgr (s : DirState) (sid : ℕ) (m : UploadMgr) (data : List UInt8) (io : Io) :
    (writeChunk s sid m data io).mgr =
      Function.update s.mgr sid (some { m with currentFileSize := m.currentFileSize + data.length }) := by
  unfold writeChunk
  split
  · rfl
  · rfl

/-- The manager and the file behind `upload_write`, under a new name and under the last one. -/
theorem write_eq {m : UploadMgr} (hm : s.mgr sid = some m) (hn : name.length ≤ 127) :
    step s (.write sid name data stack io) =
      if s.oldFilename ≠ name then
        writeChunk (newFile s m name stack io).1 sid (newFile s m name stack io).2 data io
      else writeChunk s sid m data io := by
  simp only [step, uploadWrite, hm]
  rw [if_neg (by omega)]
  split
  · rfl
  · rfl

/-- A chunk under a new name opens its file at the start. -/
theorem write_start (hr : Ready s sid base) (hne : s.oldFilename ≠ name) (hn : name.length ≤ 127)
    (hp : uploadPath base name stack = path)
    (hok : (step s (.write sid name data stack io)).failed = false) :
    Writing (step s (.write sid name data stack io)) sid base name path ((s.dfs.content path).getD []) data ∧
      ∀ q, q ≠ path → (step s (.write sid name data stack io)).dfs.content q = s.dfs.content q := by
  obtain ⟨m, hm, hb⟩ := hr
  have hstep : step s (.write sid name data stack io) =
      writeChunk (newFile s m name stack io).1 sid (newFile s m name stack io).2 data io := by
    simp only [step, uploadWrite, hm]
    rw [if_neg (by omega), if_pos hne]
  rw [hstep] at hok ⊢
  have hnf := writeChunk_failed hok
  set d := if m.fd > 0 then s.dfs.close m.fd else s.dfs with hd
  have hdc : ∀ q, d.content q = s.dfs.content q := by
    intro q; rw [hd]; split <;> rfl
  rw [newFile_eq hb, hp] at hok hnf ⊢
  rw [← hd] at hok hnf ⊢
  -- a file that cannot be created would have been recorded
  rcases createFileByPath_cases io d path with ⟨h1, -⟩ | h
  · simp [h1] at hnf
  · have hentry : (createFileByPath io d path).1.lookup (createFileByPath io d path).2 =
        some ⟨path, ([] : List UInt8).length⟩ := h.entry
    have htarget : (createFileByPath io d path).1.content path =
        some (overwrite ((s.dfs.content path).getD []) 0 []) := by simpa [hdc] using h.target
    have hw := writeChunk_writing (m := { m with fd := (createFileByPath io d path).2 }) hb h.pos hentry
      htarget rfl hok
    rw [List.nil_append] at hw
    refine ⟨hw.1, fun q hq => ?_⟩
    rw [hw.2 q hq, h.frame q hq, hdc]

/-- The chunks of a part that is already open. -/
theorem chunks_continue (hn : name.length ≤ 127) : ∀ (cs : List Chunk) {s : DirState} {sent : List UInt8},
    Writing s sid base name path c sent →
    (run s (cs.map fun k => .write sid name k.data k.stack k.io)).failed = false →
    Writing (run s (cs.map fun k => .write sid name k.data k.stack k.io)) sid base name path c
        (sent ++ cs.flatMap (·.data)) ∧
      ∀ q, q ≠ path → (run s (cs.map fun k => .write sid name k.data k.stack k.io)).dfs.content q =
        s.dfs.content q := by
  intro cs
  induction cs with
  | nil => intro s sent hw _; exact ⟨by simpa using hw, fun _ _ => rfl⟩
  | cons k cs ih =>
    intro s sent hw hok
    simp only [List.map_cons, run_cons] at hok ⊢
    obtain ⟨h1, h2⟩ := write_continue hw hn (run_failed hok)
    obtain ⟨h3, h4⟩ := ih h1 hok
    rw [List.flatMap_cons, ← List.append_assoc]
    exact ⟨h3, fun q hq => (h4 q hq).trans (h2 q hq)⟩

/-- **A part under a new name** leaves its bytes over the old content of its file, and no other
file changes. -/
theorem part_writes {p : Part} (hr : Ready s sid base) (hne : s.oldFilename ≠ p.name)
    (hn : p.name.length ≤ 127) (hp : ∀ stack, uploadPath base p.name stack = path)
    (hok : (run s (DirSession.partEvs sid p)).failed = false) :
    Writing (run s (DirSession.partEvs sid p)) sid base p.name path ((s.dfs.content path).getD []) p.bytes ∧
      ∀ q, q ≠ path → (run s (DirSession.partEvs sid p)).dfs.content q = s.dfs.content q := by
  -- the first chunk opens the file, the others continue it
  obtain ⟨k, ks, hk⟩ := List.exists_cons_of_ne_nil p.nonempty
  simp only [DirSession.partEvs, Part.bytes, hk, List.map_cons, run_cons, List.flatMap_cons] at hok ⊢
  obtain ⟨h1, h2⟩ := write_start hr hne hn (hp k.stack) (run_failed hok)
  obtain ⟨h3, h4⟩ := chunks_continue hn ks h1 hok
  exact ⟨h3, fun q hq => (h4 q hq).trans (h2 q hq)⟩

/-! ## One session -/

/-- A part can be stored from state `s`: its name fits, leads to a file, and the file is not
longer than what is sent. -/
structure PartOk (s : DirState) (base : List UInt8) (p : Part) : Prop where
  fits : PathFits p.name base maxFilenameLength
  target : ∃ path, targetOf base p.name = some path ∧
    ((s.dfs.content path).getD []).length ≤ p.bytes.length

/-- **The session starts clean**: its manager and base path are there, its first name is not the
last one seen, its names lead to different files, and no file is longer than what is sent. -/
structure Clean (s : DirState) (ses : DirSession) : Prop where
  mem : ses.mem = true
  base : ∃ base, ses.base = some base ∧ (∀ p ∈ ses.parts, PartOk s base p) ∧
    (ses.parts.map fun p => targetOf base p.name).Nodup
  first : ∀ p ∈ ses.parts.head?, s.oldFilename ≠ p.name

/-- Every file named in the session holds exactly the bytes sent under its name. -/
def Stored (s : DirState) (ses : DirSession) : Prop :=
  ∀ p ∈ ses.parts, ∃ base path, ses.base = some base ∧ targetOf base p.name = some path ∧
    s.dfs.content path = some p.bytes

/-- The parts of a session, each under a new name. -/
theorem parts_write (hb : 0 ∉ base) : ∀ (ps : List Part) {s : DirState}, Ready s sid base →
    (∀ p ∈ ps.head?, s.oldFilename ≠ p.name) → (∀ p ∈ ps, PartOk s base p) →
    (ps.map fun p => targetOf base p.name).Nodup →
    (run s (ps.flatMap (DirSession.partEvs sid))).failed = false →
    (∀ p ∈ ps, ∃ path, targetOf base p.name = some path ∧
      (run s (ps.flatMap (DirSession.partEvs sid))).dfs.content path = some p.bytes) ∧
    ∀ q, (∀ p ∈ ps, targetOf base p.name ≠ some q) →
      (run s (ps.flatMap (DirSession.partEvs sid))).dfs.content q = s.dfs.content q := by
  intro ps
  induction ps with
  | nil => intro s _ _ _ _ _; exact ⟨by simp, fun _ _ => rfl⟩
  | cons p ps ih =>
    intro s hr hfirst hall hnd hok
    rw [List.flatMap_cons, run_append] at hok ⊢
    rw [List.map_cons, List.nodup_cons] at hnd
    obtain ⟨hfits, path, htgt, hlen⟩ := hall p List.mem_cons_self
    have hn : p.name.length ≤ 127 := by unfold PathFits maxFilenameLength at hfits; omega
    obtain ⟨hw, hframe⟩ := part_writes hr (hfirst p (by simp)) hn
      (fun stack => uploadPath_eq hb p.nulFree hfits htgt stack) (run_failed hok)
    set s' := run s (DirSession.partEvs sid p) with hs'
    -- the rest of the session leaves this file alone
    have hother : ∀ p' ∈ ps, ∀ path', targetOf base p'.name = some path' → path' ≠ path := by
      rintro p' hp' path' ht' rfl
      exact hnd.1 (List.mem_map.2 ⟨p', hp', by rw [ht', htgt]⟩)
    -- the next part has another name, since it has another target
    have hnext : ∀ p' ∈ ps.head?, s'.oldFilename ≠ p'.name := by
      intro p' hp' he
      rw [hw.old] at he
      have hmem := List.mem_of_mem_head? hp'
      exact hnd.1 (List.mem_map.2 ⟨p', hmem, by rw [he]⟩)
    have hall' : ∀ p' ∈ ps, PartOk s' base p' := by
      intro p' hp'
      obtain ⟨hf', path', ht', hl'⟩ := hall p' (List.mem_cons_of_mem _ hp')
      exact ⟨hf', path', ht', by rw [hframe path' (hother p' hp' path' ht')]; exact hl'⟩
    obtain ⟨h1, h2⟩ := ih hw.ready hnext hall' hnd.2 hok
    refine ⟨?_, ?_⟩
    · intro p' hp'
      rcases List.mem_cons.1 hp' with rfl | hp'
      · refine ⟨path, htgt, ?_⟩
        rw [h2 path (fun p'' hp'' he => hother p'' hp'' path he rfl), hw.content, overwrite_of_le hlen]
      · exact h1 p' hp'
    · intro q hq
      have hqp : q ≠ path := by rintro rfl; exact hq p List.mem_cons_self htgt
      rw [h2 q (fun p' hp' => hq p' (List.mem_cons_of_mem _ hp')), hframe q hqp]

theorem done_content (s : DirState) (sid : ℕ) (q : List UInt8) :
    (step s (.done sid)).dfs.content q = s.dfs.content q := by
  simp only [step, uploadDone]
  split <;> rfl

/-- **A clean session stores what was sent.** -/
theorem session_stores {ses : DirSession} (hc : Clean s ses)
    (hok : (run s ses.untilDone).failed = false) : Stored (run s ses.untilDone) ses := by
  obtain ⟨hmem, ⟨base, hbase, hall, hnd⟩, hfirst⟩ := hc
  simp only [DirSession.untilDone, List.cons_append, run_cons, run_append, run_nil] at hok ⊢
  have hready : Ready (step s (.opened ses.sid ses.base ses.mem)) ses.sid base :=
    ⟨⟨0, 0, 0, some base⟩, by simp [step, uploadOpen, hmem, hbase], rfl⟩
  obtain ⟨h1, -⟩ := parts_write (ses.nulFree base hbase) ses.parts hready hfirst
    (fun p hp => ⟨(hall p hp).fits, (hall p hp).target⟩) hnd (step_failed hok)
  intro p hp
  obtain ⟨path, ht, hcont⟩ := h1 p hp
  exact ⟨base, path, hbase, ht, by rw [done_content]; exact hcont⟩

/-- **Directory upload stores what was sent.** In every run of sessions that do not overlap, from
any initial files, a session that starts clean leaves, after its `upload_done`, in each file it
named exactly what it sent, when every file could be created and every write was taken. -/
theorem stored_of_clean (d : Dfs) (before : List DirSession) (ses : DirSession)
    (hok : (run (.boot d) (before.flatMap DirSession.events ++ ses.untilDone)).failed = false)
    (hc : Clean (run (.boot d) (before.flatMap DirSession.events)) ses) :
    Stored (run (.boot d) (before.flatMap DirSession.events ++ ses.untilDone)) ses := by
  rw [run_append] at hok ⊢
  exact session_stores hc hok

/-- A disk with the root directory only. -/
def emptyDisk : Dfs := ⟨fun p => if p = text "/" then some .dir else none, [], []⟩

/-- A device that refuses nothing. -/
def goodIo : Io := ⟨fun _ => true, true, some 4096⟩

theorem nulFree_w : ∀ b ∈ some (text "/w"), 0 ∉ b := by decide

theorem nulFree_a : 0 ∉ text "a" := by decide

/-- An upload of `new` as `/w/a`. -/
def uploadNew : DirSession :=
  ⟨0, some (text "/w"), true, [⟨text "a", [⟨text "new", fun _ => 0, goodIo⟩], by simp, nulFree_a⟩], nulFree_w⟩

/-- An upload of `old` as `/w/a`. -/
def uploadOld : DirSession :=
  ⟨0, some (text "/w"), true, [⟨text "a", [⟨text "old", fun _ => 0, goodIo⟩], by simp, nulFree_a⟩], nulFree_w⟩

/-- The first upload after boot is clean and is stored. -/
theorem stored_of_clean_first : Stored (run (.boot emptyDisk) uploadNew.untilDone) uploadNew :=
  stored_of_clean emptyDisk [] uploadNew (by decide +kernel)
    ⟨rfl, ⟨text "/w", rfl, by
      intro p hp
      rw [List.mem_singleton.1 hp]
      exact ⟨by unfold PathFits; decide, text "/w/a", by decide, by decide⟩, by decide⟩, by decide⟩

/-- **A second upload of a file right after the first is dropped**: the name is still in
`old_filename` while the new manager has no descriptor. -/
theorem second_upload_dropped :
    (run (.boot emptyDisk) ([uploadOld].flatMap DirSession.events ++ uploadNew.untilDone)).failed = false ∧
      ¬ Stored (run (.boot emptyDisk) ([uploadOld].flatMap DirSession.events ++ uploadNew.untilDone))
        uploadNew := by
  refine ⟨by decide +kernel, fun h => ?_⟩
  obtain ⟨base, path, hb, ht, hc⟩ := h _ List.mem_cons_self
  have hbase : base = text "/w" := Option.some.inj hb.symm
  subst hbase
  have hpath : path = text "/w/a" := Option.some.inj (ht.symm.trans (by decide))
  subst hpath
  revert hc
  decide +kernel

end W601.DirUpload
