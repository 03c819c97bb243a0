import W601.Smtp.Client
import W601.Smtp.Session

/-!
# Attachments

`smtp_send_attachment` goes through the list of the attachments, opens each file, and copies it in blocks of 512 bytes until a
read is short. Behind 20 files it stops at the next one that it can open, which it has opened then.

* `addAttachment_spec`: how the list comes about.
* `sendAttachment_eq`: the walk through the list in memory.
* `attachments_sent_iff`: when every file is closed that was opened; the bytes are as they should be in any case.
-/

namespace W601.Smtp

open CMem Mem

/-- `SMTP_MAX_FILE_PATH_LEN`. -/
def maxFilePathLen : ℕ := 64

/-- `SMTP_ATTACHMENT_MAX_NAME_LEN`. -/
def attachmentMaxNameLen : ℕ := 32

/-- `smtp_attachments_t`: the cells of `file_path` and `file_name`, and the pointer behind them. -/
structure AttNode where
  arrays : ℤ → UInt8
  next : Option ℕ

def filePathAt : ℤ := 0
def fileNameAt : ℤ := 64
def nextAt : ℤ := 96

/-- The attachments of the session. -/
structure AttList where
  heap : Heap AttNode
  attachments : Option ℕ

/-! ## The functions -/

section Code

-- the files that can be opened, by their paths
variable (files : List UInt8 → Option (List UInt8))

/-- The new node: both arrays and the pointer are cleared before the strings are copied. -/
def newNode (dirt : ℤ → UInt8) (filePath fileName : CStr) : AttNode :=
  ⟨store (store (store dirt filePathAt (List.replicate 96 0)) filePathAt filePath.bytes) fileNameAt fileName.bytes, none⟩

/-- `smtp_add_attachment`. -/
def smtpAddAttachment (nodeMem : Malloc) (filePath fileName : CStr) (s : AttList) : Option (AttList × Bool) :=
  if filePath.bytes.length > maxFilePathLen then some (s, false)
  else if fileName.bytes.length > attachmentMaxNameLen then some (s, false)
  else if (files filePath.bytes).isNone then some (s, false)
  else
    match s.attachments with
    | none =>
      match nodeMem with
      | none => some (s, false)
      | some dirt => some (⟨s.heap.alloc (newNode dirt filePath fileName), some s.heap.bound⟩, true)
    | some head => do
      let last ← seek (fun p => (s.heap.cells p).map (·.next)) none (s.heap.bound + 1) (some head)
      let cur ← s.heap.cells last
      match nodeMem with
      | none => (s.heap.put last ⟨cur.arrays, none⟩).map fun h => (⟨h, some head⟩, false)
      | some dirt =>
        ((s.heap.alloc (newNode dirt filePath fileName)).put last ⟨cur.arrays, some s.heap.bound⟩).map fun h => (⟨h, some head⟩, true)

/-- What `smtp_send_attachment` does; a file is known by the number of those opened before. -/
inductive AttEv
  | opened (file : ℕ)
  | failed
  /-- `attachment_buf` is written behind its end. -/
  | overflowed
  | wrote (buf : List UInt8)
  | closed (file : ℕ)
  deriving DecidableEq

/-- The reads of a file and their writes: full blocks, until a read is short. -/
def copyFile (rest : List UInt8) : List (List UInt8) :=
  if sendDataMaxLen ≤ rest.length then rest.take sendDataMaxLen :: copyFile (rest.drop sendDataMaxLen) else [rest]
termination_by rest.length
decreasing_by
  rw [List.length_drop]
  have : 0 < sendDataMaxLen := by decide
  omega

/-- The last boundary. -/
def finalBoundary : List UInt8 := boundary ++ text "--\r\n"

/-- One file that is open. -/
def sendFile (a : Attachment) (cnt : ℕ) (content : List UInt8) : List AttEv :=
  .opened cnt :: (if (attachmentHead a).length < sendDataMaxLen then [] else [.overflowed]) ++
    (.wrote (attachmentHead a) :: (copyFile content).map .wrote ++ [.wrote (text "\r\n\r\n"), .closed cnt])

variable (behind : Option ℕ → ℤ → UInt8)

/-- The memory from a node on; `behind` has the bytes of the pointer and of what lies behind them. -/
def AttNode.mem (n : AttNode) (i : ℤ) : UInt8 := if i < nextAt then n.arrays i else behind n.next (i - nextAt)

/-- A C string of a node; it goes on to the next zero cell. -/
def AttNode.str (n : AttNode) (i : ℤ) : List UInt8 := readStr (n.mem behind) (2 ^ 29) i

/-- The loop of `smtp_send_attachment`. -/
def sendLoop (heap : Heap AttNode) : ℕ → ℕ → Option ℕ → Option (List AttEv)
  | 0, _, _ => none
  | _ + 1, cnt, none => some (if cnt > 0 then [.wrote finalBoundary] else [])
  | n + 1, cnt, some p => do
    let cur ← heap.cells p
    let a : Attachment := ⟨cur.str behind filePathAt, cur.str behind fileNameAt⟩
    match files a.filePath with
    | some content =>
      if cnt < maxAttachments then (sendLoop heap n (cnt + 1) cur.next).map (sendFile a cnt content ++ ·)
      -- `break`: the file that has just been opened is left open
      else some (.opened cnt :: if cnt > 0 then [.wrote finalBoundary] else [])
    | none => (sendLoop heap n cnt cur.next).map (.failed :: ·)

/-- `smtp_send_attachment`; nobody looks at what the writes return. -/
def smtpSendAttachment (s : AttList) : Option (List AttEv) := sendLoop files behind s.heap (s.heap.bound + 1) 0 s.attachments

end Code

/-! ## The list in memory -/

/-- An attachment and its node. -/
structure AttEntry extends Attachment where
  node : ℕ

/-- The attachment is in memory, with the given link. -/
def AttEntry.In (behind : Option ℕ → ℤ → UInt8) (cells : ℕ → Option AttNode) (e : AttEntry) (next : Option ℕ) : Prop :=
  ∃ arrays, cells e.node = some ⟨arrays, next⟩ ∧ StrAt (AttNode.mem behind ⟨arrays, next⟩) filePathAt e.filePath ∧
    StrAt (AttNode.mem behind ⟨arrays, next⟩) fileNameAt e.fileName ∧ e.filePath.length ≤ 2 ^ 29 ∧ e.fileName.length ≤ 2 ^ 29

/-- **The attachments of a session**, by what their nodes read as. -/
structure AttHolds (behind : Option ℕ → ℤ → UInt8) (s : AttList) (l : List AttEntry) : Prop where
  part : Seg AttEntry.node (AttEntry.In behind s.heap.cells) s.attachments l none
  nodup : (l.map (·.node)).Nodup

/-- The attachments without their nodes. -/
def attachments (l : List AttEntry) : List Attachment := l.map (·.toAttachment)

section Walk

variable {files : List UInt8 → Option (List UInt8)} {behind : Option ℕ → ℤ → UInt8} {s : AttList} {l : List AttEntry}

/-- The loop on the list itself. -/
def sendList (files : List UInt8 → Option (List UInt8)) : ℕ → List Attachment → List AttEv
  | cnt, [] => if cnt > 0 then [.wrote finalBoundary] else []
  | cnt, a :: as =>
    match files a.filePath with
    | some content =>
      if cnt < maxAttachments then sendFile a cnt content ++ sendList files (cnt + 1) as
      else .opened cnt :: if cnt > 0 then [.wrote finalBoundary] else []
    | none => .failed :: sendList files cnt as

theorem AttHolds.lt_bound (h : AttHolds behind s l) {p : ℕ} (hp : p ∈ l.map (·.node)) : p < s.heap.bound := by
  obtain ⟨e, he, rfl⟩ := List.mem_map.1 hp
  obtain ⟨n, arrays, hcell, -⟩ := Seg.mem h.part he
  exact Heap.lt_bound hcell

theorem AttHolds.length_lt (h : AttHolds behind s l) : l.length < s.heap.bound + 1 := by
  have hle := Heap.length_le_bound h.nodup fun p => h.lt_bound
  rw [List.length_map] at hle
  omega

theorem sendLoop_eq {heap : Heap AttNode} : ∀ {l : List AttEntry} {p : Option ℕ} {n : ℕ} (cnt : ℕ),
    Seg AttEntry.node (AttEntry.In behind heap.cells) p l none → l.length < n →
    sendLoop files behind heap n cnt p = some (sendList files cnt (attachments l)) := by
  intro l
  induction l with
  | nil =>
    intro p n cnt h hn
    obtain ⟨n, rfl⟩ := Nat.exists_eq_succ_of_ne_zero (show n ≠ 0 by omega)
    obtain rfl : p = none := h
    rfl
  | cons e l ih =>
    intro p n cnt h hn
    obtain ⟨n, rfl⟩ := Nat.exists_eq_succ_of_ne_zero (show n ≠ 0 by omega)
    obtain ⟨rfl, next, ⟨arrays, hcell, hpath, hname, hpl, hnl⟩, hrest⟩ := h
    have hpath' : AttNode.str behind ⟨arrays, next⟩ filePathAt = e.filePath := readStr_eq hpath hpl
    have hname' : AttNode.str behind ⟨arrays, next⟩ fileNameAt = e.fileName := readStr_eq hname hnl
    have hnext := fun cnt => ih cnt hrest (Nat.lt_of_succ_lt_succ hn)
    simp only [sendLoop, hcell, Option.bind_eq_bind, Option.bind_some, hpath', hname', hnext, Option.map_some, attachments, List.map_cons,
      sendList]
    cases files e.filePath with
    | none => rfl
    | some content =>
      dsimp only
      split_ifs <;> rfl

/-- **The walk through the list in memory** ends, and does what the list says. -/
theorem sendAttachment_eq (h : AttHolds behind s l) :
    smtpSendAttachment files behind s = some (sendList files 0 (attachments l)) :=
  sendLoop_eq 0 h.part h.length_lt

end Walk

/-! ## `smtp_add_attachment` -/

section Add

variable {files : List UInt8 → Option (List UInt8)} {behind : Option ℕ → ℤ → UInt8} {s : AttList} {l : List AttEntry}

/-- Both strings end in their arrays. -/
def Attachment.InArrays (a : Attachment) : Prop := a.filePath.length < maxFilePathLen ∧ a.fileName.length < attachmentMaxNameLen

/-- A string that ends in front of the pointer does not depend on it. -/
theorem strAt_mem {arrays : ℤ → UInt8} {next : Option ℕ} {i : ℤ} {t : List UInt8} (hi : i + t.length < nextAt) :
    StrAt (AttNode.mem behind ⟨arrays, next⟩) i t ↔ StrAt arrays i t := by
  have hcell : ∀ j, j < i + (t ++ [0]).length → AttNode.mem behind ⟨arrays, next⟩ j = arrays j := by
    intro j hj
    rw [List.length_append, List.length_singleton] at hj
    exact if_pos (by push_cast at hj; omega)
  constructor
  · rintro ⟨h, h0⟩
    exact ⟨h.congr fun j _ hj => (hcell j hj).symm, h0⟩
  · rintro ⟨h, h0⟩
    exact ⟨h.congr fun j _ hj => hcell j hj, h0⟩

/-- Strings in their arrays are there whatever the link is. -/
theorem AttEntry.In.relink {cells cells' : ℕ → Option AttNode} {e : AttEntry} {n n' : Option ℕ} (h : e.In behind cells n)
    (hfit : e.InArrays) {arrays : ℤ → UInt8} (hcell : cells e.node = some ⟨arrays, n⟩) (hcell' : cells' e.node = some ⟨arrays, n'⟩) :
    e.In behind cells' n' := by
  obtain ⟨arrays', hc, hpath, hname, hpl, hnl⟩ := h
  obtain rfl := (AttNode.mk.inj (Option.some.inj (hc.symm.trans hcell))).1
  obtain ⟨h1, h2⟩ := hfit
  have hp : filePathAt + (e.filePath.length : ℤ) < nextAt := by
    simp only [filePathAt, nextAt, maxFilePathLen] at *
    omega
  have hn : fileNameAt + (e.fileName.length : ℤ) < nextAt := by
    simp only [fileNameAt, nextAt, attachmentMaxNameLen] at *
    omega
  exact ⟨arrays', hcell', (strAt_mem hp).2 ((strAt_mem hp).1 hpath), (strAt_mem hn).2 ((strAt_mem hn).1 hname), hpl, hnl⟩

/-- **A new node holds the strings** that are shorter than their arrays. -/
theorem newNode_in {cells : ℕ → Option AttNode} {p : ℕ} (dirt : ℤ → UInt8) {filePath fileName : CStr}
    (hfit : Attachment.InArrays ⟨filePath.bytes, fileName.bytes⟩) (hcell : cells p = some (newNode dirt filePath fileName)) :
    AttEntry.In behind cells ⟨⟨filePath.bytes, fileName.bytes⟩, p⟩ none := by
  obtain ⟨h1, h2⟩ := hfit
  simp only [maxFilePathLen, attachmentMaxNameLen] at h1 h2
  have hzero : List.replicate 96 (0 : UInt8) = padded 64 [] ++ padded 32 [] := rfl
  obtain ⟨hz1, hz2⟩ := (at_append _ _ _ _).1 (hzero ▸ at_store (List.replicate 96 (0 : UInt8)) dirt filePathAt)
  have hpath : At (newNode dirt filePath fileName).arrays filePathAt (padded 64 filePath.bytes) := by
    apply At.store
    · exact hz1.store_padded (by omega)
    · rw [padded_length (by omega)]
      simp [filePathAt, fileNameAt]
  have hname : At (newNode dirt filePath fileName).arrays fileNameAt (padded 32 fileName.bytes) := by
    refine At.store_padded ?_ (by omega)
    apply At.store
    · exact hz2
    · simp only [filePathAt, fileNameAt]
      omega
  have hp : filePathAt + (filePath.bytes.length : ℤ) < nextAt := by
    simp only [filePathAt, nextAt]
    omega
  have hn : fileNameAt + (fileName.bytes.length : ℤ) < nextAt := by
    simp only [fileNameAt, nextAt]
    omega
  exact ⟨_, hcell, (strAt_mem hp).2 (strAt_of_padded hpath filePath.nulFree h1),
    (strAt_mem hn).2 (strAt_of_padded hname fileName.nulFree h2), by dsimp only; omega, by dsimp only; omega⟩

/-- The last node, which the new one is linked to. -/
theorem AttHolds.last {front : List AttEntry} {e : AttEntry} (h : AttHolds behind s (front ++ [e])) :
    ∃ head, s.attachments = some head ∧ e.In behind s.heap.cells none ∧ (∀ y ∈ front, y.node ≠ e.node) ∧
      seek (fun p => (s.heap.cells p).map (·.next)) none (s.heap.bound + 1) (some head) = some e.node := by
  obtain ⟨head, hhead⟩ : ∃ p, s.attachments = some p := by
    cases front with
    | nil => exact ⟨_, h.part.1⟩
    | cons x front => exact ⟨_, h.part.1⟩
  obtain ⟨-, hin⟩ := seg_singleton.1 (seg_append.1 h.part).choose_spec.2
  refine ⟨head, hhead, hin, ?_, ?_⟩
  · intro y hy heq
    have hnd := h.nodup
    rw [List.map_append, List.nodup_append] at hnd
    exact hnd.2.2 _ (List.mem_map_of_mem hy) _ (by simp) heq
  · rw [← hhead]
    refine seek_eq ?_ h.part (by simp) ?_
    · rintro x n ⟨arrays, hx, -⟩
      rw [hx]
      rfl
    · have hlen := h.length_lt
      rw [List.length_append, List.length_singleton] at hlen
      omega

/-- **An attachment is added** at the end of the list, when the strings end in their arrays. -/
theorem addAttachment_spec (h : AttHolds behind s l) (hl : ∀ e ∈ l, e.InArrays) (dirt : ℤ → UInt8) {filePath fileName : CStr}
    (hfit : Attachment.InArrays ⟨filePath.bytes, fileName.bytes⟩) (hopen : (files filePath.bytes).isSome) :
    ∃ s', smtpAddAttachment files (some dirt) filePath fileName s = some (s', true) ∧
      AttHolds behind s' (l ++ [⟨⟨filePath.bytes, fileName.bytes⟩, s.heap.bound⟩]) := by
  have h1 : ¬ filePath.bytes.length > maxFilePathLen := not_lt.2 hfit.1.le
  have h2 : ¬ fileName.bytes.length > attachmentMaxNameLen := not_lt.2 hfit.2.le
  have h3 : ¬ (files filePath.bytes).isNone = true := by
    rw [Option.isNone_iff_eq_none, ← Option.not_isSome_iff_eq_none]
    exact not_not.2 hopen
  have hnodup : ((l ++ [⟨⟨filePath.bytes, fileName.bytes⟩, s.heap.bound⟩] : List AttEntry).map (·.node)).Nodup := by
    rw [List.map_append, List.nodup_append]
    refine ⟨h.nodup, by simp, ?_⟩
    intro p hp q hq
    obtain rfl := List.mem_singleton.1 hq
    exact (h.lt_bound hp).ne
  have hnew := Heap.alloc_new s.heap (newNode dirt filePath fileName)
  rcases List.eq_nil_or_concat l with rfl | ⟨front, e, rfl⟩
  · have hhead : s.attachments = none := h.part
    refine ⟨⟨s.heap.alloc (newNode dirt filePath fileName), some s.heap.bound⟩, ?_, ⟨?_, hnodup⟩⟩
    · simp only [smtpAddAttachment, if_neg h1, if_neg h2, if_neg h3, hhead]
    · exact seg_singleton.2 ⟨rfl, newNode_in dirt hfit hnew⟩
  · rw [List.concat_eq_append] at *
    obtain ⟨head, hhead, ⟨arrays, hcell, hrest⟩, hfront, hlast⟩ := h.last
    have he : e ∈ front ++ [e] := by simp
    have hne : e.node ≠ s.heap.bound := (h.lt_bound (List.mem_map_of_mem he)).ne
    set h4 := s.heap.alloc (newNode dirt filePath fileName)
    have hcell4 : h4.cells e.node = some ⟨arrays, none⟩ := (Heap.alloc_old _ hne).trans hcell
    refine ⟨⟨h4.set e.node ⟨arrays, some s.heap.bound⟩, some head⟩, ?_, ⟨?_, hnodup⟩⟩
    · have hput : h4.put e.node ⟨arrays, some s.heap.bound⟩ = some (h4.set e.node ⟨arrays, some s.heap.bound⟩) := Heap.put_eq hcell4
      simp only [smtpAddAttachment, if_neg h1, if_neg h2, if_neg h3, hhead, hlast, hcell, Option.bind_eq_bind, Option.bind_some]
      exact congrArg (Option.map fun h => ((⟨h, some head⟩ : AttList), true)) hput
    · rw [← hhead]
      refine seg_append.2 ⟨some s.heap.bound, ?_, seg_singleton.2 ⟨rfl, newNode_in dirt hfit ?_⟩⟩
      · apply Seg.relink h.part
        · rintro y hy n ⟨arrays', hy', hstr⟩
          have hyb : y.node ≠ s.heap.bound := (h.lt_bound (List.mem_map_of_mem (List.mem_append_left _ hy))).ne
          exact ⟨arrays', (Heap.set_other _ _ (hfront y hy)).trans ((Heap.alloc_old _ hyb).trans hy'), hstr⟩
        · exact AttEntry.In.relink ⟨arrays, hcell, hrest⟩ (hl e he) hcell (Heap.set_same _ hcell4)
      · rw [Heap.set_other _ _ hne.symm]
        exact hnew

end Add

/-! ## What is sent -/

section Sent

variable {files : List UInt8 → Option (List UInt8)} {as : List Attachment} {cnt : ℕ}

/-- The bytes that are written. -/
def AttEv.bytes : AttEv → List UInt8
  | .wrote buf => buf
  | _ => []

def sentBytes (es : List AttEv) : List UInt8 := es.flatMap AttEv.bytes

/-- The attachments whose files can be opened, with what is in the files. -/
def openable (files : List UInt8 → Option (List UInt8)) (as : List Attachment) : List (Attachment × List UInt8) :=
  as.filterMap fun a => (files a.filePath).map (a, ·)

/-- A part of the mail: its header, the bytes of the file, and the lines behind them. -/
def mailPart (p : Attachment × List UInt8) : List UInt8 := attachmentHead p.1 ++ p.2 ++ text "\r\n\r\n"

/-- Every file that was opened is closed. -/
def AllClosed (es : List AttEv) : Prop := ∀ k, .opened k ∈ es → .closed k ∈ es

/-- **The attachments are sent**: a part for each of the first 20 that can be opened, the last boundary behind them if there are
any; no buffer is written behind its end, and no file is left open. -/
structure AttSent (files : List UInt8 → Option (List UInt8)) (as : List Attachment) (es : List AttEv) : Prop where
  bytes : sentBytes es = ((openable files as).take maxAttachments).flatMap mailPart ++
    if openable files as = [] then [] else finalBoundary
  fits : .overflowed ∉ es
  closed : AllClosed es

theorem openable_missing {a : Attachment} (hf : files a.filePath = none) : openable files (a :: as) = openable files as := by
  simp [openable, hf]

theorem openable_found {a : Attachment} {content : List UInt8} (hf : files a.filePath = some content) :
    openable files (a :: as) = (a, content) :: openable files as := by
  simp [openable, hf]

theorem sendList_missing {a : Attachment} (hf : files a.filePath = none) :
    sendList files cnt (a :: as) = .failed :: sendList files cnt as := by
  simp only [sendList, hf]

theorem sendList_found {a : Attachment} {content : List UInt8} (hf : files a.filePath = some content)
    (hlt : cnt < maxAttachments) :
    sendList files cnt (a :: as) = sendFile a cnt content ++ sendList files (cnt + 1) as := by
  simp only [sendList, hf, if_pos hlt]

/-- The file that is opened behind the last one that is sent. -/
theorem sendList_left {a : Attachment} {content : List UInt8} (hf : files a.filePath = some content)
    (hge : ¬ cnt < maxAttachments) :
    sendList files cnt (a :: as) = .opened cnt :: if cnt > 0 then [.wrote finalBoundary] else [] := by
  simp only [sendList, hf, if_neg hge]

theorem sendDataMaxLen_pos : 0 < sendDataMaxLen := by decide

/-- **The blocks are the file.** -/
theorem copyFile_flatten (content : List UInt8) : (copyFile content).flatten = content := by
  fun_induction copyFile content with
  | case1 rest h ih => rw [List.flatten_cons, ih, List.take_append_drop]
  | case2 rest h => simp

/-- The blocks are those of the model without files and handles. -/
theorem copyFile_eq (content : List UInt8) : copyFile content = fileBufs content := by
  fun_induction copyFile content with
  | case1 rest h ih =>
    have hpos := sendDataMaxLen_pos
    have hdiv : rest.length / sendDataMaxLen = (rest.length - sendDataMaxLen) / sendDataMaxLen + 1 := by
      rw [Nat.div_eq_sub_div hpos h]
    have hshift : ∀ i, sendDataMaxLen * (i + 1) = sendDataMaxLen + sendDataMaxLen * i := fun i => by ring
    rw [ih, fileBufs, fileBufs, List.length_drop, hdiv, List.range_succ_eq_map, List.map_cons, List.map_map]
    simp only [List.drop_drop, Function.comp_def, Nat.succ_eq_add_one, hshift, Nat.mul_zero, List.drop_zero, List.cons_append]
  | case2 rest h =>
    have hzero : rest.length / sendDataMaxLen = 0 := Nat.div_eq_of_lt (Nat.lt_of_not_le h)
    rw [fileBufs, hzero]
    simp

theorem sentBytes_sendFile (a : Attachment) (cnt : ℕ) (content : List UInt8) :
    sentBytes (sendFile a cnt content) = mailPart (a, content) := by
  have hblocks : ((copyFile content).map AttEv.wrote).flatMap AttEv.bytes = content := by
    rw [List.flatMap_map]
    exact List.flatMap_id'.trans (copyFile_flatten content)
  have hmark : (if (attachmentHead a).length < sendDataMaxLen then [] else [AttEv.overflowed]).flatMap AttEv.bytes = [] := by
    split_ifs <;> rfl
  simp only [sentBytes, sendFile, List.flatMap_append, List.flatMap_cons, List.flatMap_nil, hblocks, hmark, mailPart]
  simp [AttEv.bytes]

variable (files) in
/-- **The bytes**, while at most 20 files have been sent. -/
theorem sentBytes_sendList : ∀ (as : List Attachment) {cnt : ℕ}, cnt ≤ maxAttachments →
    sentBytes (sendList files cnt as) = ((openable files as).take (maxAttachments - cnt)).flatMap mailPart ++
      if cnt = 0 ∧ openable files as = [] then [] else finalBoundary := by
  intro as
  induction as with
  | nil =>
    intro cnt _
    by_cases h : cnt = 0
    · subst h
      simp [sendList, openable, sentBytes]
    · simp [sendList, openable, sentBytes, h, Nat.pos_of_ne_zero h, AttEv.bytes]
  | cons a as ih =>
    intro cnt hcnt
    cases hf : files a.filePath with
    | none =>
      rw [openable_missing hf, ← ih hcnt, sendList_missing hf]
      simp [sentBytes, AttEv.bytes]
    | some content =>
      rw [openable_found hf, if_neg (by simp)]
      by_cases hlt : cnt < maxAttachments
      · have hnext := ih (show cnt + 1 ≤ maxAttachments by omega)
        obtain ⟨k, hk⟩ : ∃ k, maxAttachments - cnt = k + 1 := ⟨maxAttachments - cnt - 1, by omega⟩
        have hk' : maxAttachments - (cnt + 1) = k := by omega
        rw [if_neg (by omega), hk'] at hnext
        have happend : ∀ es es' : List AttEv, sentBytes (es ++ es') = sentBytes es ++ sentBytes es' := fun _ _ => List.flatMap_append
        rw [sendList_found hf hlt, happend, sentBytes_sendFile, hnext, hk, List.take_succ_cons, List.flatMap_cons, List.append_assoc]
      · have hzero : maxAttachments - cnt = 0 := by omega
        have hpos : cnt > 0 := by
          have : 0 < maxAttachments := by decide
          omega
        rw [hzero, sendList_left hf hlt]
        simp [if_pos hpos, sentBytes, AttEv.bytes]

/-- Files are opened from the given number on. -/
theorem opened_ge : ∀ {as : List Attachment} {cnt k : ℕ}, .opened k ∈ sendList files cnt as → cnt ≤ k := by
  intro as
  induction as with
  | nil =>
    intro cnt k h
    unfold sendList at h
    split_ifs at h <;> simp at h
  | cons a as ih =>
    intro cnt k h
    unfold sendList at h
    split at h
    · rename_i content hf
      split_ifs at h with hlt hpos
      · rcases List.mem_append.1 h with h | h
        · simp [sendFile] at h
          omega
        · have := ih h
          omega
      all_goals
        simp at h
        omega
    · rcases List.mem_cons.1 h with h | h
      · simp at h
      · exact ih h

/-- A file that is sent is closed, so nothing changes for the files behind it. -/
theorem allClosed_sendFile (a : Attachment) (cnt : ℕ) (content : List UInt8) (as : List Attachment) :
    AllClosed (sendFile a cnt content ++ sendList files (cnt + 1) as) ↔ AllClosed (sendList files (cnt + 1) as) := by
  constructor
  · intro h k hk
    rcases List.mem_append.1 (h k (List.mem_append_right _ hk)) with hc | hc
    · have hle := opened_ge hk
      simp [sendFile] at hc
      omega
    · exact hc
  · intro h k hk
    rcases List.mem_append.1 hk with hk | hk
    · apply List.mem_append_left
      simp [sendFile] at hk ⊢
      exact hk
    · exact List.mem_append_right _ (h k hk)

variable (files) in
/-- **Every file is closed** unless one is opened behind the last that is sent. -/
theorem allClosed_sendList : ∀ (as : List Attachment) {cnt : ℕ}, cnt ≤ maxAttachments →
    (AllClosed (sendList files cnt as) ↔ (openable files as).length ≤ maxAttachments - cnt) := by
  intro as
  induction as with
  | nil =>
    intro cnt _
    have hnone : ∀ k, AttEv.opened k ∉ sendList files cnt [] := by
      intro k
      unfold sendList
      split_ifs <;> simp
    simp [AllClosed, openable, hnone]
  | cons a as ih =>
    intro cnt hcnt
    cases hf : files a.filePath with
    | none =>
      rw [openable_missing hf, ← ih hcnt, sendList_missing hf]
      simp [AllClosed]
    | some content =>
      rw [openable_found hf, List.length_cons]
      by_cases hlt : cnt < maxAttachments
      · rw [sendList_found hf hlt, allClosed_sendFile, ih (show cnt + 1 ≤ maxAttachments by omega)]
        omega
      · have hopened : ¬ AllClosed (sendList files cnt (a :: as)) := by
          rw [sendList_left hf hlt]
          intro h
          have hc := h cnt List.mem_cons_self
          split_ifs at hc <;> simp at hc
        refine ⟨fun h => absurd h hopened, fun h => ?_⟩
        omega

/-- The buffers that are written. -/
def AttEv.buf : AttEv → Option (List UInt8)
  | .wrote buf => some buf
  | _ => none

/-- **The writes** are those of the model of the mail, which has no files that are open. -/
theorem sendList_bufs : ∀ (as : List Attachment) (cnt : ℕ), cnt ≤ maxAttachments →
    (sendList files cnt as).filterMap AttEv.buf = attachmentBufs files cnt as := by
  intro as
  induction as with
  | nil =>
    intro cnt _
    unfold sendList attachmentBufs
    split_ifs <;> rfl
  | cons a as ih =>
    intro cnt hcnt
    have hfile : ∀ content, (sendFile a cnt content).filterMap AttEv.buf =
        attachmentHead a :: fileBufs content ++ [text "\r\n\r\n"] := by
      intro content
      have hblocks : ((copyFile content).map AttEv.wrote).filterMap AttEv.buf = fileBufs content := by
        rw [List.filterMap_map, ← copyFile_eq]
        exact List.filterMap_some
      have hmark : (if (attachmentHead a).length < sendDataMaxLen then [] else [AttEv.overflowed]).filterMap AttEv.buf = [] := by
        split_ifs <;> rfl
      simp only [sendFile, List.filterMap_append, List.filterMap_cons, List.filterMap_nil, AttEv.buf, hblocks, hmark, List.nil_append]
    unfold sendList attachmentBufs
    cases files a.filePath with
    | none => exact ih cnt hcnt
    | some content =>
      dsimp only
      split_ifs with hlt hpos
      · rw [List.filterMap_append, hfile, ih (cnt + 1) hlt, List.append_assoc]
        rfl
      · rfl
      · have : 0 < maxAttachments := by decide
        omega

/-- The header fits its buffer, by the length of the name. -/
theorem attachmentHead_fits (a : Attachment) : (attachmentHead a).length < sendDataMaxLen ↔ a.fileName.length ≤ 184 := by
  have h1 : (text "\r\nContent-Type: text/plain; name=\"").length = 34 := by decide
  have h2 : (text "\"\r\nContent-Transfer-Encoding: binary\r\nContent-Disposition: attachment; filename=\"").length = 81 := by decide
  have h3 : (text "\"\r\n\r\n").length = 5 := rfl
  have h4 : boundary.length = 22 := by decide
  simp only [attachmentHead, List.length_append, sendDataMaxLen]
  omega

variable (files) in
/-- **No buffer is written behind its end** when all names that are printed are short. -/
theorem fits_sendList : ∀ (as : List Attachment) {cnt : ℕ}, (openable files as).length ≤ maxAttachments - cnt →
    (.overflowed ∉ sendList files cnt as ↔ ∀ p ∈ openable files as, p.1.fileName.length ≤ 184) := by
  intro as
  induction as with
  | nil =>
    intro cnt _
    unfold sendList
    split_ifs <;> simp [openable]
  | cons a as ih =>
    intro cnt hlen
    cases hf : files a.filePath with
    | none =>
      rw [openable_missing hf] at hlen ⊢
      rw [← ih hlen, sendList_missing hf]
      simp
    | some content =>
      rw [openable_found hf, List.length_cons] at hlen
      have hlt : cnt < maxAttachments := by omega
      have hfile : .overflowed ∉ sendFile a cnt content ↔ a.fileName.length ≤ 184 := by
        rw [← attachmentHead_fits, sendFile]
        split_ifs with hfit <;> simp [hfit]
      rw [sendList_found hf hlt, openable_found hf, List.mem_append, not_or, hfile, ih (by omega), List.forall_mem_cons]

/-- **The attachments are sent**, and no file is left open, exactly when at most 20 files can be opened, with names of at most
184 bytes. -/
theorem attachments_sent_iff {behind : Option ℕ → ℤ → UInt8} {s : AttList} {l : List AttEntry} (h : AttHolds behind s l)
    (files : List UInt8 → Option (List UInt8)) :
    ∃ es, smtpSendAttachment files behind s = some es ∧ es.filterMap AttEv.buf = attachmentBufs files 0 (attachments l) ∧
      (AttSent files (attachments l) es ↔
        (openable files (attachments l)).length ≤ maxAttachments ∧
          ∀ p ∈ openable files (attachments l), p.1.fileName.length ≤ 184) := by
  have hbytes := sentBytes_sendList files (attachments l) (Nat.zero_le maxAttachments)
  have hclosed := allClosed_sendList files (attachments l) (Nat.zero_le maxAttachments)
  simp only [Nat.sub_zero, true_and] at hbytes hclosed
  refine ⟨_, sendAttachment_eq h, sendList_bufs _ 0 (Nat.zero_le _), ?_⟩
  constructor
  · intro hsent
    have hlen := hclosed.1 hsent.closed
    exact ⟨hlen, (fits_sendList files (attachments l) hlen).1 hsent.fits⟩
  · rintro ⟨hlen, hnames⟩
    exact ⟨hbytes, (fits_sendList files (attachments l) hlen).2 hnames, hclosed.2 hlen⟩

end Sent

/-! ## Twenty-one files -/

/-- One attachment, added any number of times. -/
theorem addAttachment_times (files : List UInt8 → Option (List UInt8)) (behind : Option ℕ → ℤ → UInt8) {filePath fileName : CStr}
    (hfit : Attachment.InArrays ⟨filePath.bytes, fileName.bytes⟩) (hopen : (files filePath.bytes).isSome) (n : ℕ) :
    ∃ s l, AttHolds behind s l ∧ (∀ e ∈ l, e.InArrays) ∧ attachments l = List.replicate n ⟨filePath.bytes, fileName.bytes⟩ := by
  induction n with
  | zero => exact ⟨⟨.empty, none⟩, [], ⟨rfl, List.nodup_nil⟩, by simp, rfl⟩
  | succ n ih =>
    obtain ⟨s, l, h, hl, hatt⟩ := ih
    obtain ⟨s', -, h'⟩ := addAttachment_spec h hl (fun _ => 0xA5) hfit hopen
    refine ⟨s', _, h', ?_, ?_⟩
    · intro e he
      rcases List.mem_append.1 he with he | he
      · exact hl e he
      · obtain rfl := List.mem_singleton.1 he
        exact hfit
    · rw [attachments, List.map_append, ← attachments, hatt, List.replicate_succ']
      rfl

def logPath : CStr := ⟨text "/log", by decide, by decide⟩
def logName : CStr := ⟨text "log", by decide, by decide⟩

theorem log_inArrays : Attachment.InArrays ⟨logPath.bytes, logName.bytes⟩ := by
  unfold Attachment.InArrays
  decide

/-- A file of 512 bytes. -/
theorem attachments_sent_one : ∃ s l, attachments l = [⟨logPath.bytes, logName.bytes⟩] ∧
    AttHolds (fun _ _ => 0) s l ∧ ∃ es, smtpSendAttachment (fun _ => some (List.replicate 512 97)) (fun _ _ => 0) s = some es ∧
      AttSent (fun _ => some (List.replicate 512 97)) (attachments l) es := by
  obtain ⟨s, l, h, -, hatt⟩ := addAttachment_times (fun _ => some (List.replicate 512 97)) (fun _ _ => 0) log_inArrays rfl 1
  obtain ⟨es, hrun, -, hiff⟩ := attachments_sent_iff h fun _ => some (List.replicate 512 97)
  refine ⟨s, l, hatt, h, es, hrun, hiff.2 ?_⟩
  rw [hatt]
  refine ⟨(by decide : 1 ≤ maxAttachments), ?_⟩
  intro p hp
  obtain rfl := List.mem_singleton.1 hp
  decide

/-- **The twenty-first file is left open.** -/
theorem twenty_first_left_open : ∃ s l, attachments l = List.replicate 21 ⟨logPath.bytes, logName.bytes⟩ ∧
    AttHolds (fun _ _ => 0) s l ∧ ∃ es, smtpSendAttachment (fun _ => some []) (fun _ _ => 0) s = some es ∧
      ¬ AttSent (fun _ => some []) (attachments l) es := by
  obtain ⟨s, l, h, -, hatt⟩ := addAttachment_times (fun _ => some []) (fun _ _ => 0) log_inArrays rfl 21
  refine ⟨s, l, hatt, h, _, sendAttachment_eq h, fun hsent => ?_⟩
  have hle := (allClosed_sendList (fun _ => some []) (attachments l) (Nat.zero_le _)).1 hsent.closed
  have hlen : (openable (fun _ => some []) (attachments l)).length = 21 := by
    rw [hatt]
    rfl
  rw [hlen] at hle
  exact absurd hle (by decide)

end W601.Smtp
