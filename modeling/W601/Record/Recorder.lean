import W601.Lib.CMem
import W601.Lib.CNum

/-!
# The data recorder

`record_thread_entry` averages the sensors and the memory in use over sixty readings and has `data_record` write a line
with the averages to the file of the day, which begins with a header. `data_record` asks `dir_change` for the path; the
path is kept from call to call.

* `place_eq`: the path that `dir_change` leaves.
* `dataRecord_eq`, `writeLine_eq`, `dataRecord_kept`: what a call changes.
* `used_mem_average_iff`: the readings whose average comes out right.
-/

namespace W601.Record

open CMem (text)
open CNum (decimal)

/-- `%d`. -/
def printInt (n : ℤ) : List UInt8 := if n < 0 then 45 :: decimal n.natAbs else decimal n.natAbs

/-! ## Averages -/

/-- `DATA_FILTER_TIMES`. -/
def dataFilterTimes : ℕ := 60

/-- `record_data_t`; `F` are the floats. -/
structure RecordData (F : Type*) where
  tempSum : F
  humiSum : F
  lightSum : F
  usedMemSum : UInt16
  tempAver : F
  humiAver : F
  lightAver : F
  usedMemAver : UInt16

/-- `cur_temp`, `cur_humi` and `cur_light` when they are read. -/
structure Sensors (F : Type*) where
  curTemp : F
  curHumi : F
  curLight : F

section Round

variable {F : Type*} [Zero F] [Add F] [Div F] [NatCast F]

/-- `record` after `_module_init`. -/
def RecordData.init : RecordData F := ⟨0, 0, 0, 0, 0, 0, 0, 0⟩

/-- The sums set to zero. -/
def clearSums (d : RecordData F) : RecordData F := { d with humiSum := 0, lightSum := 0, tempSum := 0, usedMemSum := 0 }

/-- One turn of the loop; the memory sum is made in 32 bits and kept in 16. -/
def accumulate (usedMem : UInt32) (d : RecordData F) (now : Sensors F) : RecordData F :=
  { d with
    humiSum := d.humiSum + now.curHumi
    tempSum := d.tempSum + now.curTemp
    lightSum := d.lightSum + now.curLight
    usedMemSum := (d.usedMemSum.toUInt32 + usedMem).toUInt16 }

/-- The divisions behind the loop. -/
def divide (d : RecordData F) : RecordData F :=
  { d with
    humiAver := d.humiSum / (dataFilterTimes : F)
    tempAver := d.tempSum / (dataFilterTimes : F)
    lightAver := d.lightSum / (dataFilterTimes : F)
    usedMemAver := d.usedMemSum / UInt16.ofNat dataFilterTimes }

/-- One round of `record_thread_entry` up to `data_record`: `used_mem` is read once, the sensors in every turn. -/
def averageRound (usedMem : UInt32) (sensors : ℕ → Sensors F) (d : RecordData F) : RecordData F :=
  divide ((List.range dataFilterTimes).foldl (fun d i => accumulate usedMem d (sensors i)) (clearSums d))

omit [Zero F] [Div F] [NatCast F] in
theorem accumulate_usedMemSum (usedMem : UInt32) (d : RecordData F) (now : Sensors F) :
    (accumulate usedMem d now).usedMemSum.toNat = (d.usedMemSum.toNat + usedMem.toNat) % 2 ^ 16 := by
  rw [accumulate, UInt32.toNat_toUInt16, UInt32.toNat_add, UInt16.toNat_toUInt32]
  -- the sum in 32 bits wraps only at multiples of `2 ^ 16`
  exact Nat.mod_mod_of_dvd _ (by decide)

omit [Div F] [NatCast F] in
/-- The memory sum after `k` turns. -/
theorem usedMemSum_turns (usedMem : UInt32) (sensors : ℕ → Sensors F) (d : RecordData F) : ∀ k,
    ((List.range k).foldl (fun d i => accumulate usedMem d (sensors i)) (clearSums d)).usedMemSum.toNat =
      k * usedMem.toNat % 2 ^ 16 := by
  intro k
  induction k with
  | zero => rw [Nat.zero_mul]; rfl
  | succ k ih =>
    rw [List.range_succ, List.foldl_append, List.foldl_cons, List.foldl_nil, accumulate_usedMemSum, ih, Nat.mod_add_mod,
      Nat.add_one_mul]

/-- **The sum and the average of a round**, of a reading `usedMem` of any size. -/
theorem averageRound_usedMem (usedMem : UInt32) (sensors : ℕ → Sensors F) (d : RecordData F) :
    (averageRound usedMem sensors d).usedMemSum.toNat = 60 * usedMem.toNat % 2 ^ 16 ∧
      (averageRound usedMem sensors d).usedMemAver.toNat = 60 * usedMem.toNat % 2 ^ 16 / 60 := by
  have hsum := usedMemSum_turns usedMem sensors d dataFilterTimes
  refine ⟨hsum, ?_⟩
  rw [averageRound, divide, UInt16.toNat_div, hsum]
  rfl

/-- **The recorded average is the memory in use**, and nothing wraps on the way, for readings up to 1092 bytes and for no
others. -/
theorem used_mem_average_iff (usedMem : UInt32) (sensors : ℕ → Sensors F) (d : RecordData F) :
    (averageRound usedMem sensors d).usedMemAver.toNat = usedMem.toNat ∧
      (averageRound usedMem sensors d).usedMemSum.toNat = 60 * usedMem.toNat ↔ usedMem.toNat ≤ 1092 := by
  obtain ⟨hsum, haver⟩ := averageRound_usedMem usedMem sensors d
  rw [hsum, haver]
  constructor
  · rintro ⟨h, -⟩
    have hlt : 60 * usedMem.toNat % 2 ^ 16 < 2 ^ 16 := Nat.mod_lt _ (by decide)
    omega
  · intro h
    rw [Nat.mod_eq_of_lt (by omega), Nat.mul_div_cancel_left _ (by decide)]
    exact ⟨rfl, rfl⟩

end Round

/-- Two thousand bytes in use are recorded as 907. -/
theorem two_thousand_wrap :
    ¬ ((averageRound 2000 (fun _ => ⟨20, 50, 100⟩) (RecordData.init : RecordData ℚ)).usedMemAver.toNat = 2000 ∧
      (averageRound 2000 (fun _ => ⟨20, 50, 100⟩) (RecordData.init : RecordData ℚ)).usedMemSum.toNat = 60 * 2000) := by
  rintro ⟨h, -⟩
  rw [(averageRound_usedMem _ _ _).2] at h
  exact absurd h (by decide)

/-! ## Files -/

/-- The fields of `struct tm` that are read. -/
structure Tm where
  year : ℤ
  mon : ℤ
  mday : ℤ
deriving DecidableEq

/-- `localtime`; the days of a month begin with 1. -/
structure LocalTime where
  toTm : ℤ → Tm
  mday_pos : ∀ t, 0 < (toTm t).mday

/-- A line that has been written. -/
structure Line where
  /-- The path given to `open`. -/
  file : List UInt8
  /-- The number in the first column. -/
  stamp : ℤ
  text : List UInt8

/-- `record`, without the averages, and the files. -/
structure Recorder where
  curTm : Tm
  path : List UInt8
  files : List UInt8 → Option (List UInt8)
  /-- The lines whose `write` has succeeded, in order. -/
  lines : List Line

/-- What a call of `data_record` meets. -/
structure Call (F : Type*) where
  /-- The averages of the round. -/
  data : RecordData F
  /-- The clock when `dir_change` reads it, and when `data_record` does. -/
  dirTime : ℤ
  curTime : ℤ
  /-- The free entry of the descriptor table that an `open` gets; `none` where it fails. -/
  readOnly : Option ℕ
  create : Option ℕ
  append : Option ℕ
  /-- Whether the writes succeed. -/
  headWritten : Bool
  lineWritten : Bool

/-- `DATA_RECORD_ROOT_PATH`. -/
def rootPath : List UInt8 := text "/webnet/data"

/-- `DATA_RECORD_HEAD`. -/
def recordHead : List UInt8 := text "time,temp,humi,used_mem,light\r\n"

/-- A descriptor as `open` returns it (`DFS_FD_OFFSET` is 3). -/
def descriptor : Option ℕ → ℤ
  | none => -1
  | some n => n + 3

/-- `cur_time` is an `unsigned int`, printed with `%d`. -/
def stamp (t : ℤ) : ℤ := t.bmod (2 ^ 32)

/-- The module after `_module_init`. -/
def Recorder.boot (files : List UInt8 → Option (List UInt8)) : Recorder := ⟨⟨0, 0, 0⟩, [], files, []⟩

/-- `dir_change`, which also makes the directories that are missing. -/
def dirChange (tm : Tm) (r : Recorder) : Recorder × Bool :=
  -- only the day of the month is compared
  if tm.mday ≠ r.curTm.mday then
    let path := rootPath ++ text "/" ++ printInt (tm.year + 1900)
    let path := path ++ text "/" ++ printInt (tm.mon + 1)
    ({ r with path := path, curTm := tm }, true)
  else (r, false)

/-- The first lines of `data_record`. -/
def place (tm : Tm) (r : Recorder) : Recorder :=
  let (r, changed) := dirChange tm r
  if changed then { r with path := r.path ++ text "/" ++ printInt r.curTm.mday ++ text ".csv" } else r

/-- `open` with `O_RDONLY`, closed again by the caller. -/
def openRead (slot : Option ℕ) (r : Recorder) : ℤ := if (r.files r.path).isSome then descriptor slot else -1

/-- `open` with `O_WRONLY | O_CREAT | O_TRUNC`. -/
def openCreate (slot : Option ℕ) (r : Recorder) : Recorder × ℤ :=
  (if slot.isSome then { r with files := Function.update r.files r.path (some []) } else r, descriptor slot)

/-- `open` with `O_WRONLY | O_CREAT | O_APPEND`. -/
def openAppend (slot : Option ℕ) (r : Recorder) : Recorder × ℤ :=
  (if slot.isSome then { r with files := Function.update r.files r.path (some ((r.files r.path).getD [])) } else r,
    descriptor slot)

/-- `write` of `d` at the end of the file at the path, where `fd` is open and there is room. -/
def write (fd : ℤ) (room : Bool) (d : List UInt8) (r : Recorder) : Recorder :=
  if 0 ≤ fd ∧ room then { r with files := Function.update r.files r.path ((r.files r.path).map (· ++ d)) } else r

section Code

variable {F : Type*} (localtime : LocalTime) (printFloat : F → List UInt8)

/-- The line of a call, as `snprintf` leaves it in 200 bytes; `printFloat` is `%.2f`. -/
def recordLine (c : Call F) : List UInt8 :=
  (printInt (stamp c.curTime) ++ text "," ++ printFloat c.data.tempAver ++ text "," ++ printFloat c.data.humiAver ++
    text "," ++ decimal c.data.usedMemAver.toNat ++ text "," ++ printFloat c.data.lightAver ++ text "\r\n").take 199

/-- The end of `data_record`, from the comment on writing the data on. -/
def writeLine (c : Call F) (r : Recorder) : Recorder :=
  let (r, fd) := openAppend c.append r
  let line := recordLine printFloat c
  let r := if 0 ≤ fd ∧ c.lineWritten then { r with lines := r.lines ++ [⟨r.path, stamp c.curTime, line⟩] } else r
  write fd c.lineWritten line r

/-- `data_record`. -/
def dataRecord (c : Call F) (r : Recorder) : Recorder × ℤ :=
  let r := place (localtime.toTm c.dirTime) r
  if openRead c.readOnly r < 0 then
    let (r, fd) := openCreate c.create r
    -- a failed `open` returns `-1`, which is not zero
    if fd ≠ 0 then (writeLine printFloat c (write fd c.headWritten recordHead r), 0) else (r, -1)
  else (writeLine printFloat c r, 0)

end Code

/-! ## What a call does -/

/-- The file of a day. -/
def dayFile (tm : Tm) : List UInt8 :=
  rootPath ++ text "/" ++ printInt (tm.year + 1900) ++ text "/" ++ printInt (tm.mon + 1) ++ text "/" ++
    printInt tm.mday ++ text ".csv"

/-- **The path of a call** is rebuilt when the day of the month is another one. -/
theorem place_eq (tm : Tm) (r : Recorder) :
    place tm r = if tm.mday ≠ r.curTm.mday then { r with path := dayFile tm, curTm := tm } else r := by
  rw [place, dirChange]
  split_ifs with h
  · rfl
  · rfl

theorem place_files (tm : Tm) (r : Recorder) : (place tm r).files = r.files := by
  rw [place_eq]
  split_ifs <;> rfl

theorem place_lines (tm : Tm) (r : Recorder) : (place tm r).lines = r.lines := by
  rw [place_eq]
  split_ifs <;> rfl

theorem descriptor_nonneg {slot : Option ℕ} : 0 ≤ descriptor slot ↔ slot.isSome = true := by
  cases slot with
  | none => simp [descriptor]
  | some n => simp only [descriptor, Option.isSome_some, iff_true]; omega

theorem descriptor_ne_zero (slot : Option ℕ) : descriptor slot ≠ 0 := by
  cases slot with
  | none => simp [descriptor]
  | some n => simp only [descriptor]; omega

section Calls

variable {F : Type*} (localtime : LocalTime) (printFloat : F → List UInt8) (c : Call F) (r : Recorder)

/-- The file that the line is appended to: as it was when it could be opened for reading, or could not be created, and
new otherwise. -/
def headed : Recorder :=
  if ((r.files r.path).isSome ∧ c.readOnly.isSome) ∨ c.create = none then r
  else { r with files := Function.update r.files r.path (some (if c.headWritten then recordHead else [])) }

theorem headed_curTm : (headed c r).curTm = r.curTm := by
  rw [headed]
  split_ifs <;> rfl

theorem headed_path : (headed c r).path = r.path := by
  rw [headed]
  split_ifs <;> rfl

theorem headed_lines : (headed c r).lines = r.lines := by
  rw [headed]
  split_ifs <;> rfl

theorem openRead_nonneg : 0 ≤ openRead c.readOnly r ↔ (r.files r.path).isSome ∧ c.readOnly.isSome := by
  rw [openRead]
  split_ifs with hfile
  · rw [descriptor_nonneg, and_iff_right hfile]
  · exact iff_of_false (by decide) fun h => hfile h.1

theorem write_head : write (openCreate c.create r).2 c.headWritten recordHead (openCreate c.create r).1 =
    if c.create = none then r
    else { r with files := Function.update r.files r.path (some (if c.headWritten then recordHead else [])) } := by
  simp only [write, openCreate, descriptor_nonneg]
  cases c.create with
  | none => rfl
  | some n => cases c.headWritten <;> simp

/-- **A call** places the path, sees to the header and appends the line. -/
theorem dataRecord_eq :
    (dataRecord localtime printFloat c r).1 = writeLine printFloat c (headed c (place (localtime.toTm c.dirTime) r)) := by
  rw [dataRecord]
  set r' := place (localtime.toTm c.dirTime) r
  by_cases hopen : (r'.files r'.path).isSome ∧ c.readOnly.isSome
  · rw [if_neg (not_lt.2 ((openRead_nonneg c r').2 hopen)), headed, if_pos (Or.inl hopen)]
  · have hfd : (openCreate c.create r').2 ≠ 0 := descriptor_ne_zero c.create
    rw [if_pos (not_le.1 fun h => hopen ((openRead_nonneg c r').1 h))]
    simp only [if_pos hfd, write_head, headed, hopen, false_or]

/-- **The end of a call** adds the line to the file at the path when it can be opened and written. -/
theorem writeLine_eq : writeLine printFloat c r = if c.append = none then r else
    let old := (r.files r.path).getD []
    if c.lineWritten then
      { r with
        files := Function.update r.files r.path (some (old ++ recordLine printFloat c))
        lines := r.lines ++ [⟨r.path, stamp c.curTime, recordLine printFloat c⟩] }
    else { r with files := Function.update r.files r.path (some old) } := by
  simp only [writeLine, openAppend, write, descriptor_nonneg]
  cases c.append with
  | none => simp
  | some n => cases c.lineWritten <;> simp

/-- The line is written: its `open` and its `write` succeed. -/
def Call.Writes (c : Call F) : Prop := c.append.isSome = true ∧ c.lineWritten = true

/-- **What a call leaves** of the recorder. -/
theorem dataRecord_kept :
    (dataRecord localtime printFloat c r).1.curTm = (place (localtime.toTm c.dirTime) r).curTm ∧
      (dataRecord localtime printFloat c r).1.path = (place (localtime.toTm c.dirTime) r).path ∧
      (c.Writes → (dataRecord localtime printFloat c r).1.lines =
        r.lines ++ [⟨(place (localtime.toTm c.dirTime) r).path, stamp c.curTime, recordLine printFloat c⟩]) ∧
      (¬ c.Writes → (dataRecord localtime printFloat c r).1.lines = r.lines) := by
  rw [dataRecord_eq, writeLine_eq]
  set r' := place (localtime.toTm c.dirTime) r with hr'
  have hlines : r'.lines = r.lines := place_lines _ _
  cases happ : c.append with
  | none =>
    rw [if_pos rfl]
    exact ⟨headed_curTm c r', headed_path c r', fun h => absurd h.1 (by simp [happ]),
      fun _ => (headed_lines c r').trans hlines⟩
  | some n =>
    rw [if_neg (Option.some_ne_none n)]
    cases hline : c.lineWritten with
    | true =>
      refine ⟨headed_curTm c r', headed_path c r', fun _ => ?_, fun h => absurd ⟨by rw [happ]; rfl, hline⟩ h⟩
      simp only [if_true, headed_lines, headed_path, hlines]
    | false =>
      exact ⟨headed_curTm c r', headed_path c r', fun h => absurd h.2 (by simp [hline]),
        fun _ => (headed_lines c r').trans hlines⟩

end Calls

end W601.Record
