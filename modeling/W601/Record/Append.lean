import W601.Lib.Runs
import W601.Record.Days

/-!
# The records of a day are only appended to

`data_record` takes a failed `open` for reading as the sign of a new day, truncates the file and writes the header; it
goes on to append when the file could not be created.

* `files_call`, `recorded_call`: the file of the day and the lines written to it, after a call.
* `kept_call_iff`: the calls after which the file is the header and all lines still.
* `day_kept_iff`: the runs of a day in which it always is.
-/

namespace W601.Record

open Runs
open CMem (text)

/-- The lines of the day `d` whose writes have succeeded. -/
def recorded (d : Tm) (r : Recorder) : List (List UInt8) :=
  (r.lines.filter fun l => l.file = dayFile d).map (·.text)

/-- The file of the day is the header and the lines written, in order; without a line it may be missing. -/
def Kept (d : Tm) (r : Recorder) : Prop :=
  match r.files (dayFile d) with
  | none => recorded d r = []
  | some content => content = recordHead ++ (recorded d r).flatten

instance (d : Tm) (r : Recorder) : Decidable (Kept d r) :=
  match h : r.files (dayFile d) with
  | none => decidable_of_iff (recorded d r = []) (by rw [Kept, h])
  | some content => decidable_of_iff (content = recordHead ++ (recorded d r).flatten) (by rw [Kept, h])

section Day

variable {F : Type*} (localtime : LocalTime) (printFloat : F → List UInt8)

/-- A call of `data_record` on the day `d`. -/
def dayStep (d : Tm) (r : Recorder) (c : Call F) : Option Recorder :=
  if localtime.toTm c.dirTime = d then some (dataRecord localtime printFloat c r).1 else none

/-- A missing file is made with its header, or not made at all. A file that is there is opened for reading, or cannot be
truncated, or holds the header only and gets it again. -/
def Harmless (d : Tm) (r : Recorder) (c : Call F) : Prop :=
  match r.files (dayFile d) with
  | none => if c.create.isSome then c.headWritten = true else c.append = none
  | some content => c.readOnly.isSome = true ∨ c.create = none ∨ content = recordHead ∧ c.headWritten = true

/-- The path is that of the day `d`, unless the next call on it will change it. -/
def OnDay (d : Tm) (r : Recorder) : Prop := r.curTm.mday = d.mday → r.path = dayFile d

theorem place_onDay {d : Tm} {r : Recorder} (h : OnDay d r) :
    (place d r).path = dayFile d ∧ (place d r).curTm.mday = d.mday := by
  rw [place_eq]
  split_ifs with hday
  · exact ⟨rfl, rfl⟩
  · have hsame := (not_not.1 hday).symm
    exact ⟨h hsame, hsame⟩

/-- What is added to the file and to the lines at the end of a call. -/
def added (c : Call F) : List (List UInt8) := if c.append.isSome ∧ c.lineWritten then [recordLine printFloat c] else []

/-- The file in front of the line: what it was, or new. -/
def refilled (c : Call F) (old : Option (List UInt8)) : Option (List UInt8) :=
  if (old.isSome ∧ c.readOnly.isSome) ∨ c.create = none then old else some (if c.headWritten then recordHead else [])

variable {d : Tm} {r : Recorder} {c : Call F}

/-- **The file of the day after a call.** -/
theorem files_call (hr : OnDay d r) (hc : localtime.toTm c.dirTime = d) :
    (dataRecord localtime printFloat c r).1.files (dayFile d) =
      if c.append = none then refilled c (r.files (dayFile d))
      else some ((refilled c (r.files (dayFile d))).getD [] ++ (added printFloat c).flatten) := by
  obtain ⟨hpath, -⟩ := place_onDay hr
  have hheaded : (headed c (place d r)).files (dayFile d) = refilled c (r.files (dayFile d)) := by
    rw [headed, refilled, hpath, place_files]
    split_ifs with h
    · exact congrFun (place_files d r) _
    · exact Function.update_self ..
    · exact Function.update_self ..
  have hhpath : (headed c (place d r)).path = dayFile d := (headed_path c _).trans hpath
  rw [dataRecord_eq, hc, writeLine_eq, hhpath, hheaded, added]
  cases c.append with
  | none => exact hheaded
  | some n => cases c.lineWritten <;> simp

/-- **The lines of the day after a call.** -/
theorem recorded_call (hr : OnDay d r) (hc : localtime.toTm c.dirTime = d) :
    recorded d (dataRecord localtime printFloat c r).1 = recorded d r ++ added printFloat c := by
  obtain ⟨hpath, -⟩ := place_onDay hr
  have hhpath : (headed c (place d r)).path = dayFile d := (headed_path c _).trans hpath
  have hlines : (headed c (place d r)).lines = r.lines := (headed_lines c _).trans (place_lines d r)
  rw [dataRecord_eq, hc, writeLine_eq, recorded, recorded, added, hhpath]
  cases c.append with
  | none => simp [hlines]
  | some n => cases c.lineWritten <;> simp [hlines]

theorem onDay_call (hr : OnDay d r) (hc : localtime.toTm c.dirTime = d) :
    OnDay d (dataRecord localtime printFloat c r).1 := by
  obtain ⟨hpath, -⟩ := place_onDay hr
  obtain ⟨-, hkept, -, -⟩ := dataRecord_kept localtime printFloat c r
  intro _
  rw [hkept, hc, hpath]

theorem added_of_none (h : c.append = none) : added printFloat c = [] := if_neg fun hw => by simp [h] at hw

/-- With a file in front of the line, the call keeps the file when this one holds the header and the lines so far. -/
theorem kept_of_refilled {x : List UInt8} (hr : OnDay d r) (hc : localtime.toTm c.dirTime = d)
    (hx : refilled c (r.files (dayFile d)) = some x) :
    Kept d (dataRecord localtime printFloat c r).1 ↔ x = recordHead ++ (recorded d r).flatten := by
  rw [Kept, files_call localtime printFloat hr hc, recorded_call localtime printFloat hr hc, hx, List.flatten_append]
  split_ifs with happ
  · rw [added_of_none printFloat happ]
    simp
  · simp only [Option.getD_some, ← List.append_assoc, List.append_left_inj]

/-- Without one, a line would stand there without a header. -/
theorem kept_of_missing (hr : OnDay d r) (hc : localtime.toTm c.dirTime = d) (hnone : recorded d r = [])
    (hx : refilled c (r.files (dayFile d)) = none) :
    Kept d (dataRecord localtime printFloat c r).1 ↔ c.append = none := by
  rw [Kept, files_call localtime printFloat hr hc, recorded_call localtime printFloat hr hc, hx, hnone]
  split_ifs with happ
  · exact iff_of_true (added_of_none printFloat happ) happ
  · refine iff_of_false (fun h => ?_) happ
    have hhead : recordHead = [] := by simpa using h
    exact absurd hhead (by decide)

/-- The new header, with lines behind it or not. -/
theorem head_iff (b : Bool) (s : List UInt8) :
    (if b then recordHead else []) = recordHead ++ s ↔ s = [] ∧ b = true := by
  cases b with
  | true => simp
  | false =>
    have hhead : recordHead ≠ [] := by decide
    simp [hhead]

/-- **A call keeps the file of the day** exactly when it is harmless. -/
theorem kept_call_iff (hr : OnDay d r) (hkept : Kept d r) (hc : localtime.toTm c.dirTime = d) :
    Kept d (dataRecord localtime printFloat c r).1 ↔ Harmless d r c := by
  rw [Kept] at hkept
  rw [Harmless]
  cases hold : r.files (dayFile d) with
  | none =>
    rw [hold] at hkept
    have hnone : recorded d r = [] := hkept
    cases hcreate : c.create with
    | none => exact kept_of_missing localtime printFloat hr hc hnone (by simp [refilled, hold, hcreate])
    | some n =>
      have hx : refilled c (r.files (dayFile d)) = some (if c.headWritten then recordHead else []) := by
        simp [refilled, hold, hcreate]
      rw [kept_of_refilled localtime printFloat hr hc hx, head_iff, hnone]
      simp
  | some content =>
    rw [hold] at hkept
    have hcontent : content = recordHead ++ (recorded d r).flatten := hkept
    by_cases hopen : c.readOnly.isSome = true ∨ c.create = none
    · have hx : refilled c (r.files (dayFile d)) = some content := by simp [refilled, hold, hopen]
      rw [kept_of_refilled localtime printFloat hr hc hx]
      exact iff_of_true hcontent (hopen.imp_right Or.inl)
    · obtain ⟨hread, hcreate⟩ := not_or.1 hopen
      have hx : refilled c (r.files (dayFile d)) = some (if c.headWritten then recordHead else []) := by
        simp [refilled, hold, hread, hcreate]
      have hnew : (recorded d r).flatten = [] ↔ content = recordHead := by rw [hcontent, List.append_right_eq_self]
      rw [kept_of_refilled localtime printFloat hr hc hx, head_iff, hnew]
      simp [hread, hcreate]

/-- **The file of the day is the header and its lines throughout** the runs whose calls are all harmless, and no others. -/
theorem day_kept_iff (hr : OnDay d r) (hkept : Kept d r) (calls : List (Call F)) :
    Upholds (dayStep localtime printFloat d) (Kept d) r calls ↔
      Orderly (dayStep localtime printFloat d) (Harmless d) r calls := by
  have hstep : ∀ (r : Recorder) (c : Call F) t, dayStep localtime printFloat d r c = some t →
      localtime.toTm c.dirTime = d ∧ t = (dataRecord localtime printFloat c r).1 := by
    intro r c t ht
    obtain ⟨hc, ht⟩ := Option.ite_none_right_eq_some.1 ht
    exact ⟨hc, (Option.some.inj ht).symm⟩
  apply upholds_iff_orderly (I := fun r => OnDay d r ∧ Kept d r)
  · exact fun r h => h.2
  · rintro r c t ⟨hr, hkept⟩ hgood ht
    obtain ⟨hc, rfl⟩ := hstep r c t ht
    exact ⟨onDay_call localtime printFloat hr hc, (kept_call_iff localtime printFloat hr hkept hc).2 hgood⟩
  · rintro r c t ⟨hr, hkept⟩ hbad ht hafter
    obtain ⟨hc, rfl⟩ := hstep r c t ht
    exact hbad ((kept_call_iff localtime printFloat hr hkept hc).1 hafter)
  · exact ⟨hr, hkept⟩

end Day

/-- A call of noon, 12 January, on a device with a free descriptor or without one for the first `open`. -/
def noonCall (readOnly : Option ℕ) : Call ℕ := { callAt 1673524800 with readOnly := readOnly }

theorem day_kept_iff_noon : Upholds (dayStep sampleTime CNum.decimal ⟨123, 0, 12⟩) (Kept ⟨123, 0, 12⟩)
    (Recorder.boot fun _ => none) [noonCall (some 0)] := by
  have hday : OnDay ⟨123, 0, 12⟩ (Recorder.boot fun _ => none) := fun h => absurd h (by decide)
  exact (day_kept_iff sampleTime CNum.decimal hday rfl _).2 fun _ _ => ⟨rfl, trivial⟩

/-- The second call cannot open the file for reading, creates it again, and the first line is gone. -/
theorem truncated_by_failed_open : ¬ Upholds (dayStep sampleTime CNum.decimal ⟨123, 0, 12⟩) (Kept ⟨123, 0, 12⟩)
    (Recorder.boot fun _ => none) [noonCall (some 0), noonCall none] := by
  intro h
  have hlast := ((h.2 _ rfl).2 _ rfl).first
  exact absurd hlast (by decide +kernel)

end W601.Record
