import W601.Lib.Runs
import W601.Record.Recorder

/-!
# The file of a record and the date of its timestamp

`dir_change` keeps the path as long as the day of the month is the same, whatever the month and the year are, and
`data_record` reads the clock again for the timestamp.

* `dayFile_injective`: two days have two files.
* `filed_by_day_iff`: the runs of `data_record` that put every line into the file of its own date.
-/

namespace W601.Record

open Runs
open CMem (text)
open CNum (decimal)

/-! ## Paths -/

/-- A text is cut at the first place where `c` stands. -/
theorem cut_at {c : UInt8} {a a' b b' : List UInt8} (ha : c ∉ a) (ha' : c ∉ a') (h : a ++ c :: b = a' ++ c :: b') :
    a = a' ∧ b = b' := by
  rcases List.append_eq_append_iff.1 h with ⟨d, rfl, hd⟩ | ⟨d, rfl, hd⟩
  all_goals
    cases d with
    | nil => simpa [eq_comm] using hd
    | cons x d =>
      obtain rfl := (List.cons.inj hd).1
      simp at ha ha'

/-- A printed number has no `/` and no `.` in it. -/
theorem printInt_plain {n : ℤ} {b : UInt8} (h : b ∈ printInt n) : b ≠ 47 ∧ b ≠ 46 := by
  have hdigits : ∀ m : ℕ, b ∈ decimal m → b ≠ 47 ∧ b ≠ 46 := by
    intro m hm
    have hd := CNum.isDigit_decimal hm
    constructor
    · rintro rfl
      exact absurd hd (by decide)
    · rintro rfl
      exact absurd hd (by decide)
  rw [printInt] at h
  split_ifs at h with hneg
  · rcases List.mem_cons.1 h with rfl | h
    · decide
    · exact hdigits _ h
  · exact hdigits _ h

theorem decimal_injective : Function.Injective decimal := by
  intro m n h
  have hread := congrArg CNum.atoi h
  rw [CNum.atoi_decimal, CNum.atoi_decimal] at hread
  exact_mod_cast hread

/-- The sign is not a digit. -/
theorem minus_not_digit {m : ℕ} {s : List UInt8} : decimal m ≠ 45 :: s := by
  intro h
  have hd := CNum.isDigit_decimal (n := m) (b := 45) (by rw [h]; exact List.mem_cons_self)
  exact absurd hd (by decide)

theorem printInt_injective : Function.Injective printInt := by
  intro m n h
  simp only [printInt] at h
  split_ifs at h with hm hn hn
  · have habs := decimal_injective (List.cons.inj h).2
    omega
  · exact absurd h.symm minus_not_digit
  · exact absurd h minus_not_digit
  · have habs := decimal_injective h
    omega

/-- **Two days have two files.** -/
theorem dayFile_injective : Function.Injective dayFile := by
  intro d e h
  have hsep : ∀ n : ℤ, 47 ∉ printInt n := fun n hn => (printInt_plain hn).1 rfl
  have hdot : ∀ n : ℤ, 46 ∉ printInt n := fun n hn => (printInt_plain hn).2 rfl
  have hslash : text "/" = [47] := rfl
  have hcsv : text ".csv" = 46 :: text "csv" := rfl
  simp only [dayFile, hslash, hcsv, List.append_assoc, List.singleton_append] at h
  have hroot := (List.cons.inj (List.append_cancel_left h)).2
  obtain ⟨hyear, hrest⟩ := cut_at (hsep _) (hsep _) hroot
  obtain ⟨hmon, hrest⟩ := cut_at (hsep _) (hsep _) hrest
  obtain ⟨hday, -⟩ := cut_at (hdot _) (hdot _) hrest
  have hy := printInt_injective hyear
  have hm := printInt_injective hmon
  have hd := printInt_injective hday
  cases d
  cases e
  simp only [Tm.mk.injEq] at hy hm hd ⊢
  omega

/-! ## Runs -/

section Runs

variable {F : Type*} (localtime : LocalTime) (printFloat : F → List UInt8)

/-- A call of `data_record` in a run. -/
def recordStep (r : Recorder) (c : Call F) : Option Recorder := some (dataRecord localtime printFloat c r).1

/-- Every line is in the file of the local date of its timestamp. -/
def FiledByDay (r : Recorder) : Prop := ∀ l ∈ r.lines, l.file = dayFile (localtime.toTm l.stamp)

/-- No line is written, or its timestamp is of the day on which the path was built: the day of this call when the day of
the month is another than at the last change, and the day of that change otherwise. -/
def OneDate (r : Recorder) (c : Call F) : Prop :=
  c.Writes →
    if (localtime.toTm c.dirTime).mday ≠ r.curTm.mday then
      localtime.toTm (stamp c.curTime) = localtime.toTm c.dirTime
    else localtime.toTm (stamp c.curTime) = r.curTm

/-- The path is that of the last change, unless there was none. -/
def Placed (r : Recorder) : Prop := r.curTm.mday = 0 ∨ r.path = dayFile r.curTm

/-- After the placing the path is that of the date kept with it. -/
theorem placed_place {r : Recorder} (h : Placed r) (t : ℤ) :
    (place (localtime.toTm t) r).path = dayFile (place (localtime.toTm t) r).curTm := by
  rw [place_eq]
  split_ifs with hday
  · rfl
  · rcases h with hzero | hpath
    · have hpos := localtime.mday_pos t
      have hsame := not_not.1 hday
      omega
    · exact hpath

/-- The date of the last change after a call. -/
theorem curTm_place (tm : Tm) (r : Recorder) : (place tm r).curTm = if tm.mday ≠ r.curTm.mday then tm else r.curTm := by
  rw [place_eq]
  split_ifs <;> rfl

/-- The line of a call that writes one is in the right file exactly in the case of `OneDate`. -/
theorem line_filed_iff {r : Recorder} (hr : Placed r) {c : Call F} (hc : c.Writes) :
    (place (localtime.toTm c.dirTime) r).path = dayFile (localtime.toTm (stamp c.curTime)) ↔ OneDate localtime r c := by
  rw [placed_place localtime hr, dayFile_injective.eq_iff, curTm_place, OneDate, eq_comm]
  split_ifs with hday
  · exact ⟨fun h _ => h, fun h => h hc⟩
  · exact ⟨fun h _ => h, fun h => h hc⟩

theorem placed_step {r : Recorder} (hr : Placed r) (c : Call F) : Placed (dataRecord localtime printFloat c r).1 := by
  obtain ⟨htm, hpath, -, -⟩ := dataRecord_kept localtime printFloat c r
  right
  rw [hpath, htm]
  exact placed_place localtime hr _

/-- **Every line is in the file of its date** in the runs whose calls meet `OneDate`, and in no others. -/
theorem filed_by_day_iff (files : List UInt8 → Option (List UInt8)) (calls : List (Call F)) :
    Upholds (recordStep localtime printFloat) (FiledByDay localtime) (Recorder.boot files) calls ↔
      Orderly (recordStep localtime printFloat) (OneDate localtime) (Recorder.boot files) calls := by
  apply upholds_iff_orderly (I := fun r => Placed r ∧ FiledByDay localtime r)
  · exact fun r h => h.2
  · rintro r c t ⟨hplaced, hfiled⟩ hgood ht
    obtain rfl := Option.some.inj ht
    refine ⟨placed_step localtime printFloat hplaced c, ?_⟩
    obtain ⟨-, -, hwrites, hnot⟩ := dataRecord_kept localtime printFloat c r
    by_cases hc : c.Writes
    · rw [FiledByDay, hwrites hc, List.forall_mem_append, List.forall_mem_singleton]
      exact ⟨hfiled, (line_filed_iff localtime hplaced hc).2 hgood⟩
    · rw [FiledByDay, hnot hc]
      exact hfiled
  · rintro r c t ⟨hplaced, -⟩ hbad ht hfiled
    obtain rfl := Option.some.inj ht
    obtain ⟨-, -, hwrites, -⟩ := dataRecord_kept localtime printFloat c r
    have hc : c.Writes := by
      by_contra hc
      exact hbad fun h => absurd h hc
    rw [FiledByDay, hwrites hc, List.forall_mem_append, List.forall_mem_singleton] at hfiled
    exact hbad ((line_filed_iff localtime hplaced hc).1 hfiled.2)
  · exact ⟨Or.inl rfl, by simp [FiledByDay, Recorder.boot]⟩

/-- The first 59 days of 2023. -/
def sampleTime : LocalTime where
  toTm t :=
    let day := (t - 1672531200) / 86400
    if day < 31 then ⟨123, 0, max day 0 + 1⟩ else ⟨123, 1, day - 30⟩
  mday_pos t := by
    simp only
    split_ifs with hjan
    · have hmax := le_max_right ((t - 1672531200) / 86400) 0
      show 0 < max ((t - 1672531200) / 86400) 0 + 1
      omega
    · show 0 < (t - 1672531200) / 86400 - 30
      omega

/-- A call at one instant that finds a descriptor for every `open`. -/
def callAt (t : ℤ) : Call ℕ := ⟨RecordData.init, t, t, some 0, some 0, some 0, true, true⟩

/-- After a record of 12 January the next one is of 12 February, and goes into the file of January. -/
theorem month_later_misfiled :
    ¬ Upholds (recordStep sampleTime decimal) (FiledByDay sampleTime) (Recorder.boot fun _ => none)
      [callAt 1673524800, callAt 1676203200] := by
  intro h
  have hlast := h.2 _ rfl
  have hfiled := (hlast.2 _ rfl).first
  unfold FiledByDay at hfiled
  exact absurd hfiled (by decide +kernel)

end Runs

end W601.Record
