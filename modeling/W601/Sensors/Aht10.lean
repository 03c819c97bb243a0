import Mathlib

/-!
# The history of temperature and humidity (`aht10_module.c`)

Once an hour `aht10_thread_entry` puts the current values into two arrays of 24. It appends them while the index
is below 23, and from then on moves the array down by one and writes the last cell; the index stays at 23.
`json_create_aht10_saved_data` lists the cells below the index.

* `record_fold_short`: up to 23 samples, the cells below the index are the samples.
* `threadRun_history`: what the thread keeps is what it has recorded of the hourly samples.
* `history_kept_iff`: the last 24 hours are listed exactly as long as there are not more than 23 samples.
* `thread_kept_iff`: and so it is in the runs of the thread.
-/

namespace W601.Aht10

variable {F : Type*}

/-- One of the arrays with its index. -/
structure Series (F : Type*) where
  /-- `temp_data` or `humi_data`. -/
  data : ℕ → F
  /-- `cur_temp_index` or `cur_humi_index`, a `uint8_t`. -/
  index : ℕ
  /-- The cells of the array that were read or written. -/
  touched : List ℕ

/-- `a[i] = x`. -/
def Series.write (s : Series F) (i : ℕ) (x : F) : Series F :=
  { s with data := Function.update s.data i x, touched := s.touched ++ [i] }

/-- `a[i - 1] = a[i]`. -/
def Series.moveDown (s : Series F) (i : ℕ) : Series F :=
  { s with data := Function.update s.data (i - 1) (s.data i), touched := s.touched ++ [i, i - 1] }

/-- The hourly branch of `aht10_thread_entry` for one of the arrays. -/
def Series.record (s : Series F) (x : F) : Series F :=
  if s.index < 23 then { s.write s.index x with index := (s.index + 1) % 2 ^ 8 }
  else ((List.range' 1 23).foldl Series.moveDown s).write 23 x

/-- The fields of `w601_aht10_t` that the thread writes. -/
structure Data (F : Type*) where
  curTemp : F
  curHumi : F
  temp : Series F
  humi : Series F

/-- One hourly sample: humidity and temperature. -/
def Data.record (d : Data F) (sample : F × F) : Data F :=
  { d with curHumi := sample.1, curTemp := sample.2, humi := d.humi.record sample.1, temp := d.temp.record sample.2 }

/-- One round of `aht10_thread_entry`, with the humidity and the temperature that it reads. -/
def threadRound (s : ℕ × Data F) (reading : F × F) : ℕ × Data F :=
  let d := { s.2 with curHumi := reading.1, curTemp := reading.2 }
  if s.1 = 3600 then (1 + 1, d.record reading) else (s.1 + 1, d)

/-- The readings of the rounds that take the hourly branch. -/
def hourly : ℕ → List (F × F) → List (F × F)
  | _, [] => []
  | sec, r :: rs => if sec = 3600 then r :: hourly 2 rs else hourly (sec + 1) rs

/-- The array that `json_create_aht10_saved_data` makes; `print` is the `%.2f` of a value, of which the buffer of
ten bytes takes nine. -/
def Series.json (print : F → List UInt8) (s : Series F) : List (List UInt8) :=
  (List.range s.index).map fun i => (print (s.data i)).take 9

/-- The last 24 of the samples, oldest first. -/
def lastDay (samples : List F) : List F := samples.drop (samples.length - 24)

section Zero

variable [Zero F]

/-- An array behind `aht10_device_init`. -/
def Series.init : Series F := ⟨fun _ => 0, 0, []⟩

/-- The data behind `aht10_device_init`. -/
def Data.init : Data F := ⟨0, 0, .init, .init⟩

/-- **The listing is the last day** of one array, and all cells that are touched, by the listing too, are cells of the
array. -/
structure SeriesKept (print : F → List UInt8) (samples : List F) (s : Series F) : Prop where
  listed : s.json print = (lastDay samples).map fun x => (print x).take 9
  inside : ∀ i ∈ s.touched ++ List.range s.index, i ≤ 23

/-- Both arrays are kept. -/
def Kept (print : F → List UInt8) (samples : List (F × F)) (d : Data F) : Prop :=
  SeriesKept print (samples.map (·.1)) d.humi ∧ SeriesKept print (samples.map (·.2)) d.temp

end Zero

/-! ## One array -/

theorem moveDown_fold (l : List ℕ) : ∀ s : Series F,
    (l.foldl Series.moveDown s).index = s.index ∧
      (l.foldl Series.moveDown s).touched = s.touched ++ l.flatMap fun i => [i, i - 1] := by
  induction l with
  | nil => intro s; simp
  | cons i l ih =>
    intro s
    obtain ⟨h1, h2⟩ := ih (s.moveDown i)
    refine ⟨h1, ?_⟩
    rw [List.foldl_cons, h2]
    simp [Series.moveDown]

theorem moved_inside : ∀ i ∈ (List.range' 1 23).flatMap (fun i => [i, i - 1]), i ≤ 23 := by
  decide

/-- **One sample**: the index goes up to 23 and stays there, and no cell outside of the array is touched. -/
theorem record_index (s : Series F) (x : F) (hle : s.index ≤ 23) (hin : ∀ i ∈ s.touched, i ≤ 23) :
    (s.record x).index = min (s.index + 1) 23 ∧ ∀ i ∈ (s.record x).touched, i ≤ 23 := by
  unfold Series.record
  split_ifs with hlt
  · refine ⟨?_, fun i hi => ?_⟩
    · show (s.index + 1) % 2 ^ 8 = _
      omega
    · rcases List.mem_append.1 hi with hi | hi
      · exact hin i hi
      · rw [List.mem_singleton.1 hi]
        exact hle
  · obtain ⟨hindex, htouched⟩ := moveDown_fold (List.range' 1 23) s
    refine ⟨?_, fun i hi => ?_⟩
    · show (List.foldl Series.moveDown s (List.range' 1 23)).index = _
      rw [hindex]
      omega
    · have hi' : i ∈ s.touched ++ (List.range' 1 23).flatMap (fun i => [i, i - 1]) ++ [23] := by
        rw [← htouched]
        exact hi
      rcases List.mem_append.1 hi' with hi' | hi'
      · rcases List.mem_append.1 hi' with hi' | hi'
        · exact hin i hi'
        · exact moved_inside i hi'
      · rw [List.mem_singleton.1 hi']

theorem lastDay_length (samples : List F) : (lastDay samples).length = min samples.length 24 := by
  unfold lastDay
  rw [List.length_drop]
  omega

variable [Zero F]

theorem record_fold_index (samples : List F) :
    (samples.foldl Series.record .init).index = min samples.length 23 ∧
      ∀ i ∈ (samples.foldl Series.record .init).touched, i ≤ 23 := by
  induction samples using List.reverseRecOn with
  | nil => exact ⟨rfl, by simp [Series.init]⟩
  | append_singleton samples x ih =>
    rw [List.foldl_append, List.foldl_cons, List.foldl_nil]
    obtain ⟨hindex, hin⟩ := record_index (samples.foldl Series.record .init) x (by omega) ih.2
    refine ⟨?_, hin⟩
    rw [hindex, ih.1, List.length_append, List.length_singleton]
    omega

/-- **Up to 23 samples, the cells below the index are the samples.** -/
theorem record_fold_short (samples : List F) (h : samples.length ≤ 23) :
    (List.range samples.length).map (samples.foldl Series.record .init).data = samples := by
  induction samples using List.reverseRecOn with
  | nil => rfl
  | append_singleton samples x ih =>
    rw [List.length_append, List.length_singleton] at h ⊢
    rw [List.foldl_append, List.foldl_cons, List.foldl_nil]
    set s := samples.foldl Series.record .init with hs
    have hindex : s.index = samples.length := by
      rw [(record_fold_index samples).1]
      omega
    have hdata : (s.record x).data = Function.update s.data samples.length x := by
      rw [Series.record, if_pos (by omega), ← hindex]
      rfl
    rw [hdata, List.range_succ, List.map_append, List.map_singleton, Function.update_self]
    congr 1
    -- the cells before the new one are as they were
    rw [← ih (by omega), List.length_map, List.length_range]
    apply List.map_congr_left
    intro i hi
    rw [Function.update_of_ne (by have := List.mem_range.1 hi; omega)]

/-- **One array** lists the last day exactly as long as it has not been moved down. -/
theorem seriesKept_iff (print : F → List UInt8) (samples : List F) :
    SeriesKept print samples (samples.foldl Series.record .init) ↔ samples.length ≤ 23 := by
  obtain ⟨hindex, hin⟩ := record_fold_index samples
  constructor
  · intro h
    have hlen := congrArg List.length h.listed
    rw [Series.json, List.length_map, List.length_range, List.length_map, lastDay_length, hindex] at hlen
    omega
  · intro h
    have hindex' : (samples.foldl Series.record .init).index = samples.length := by
      rw [hindex]
      omega
    refine ⟨?_, fun i hi => ?_⟩
    · have hday : lastDay samples = samples := by
        unfold lastDay
        rw [show samples.length - 24 = 0 by omega, List.drop_zero]
      rw [hday, Series.json, hindex']
      conv_rhs => rw [← record_fold_short samples h]
      rw [List.map_map]
      rfl
    · rcases List.mem_append.1 hi with hi | hi
      · exact hin i hi
      · rw [hindex'] at hi
        have := List.mem_range.1 hi
        omega

/-! ## The thread -/

omit [Zero F] in
theorem record_fold_series (samples : List (F × F)) : ∀ d : Data F,
    (samples.foldl Data.record d).humi = (samples.map (·.1)).foldl Series.record d.humi ∧
      (samples.foldl Data.record d).temp = (samples.map (·.2)).foldl Series.record d.temp := by
  induction samples with
  | nil => intro d; exact ⟨rfl, rfl⟩
  | cons p samples ih => intro d; exact ih (d.record p)

omit [Zero F] in
/-- **What the thread keeps is what it has recorded of the hourly samples.** -/
theorem threadRun_history (readings : List (F × F)) : ∀ (sec : ℕ) (d d' : Data F), d.humi = d'.humi → d.temp = d'.temp →
    (readings.foldl threadRound (sec, d)).2.humi = ((hourly sec readings).foldl Data.record d').humi ∧
      (readings.foldl threadRound (sec, d)).2.temp = ((hourly sec readings).foldl Data.record d').temp := by
  induction readings with
  | nil => intro sec d d' h1 h2; exact ⟨h1, h2⟩
  | cons r readings ih =>
    intro sec d d' h1 h2
    rw [List.foldl_cons, hourly, threadRound]
    split_ifs
    · refine ih 2 _ _ ?_ ?_
      · show d.humi.record r.1 = d'.humi.record r.1
        rw [h1]
      · show d.temp.record r.2 = d'.temp.record r.2
        rw [h2]
    · exact ih (sec + 1) _ _ h1 h2

/-- Data that hold what was recorded of the samples are kept exactly up to 23 samples. -/
theorem kept_iff (print : F → List UInt8) (samples : List (F × F)) (d : Data F)
    (hhumi : d.humi = (samples.foldl Data.record Data.init).humi)
    (htemp : d.temp = (samples.foldl Data.record Data.init).temp) :
    Kept print samples d ↔ samples.length ≤ 23 := by
  obtain ⟨hhumi', htemp'⟩ := record_fold_series samples Data.init
  unfold Kept
  rw [hhumi, htemp, hhumi', htemp']
  have h1 := seriesKept_iff print (samples.map (·.1))
  have h2 := seriesKept_iff print (samples.map (·.2))
  rw [List.length_map] at h1 h2
  constructor
  · intro h
    exact h1.1 h.1
  · intro h
    exact ⟨h1.2 h, h2.2 h⟩

/-- **The history is the last day exactly as long as there are not more than 23 samples.** -/
theorem history_kept_iff (print : F → List UInt8) (samples : List (F × F)) :
    Kept print samples (samples.foldl Data.record Data.init) ↔ samples.length ≤ 23 :=
  kept_iff print samples _ rfl rfl

/-- The same of the thread, which starts with a count of 3600 and so with a sample. -/
theorem thread_kept_iff (print : F → List UInt8) (readings : List (F × F)) :
    Kept print (hourly 3600 readings) (readings.foldl threadRound (3600, Data.init)).2 ↔
      (hourly 3600 readings).length ≤ 23 := by
  obtain ⟨hhumi, htemp⟩ := threadRun_history readings 3600 Data.init Data.init rfl rfl
  exact kept_iff print (hourly 3600 readings) _ hhumi htemp

/-- **The 24th sample pushes one out and is not listed**: the array is moved down before its last cell was used. -/
theorem dayful_not_kept :
    ¬ Kept (fun n : ℕ => [UInt8.ofNat n]) ((List.range' 1 24).map fun n => (n, n))
      (((List.range' 1 24).map fun n => (n, n)).foldl Data.record Data.init) := by
  intro h
  have hlen := congrArg List.length h.1.listed
  revert hlen
  decide

end W601.Aht10
