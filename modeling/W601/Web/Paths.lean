import W601.Web.Normalize

/-!
# `relative_path_2_absolute`: where an uploaded file name leads

The function joins the base directory and the file name sent by the client, normalises the
joined text in place and answers `0`. The normaliser's own answer is not looked at.

* `relativePath2Absolute_spec`: a text that fits the buffer is answered with `0` and left
  normalised.
* `staysUnder_iff_confined`: the result stays under the base directory exactly for the
  names whose components never take it out of the base.
-/

namespace W601

open CMem CompPath

/-- `MAX_FILENAME_LENGTH`. -/
def maxFilenameLength : ℕ := 128

/-- `relative_path_2_absolute`: the answer, and what it leaves in `path_to`. -/
def relativePath2Absolute (pathFrom : List UInt8) (pathTo : Mem) (toLength : ℕ)
    (absolutePrefix : List UInt8) : ℤ × Mem :=
  -- absolute prefix + '/' + origin path length + '\0'
  let maxLength := pathFrom.length + absolutePrefix.length + 1 + 1
  if maxLength > toLength then (-1, pathTo)
  else
    let m := store pathTo 0 (List.replicate toLength 0)
    let m := store m 0 (snprintf toLength (absolutePrefix ++ slash :: pathFrom))
    (0, (strNormalizePath toLength m).mem m)

variable {pathFrom absolutePrefix : List UInt8} {n : ℕ}

/-- The joined text fits the buffer, with its terminator. -/
def PathFits (pathFrom absolutePrefix : List UInt8) (n : ℕ) : Prop :=
  pathFrom.length + absolutePrefix.length + 2 ≤ n

theorem relativePath2Absolute_fits (h : PathFits pathFrom absolutePrefix n) (buf : Mem) :
    (relativePath2Absolute pathFrom buf n absolutePrefix).1 = 0 := by
  unfold PathFits at h
  simp only [relativePath2Absolute]
  rw [if_neg (by omega)]

/-- **A name that fits is left normalised**, unless it climbs above the root. -/
theorem relativePath2Absolute_spec (h : PathFits pathFrom absolutePrefix n) (hp : 0 ∉ absolutePrefix)
    (hf : 0 ∉ pathFrom) {stk : List (List UInt8)}
    (hr : resolve slash dot (absolutePrefix ++ slash :: pathFrom) = some stk) (buf : Mem) :
    StrAt (relativePath2Absolute pathFrom buf n absolutePrefix).2 0 (join slash stk) := by
  unfold PathFits at h
  simp only [relativePath2Absolute]
  rw [if_neg (by omega)]
  set m := store (store buf 0 (List.replicate n 0)) 0
    (snprintf n (absolutePrefix ++ slash :: pathFrom))
  have h0 : (0 : UInt8) ∉ absolutePrefix ++ slash :: pathFrom := by
    simp only [List.mem_append, List.mem_cons, not_or]
    exact ⟨hp, by decide, hf⟩
  have hlen : (absolutePrefix ++ slash :: pathFrom).length < n := by simp; omega
  have hs : StrAt m 0 (absolutePrefix ++ slash :: pathFrom) := strAt_store_snprintf h0 hlen _ _
  have hc := strNormalizePath_spec hs hlen
  rw [hr] at hc
  obtain ⟨m', e1, e2⟩ := hc
  simp only [e1, NormRes.mem]
  exact e2

/-- The components of `pathFrom`, evaluated on top of those of the base directory, keep all
of the base below them. -/
def Confined (absolutePrefix pathFrom : List UInt8) : Prop :=
  ∃ base stk, resolve slash dot absolutePrefix = some base ∧
    eval dot base (pathFrom.splitOn slash) = some stk ∧ base <:+ stk

/-- The upload stays under its base directory: an accepted name leads to a normal absolute
path at or below the base, and a name that leaves the base is refused. -/
def StaysUnder (pathFrom : List UInt8) (buf : Mem) (n : ℕ) (absolutePrefix : List UInt8) : Prop :=
  ((relativePath2Absolute pathFrom buf n absolutePrefix).1 = 0 →
    ∃ p, StrAt (relativePath2Absolute pathFrom buf n absolutePrefix).2 0 p ∧
      AbsNormal slash dot p ∧ Under slash absolutePrefix p) ∧
  (¬ Confined absolutePrefix pathFrom → (relativePath2Absolute pathFrom buf n absolutePrefix).1 ≠ 0)

/-- **Uploads stay under their base directory exactly for confined names.** Every name that
fits is answered with `0`, so nothing refuses the others. -/
theorem staysUnder_iff_confined (hbase : AbsNormal slash dot absolutePrefix) (hp : 0 ∉ absolutePrefix)
    (hf : 0 ∉ pathFrom) (hfit : PathFits pathFrom absolutePrefix n) (buf : Mem) :
    StaysUnder pathFrom buf n absolutePrefix ↔ Confined absolutePrefix pathFrom := by
  have hret := relativePath2Absolute_fits hfit buf
  obtain ⟨cs, hcs, hres, hpre⟩ := hbase.resolve_eq
  constructor
  · intro h
    by_contra hc
    exact h.2 hc hret
  · rintro ⟨base, stk, hb, he, hsuf⟩
    refine ⟨fun _ => ?_, fun hc => absurd ⟨base, stk, hb, he, hsuf⟩ hc⟩
    rw [hres, Option.some.injEq] at hb
    have hroot : absolutePrefix ≠ [] := by
      obtain ⟨t, rfl, -⟩ := hbase
      simp
    have hr : resolve slash dot (absolutePrefix ++ slash :: pathFrom) = some stk := by
      rw [resolve_append _ _ hroot, hres, Option.bind_some, hb, he]
    have hwf : Wf slash dot base :=
      ⟨cs.reverse, [[]], hb.symm, fun c hc => hcs c (List.mem_reverse.1 hc), Or.inr rfl⟩
    obtain ⟨h1, h2⟩ := join_under hb.symm hcs (eval_wf (sep_notMem_splitOn pathFrom) hwf he) hsuf
    rw [← hb, join_abs, ← hpre] at h2
    exact ⟨_, relativePath2Absolute_spec hfit hp hf hr buf, h1, h2⟩

/-- `img/../x.html` under `/webnet` meets the hypotheses and stays under it. -/
theorem staysUnder_iff_confined_webnet :
    StaysUnder (text "img/../x.html") (fun _ => 0) 128 (text "/webnet") := by
  refine (staysUnder_iff_confined ⟨text "webnet", by decide, Or.inr (by decide)⟩ (by decide) (by decide)
    (by unfold PathFits; decide) _).2 ?_
  exact ⟨[text "webnet", []], [text "x.html", text "webnet", []], by decide, by decide, by decide⟩

/-- **`../b` leaves the base directory `/a` and is accepted.** The path handed on is `/b`. -/
theorem parent_name_leaves_base :
    AbsNormal slash dot (text "/a") ∧ PathFits (text "../b") (text "/a") maxFilenameLength ∧
      ¬ StaysUnder (text "../b") (fun _ => 0) maxFilenameLength (text "/a") := by
  have hfit : PathFits (text "../b") (text "/a") maxFilenameLength := by unfold PathFits; decide
  refine ⟨⟨text "a", by decide, Or.inr (by decide)⟩, hfit, fun h => ?_⟩
  obtain ⟨p, hp, -, hu⟩ := h.1 (relativePath2Absolute_fits hfit _)
  have hres : resolve slash dot (text "/a" ++ slash :: text "../b") = some [text "b", []] := by decide
  have hb : StrAt (relativePath2Absolute (text "../b") (fun _ => 0) maxFilenameLength (text "/a")).2 0
      (text "/b") :=
    relativePath2Absolute_spec hfit (by decide) (by decide) hres _
  -- the buffer holds one string only
  have heq : p = text "/b" := by
    rw [← readStr_eq hp (le_max_left _ 2), ← readStr_eq hb (n := max p.length 2) (le_max_right p.length 2)]
  rw [heq] at hu
  revert hu
  unfold Under
  decide

end W601
