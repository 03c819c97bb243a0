import W601.Lib.CMem
import W601.Lib.CompPath

/-!
# The in-place path normaliser of `web_utils.c`

`strNormalizePath` works in the caller's buffer with a read position `src` and a
write position `dst`. The memory is a function on all addresses, the buffer starts at
`0`, so the final look at `dst[-1]` of an empty result is an ordinary read.

* `normLoop_spec`: from any loop state that holds the spelled stack before `dst` and the
  unread text at `src`, the loop ends and computes the stack evaluation of the unread
  components.
* `strNormalizePath_spec`: the whole function computes `CompPath.resolve`, and returns
  `RT_NULL` exactly when a `..` finds the stack empty.
-/

namespace W601

open CMem CompPath

/-- Memory cells are C `char`s; address `0` is the first cell of the path buffer. -/
abbrev Mem := ℤ → UInt8

def slash : UInt8 := 47

def dot : UInt8 := 46

/-- `while ((*src == '/') && (*src != '\0')) src++`, also the loop behind a copied slash. -/
def skipSlashes (m : Mem) : ℕ → ℕ → ℕ
  | 0, src => src
  | n + 1, src => if m src = slash then skipSlashes m n (src + 1) else src

/-- `while ((c = *src++) != '\0' && c != '/') *dst++ = c`. -/
def copyComp : ℕ → Mem → ℕ → ℕ → Mem × ℕ × ℕ × UInt8
  | 0, m, src, dst => (m, src, dst, 0)
  | n + 1, m, src, dst =>
    if m src = 0 ∨ m src = slash then (m, src + 1, dst, m src)
    else copyComp n (Function.update m dst (m src)) (src + 1) (dst + 1)

/-- `while (dst0 < dst && dst[-1] != '/') dst--`. -/
def backUp (m : Mem) : ℕ → ℕ
  | 0 => 0
  | d + 1 => if m d = slash then d + 1 else backUp m d

/-- How the loop ends. `running` is a loop cut off by its fuel. -/
inductive NormRes
  | fullpath (m : Mem)
  | null (m : Mem)
  | running

/-- The memory the normaliser leaves behind. -/
def NormRes.mem (m₀ : Mem) : NormRes → Mem
  | .fullpath m => m
  | .null m => m
  | .running => m₀

/-- Behind the loop: terminate, then drop a trailing slash. For an empty result `dst - 1`
is the cell in front of the buffer. -/
def normFinish (m : Mem) (dst : ℕ) : Mem :=
  let m := Function.update m dst 0
  let d : ℤ := dst - 1
  if d ≠ 0 ∧ m d = slash then Function.update m d 0 else m

/-- Copy up to the next slash, then go on with `next` or leave the loop. -/
def copyNext (n : ℕ) (next : Mem → ℕ → ℕ → NormRes) (m : Mem) (src dst : ℕ) : NormRes :=
  match copyComp n m src dst with
  | (m, src, dst, c) =>
    if c = slash then
      let m := Function.update m dst slash
      next m (skipSlashes m n src) (dst + 1)
    else .fullpath (normFinish m dst)

/-- `up_one`: step back over the last kept component. -/
def upOne (next : Mem → ℕ → ℕ → NormRes) (m : Mem) (src dst : ℕ) : NormRes :=
  if dst = 0 then .null m else next m src (backUp m (dst - 1))

/-- The `while (1)` of `_str_normalize_path`; `n` bounds the inner loops. -/
def normLoop (n : ℕ) : ℕ → Mem → ℕ → ℕ → NormRes
  | 0, _, _, _ => .running
  | f + 1, m, src, dst =>
    if m src = dot then
      -- a `.` at the end: `src` moves to the terminator, which is copied as an empty component
      if m (src + 1) = 0 then copyNext n (normLoop n f) m (src + 1) dst
      else if m (src + 1) = slash then normLoop n f m (skipSlashes m n (src + 2)) dst
      else if m (src + 1) = dot then
        -- a `..` at the end goes through the loop once more, on the empty text
        if m (src + 2) = 0 then upOne (normLoop n f) m (src + 2) dst
        -- the slashes behind `..` are skipped before the stack is looked at
        else if m (src + 2) = slash then upOne (normLoop n f) m (skipSlashes m n (src + 3)) dst
        else copyNext n (normLoop n f) m src dst
      else copyNext n (normLoop n f) m src dst
    else copyNext n (normLoop n f) m src dst

/-- `_str_normalize_path` on a buffer of `n` cells. -/
def strNormalizePath (n : ℕ) (m : Mem) : NormRes := normLoop n (n + 1) m 0 0

variable {m : Mem} {n src dst : ℕ} {s : List UInt8}

/-! ## The inner loops -/

theorem skipSlashes_spec : ∀ {n src : ℕ}, StrAt m src s → s.length < n →
    skipSlashes m n src = src + (s.takeWhile (· == slash)).length ∧
      StrAt m (skipSlashes m n src : ℕ) (s.dropWhile (· == slash)) := by
  induction s with
  | nil =>
    intro n src h hn
    obtain ⟨n, rfl⟩ : ∃ k, n = k + 1 := ⟨n - 1, by simp at hn; omega⟩
    have h0 : m src ≠ slash := by rw [h.nil]; decide
    rw [skipSlashes, if_neg h0]
    exact ⟨rfl, h⟩
  | cons c s ih =>
    intro n src h hn
    obtain ⟨n, rfl⟩ : ∃ k, n = k + 1 := ⟨n - 1, by simp at hn; omega⟩
    obtain ⟨h1, -, h3⟩ := strAt_cons.1 h
    rw [skipSlashes, h1]
    by_cases hc : c = slash
    · have := @ih n (src + 1) (by push_cast; exact h3) (by simpa using hn)
      rw [if_pos hc]
      subst hc
      simp only [List.takeWhile_cons, List.dropWhile_cons, beq_self_eq_true, if_true, List.length_cons]
      exact ⟨by omega, this.2⟩
    · rw [if_neg hc]
      simp only [List.takeWhile_cons, List.dropWhile_cons, beq_iff_eq, hc, if_false]
      exact ⟨rfl, h⟩

/-- The copy loop moves one component behind the kept text and stops on what follows it. -/
theorem copyComp_spec {c r : List UInt8} (hc : slash ∉ c) (hr : r = [] ∨ ∃ t, r = slash :: t) :
    ∀ {n : ℕ} {m : Mem} {src : ℕ} {out : List UInt8}, At m 0 out → StrAt m src (c ++ r) →
      out.length ≤ src → c.length < n →
      ∃ m', copyComp n m src out.length =
          (m', src + c.length + 1, out.length + c.length, r.headD 0) ∧
        At m' 0 (out ++ c) ∧ StrAt m' (src + c.length : ℕ) r := by
  induction c with
  | nil =>
    intro n m src out ho hs _ hn
    obtain ⟨n, rfl⟩ : ∃ k, n = k + 1 := ⟨n - 1, by simp at hn; omega⟩
    have hm : m src = r.headD 0 := by
      rcases hr with rfl | ⟨t, rfl⟩
      · exact hs.nil
      · exact (strAt_cons.1 hs).1
    have hstop : m src = 0 ∨ m src = slash := by
      rcases hr with rfl | ⟨t, rfl⟩
      · exact Or.inl hm
      · exact Or.inr hm
    refine ⟨m, ?_, by simpa using ho, by simpa using hs⟩
    rw [copyComp, if_pos hstop, hm]
    simp
  | cons a c ih =>
    intro n m src out ho hs hle hn
    obtain ⟨n, rfl⟩ : ∃ k, n = k + 1 := ⟨n - 1, by simp at hn; omega⟩
    rw [List.mem_cons, not_or] at hc
    obtain ⟨h1, h2, h3⟩ := strAt_cons.1 hs
    -- the write lands behind the read position, so the unread text stays
    have ho' : At (Function.update m out.length a) 0 (out ++ [a]) := by
      simpa using at_snoc_update ho a
    have hs' : StrAt (Function.update m out.length a) ((src + 1 : ℕ) : ℤ) (c ++ r) := by
      have := h3.update_below (j := out.length) (by omega) a
      push_cast; exact this
    obtain ⟨m', e1, e2, e3⟩ := ih hc.2 ho' hs' (by simp; omega) (by simpa using hn)
    refine ⟨m', ?_, by simpa using e2, ?_⟩
    · rw [copyComp, if_neg (by rw [h1]; exact fun h => h.elim h2 (fun h => hc.1 h.symm)), h1]
      rw [List.length_append, List.length_singleton] at e1
      rw [e1]
      simp only [List.length_cons, Prod.mk.injEq, true_and, and_true]
      omega
    · rw [show src + (a :: c).length = src + 1 + c.length by simp; omega]
      exact e3

/-- `up_one` stops behind the slash of the component below, or at the start. -/
theorem backUp_spec {stk : List (List UInt8)} {c : List UInt8} (hc : slash ∉ c) :
    ∀ {m : Mem}, At m 0 (spell slash stk ++ c) →
      backUp m (spell slash stk ++ c).length = (spell slash stk).length := by
  -- the loop runs from the end of the component to its start
  induction c using List.reverseRecOn with
  | nil =>
    intro m h
    rw [List.append_nil] at h ⊢
    cases stk with
    | nil => rfl
    | cons d stk =>
      rw [spell_cons, at_append] at h
      have hm : m ((spell slash stk ++ d).length : ℕ) = slash := by simpa [At] using h.2
      rw [spell_cons, List.length_append, List.length_singleton, backUp, if_pos hm]
  | append_singleton c a ih =>
    intro m h
    rw [List.mem_append, List.mem_singleton, not_or] at hc
    rw [← List.append_assoc] at h ⊢
    have h' := (at_append _ _ _ _).1 h
    have hm : m ((spell slash stk ++ c).length : ℕ) = a := by simpa [At] using h'.2
    rw [List.length_append, List.length_singleton, backUp, if_neg (by rw [hm]; exact fun h => hc.2 h.symm)]
    exact ih hc.1 h'.1

/-! ## One pass of the loop -/

/-- What the loop holds at its head: the spelled stack before `dst`, the unread text at `src`. -/
structure LoopInv (m : Mem) (src : ℕ) (stk : List (List UInt8)) (s : List UInt8) : Prop where
  kept : At m 0 (spell slash stk)
  unread : StrAt m src s
  behind : (spell slash stk).length ≤ src
  names : ∀ c ∈ stk, slash ∉ c
  nonzero : 0 ∉ spell slash stk
  head : s.head? ≠ some slash

/-- The cut of the unread text at its first slash. -/
theorem cut_slash (s : List UInt8) : ∃ c r, s = c ++ r ∧ slash ∉ c ∧ (r = [] ∨ ∃ t, r = slash :: t) := by
  refine ⟨s.takeWhile (· != slash), s.dropWhile (· != slash), (List.takeWhile_append_dropWhile ..).symm, ?_, ?_⟩
  · intro h
    simpa using List.mem_takeWhile_imp h
  · cases h : s.dropWhile (· != slash) with
    | nil => exact Or.inl rfl
    | cons a t =>
      right
      have := List.head_dropWhile_not (p := (· != slash)) (l := s) (by simp [h])
      simp only [h, List.head_cons, bne_eq_false_iff_eq] at this
      exact ⟨t, by rw [this]⟩

theorem head_dropWhile_slash (t : List UInt8) : (t.dropWhile (· == slash)).head? ≠ some slash := by
  induction t with
  | nil => simp
  | cons a t ih =>
    rw [List.dropWhile_cons]
    split
    · exact ih
    · rename_i h; simpa using h

/-- Repeated slashes are empty components, which vanish. -/
theorem eval_dropWhile (t : List UInt8) : ∀ stk : List (List UInt8),
    eval dot stk (t.splitOn slash) = eval dot stk ((t.dropWhile (· == slash)).splitOn slash) := by
  induction t with
  | nil => intro stk; rfl
  | cons a t ih =>
    intro stk
    rw [List.dropWhile_cons]
    split
    · rename_i h
      rw [beq_iff_eq] at h
      subst h
      have := List.splitOn_append_cons_self (a := slash) [] t
      rw [List.nil_append] at this
      rw [this]
      simp only [List.splitOn_nil, List.cons_append, List.nil_append, eval, push, true_or, if_true,
        Option.bind_some]
      exact ih stk
    · rfl

/-- Behind a skipped separator the invariant holds again for the rest of the text. -/
theorem LoopInv.skip {stk : List (List UInt8)} {t : List UInt8} {p : ℕ} (hk : At m 0 (spell slash stk))
    (hu : StrAt m p t) (hb : (spell slash stk).length ≤ p) (hn : ∀ c ∈ stk, slash ∉ c)
    (h0 : 0 ∉ spell slash stk) (hl : t.length < n) :
    LoopInv m (skipSlashes m n p) stk (t.dropWhile (· == slash)) := by
  obtain ⟨e1, e2⟩ := skipSlashes_spec hu hl
  exact ⟨hk, e2, by omega, hn, h0, head_dropWhile_slash t⟩

theorem normFinish_name {stk : List (List UInt8)} {c : List UInt8} (hc : slash ∉ c) (hne : c ≠ [])
    (h : At m 0 (spell slash stk ++ c)) (h0 : 0 ∉ spell slash stk ++ c) :
    StrAt (normFinish m (spell slash stk ++ c).length) 0 (join slash (c :: stk)) := by
  have hj : join slash (c :: stk) = spell slash stk ++ c := by simp [join, hne]
  rw [hj]
  have hs := strAt_of_at h h0
  rw [Int.zero_add] at hs
  -- the last kept cell belongs to the component, so it is no slash
  have hlast : Function.update m ((spell slash stk ++ c).length : ℤ) 0
      (((spell slash stk ++ c).length : ℤ) - 1) ≠ slash := by
    obtain ⟨d, a, rfl⟩ := (List.eq_nil_or_concat c).resolve_left hne
    rw [List.concat_eq_append] at hc h ⊢
    rw [← List.append_assoc, at_append] at h
    have hm : m ((spell slash stk ++ d).length : ℤ) = a := by simpa [At] using h.2
    rw [Function.update_of_ne (by omega), ← List.append_assoc, List.length_append, List.length_singleton]
    push_cast
    rw [add_sub_cancel_right, hm]
    rintro rfl
    exact hc (by simp)
  rw [normFinish]
  simp only [hlast, and_false, if_false]
  exact hs

theorem normFinish_nil {stk : List (List UInt8)} (h : At m 0 (spell slash stk))
    (h0 : 0 ∉ spell slash stk) :
    StrAt (normFinish m (spell slash stk).length) 0 (join slash stk) := by
  have hs := strAt_of_at h h0
  rw [Int.zero_add] at hs
  cases stk with
  | nil =>
    -- the empty result looks at the cell in front of the buffer
    simp only [normFinish, spell_nil, List.length_nil, Nat.cast_zero, join] at hs ⊢
    split
    · exact ⟨⟨by simp [Function.update], trivial⟩, by simp⟩
    · exact hs
  | cons c stk =>
    have hm : m ((spell slash stk ++ c).length : ℤ) = slash := by
      rw [spell_cons, at_append] at h
      simpa [At] using h.2
    have hl : ((spell slash (c :: stk)).length : ℤ) - 1 = ((spell slash stk ++ c).length : ℤ) := by
      rw [spell_cons, List.length_append, List.length_singleton]; push_cast; ring
    rw [normFinish]
    simp only [hl]
    rw [Function.update_of_ne (by omega), hm]
    -- the root keeps its slash, every other directory loses it
    by_cases hroot : c = [] ∧ stk = []
    · obtain ⟨rfl, rfl⟩ := hroot
      simpa [join] using hs
    · have hpos : ((spell slash stk ++ c).length : ℤ) ≠ 0 := by
        intro hz
        have : (spell slash stk ++ c).length = 0 := by exact_mod_cast hz
        rw [List.length_eq_zero_iff, List.append_eq_nil_iff] at this
        refine hroot ⟨this.2, ?_⟩
        cases stk with
        | nil => rfl
        | cons d stk => simp at this
      rw [if_pos ⟨hpos, rfl⟩]
      simp only [join, hroot, if_false]
      rw [spell_cons, at_append] at h
      rw [spell_cons, List.mem_append, not_or] at h0
      have := strAt_of_at (m := Function.update m ((spell slash (c :: stk)).length : ℤ) 0)
        (at_update (Or.inr (by omega)) h.1) h0.1
      rwa [Int.zero_add] at this

/-- A component that a slash follows: the loop goes on behind the slashes, with the component kept. -/
theorem LoopInv.copied (stk : List (List UInt8)) (src : ℕ) {c t : List UInt8} (hk : At m 0 (spell slash stk))
    (hu : StrAt m src (c ++ slash :: t)) (hb : (spell slash stk).length ≤ src) (hn : ∀ d ∈ stk, slash ∉ d)
    (h0 : 0 ∉ spell slash stk) (hc : slash ∉ c) (hl : (c ++ slash :: t).length < n) :
    ∃ m', copyComp n m src (spell slash stk).length =
        (m', src + c.length + 1, (spell slash stk).length + c.length, slash) ∧
      StrAt (Function.update m' ((spell slash stk).length + c.length : ℕ) slash) ((src + c.length + 1 : ℕ) : ℤ) t ∧
      LoopInv (Function.update m' ((spell slash stk).length + c.length : ℕ) slash)
        (skipSlashes (Function.update m' ((spell slash stk).length + c.length : ℕ) slash) n (src + c.length + 1))
        (c :: stk) (t.dropWhile (· == slash)) := by
  rw [List.length_append, List.length_cons] at hl
  obtain ⟨m', e1, e2, e3⟩ := copyComp_spec hc (Or.inr ⟨t, rfl⟩) hk hu hb (n := n) (by omega)
  have hlen : (spell slash stk).length + c.length = (spell slash stk ++ c).length := by simp
  have hk' : At (Function.update m' ((spell slash stk).length + c.length : ℕ) slash) 0
      (spell slash (c :: stk)) := by
    have := at_snoc_update e2 slash
    rw [Int.zero_add] at this
    rw [hlen, spell_cons]
    exact this
  have hu' : StrAt (Function.update m' ((spell slash stk).length + c.length : ℕ) slash)
      ((src + c.length + 1 : ℕ) : ℤ) t := by
    have := (strAt_cons.1 e3).2.2.update_below (j := ((spell slash stk).length + c.length : ℕ))
      (by push_cast; omega) slash
    push_cast at this ⊢
    exact this
  refine ⟨m', e1, hu', LoopInv.skip hk' hu' ?_ ?_ ?_ (by omega)⟩
  · simp only [spell_cons, List.length_append, List.length_singleton]; omega
  · intro d hd
    rcases List.mem_cons.1 hd with rfl | hd
    · exact hc
    · exact hn d hd
  · rw [spell_cons, List.mem_append, List.mem_append, not_or, not_or]
    exact ⟨⟨h0, fun h => hu.2 (List.mem_append_left _ h)⟩, by decide⟩

/-- **Copying one component** pushes it; the text ends or the loop goes on behind the slashes. -/
theorem copyNext_spec (next : Mem → ℕ → ℕ → NormRes) (stk : List (List UInt8)) (src : ℕ) {c r : List UInt8}
    (hk : At m 0 (spell slash stk)) (hu : StrAt m src (c ++ r)) (hb : (spell slash stk).length ≤ src)
    (hn : ∀ d ∈ stk, slash ∉ d) (h0 : 0 ∉ spell slash stk) (hc : slash ∉ c)
    (hr : r = [] ∨ ∃ t, r = slash :: t) (hl : (c ++ r).length < n) :
    (r = [] → ∃ m', copyNext n next m src (spell slash stk).length =
        .fullpath (normFinish m' (spell slash stk ++ c).length) ∧
      At m' 0 (spell slash stk ++ c) ∧ 0 ∉ spell slash stk ++ c) ∧
    (∀ t, r = slash :: t → ∃ m' src', copyNext n next m src (spell slash stk).length =
        next m' src' (spell slash (c :: stk)).length ∧
      LoopInv m' src' (c :: stk) (t.dropWhile (· == slash))) := by
  refine ⟨?_, ?_⟩
  · rintro rfl
    rw [List.length_append] at hl
    obtain ⟨m', e1, e2, -⟩ := copyComp_spec hc hr hk hu hb (n := n) (by omega)
    have hz : 0 ∉ spell slash stk ++ c := by
      rw [List.mem_append, not_or]
      exact ⟨h0, fun h => hu.2 (List.mem_append_left _ h)⟩
    refine ⟨m', ?_, e2, hz⟩
    simp only [copyNext, e1, List.headD_nil]
    rw [if_neg (by decide), List.length_append]
  · rintro t rfl
    obtain ⟨m', e1, -, e2⟩ := LoopInv.copied stk src hk hu hb hn h0 hc hl
    refine ⟨_, _, ?_, e2⟩
    simp only [copyNext, e1, if_true, spell_cons]
    congr 1
    simp only [List.length_append, List.length_singleton]

/-- **`up_one`** pops the stack, or returns `RT_NULL` when it is empty. -/
theorem upOne_spec {stk : List (List UInt8)} {next : Mem → ℕ → ℕ → NormRes}
    (hk : At m 0 (spell slash stk)) (hn : ∀ d ∈ stk, slash ∉ d) :
    upOne next m src (spell slash stk).length =
      match stk with
      | [] => .null m
      | _ :: below => next m src (spell slash below).length := by
  cases stk with
  | nil => simp [upOne]
  | cons c below =>
    simp only [upOne]
    rw [spell_cons, at_append] at hk
    rw [if_neg (by simp), spell_cons, List.length_append, List.length_singleton, Nat.add_sub_cancel,
      backUp_spec (hn c List.mem_cons_self) hk.1]

/-- A component other than `.` and `..` is copied. -/
theorem normLoop_copy {f : ℕ} {c r : List UInt8} (hu : StrAt m src (c ++ r)) (hc : slash ∉ c)
    (hr : r = [] ∨ ∃ t, r = slash :: t) (h1 : c ≠ [dot]) (h2 : c ≠ [dot, dot]) :
    normLoop n (f + 1) m src dst = copyNext n (normLoop n f) m src dst := by
  have hsrc : ∀ d : List UInt8, StrAt m src (d ++ r) → d = [] → m src ≠ dot := by
    rintro d hd rfl
    rcases hr with rfl | ⟨t, rfl⟩
    · rw [hd.nil]; decide
    · rw [(strAt_cons.1 hd).1]; decide
  rw [normLoop]
  by_cases hd : m src = dot
  · -- the component starts with a dot but is neither `.` nor `..`
    rw [if_pos hd]
    obtain ⟨a, c, rfl⟩ := List.exists_cons_of_ne_nil (fun h => hsrc c hu h hd)
    obtain ⟨ha, -, hu1⟩ := strAt_cons.1 hu
    have hadot : a = dot := by rw [← ha, hd]
    subst hadot
    obtain ⟨b, c, rfl⟩ := List.exists_cons_of_ne_nil (fun h : c = [] => h1 (by rw [h]))
    obtain ⟨hb, hb0, hu2⟩ := strAt_cons.1 hu1
    simp only [List.mem_cons, not_or] at hc
    rw [if_neg (by rw [hb]; exact hb0), if_neg (by rw [hb]; exact fun h => hc.2.1 h.symm)]
    by_cases hbd : m (src + 1) = dot
    · rw [if_pos hbd]
      have hbdot : b = dot := by rw [← hb, hbd]
      subst hbdot
      obtain ⟨e, c, rfl⟩ := List.exists_cons_of_ne_nil (fun h : c = [] => h2 (by rw [h]))
      obtain ⟨he, he0, -⟩ := strAt_cons.1 hu2
      simp only [List.mem_cons, not_or] at hc
      have hsrc2 : m ((src : ℤ) + 2) = e := by rw [← he]; congr 1
      rw [if_neg (by rw [hsrc2]; exact he0), if_neg (by rw [hsrc2]; exact fun h => hc.2.2.1 h.symm)]
    · rw [if_neg hbd]
  · rw [if_neg hd]

/-- The outcome of the loop for the outcome of a stack evaluation. -/
def NormRes.Computes (r : NormRes) : Option (List (List UInt8)) → Prop
  | none => ∃ m', r = .null m'
  | some stk => ∃ m', r = .fullpath m' ∧ StrAt m' 0 (join slash stk)

/-- The loop, run with `f` units of fuel on texts shorter than `l`, computes their evaluation. -/
def LoopOk (n f l : ℕ) : Prop :=
  ∀ {m : Mem} {src : ℕ} {stk : List (List UInt8)} {u : List UInt8}, LoopInv m src stk u → u.length < l →
    (normLoop n f m src (spell slash stk).length).Computes (eval dot stk (u.splitOn slash))

/-- `LoopOk` behind a separator: repeated slashes make no difference. -/
theorem LoopOk.skip {f l : ℕ} (h : LoopOk n f l) {stk : List (List UInt8)} {t : List UInt8}
    (hi : LoopInv m src stk (t.dropWhile (· == slash))) (hl : t.length < l) :
    (normLoop n f m src (spell slash stk).length).Computes (eval dot stk (t.splitOn slash)) := by
  have hlt := (List.dropWhile_sublist (· == slash) (l := t)).length_le
  rw [eval_dropWhile]
  exact h hi (by omega)

theorem splitOn_cut {c t : List UInt8} (hc : slash ∉ c) :
    (c ++ slash :: t).splitOn slash = c :: t.splitOn slash :=
  List.splitOn_append_cons_self_of_not_mem hc _

/-- A `.` component is skipped, with the slashes behind it. -/
theorem normLoop_dot {f : ℕ} {stk : List (List UInt8)} {r : List UInt8}
    (hi : LoopInv m src stk (dot :: r)) (hr : r = [] ∨ ∃ t, r = slash :: t) (hn : (dot :: r).length < n)
    (hok : LoopOk n f (dot :: r).length) :
    (normLoop n (f + 1) m src (spell slash stk).length).Computes
      (eval dot stk ((dot :: r).splitOn slash)) := by
  obtain ⟨ha, -, hu1⟩ := strAt_cons.1 hi.unread
  rw [normLoop, if_pos ha]
  rcases hr with rfl | ⟨t, rfl⟩
  · obtain ⟨m', e1, e2, e3⟩ := (copyNext_spec (c := []) (r := []) (n := n) (normLoop n f) stk
      (src + 1) hi.kept (by push_cast; exact hu1) (by have := hi.behind; omega) hi.names
      hi.nonzero (by simp) (Or.inl rfl) (by simp at hn ⊢; omega)).1 rfl
    rw [List.append_nil] at e1 e2 e3
    rw [if_pos hu1.nil, e1, List.splitOn_eq_singleton (by decide)]
    simp only [eval, push_skip (Or.inr rfl), Option.bind_some]
    exact ⟨_, rfl, normFinish_nil e2 e3⟩
  · obtain ⟨hb, -, hu2⟩ := strAt_cons.1 hu1
    rw [if_neg (by rw [hb]; decide), if_pos hb, ← List.singleton_append, splitOn_cut (by decide)]
    simp only [eval, push_skip (Or.inr rfl), Option.bind_some]
    refine hok.skip (LoopInv.skip hi.kept ?_ (by have := hi.behind; omega) hi.names hi.nonzero
      (by simp at hn; omega)) (by simp)
    rw [show ((src + 2 : ℕ) : ℤ) = (src : ℤ) + 1 + 1 by push_cast; ring]
    exact hu2

/-- Popping keeps the invariant of the kept text. -/
theorem LoopInv.pop {c : List UInt8} {below : List (List UInt8)} (hi : LoopInv m src (c :: below) s) :
    At m 0 (spell slash below) ∧ (spell slash below).length ≤ src ∧ (∀ e ∈ below, slash ∉ e) ∧
      0 ∉ spell slash below := by
  have hk := hi.kept
  have h0 := hi.nonzero
  have hb := hi.behind
  rw [spell_cons, List.append_assoc] at hk h0 hb
  rw [List.length_append] at hb
  exact ⟨((at_append _ _ _ _).1 hk).1, by omega, fun e he => hi.names e (List.mem_cons_of_mem _ he),
    fun h => h0 (List.mem_append_left _ h)⟩

/-- A `..` component pops the stack. -/
theorem normLoop_dotdot {f : ℕ} {stk : List (List UInt8)} {r : List UInt8}
    (hi : LoopInv m src stk (dot :: dot :: r)) (hr : r = [] ∨ ∃ t, r = slash :: t)
    (hn : (dot :: dot :: r).length < n) (hok : LoopOk n f (dot :: dot :: r).length) :
    (normLoop n (f + 1) m src (spell slash stk).length).Computes
      (eval dot stk ((dot :: dot :: r).splitOn slash)) := by
  obtain ⟨ha, -, hu1⟩ := strAt_cons.1 hi.unread
  obtain ⟨hb, -, hu2⟩ := strAt_cons.1 hu1
  have hsrc2 : m ((src : ℤ) + 2) = m ((src : ℤ) + 1 + 1) := by congr 1
  have hpush : push dot stk [dot, dot] = match stk with | [] => none | _ :: below => some below := by
    cases stk <;> simp [push]
  rw [normLoop, if_pos ha, if_neg (by rw [hb]; decide), if_neg (by rw [hb]; decide), if_pos hb, hsrc2]
  rcases hr with rfl | ⟨t, rfl⟩
  · rw [if_pos hu2.nil, upOne_spec hi.kept hi.names, List.splitOn_eq_singleton (by decide), eval, hpush]
    cases stk with
    | nil => exact ⟨m, rfl⟩
    | cons c below =>
      obtain ⟨g1, g2, g3, g4⟩ := hi.pop
      have hinv : LoopInv m (src + 2) below [] :=
        ⟨g1, by rw [show ((src + 2 : ℕ) : ℤ) = (src : ℤ) + 1 + 1 by push_cast; ring]; exact hu2,
          by omega, g3, g4, by simp⟩
      have := hok hinv (by simp)
      simpa [eval, push] using this
  · obtain ⟨he, -, hu3⟩ := strAt_cons.1 hu2
    have hcut : (dot :: dot :: slash :: t).splitOn slash = [dot, dot] :: t.splitOn slash :=
      splitOn_cut (c := [dot, dot]) (by decide)
    rw [he, if_neg (by decide), if_pos rfl, upOne_spec hi.kept hi.names, hcut, eval, hpush]
    cases stk with
    | nil => exact ⟨m, rfl⟩
    | cons c below =>
      obtain ⟨g1, g2, g3, g4⟩ := hi.pop
      refine hok.skip (LoopInv.skip g1 ?_ (by omega) g3 g4 (by simp at hn; omega)) (by simp; omega)
      rw [show ((src + 3 : ℕ) : ℤ) = (src : ℤ) + 1 + 1 + 1 by push_cast; ring]
      exact hu3

/-- Any other component is pushed; an empty one is the end of the text. -/
theorem normLoop_name {f : ℕ} {stk : List (List UInt8)} {c r : List UInt8}
    (hi : LoopInv m src stk (c ++ r)) (hc : slash ∉ c) (hr : r = [] ∨ ∃ t, r = slash :: t)
    (h1 : c ≠ [dot]) (h2 : c ≠ [dot, dot]) (hn : (c ++ r).length < n) (hok : LoopOk n f (c ++ r).length) :
    (normLoop n (f + 1) m src (spell slash stk).length).Computes
      (eval dot stk ((c ++ r).splitOn slash)) := by
  obtain ⟨k1, k2⟩ := copyNext_spec (normLoop n f) stk src hi.kept hi.unread hi.behind hi.names hi.nonzero
    hc hr hn
  rw [normLoop_copy hi.unread hc hr h1 h2]
  rcases hr with rfl | ⟨t, rfl⟩
  · obtain ⟨m', e1, e2, e3⟩ := k1 rfl
    rw [e1, List.append_nil, List.splitOn_eq_singleton hc]
    by_cases hc0 : c = []
    · subst hc0
      simp only [eval, push_skip (Or.inl rfl), Option.bind_some]
      rw [List.append_nil] at e2 e3 ⊢
      exact ⟨_, rfl, normFinish_nil e2 e3⟩
    · simp only [eval, push_name ⟨hc0, h1, h2, hc⟩, Option.bind_some]
      exact ⟨_, rfl, normFinish_name hc hc0 e2 e3⟩
  · have hc0 : c ≠ [] := by
      rintro rfl
      exact hi.head (by simp)
    obtain ⟨m', src', e1, e2⟩ := k2 t rfl
    rw [e1, splitOn_cut hc]
    simp only [eval, push_name ⟨hc0, h1, h2, hc⟩, Option.bind_some]
    exact hok.skip e2 (by simp; omega)

/-- **The loop computes the stack evaluation of the unread components.** Each pass reads one
component, so fuel beyond the length of the unread text is enough. -/
theorem normLoop_spec : ∀ (f : ℕ) {m : Mem} {src : ℕ} {stk : List (List UInt8)} {s : List UInt8},
    LoopInv m src stk s → s.length < f → s.length < n →
    (normLoop n f m src (spell slash stk).length).Computes (eval dot stk (s.splitOn slash)) := by
  intro f
  induction f with
  | zero => intro m src stk s _ hf; omega
  | succ f ih =>
    intro m src stk s hi hf hn
    -- what the next passes do, as the three kinds of components use it
    have hok : LoopOk n f s.length := fun hi' hl => ih hi' (by omega) (by omega)
    obtain ⟨c, r, rfl, hc, hr⟩ := cut_slash s
    by_cases h1 : c = [dot]
    · subst h1; exact normLoop_dot hi hr hn hok
    by_cases h2 : c = [dot, dot]
    · subst h2; exact normLoop_dotdot hi hr hn hok
    exact normLoop_name hi hc hr h1 h2 hn hok

/-- **The normaliser computes the canonical path.** It returns `RT_NULL` exactly when a `..`
finds the stack empty. -/
theorem strNormalizePath_spec (hs : StrAt m 0 s) (hn : s.length < n) :
    (strNormalizePath n m).Computes (resolve slash dot s) := by
  have hs0 : StrAt m ((0 : ℕ) : ℤ) s := hs
  by_cases hh : s.head? = some slash
  · -- the leading slash puts the root on the stack
    obtain ⟨t, rfl⟩ : ∃ t, s = slash :: t := by
      cases s with
      | nil => simp at hh
      | cons a t => simp at hh; exact ⟨t, by rw [hh]⟩
    rw [strNormalizePath, normLoop_copy (c := []) (r := slash :: t) hs0 (by simp)
      (Or.inr ⟨t, rfl⟩) (by simp) (by simp)]
    obtain ⟨m', src', e1, e2⟩ := (copyNext_spec (c := []) (r := slash :: t) (normLoop n n) [] 0
      trivial hs0 (by simp) (by simp) (by simp) (by simp)
      (Or.inr ⟨t, rfl⟩) (by simpa using hn)).2 t rfl
    rw [spell_nil, List.length_nil] at e1
    simp only [List.length_cons] at hn
    rw [e1, resolve, if_pos rfl]
    exact LoopOk.skip (l := t.length + 1) (fun hi hl => normLoop_spec n hi (by omega) (by omega)) e2
      (by omega)
  · have hinv : LoopInv m 0 [] s := ⟨trivial, hs0, by simp, by simp, by simp, hh⟩
    have hloop := normLoop_spec (n := n) (n + 1) hinv (by omega) hn
    rw [spell_nil, List.length_nil] at hloop
    rw [strNormalizePath]
    cases s with
    | nil => simpa [resolve, eval, push] using hloop
    | cons a t =>
      have ha : a ≠ slash := fun h => hh (by simp [h])
      rw [resolve, if_neg ha]
      exact hloop

end W601
