import W601.Web.Paths

/-!
# Which characters the path normaliser touches

The run of `_str_normalize_path` as the list of its passes, reads and writes. A character that one
condition reads twice is listed once.

* `Traced`: no write overtakes the read position; the indices stay inside the string, unless the
  result is the empty path.
* `normLoop_traced`: every run of the loop is traced so.
* `normalizes`: the function computes the canonical path.
* `stays_inside_iff`: it stays inside the string exactly for texts that do not come down to nothing.
-/

namespace W601

open CMem CompPath

/-- What the normaliser does to its buffer. -/
inductive Access
  /-- A pass of the loop begins. -/
  | pass (src dst : ℕ)
  | read (i : ℤ)
  /-- A write, with the position of the next read. -/
  | write (i : ℤ) (src : ℕ)
  deriving DecidableEq

/-- The reads of `skipSlashes`. -/
def skipTrace (m : Mem) : ℕ → ℕ → List Access
  | 0, _ => []
  | n + 1, src => .read src :: if m src = slash then skipTrace m n (src + 1) else []

/-- The reads and writes of `copyComp`. -/
def copyTrace : ℕ → Mem → ℕ → ℕ → List Access
  | 0, _, _, _ => []
  | n + 1, m, src, dst =>
    .read src ::
      if m src = 0 ∨ m src = slash then []
      else .write dst (src + 1) :: copyTrace n (Function.update m dst (m src)) (src + 1) (dst + 1)

/-- The reads of `backUp`. -/
def backUpTrace (m : Mem) : ℕ → List Access
  | 0 => []
  | d + 1 => .read d :: if m d = slash then [] else backUpTrace m d

/-- The accesses of `normFinish`. -/
def finishTrace (m : Mem) (src dst : ℕ) : List Access :=
  let m := Function.update m dst 0
  let d : ℤ := dst - 1
  .write dst src :: if d ≠ 0 then .read d :: if m d = slash then [.write d src] else [] else []

/-- The accesses of `copyNext`. -/
def copyNextTrace (n : ℕ) (next : Mem → ℕ → ℕ → List Access) (m : Mem) (src dst : ℕ) : List Access :=
  copyTrace n m src dst ++
    match copyComp n m src dst with
    | (m, src, dst, c) =>
      if c = slash then
        let m := Function.update m dst slash
        .write dst src :: (skipTrace m n src ++ next m (skipSlashes m n src) (dst + 1))
      else finishTrace m src dst

/-- The accesses of `upOne`. -/
def upOneTrace (next : Mem → ℕ → ℕ → List Access) (m : Mem) (src dst : ℕ) : List Access :=
  if dst = 0 then [] else backUpTrace m (dst - 1) ++ next m src (backUp m (dst - 1))

/-- The accesses of `normLoop`, which looks ahead by up to two characters. -/
def normLoopTrace (n : ℕ) : ℕ → Mem → ℕ → ℕ → List Access
  | 0, _, _, _ => []
  | f + 1, m, src, dst =>
    .pass src dst :: .read src ::
      if m src = dot then
        .read (src + 1) ::
          if m (src + 1) = 0 then copyNextTrace n (normLoopTrace n f) m (src + 1) dst
          else if m (src + 1) = slash then
            skipTrace m n (src + 2) ++ normLoopTrace n f m (skipSlashes m n (src + 2)) dst
          else if m (src + 1) = dot then
            .read (src + 2) ::
              if m (src + 2) = 0 then upOneTrace (normLoopTrace n f) m (src + 2) dst
              else if m (src + 2) = slash then
                skipTrace m n (src + 3) ++ upOneTrace (normLoopTrace n f) m (skipSlashes m n (src + 3)) dst
              else copyNextTrace n (normLoopTrace n f) m src dst
          else copyNextTrace n (normLoopTrace n f) m src dst
      else copyNextTrace n (normLoopTrace n f) m src dst

/-- The accesses of `strNormalizePath`. -/
def strNormalizePathTrace (n : ℕ) (m : Mem) : List Access := normLoopTrace n (n + 1) m 0 0

/-- The index is one of a string of length `l`, the terminator included. -/
def Access.Inside (l : ℕ) : Access → Prop
  | .pass _ _ => True
  | .read i => 0 ≤ i ∧ i ≤ l
  | .write i _ => 0 ≤ i ∧ i ≤ l

/-- The write position has not overtaken the read position. -/
def Access.Behind : Access → Prop
  | .pass src dst => dst ≤ src
  | .read _ => True
  | .write i src => i < src

/-- **What a run does to a string of length `l`** when it comes to the stack `o`: it stays inside the
string, except that it looks in front of the string when the stack is empty. -/
structure Traced (l : ℕ) (o : Option (List (List UInt8))) (t : List Access) : Prop where
  behind : ∀ a ∈ t, a.Behind
  inside : o ≠ some [] → ∀ a ∈ t, a.Inside l
  outside : o = some [] → .read (-1) ∈ t

variable {m : Mem} {n src dst l : ℕ} {s : List UInt8} {o : Option (List (List UInt8))} {t : List Access}

theorem Traced.append {p : List Access} (hp : ∀ a ∈ p, a.Behind ∧ a.Inside l) (h : Traced l o t) :
    Traced l o (p ++ t) := by
  refine ⟨fun a ha => ?_, fun ho a ha => ?_, fun ho => List.mem_append_right _ (h.outside ho)⟩
  · rcases List.mem_append.1 ha with ha | ha
    · exact (hp a ha).1
    · exact h.behind a ha
  · rcases List.mem_append.1 ha with ha | ha
    · exact (hp a ha).2
    · exact h.inside ho a ha

theorem Traced.cons {a : Access} (ha : a.Behind ∧ a.Inside l) (h : Traced l o t) : Traced l o (a :: t) :=
  Traced.append (p := [a]) (fun b hb => by rwa [List.mem_singleton.1 hb]) h

/-- A look at a character of the unread text. -/
theorem Traced.cons_read {i : ℤ} (h0 : 0 ≤ i) (hi : i ≤ l) (h : Traced l o t) : Traced l o (.read i :: t) :=
  h.cons ⟨trivial, h0, hi⟩

/-! ## The inner loops -/

theorem skipTrace_ok : ∀ {n src : ℕ}, StrAt m src s → src + s.length ≤ l →
    ∀ a ∈ skipTrace m n src, a.Behind ∧ a.Inside l := by
  induction s with
  | nil =>
    intro n src h hl a ha
    cases n with
    | zero => simp [skipTrace] at ha
    | succ n =>
      have h0 : m src ≠ slash := by rw [h.nil]; decide
      rw [skipTrace, if_neg h0, List.mem_singleton] at ha
      subst ha
      simp only [List.length_nil] at hl
      exact ⟨trivial, by omega, by exact_mod_cast hl⟩
  | cons c s ih =>
    intro n src h hl a ha
    obtain ⟨h1, -, h3⟩ := strAt_cons.1 h
    simp only [List.length_cons] at hl
    cases n with
    | zero => simp [skipTrace] at ha
    | succ n =>
      rw [skipTrace, h1] at ha
      rcases List.mem_cons.1 ha with rfl | ha
      · exact ⟨trivial, by omega, by omega⟩
      · split_ifs at ha with hc
        · have hnext : StrAt m ((src + 1 : ℕ) : ℤ) s := by
            push_cast
            exact h3
          exact ih hnext (by omega) a ha
        · simp at ha

theorem copyTrace_ok {c r : List UInt8} (hc : slash ∉ c) (hr : r = [] ∨ ∃ t, r = slash :: t) :
    ∀ {n : ℕ} {m : Mem} {src dst : ℕ}, StrAt m src (c ++ r) → dst ≤ src → src + c.length ≤ l →
      ∀ a ∈ copyTrace n m src dst, a.Behind ∧ a.Inside l := by
  induction c with
  | nil =>
    intro n m src dst hs _ hl a ha
    have hstop : m src = 0 ∨ m src = slash := by
      rcases hr with rfl | ⟨t, rfl⟩
      · exact Or.inl hs.nil
      · exact Or.inr (strAt_cons.1 hs).1
    cases n with
    | zero => simp [copyTrace] at ha
    | succ n =>
      rw [copyTrace, if_pos hstop, List.mem_singleton] at ha
      subst ha
      simp only [List.length_nil] at hl
      exact ⟨trivial, by omega, by exact_mod_cast hl⟩
  | cons b c ih =>
    intro n m src dst hs hle hl a ha
    rw [List.mem_cons, not_or] at hc
    obtain ⟨h1, h2, h3⟩ := strAt_cons.1 hs
    simp only [List.length_cons] at hl
    cases n with
    | zero => simp [copyTrace] at ha
    | succ n =>
      have hgo : ¬ (m src = 0 ∨ m src = slash) := by
        rw [h1]
        exact fun h => h.elim h2 fun h => hc.1 h.symm
      rw [copyTrace, if_neg hgo] at ha
      rcases List.mem_cons.1 ha with rfl | ha
      · exact ⟨trivial, by omega, by omega⟩
      rcases List.mem_cons.1 ha with rfl | ha
      · exact ⟨by simp only [Access.Behind]; omega, by omega, by omega⟩
      · -- the write lands behind the read position, so the unread text stays
        have hs' : StrAt (Function.update m dst (m src)) ((src + 1 : ℕ) : ℤ) (c ++ r) := by
          push_cast
          exact h3.update_below (by omega) _
        exact ih hc.2 hs' (by omega) (by omega) a ha

theorem backUpTrace_ok : ∀ {d : ℕ}, d ≤ l → ∀ a ∈ backUpTrace m d, a.Behind ∧ a.Inside l := by
  intro d
  induction d with
  | zero => intro _ a ha; simp [backUpTrace] at ha
  | succ d ih =>
    intro hd a ha
    rw [backUpTrace] at ha
    rcases List.mem_cons.1 ha with rfl | ha
    · exact ⟨trivial, by omega, by omega⟩
    · split_ifs at ha
      · simp at ha
      · exact ih (by omega) a ha

/-- Behind the loop: an empty result makes the code look in front of the buffer. -/
theorem finishTrace_traced (hb : dst < src) (hl : dst ≤ l) (ho : o = some [] ↔ dst = 0) :
    Traced l o (finishTrace m src dst) := by
  have hlt : (dst : ℤ) < src := by exact_mod_cast hb
  refine ⟨fun a ha => ?_, fun hne a ha => ?_, fun he => ?_⟩
  · simp only [finishTrace] at ha
    rcases List.mem_cons.1 ha with rfl | ha
    · exact hlt
    split_ifs at ha with h1 h2
    · simp only [List.mem_cons, List.not_mem_nil, or_false] at ha
      rcases ha with rfl | rfl
      · trivial
      · simp only [Access.Behind]; omega
    · rw [List.mem_singleton.1 ha]
      trivial
    · simp at ha
  · have hpos : dst ≠ 0 := fun h => hne (ho.2 h)
    simp only [finishTrace] at ha
    rcases List.mem_cons.1 ha with rfl | ha
    · exact ⟨by omega, by exact_mod_cast hl⟩
    split_ifs at ha with h1 h2
    · simp only [List.mem_cons, List.not_mem_nil, or_false] at ha
      rcases ha with rfl | rfl <;> exact ⟨by omega, by omega⟩
    · rw [List.mem_singleton.1 ha]
      exact ⟨by omega, by omega⟩
    · simp at ha
  · rw [ho.1 he]
    simp [finishTrace]

/-! ## One pass of the loop -/

theorem skipSlashes_add {t : List UInt8} {p : ℕ} (hu : StrAt m p t) (hl : t.length < n) :
    skipSlashes m n p + (t.dropWhile (· == slash)).length = p + t.length := by
  have hsplit := congrArg List.length (List.takeWhile_append_dropWhile (p := (· == slash)) (l := t))
  rw [List.length_append] at hsplit
  have hskip := (skipSlashes_spec hu hl).1
  omega

/-- The runs with `f` units of fuel on texts shorter than `k` are traced. -/
def TraceOk (n f k : ℕ) : Prop :=
  ∀ {m : Mem} {src l : ℕ} {stk : List (List UInt8)} {u : List UInt8}, LoopInv m src stk u → u.length < k →
    src + u.length = l →
    Traced l (eval dot stk (u.splitOn slash)) (normLoopTrace n f m src (spell slash stk).length)

/-- `TraceOk` behind a separator, with the reads that skip its repetitions. -/
theorem TraceOk.skip {f k p : ℕ} (h : TraceOk n f k) {stk : List (List UInt8)} {t : List UInt8}
    (hu : StrAt m p t) (hi : LoopInv m (skipSlashes m n p) stk (t.dropWhile (· == slash))) (hn : t.length < n)
    (hk : t.length < k) (hl : p + t.length = l) :
    Traced l (eval dot stk (t.splitOn slash))
      (skipTrace m n p ++ normLoopTrace n f m (skipSlashes m n p) (spell slash stk).length) := by
  have hadd := skipSlashes_add hu hn
  have hlt := (List.dropWhile_sublist (· == slash) (l := t)).length_le
  rw [eval_dropWhile]
  exact (h hi (by omega) (by omega)).append (skipTrace_ok hu hl.le)

/-- The outcome of a text that ends with a component which is kept or empty. -/
theorem eval_last {stk : List (List UInt8)} {c : List UInt8} (hc : slash ∉ c) (h1 : c ≠ [dot])
    (h2 : c ≠ [dot, dot]) :
    eval dot stk (c.splitOn slash) = some [] ↔ (spell slash stk).length + c.length = 0 := by
  have hlen : (spell slash stk).length = 0 ↔ stk = [] := by
    cases stk with
    | nil => simp
    | cons d stk => simp
  rw [List.splitOn_eq_singleton hc, eval]
  by_cases h0 : c = []
  · subst h0
    rw [push_skip (Or.inl rfl), Option.bind_some, eval, List.length_nil, Nat.add_zero, hlen, Option.some.injEq]
  · rw [push_name ⟨h0, h1, h2, hc⟩, Option.bind_some, eval]
    have hpos : c.length ≠ 0 := fun h => h0 (List.length_eq_zero_iff.1 h)
    simp only [Option.some.injEq, reduceCtorEq, false_iff]
    omega

/-- **Copying the last component**: the terminator ends the loop. -/
theorem copyNextTrace_last (next : Mem → ℕ → ℕ → List Access) (stk : List (List UInt8)) (src : ℕ) {c : List UInt8}
    (hk : At m 0 (spell slash stk)) (hu : StrAt m src c) (hb : (spell slash stk).length ≤ src) (hc : slash ∉ c)
    (h1 : c ≠ [dot]) (h2 : c ≠ [dot, dot]) (hn : c.length < n) (hl : src + c.length = l) :
    Traced l (eval dot stk (c.splitOn slash)) (copyNextTrace n next m src (spell slash stk).length) := by
  rw [← List.append_nil c] at hu
  have hnil : ([] : List UInt8).headD 0 = 0 := rfl
  obtain ⟨m', e1, -, -⟩ := copyComp_spec hc (Or.inl rfl) hk hu hb hn
  apply Traced.append (copyTrace_ok hc (Or.inl rfl) hu hb hl.le)
  rw [e1, hnil]
  simp only
  rw [if_neg (by decide)]
  exact finishTrace_traced (by omega) (by omega) (eval_last hc h1 h2)

/-- **Copying a component that a slash follows**: the loop goes on with the component on the stack. -/
theorem copyNextTrace_slash {f k : ℕ} (hok : TraceOk n f k) (stk : List (List UInt8)) (src : ℕ)
    {c t : List UInt8} (hk : At m 0 (spell slash stk)) (hu : StrAt m src (c ++ slash :: t))
    (hb : (spell slash stk).length ≤ src) (hn : ∀ d ∈ stk, slash ∉ d) (h0 : 0 ∉ spell slash stk) (hc : slash ∉ c)
    (hln : (c ++ slash :: t).length < n) (hlk : t.length < k) (hl : src + (c ++ slash :: t).length = l) :
    Traced l (eval dot (c :: stk) (t.splitOn slash))
      (copyNextTrace n (normLoopTrace n f) m src (spell slash stk).length) := by
  obtain ⟨m', e1, e2, e3⟩ := LoopInv.copied stk src hk hu hb hn h0 hc hln
  rw [List.length_append, List.length_cons] at hln hl
  have hdst : (spell slash stk).length + c.length + 1 = (spell slash (c :: stk)).length := by
    simp only [spell_cons, List.length_append, List.length_singleton]
  refine Traced.append (copyTrace_ok hc (Or.inr ⟨t, rfl⟩) hu hb (by omega)) ?_
  rw [e1]
  simp only [if_true, hdst]
  refine Traced.cons ⟨?_, ?_, ?_⟩ (hok.skip e2 e3 (by omega) hlk (by omega))
  · simp only [Access.Behind]; omega
  · omega
  · omega

/-- **`up_one`**. -/
theorem upOneTrace_traced {f k : ℕ} (hok : TraceOk n f k) {stk : List (List UInt8)} {u : List UInt8}
    (hi : LoopInv m src stk s) {p : ℕ} (hp : src ≤ p) (hu : StrAt m p u) (hhead : u.head? ≠ some slash)
    (hk : u.length < k) (hl : p + u.length = l) :
    Traced l ((push dot stk [dot, dot]).bind fun stk' => eval dot stk' (u.splitOn slash))
      (upOneTrace (normLoopTrace n f) m p (spell slash stk).length) := by
  cases stk with
  | nil =>
    simp only [upOneTrace, spell_nil, List.length_nil, if_true]
    exact ⟨by simp, by simp, by simp [push]⟩
  | cons c below =>
    obtain ⟨g1, g2, g3, g4⟩ := hi.pop
    have hpush : push dot (c :: below) [dot, dot] = some below := by simp [push]
    have hkept := hi.kept
    have hbehind := hi.behind
    rw [spell_cons, at_append] at hkept
    rw [spell_cons, List.length_append, List.length_singleton] at hbehind
    have hback : backUp m ((spell slash below ++ c).length) = (spell slash below).length :=
      backUp_spec (hi.names c List.mem_cons_self) hkept.1
    have hnz : (spell slash (c :: below)).length ≠ 0 := by simp
    simp only [upOneTrace]
    rw [if_neg hnz, spell_cons, List.length_append, List.length_singleton, Nat.add_sub_cancel, hback, hpush,
      Option.bind_some]
    have hinv : LoopInv m p below u := ⟨g1, hu, by omega, g3, g4, hhead⟩
    exact (hok hinv hk hl).append (backUpTrace_ok (by omega))

/-- A `.` component. -/
theorem normLoopTrace_dot {f : ℕ} {stk : List (List UInt8)} {r : List UInt8} (hi : LoopInv m src stk (dot :: r))
    (hr : r = [] ∨ ∃ t, r = slash :: t) (hn : (dot :: r).length < n) (hok : TraceOk n f (dot :: r).length)
    (hl : src + (dot :: r).length = l) :
    Traced l (eval dot stk ((dot :: r).splitOn slash))
      (normLoopTrace n (f + 1) m src (spell slash stk).length) := by
  obtain ⟨ha, -, hu1⟩ := strAt_cons.1 hi.unread
  have hbehind := hi.behind
  simp only [List.length_cons] at hl hn
  rw [normLoopTrace, if_pos ha]
  refine Traced.cons ⟨hbehind, trivial⟩ (Traced.cons_read (by omega) (by omega)
    (Traced.cons_read (by omega) (by omega) ?_))
  rcases hr with rfl | ⟨t, rfl⟩
  · have heval : eval dot stk ([dot].splitOn slash) = eval dot stk (([] : List UInt8).splitOn slash) := by
      rw [List.splitOn_eq_singleton (by decide), List.splitOn_nil, eval, eval, push_skip (Or.inr rfl),
        push_skip (Or.inl rfl)]
    simp only [List.length_nil] at hl hn
    rw [if_pos hu1.nil, heval]
    exact copyNextTrace_last _ stk (src + 1) hi.kept (by push_cast; exact hu1) (by omega) (by simp) (by simp)
      (by simp) (by simp only [List.length_nil]; omega) (by simp only [List.length_nil]; omega)
  · obtain ⟨hb, -, hu2⟩ := strAt_cons.1 hu1
    have heval : eval dot stk ((dot :: slash :: t).splitOn slash) = eval dot stk (t.splitOn slash) := by
      have hcut : (dot :: slash :: t).splitOn slash = [dot] :: t.splitOn slash := splitOn_cut (c := [dot]) (by decide)
      rw [hcut, eval, push_skip (Or.inr rfl), Option.bind_some]
    have hu2' : StrAt m ((src + 2 : ℕ) : ℤ) t := by
      rw [show ((src + 2 : ℕ) : ℤ) = (src : ℤ) + 1 + 1 by push_cast; ring]
      exact hu2
    simp only [List.length_cons] at hl hn
    rw [if_neg (by rw [hb]; decide), if_pos hb, heval]
    refine hok.skip hu2' (LoopInv.skip hi.kept hu2' (by omega) hi.names hi.nonzero (by omega)) (by omega) ?_ (by omega)
    simp only [List.length_cons]
    omega

/-- A `..` component. -/
theorem normLoopTrace_dotdot {f : ℕ} {stk : List (List UInt8)} {r : List UInt8}
    (hi : LoopInv m src stk (dot :: dot :: r)) (hr : r = [] ∨ ∃ t, r = slash :: t)
    (hn : (dot :: dot :: r).length < n) (hok : TraceOk n f (dot :: dot :: r).length)
    (hl : src + (dot :: dot :: r).length = l) :
    Traced l (eval dot stk ((dot :: dot :: r).splitOn slash))
      (normLoopTrace n (f + 1) m src (spell slash stk).length) := by
  obtain ⟨ha, -, hu1⟩ := strAt_cons.1 hi.unread
  obtain ⟨hb, -, hu2⟩ := strAt_cons.1 hu1
  have hbehind := hi.behind
  have hsrc2 : m ((src : ℤ) + 2) = m ((src : ℤ) + 1 + 1) := by congr 1
  simp only [List.length_cons] at hl hn
  rw [normLoopTrace, if_pos ha, if_neg (by rw [hb]; decide), if_neg (by rw [hb]; decide), if_pos hb, hsrc2]
  refine Traced.cons ⟨hbehind, trivial⟩ (Traced.cons_read (by omega) (by omega)
    (Traced.cons_read (by omega) (by omega) (Traced.cons_read (by omega) (by omega) ?_)))
  rcases hr with rfl | ⟨t, rfl⟩
  · have hu2' : StrAt m ((src + 2 : ℕ) : ℤ) [] := by
      rw [show ((src + 2 : ℕ) : ℤ) = (src : ℤ) + 1 + 1 by push_cast; ring]
      exact hu2
    have heval : ∀ stk' : List (List UInt8), eval dot stk' (([] : List UInt8).splitOn slash) = eval dot stk' [] := by
      intro stk'
      have hskip : push dot stk' [] = some stk' := push_skip (Or.inl rfl) stk'
      simp only [List.splitOn_nil, eval, hskip, Option.bind_some]
    rw [if_pos hu2.nil, List.splitOn_eq_singleton (by decide), eval]
    have hup := upOneTrace_traced hok hi (Nat.le_add_right src 2) hu2' (by simp) (by simp) hl
    simpa only [heval] using hup
  · obtain ⟨he, -, hu3⟩ := strAt_cons.1 hu2
    have hcut : (dot :: dot :: slash :: t).splitOn slash = [dot, dot] :: t.splitOn slash :=
      splitOn_cut (c := [dot, dot]) (by decide)
    have hu3' : StrAt m ((src + 3 : ℕ) : ℤ) t := by
      rw [show ((src + 3 : ℕ) : ℤ) = (src : ℤ) + 1 + 1 + 1 by push_cast; ring]
      exact hu3
    simp only [List.length_cons] at hl hn
    have hadd := skipSlashes_add hu3' (n := n) (by omega)
    have hlt := (List.dropWhile_sublist (· == slash) (l := t)).length_le
    have hskip := (skipSlashes_spec hu3' (n := n) (by omega)).2
    rw [he, if_neg (by decide), if_pos rfl, hcut, eval]
    apply Traced.append (skipTrace_ok hu3' (by omega))
    simp only [eval_dropWhile t]
    refine upOneTrace_traced hok hi (by omega) hskip (head_dropWhile_slash t) ?_ (by omega)
    simp only [List.length_cons]
    omega

/-- A component other than `.` and `..` is copied, behind the looks that tell it from them. -/
theorem normLoopTrace_copy {f : ℕ} {c r : List UInt8} (hu : StrAt m src (c ++ r)) (hc : slash ∉ c)
    (hr : r = [] ∨ ∃ t, r = slash :: t) (h1 : c ≠ [dot]) (h2 : c ≠ [dot, dot]) (hb : dst ≤ src)
    (hl : src + c.length ≤ l) (h : Traced l o (copyNextTrace n (normLoopTrace n f) m src dst)) :
    Traced l o (normLoopTrace n (f + 1) m src dst) := by
  rw [normLoopTrace]
  refine Traced.cons ⟨hb, trivial⟩ (Traced.cons_read (by omega) (by omega) ?_)
  by_cases hd : m src = dot
  · rw [if_pos hd]
    cases c with
    | nil =>
      -- the component is empty, so that the text goes on with a slash or ends here
      rcases hr with rfl | ⟨t, rfl⟩
      · rw [hu.nil] at hd
        exact absurd hd (by decide)
      · rw [(strAt_cons.1 hu).1] at hd
        exact absurd hd (by decide)
    | cons a c =>
      obtain ⟨ha, -, hu1⟩ := strAt_cons.1 hu
      have hadot : a = dot := ha.symm.trans hd
      subst hadot
      obtain ⟨b, c, rfl⟩ := List.exists_cons_of_ne_nil (fun h : c = [] => h1 (by rw [h]))
      obtain ⟨hmb, hb0, hu2⟩ := strAt_cons.1 hu1
      simp only [List.mem_cons, not_or] at hc
      simp only [List.length_cons] at hl
      rw [if_neg (by rw [hmb]; exact hb0), if_neg (by rw [hmb]; exact fun h => hc.2.1 h.symm)]
      apply Traced.cons_read (by omega) (by omega)
      by_cases hbd : m (src + 1) = dot
      · rw [if_pos hbd]
        have hbdot : b = dot := hmb.symm.trans hbd
        subst hbdot
        obtain ⟨e, c, rfl⟩ := List.exists_cons_of_ne_nil (fun h : c = [] => h2 (by rw [h]))
        obtain ⟨he, he0, -⟩ := strAt_cons.1 hu2
        simp only [List.mem_cons, not_or] at hc
        simp only [List.length_cons] at hl
        have hsrc2 : m ((src : ℤ) + 2) = e := by rw [← he]; congr 1
        rw [if_neg (by rw [hsrc2]; exact he0), if_neg (by rw [hsrc2]; exact fun h => hc.2.2.1 h.symm)]
        exact h.cons_read (by omega) (by omega)
      · rw [if_neg hbd]
        exact h
  · rw [if_neg hd]
    exact h

/-- Any other component. -/
theorem normLoopTrace_name {f : ℕ} {stk : List (List UInt8)} {c r : List UInt8} (hi : LoopInv m src stk (c ++ r))
    (hc : slash ∉ c) (hr : r = [] ∨ ∃ t, r = slash :: t) (h1 : c ≠ [dot]) (h2 : c ≠ [dot, dot])
    (hn : (c ++ r).length < n) (hok : TraceOk n f (c ++ r).length) (hl : src + (c ++ r).length = l) :
    Traced l (eval dot stk ((c ++ r).splitOn slash))
      (normLoopTrace n (f + 1) m src (spell slash stk).length) := by
  have hle : src + c.length ≤ l := by
    rw [List.length_append] at hl
    omega
  apply normLoopTrace_copy hi.unread hc hr h1 h2 hi.behind hle
  rcases hr with rfl | ⟨t, rfl⟩
  · have hu := hi.unread
    rw [List.append_nil] at hu hn hl ⊢
    exact copyNextTrace_last _ stk src hi.kept hu hi.behind hc h1 h2 hn hl
  · have hne : c ≠ [] := by
      rintro rfl
      exact hi.head (by simp)
    rw [splitOn_cut hc, eval, push_name ⟨hne, h1, h2, hc⟩, Option.bind_some]
    refine copyNextTrace_slash hok stk src hi.kept hi.unread hi.behind hi.names hi.nonzero hc hn ?_ hl
    rw [List.length_append, List.length_cons]
    omega

/-- **Every run of the loop is traced.** -/
theorem normLoop_traced : ∀ f k : ℕ, k ≤ f → k ≤ n → TraceOk n f k := by
  intro f
  induction f with
  | zero =>
    intro k hk _ m src l stk u _ hu
    omega
  | succ f ih =>
    intro k hk hkn m src l stk u hi hu hl
    have hok : TraceOk n f u.length := ih u.length (by omega) (by omega)
    have hn : u.length < n := by omega
    obtain ⟨c, r, rfl, hc, hr⟩ := cut_slash u
    by_cases h1 : c = [dot]
    · subst h1; exact normLoopTrace_dot hi hr hn hok hl
    by_cases h2 : c = [dot, dot]
    · subst h2; exact normLoopTrace_dotdot hi hr hn hok hl
    exact normLoopTrace_name hi hc hr h1 h2 hn hok hl

/-! ## The whole function -/

/-- **Every run of the normaliser is traced.** -/
theorem strNormalizePath_traced (hs : StrAt m 0 s) (hn : s.length < n) :
    Traced s.length (resolve slash dot s) (strNormalizePathTrace n m) := by
  have hs0 : StrAt m ((0 : ℕ) : ℤ) s := hs
  have hkept : At m 0 (spell slash []) := trivial
  unfold strNormalizePathTrace
  by_cases hh : s.head? = some slash
  · -- the leading slash puts the root on the stack
    obtain ⟨t, rfl⟩ : ∃ t, s = slash :: t := by
      cases s with
      | nil => simp at hh
      | cons a t => exact ⟨t, by rw [Option.some.inj hh]⟩
    rw [resolve, if_pos rfl]
    refine normLoopTrace_copy (c := []) (r := slash :: t) hs0 (by simp) (Or.inr ⟨t, rfl⟩) (by simp) (by simp) le_rfl
      (by simp) ?_
    simp only [List.length_cons] at hn
    exact copyNextTrace_slash (c := []) (normLoop_traced n n le_rfl le_rfl) [] 0 hkept hs0 le_rfl (by simp) (by simp)
      (by simp) (by simpa using hn) (by omega) (by simp)
  · have hinv : LoopInv m 0 [] s := ⟨hkept, hs0, le_rfl, by simp, by simp, hh⟩
    have hloop := normLoop_traced (n := n) (n + 1) n (by omega) le_rfl hinv hn (Nat.zero_add _)
    have hres : resolve slash dot s = eval dot [] (s.splitOn slash) := by
      cases s with
      | nil => simp [resolve, eval, push]
      | cons a t =>
        have ha : a ≠ slash := fun h => hh (by simp [h])
        rw [resolve, if_neg ha]
    rw [hres]
    exact hloop

/-- **The normaliser does what it is for** to the string `s` in the memory `m`. -/
structure Normalizes (s : List UInt8) (n : ℕ) (m : Mem) : Prop where
  /-- The loop ends, with the text of the stack of `s` or with `RT_NULL`. -/
  computes : (strNormalizePath n m).Computes (resolve slash dot s)
  /-- The text of the stack is a normal path. -/
  normal : ∀ stk, resolve slash dot s = some stk →
    join slash stk = [] ∨ AbsNormal slash dot (join slash stk) ∨ RelNormal slash dot (join slash stk)
  /-- The function leaves that text as it is. -/
  again : ∀ stk, resolve slash dot s = some stk → ∀ n' m', (join slash stk).length < n' →
    StrAt m' 0 (join slash stk) → ∃ m'', strNormalizePath n' m' = .fullpath m'' ∧ StrAt m'' 0 (join slash stk)
  /-- The write position does not overtake the read position. -/
  behind : ∀ a ∈ strNormalizePathTrace n m, a.Behind

/-- **`_str_normalize_path` computes the canonical path** of every string. -/
theorem normalizes (hs : StrAt m 0 s) (hn : s.length < n) : Normalizes s n m where
  computes := strNormalizePath_spec hs hn
  normal := fun _ h => (join_normal (resolve_wf h)).1
  again := by
    intro stk h n' m' hn' hs'
    have hspec := strNormalizePath_spec hs' hn'
    rwa [(join_normal (resolve_wf h)).2] at hspec
  behind := (strNormalizePath_traced hs hn).behind

/-- The text `/a/.../../b/` in a buffer of 16 bytes. -/
theorem normalizes_dots :
    Normalizes (text "/a/.../../b/") 16 (store (fun _ => 0) 0 (text "/a/.../../b/" ++ [0])) :=
  normalizes (strAt_store (by decide) _ _) (by decide)

/-! ## The text that `relative_path_2_absolute` hands over -/

/-- The accesses of `_str_normalize_path` in a call of `relative_path_2_absolute`. -/
def relativePath2AbsoluteTrace (pathFrom : List UInt8) (pathTo : Mem) (toLength : ℕ)
    (absolutePrefix : List UInt8) : List Access :=
  let maxLength := pathFrom.length + absolutePrefix.length + 1 + 1
  if maxLength > toLength then []
  else
    let m := store pathTo 0 (List.replicate toLength 0)
    let m := store m 0 (snprintf toLength (absolutePrefix ++ slash :: pathFrom))
    strNormalizePathTrace toLength m

variable {pathFrom absolutePrefix : List UInt8}

theorem relativePath2Absolute_traced (hp : 0 ∉ absolutePrefix) (hf : 0 ∉ pathFrom)
    (hfit : PathFits pathFrom absolutePrefix n) (buf : Mem) :
    Traced (absolutePrefix ++ slash :: pathFrom).length (resolve slash dot (absolutePrefix ++ slash :: pathFrom))
      (relativePath2AbsoluteTrace pathFrom buf n absolutePrefix) := by
  have h0 : (0 : UInt8) ∉ absolutePrefix ++ slash :: pathFrom := by
    simp only [List.mem_append, List.mem_cons, not_or]
    exact ⟨hp, by decide, hf⟩
  unfold PathFits at hfit
  have hlen : (absolutePrefix ++ slash :: pathFrom).length < n := by
    rw [List.length_append, List.length_cons]
    omega
  simp only [relativePath2AbsoluteTrace]
  rw [if_neg (by omega)]
  exact strNormalizePath_traced (strAt_store_snprintf h0 hlen _ _) hlen

/-- **The normaliser stays inside the text** exactly when the components of the text do not cancel: for
an empty result it looks in front of the buffer. -/
theorem stays_inside_iff (hp : 0 ∉ absolutePrefix) (hf : 0 ∉ pathFrom) (hfit : PathFits pathFrom absolutePrefix n)
    (buf : Mem) :
    (∀ a ∈ relativePath2AbsoluteTrace pathFrom buf n absolutePrefix,
        a.Inside (absolutePrefix ++ slash :: pathFrom).length) ↔
      ¬ Cancels slash dot (absolutePrefix ++ slash :: pathFrom) := by
  have htraced := relativePath2Absolute_traced hp hf hfit buf
  rw [← resolve_nil_iff]
  refine ⟨fun h hnil => ?_, htraced.inside⟩
  have hread : 0 ≤ (-1 : ℤ) := (h _ (htraced.outside hnil)).1
  omega

/-- `img/../x.html` under `/webnet` does not cancel. -/
theorem stays_inside_iff_webnet :
    PathFits (text "img/../x.html") (text "/webnet") maxFilenameLength ∧
      ∀ a ∈ relativePath2AbsoluteTrace (text "img/../x.html") (fun _ => 0) maxFilenameLength (text "/webnet"),
        a.Inside (text "/webnet" ++ slash :: text "img/../x.html").length := by
  have hfit : PathFits (text "img/../x.html") (text "/webnet") maxFilenameLength := by unfold PathFits; decide
  refine ⟨hfit, (stays_inside_iff (by decide) (by decide) hfit _).2 ?_⟩
  rintro ⟨habs, -⟩
  exact absurd habs (by decide)

/-- **`../..` under `/a` makes the normaliser look in front of its buffer.** -/
theorem climbing_reads_before_buffer :
    PathFits (text "../..") (text "/a") maxFilenameLength ∧
      ¬ ∀ a ∈ relativePath2AbsoluteTrace (text "../..") (fun _ => 0) maxFilenameLength (text "/a"),
        a.Inside (text "/a" ++ slash :: text "../..").length := by
  have hfit : PathFits (text "../..") (text "/a") maxFilenameLength := by unfold PathFits; decide
  refine ⟨hfit, fun h => ?_⟩
  have htraced := relativePath2Absolute_traced (by decide) (by decide) hfit fun _ => 0
  have hread : 0 ≤ (-1 : ℤ) := (h _ (htraced.outside (by decide))).1
  omega

end W601
