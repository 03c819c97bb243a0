import Mathlib

/-!
# Component paths

Paths over an arbitrary alphabet, cut into components at a separator, and their
left-to-right evaluation against a stack of kept components (top first). The root
separator of an absolute path is the empty component at the bottom of the stack.

* `eval`: the stack after a list of components, `none` when a parent component
  finds the stack empty.
* `resolve`: the stack of a whole text.
* `join`: the text of a stack, without a trailing separator (except the root).
* `resolve_append`: resolving `p / r` resolves `p` and evaluates the components of
  `r` on top of it.
* `join_under`: a stack that keeps a base stack below it spells a path under the
  base path.
-/

namespace CompPath

variable {α : Type*} [DecidableEq α] (sep dot : α)

/-- One component against the stack: empty and `.` components vanish, `..` pops. -/
def push (stk : List (List α)) (c : List α) : Option (List (List α)) :=
  if c = [] ∨ c = [dot] then some stk
  else if c = [dot, dot] then
    match stk with
    | [] => none
    | _ :: below => some below
  else some (c :: stk)

/-- The components of a path, in order, against the stack. -/
def eval (stk : List (List α)) : List (List α) → Option (List (List α))
  | [] => some stk
  | c :: cs => (push dot stk c).bind fun stk' => eval stk' cs

/-- The stack of a text. A leading separator puts the root at the bottom. -/
def resolve (s : List α) : Option (List (List α)) :=
  match s with
  | [] => some []
  | a :: t => if a = sep then eval dot [[]] (t.splitOn sep) else eval dot [] (s.splitOn sep)

/-- The stack written out with a separator after each component. -/
def spell : List (List α) → List α
  | [] => []
  | c :: stk => spell stk ++ c ++ [sep]

/-- The text of a stack. -/
def join : List (List α) → List α
  | [] => []
  | c :: stk => if c = [] ∧ stk = [] then [sep] else spell sep stk ++ c

/-- A component that evaluation keeps. -/
def Name (c : List α) : Prop := c ≠ [] ∧ c ≠ [dot] ∧ c ≠ [dot, dot] ∧ sep ∉ c

/-- An absolute path with no empty, `.` or `..` component. -/
def AbsNormal (p : List α) : Prop :=
  ∃ t, p = sep :: t ∧ (t = [] ∨ ∀ c ∈ t.splitOn sep, c ≠ [] ∧ c ≠ [dot] ∧ c ≠ [dot, dot])

/-- A path that starts in the current directory, with no empty, `.` or `..` component. -/
def RelNormal (p : List α) : Prop := ∀ c ∈ p.splitOn sep, c ≠ [] ∧ c ≠ [dot] ∧ c ≠ [dot, dot]

/-- `p` is the directory `base` or lies below it. The root ends in its own separator. -/
def Under (base p : List α) : Prop := p = base ∨ base ++ [sep] <+: p ∨ base = [sep] ∧ [sep] <+: p

variable {sep dot}

omit [DecidableEq α] in
@[simp] theorem spell_nil : spell sep ([] : List (List α)) = [] := rfl

omit [DecidableEq α] in
@[simp] theorem spell_cons (c : List α) (stk : List (List α)) :
    spell sep (c :: stk) = spell sep stk ++ c ++ [sep] := rfl

theorem push_name {c : List α} (h : Name sep dot c) (stk : List (List α)) :
    push dot stk c = some (c :: stk) := by
  obtain ⟨h1, h2, h3, -⟩ := h
  simp [push, h1, h2, h3]

theorem push_skip {c : List α} (h : c = [] ∨ c = [dot]) (stk : List (List α)) :
    push dot stk c = some stk := by
  simp [push, h]

theorem eval_append (cs ds : List (List α)) : ∀ stk : List (List α),
    eval dot stk (cs ++ ds) = (eval dot stk cs).bind fun stk' => eval dot stk' ds := by
  induction cs with
  | nil => intro stk; rfl
  | cons c cs ih =>
    intro stk
    simp only [List.cons_append, eval]
    cases push dot stk c with
    | none => rfl
    | some stk' => exact ih stk'

theorem eval_names {cs : List (List α)} (h : ∀ c ∈ cs, Name sep dot c) : ∀ stk : List (List α),
    eval dot stk cs = some (cs.reverse ++ stk) := by
  induction cs with
  | nil => intro stk; rfl
  | cons c cs ih =>
    intro stk
    rw [eval, push_name (h c List.mem_cons_self), Option.bind_some,
      ih (fun d hd => h d (List.mem_cons_of_mem _ hd))]
    simp

/-- **Resolving `p / r`** resolves `p` and evaluates the components of `r` on top of it. -/
theorem resolve_append (p r : List α) (hp : p ≠ []) :
    resolve sep dot (p ++ sep :: r) =
      (resolve sep dot p).bind fun stk => eval dot stk (r.splitOn sep) := by
  cases p with
  | nil => exact absurd rfl hp
  | cons a t =>
    simp only [resolve, List.cons_append]
    split
    · rw [List.splitOn_append_cons_self, eval_append]
    · rw [← List.cons_append, List.splitOn_append_cons_self, eval_append]

/-- Evaluation spells at most the components it reads. -/
theorem eval_length {cs : List (List α)} : ∀ {stk stk' : List (List α)}, eval dot stk cs = some stk' →
    (spell sep stk').length ≤ (spell sep stk).length + (cs.map fun c => c.length + 1).sum := by
  induction cs with
  | nil => intro stk stk' h; simp only [eval, Option.some.injEq] at h; simp [h]
  | cons c cs ih =>
    intro stk stk' h
    simp only [eval, Option.bind_eq_some_iff] at h
    obtain ⟨s1, h1, h2⟩ := h
    have h3 := ih h2
    have h4 : (spell sep s1).length ≤ (spell sep stk).length + (c.length + 1) := by
      unfold push at h1
      split at h1
      · simp only [Option.some.injEq] at h1; rw [h1]; omega
      split at h1
      · cases stk with
        | nil => simp at h1
        | cons d below => simp at h1; subst h1; simp; omega
      · simp only [Option.some.injEq] at h1; rw [← h1]; simp
    rw [List.map_cons, List.sum_cons]
    omega

theorem splitOn_length (s : List α) : ((s.splitOn sep).map fun c => c.length + 1).sum = s.length + 1 := by
  induction s with
  | nil => simp
  | cons a s ih =>
    rw [List.splitOn_cons_eq_if_modifyHead]
    split
    · simp only [List.map_cons, List.sum_cons, ih, List.length_nil, List.length_cons]; omega
    · obtain ⟨d, ds, hd⟩ := List.exists_cons_of_ne_nil (List.splitOn_ne_nil sep s)
      rw [hd] at ih ⊢
      simp only [List.modifyHead_cons, List.map_cons, List.sum_cons, List.length_cons] at ih ⊢
      omega

/-- **A resolved path is not longer than its text.** -/
theorem resolve_length {s : List α} {stk : List (List α)} (h : resolve sep dot s = some stk) :
    (join sep stk).length ≤ s.length := by
  cases s with
  | nil => simp only [resolve, Option.some.injEq] at h; simp [← h, join]
  | cons a t =>
    have hs : (spell sep stk).length ≤ t.length + 2 := by
      simp only [resolve] at h
      split at h
      · have hl : (spell sep stk).length ≤ (spell sep [[]]).length + _ := eval_length h
        rw [splitOn_length] at hl
        simp at hl; omega
      · have hl : (spell sep stk).length ≤ (spell sep []).length + _ := eval_length h
        rw [splitOn_length] at hl
        simpa using hl
    cases stk with
    | nil => simp [join]
    | cons c stk =>
      simp only [join]
      split
      · simp
      · simp at hs ⊢; omega

/-- What a component adds to the height of the stack. -/
def rise (dot : α) (c : List α) : ℤ := if c = [] ∨ c = [dot] then 0 else if c = [dot, dot] then -1 else 1

/-- The height of a stack behind the components, as far as counting goes. -/
def height (dot : α) (start : ℤ) (cs : List (List α)) : ℤ := start + (cs.map (rise dot)).sum

/-- **The components take down exactly what they put up**: names and the root count up, parents count
down, the sum is zero, and no parent comes too early. -/
def Cancels (sep dot : α) (s : List α) : Prop :=
  let start : ℤ := if s.head? = some sep then 1 else 0
  height dot start (s.splitOn sep) = 0 ∧ ∀ cs, cs <+: s.splitOn sep → 0 ≤ height dot start cs

theorem height_cons (start : ℤ) (c : List α) (cs : List (List α)) :
    height dot start (c :: cs) = height dot (start + rise dot c) cs := by
  simp only [height, List.map_cons, List.sum_cons]
  ring

theorem push_height {stk stk' : List (List α)} {c : List α} (h : push dot stk c = some stk') :
    (stk'.length : ℤ) = stk.length + rise dot c := by
  unfold push at h
  unfold rise
  split_ifs at h ⊢
  · rw [← Option.some.inj h, Int.add_zero]
  · cases stk with
    | nil => simp at h
    | cons d below =>
      obtain rfl : below = stk' := by simpa using h
      simp
  · rw [← Option.some.inj h, List.length_cons]
    push_cast
    ring

theorem push_eq_none {stk : List (List α)} {c : List α} (h : push dot stk c = none) :
    (stk.length : ℤ) + rise dot c < 0 := by
  unfold push at h
  unfold rise
  split_ifs at h ⊢
  cases stk with
  | nil => simp
  | cons d below => simp at h

/-- **Evaluation leaves an empty stack exactly when the count comes to zero without going below it.** -/
theorem eval_nil_iff {cs : List (List α)} : ∀ {stk : List (List α)}, eval dot stk cs = some [] ↔
    height dot stk.length cs = 0 ∧ ∀ ds, ds <+: cs → 0 ≤ height dot stk.length ds := by
  induction cs with
  | nil =>
    intro stk
    simp only [eval, height, List.map_nil, List.sum_nil, Int.add_zero, Option.some.injEq]
    constructor
    · rintro rfl
      refine ⟨rfl, fun ds hds => ?_⟩
      rw [List.prefix_nil.1 hds]
      simp
    · rintro ⟨h, -⟩
      exact List.length_eq_zero_iff.1 (by exact_mod_cast h)
  | cons c cs ih =>
    intro stk
    cases hpush : push dot stk c with
    | none =>
      -- the parent that finds nothing takes the count below zero
      have hneg := push_eq_none hpush
      have hone : [c] <+: c :: cs := ⟨cs, rfl⟩
      simp only [eval, hpush, Option.bind_none, reduceCtorEq, false_iff, not_and]
      intro _ hall
      have hge := hall [c] hone
      simp only [height, List.map_cons, List.map_nil, List.sum_cons, List.sum_nil, Int.add_zero] at hge
      omega
    | some stk' =>
      have hlen := push_height hpush
      simp only [eval, hpush, Option.bind_some]
      rw [ih, height_cons, ← hlen]
      refine and_congr_right fun _ => ⟨fun hall ds hds => ?_, fun hall ds hds => ?_⟩
      · rcases List.prefix_cons_iff.1 hds with rfl | ⟨ds', rfl, hds'⟩
        · simp [height]
        · rw [height_cons, ← hlen]
          exact hall ds' hds'
      · have hcons := hall (c :: ds) (List.cons_prefix_cons.2 ⟨rfl, hds⟩)
        rwa [height_cons, ← hlen] at hcons

theorem resolve_nil_iff {s : List α} : resolve sep dot s = some [] ↔ Cancels sep dot s := by
  unfold Cancels
  cases s with
  | nil =>
    have hskip : eval dot ([] : List (List α)) ([[]] : List (List α)) = some [] := by simp [eval, push]
    have hnil := eval_nil_iff.1 hskip
    simpa [resolve] using hnil
  | cons a t =>
    by_cases ha : a = sep
    · subst ha
      have hsplit : (a :: t).splitOn a = [] :: t.splitOn a := List.splitOn_append_cons_self (a := a) [] t
      have hskip : eval dot [[]] ((a :: t).splitOn a) = eval dot [[]] (t.splitOn a) := by
        rw [hsplit, eval, push_skip (Or.inl rfl), Option.bind_some]
      rw [resolve, if_pos rfl, ← hskip, eval_nil_iff]
      simp
    · rw [resolve, if_neg ha, eval_nil_iff]
      simp [ha]

/-- A stack that evaluation can reach: names, above the root or nothing. -/
def Wf (sep dot : α) (stk : List (List α)) : Prop :=
  ∃ names root, stk = names ++ root ∧ (∀ c ∈ names, Name sep dot c) ∧ (root = [] ∨ root = [[]])

theorem push_wf {stk stk' : List (List α)} {c : List α} (hc : sep ∉ c) (hw : Wf sep dot stk)
    (h : push dot stk c = some stk') : Wf sep dot stk' := by
  obtain ⟨names, root, rfl, hn, hr⟩ := hw
  unfold push at h
  split at h
  · simp only [Option.some.injEq] at h
    exact ⟨names, root, h.symm, hn, hr⟩
  rename_i hskip
  split at h
  · -- a parent component pops a name, or the root when no name is left
    cases names with
    | nil =>
      rcases hr with rfl | rfl
      · simp at h
      · simp at h; exact ⟨[], [], by simp [← h], by simp, Or.inl rfl⟩
    | cons d names =>
      simp at h
      exact ⟨names, root, h.symm, fun c hc => hn c (List.mem_cons_of_mem _ hc), hr⟩
  · rename_i hdd
    simp only [Option.some.injEq] at h
    push Not at hskip
    refine ⟨c :: names, root, by simp [← h], ?_, hr⟩
    intro d hd
    rcases List.mem_cons.1 hd with rfl | hd
    · exact ⟨hskip.1, hskip.2, hdd, hc⟩
    · exact hn d hd

theorem eval_wf {cs : List (List α)} (hcs : ∀ c ∈ cs, sep ∉ c) : ∀ {stk stk' : List (List α)},
    Wf sep dot stk → eval dot stk cs = some stk' → Wf sep dot stk' := by
  induction cs with
  | nil => intro stk stk' hw h; simp only [eval, Option.some.injEq] at h; exact h ▸ hw
  | cons c cs ih =>
    intro stk stk' hw h
    simp only [eval, Option.bind_eq_some_iff] at h
    obtain ⟨s1, h1, h2⟩ := h
    exact ih (fun d hd => hcs d (List.mem_cons_of_mem _ hd))
      (push_wf (hcs c List.mem_cons_self) hw h1) h2

/-- The components of a text hold no separator. -/
theorem sep_notMem_splitOn (s : List α) : ∀ c ∈ s.splitOn sep, sep ∉ c := by
  induction s with
  | nil => simp
  | cons a s ih =>
    rw [List.splitOn_cons_eq_if_modifyHead]
    split
    · intro c hc
      rcases List.mem_cons.1 hc with rfl | hc
      · simp
      · exact ih c hc
    · rename_i ha
      have ha' : sep ≠ a := fun h => ha (by simp [h])
      obtain ⟨d, ds, hd⟩ := List.exists_cons_of_ne_nil (List.splitOn_ne_nil sep s)
      rw [hd] at ih ⊢
      intro c hc
      simp only [List.modifyHead_cons, List.mem_cons] at hc
      rcases hc with rfl | hc
      · have := ih d List.mem_cons_self
        simp [ha', this]
      · exact ih c (List.mem_cons_of_mem _ hc)

/-- The text of an absolute path with the given components. -/
def absText (sep : α) (cs : List (List α)) : List α :=
  if cs = [] then [sep] else cs.flatMap (sep :: ·)

omit [DecidableEq α] in
theorem spell_abs (cs : List (List α)) :
    spell sep (cs.reverse ++ [[]]) = cs.flatMap (sep :: ·) ++ [sep] := by
  induction cs using List.reverseRecOn with
  | nil => rfl
  | append_singleton cs c ih =>
    rw [List.reverse_append, List.reverse_singleton, List.singleton_append, List.cons_append, spell_cons,
      ih, List.flatMap_append]
    simp

omit [DecidableEq α] in
theorem join_abs (cs : List (List α)) : join sep (cs.reverse ++ [[]]) = absText sep cs := by
  rcases List.eq_nil_or_concat cs with rfl | ⟨ds, c, rfl⟩
  · simp [join, absText]
  · rw [List.concat_eq_append, List.reverse_append, List.reverse_singleton, List.singleton_append,
      List.cons_append, join, absText, if_neg (by simp), if_neg (by simp), spell_abs]
    simp

theorem splitOn_flatMap {c : List α} {cs : List (List α)} (hc : sep ∉ c) (h : ∀ d ∈ cs, sep ∉ d) :
    (c ++ cs.flatMap (sep :: ·)).splitOn sep = c :: cs := by
  induction cs generalizing c with
  | nil => simp [List.splitOn_eq_singleton hc]
  | cons d ds ih =>
    rw [List.flatMap_cons, List.cons_append, List.splitOn_append_cons_self_of_not_mem hc,
      ih (h d List.mem_cons_self) (fun e he => h e (List.mem_cons_of_mem _ he))]

theorem absNormal_absText {cs : List (List α)} (h : ∀ c ∈ cs, Name sep dot c) :
    AbsNormal sep dot (absText sep cs) := by
  cases cs with
  | nil => exact ⟨[], by simp [absText], Or.inl rfl⟩
  | cons c cs =>
    refine ⟨c ++ cs.flatMap (sep :: ·), by simp [absText], Or.inr ?_⟩
    rw [splitOn_flatMap (h c List.mem_cons_self).2.2.2
      (fun d hd => (h d (List.mem_cons_of_mem _ hd)).2.2.2)]
    intro d hd
    exact ⟨(h d hd).1, (h d hd).2.1, (h d hd).2.2.1⟩

/-- **A normal absolute path resolves to its components, above the root.** -/
theorem AbsNormal.resolve_eq {p : List α} (hp : AbsNormal sep dot p) :
    ∃ cs, (∀ c ∈ cs, Name sep dot c) ∧ resolve sep dot p = some (cs.reverse ++ [[]]) ∧
      p = absText sep cs := by
  obtain ⟨t, rfl, rfl | ht⟩ := hp
  · exact ⟨[], by simp, by simp [resolve, eval, push], by simp [absText]⟩
  · have hn : ∀ c ∈ t.splitOn sep, Name sep dot c := fun c hc =>
      ⟨(ht c hc).1, (ht c hc).2.1, (ht c hc).2.2, sep_notMem_splitOn t c hc⟩
    refine ⟨t.splitOn sep, hn, by rw [resolve, if_pos rfl, eval_names hn], ?_⟩
    obtain ⟨c, cs, hcs⟩ := List.exists_cons_of_ne_nil (List.splitOn_ne_nil sep t)
    have hj : [sep].intercalate (t.splitOn sep) = t := List.intercalate_splitOn sep
    rw [hcs] at hj ⊢
    have : ∀ (l : List (List α)) (c : List α), [sep].intercalate (c :: l) = c ++ l.flatMap (sep :: ·) := by
      intro l
      induction l with
      | nil => intro c; simp
      | cons d l ih => intro c; rw [List.intercalate_cons_cons, ih]; simp
    rw [this] at hj
    simp [absText, hj]

omit [DecidableEq α] in
theorem under_absText (cs ds : List (List α)) : Under sep (absText sep cs) (absText sep (cs ++ ds)) := by
  rcases ds with _ | ⟨d, ds⟩
  · left; simp
  · right
    rcases cs with _ | ⟨c, cs⟩
    · right; exact ⟨by simp [absText], by simp [absText]⟩
    · left
      refine ⟨d ++ ds.flatMap (sep :: ·), ?_⟩
      simp [absText]

/-- **A stack that keeps an absolute base stack below it spells a normal path under the base.** -/
theorem join_under {base : List (List α)} {cs : List (List α)} (hbase : base = cs.reverse ++ [[]])
    (hcs : ∀ c ∈ cs, Name sep dot c) {stk : List (List α)} (hw : Wf sep dot stk) (hsuf : base <:+ stk) :
    AbsNormal sep dot (join sep stk) ∧ Under sep (join sep base) (join sep stk) := by
  obtain ⟨above, rfl⟩ := hsuf
  -- the root of `base` is the bottom of the whole stack, so what stands above are names
  have habove : ∀ c ∈ above, Name sep dot c := by
    obtain ⟨names, root, heq, hn, hr⟩ := hw
    subst hbase
    have hmem : ∀ c ∈ above, c ∈ names := by
      have hlen := congrArg List.length heq
      rcases hr with rfl | rfl
      · intro c hc
        have : c ∈ names ++ [] := heq ▸ List.mem_append_left _ hc
        simpa using this
      · rw [← List.append_assoc] at heq
        have := List.append_inj_left' heq rfl
        intro c hc
        rw [← this]; exact List.mem_append_left _ hc
    exact fun c hc => hn c (hmem c hc)
  subst hbase
  have hcat : above ++ (cs.reverse ++ [[]]) = (cs ++ above.reverse).reverse ++ [[]] := by simp
  rw [hcat, join_abs, join_abs]
  refine ⟨absNormal_absText ?_, under_absText _ _⟩
  intro c hc
  rcases List.mem_append.1 hc with hc | hc
  · exact hcs c hc
  · exact habove c (List.mem_reverse.1 hc)

/-! ## Normal texts -/

theorem resolve_wf {s : List α} {stk : List (List α)} (h : resolve sep dot s = some stk) : Wf sep dot stk := by
  have hnil : Wf sep dot ([] : List (List α)) := ⟨[], [], rfl, by simp, Or.inl rfl⟩
  cases s with
  | nil =>
    obtain rfl : [] = stk := Option.some.inj h
    exact hnil
  | cons a t =>
    simp only [resolve] at h
    split_ifs at h
    · exact eval_wf (sep_notMem_splitOn t) ⟨[], [[]], rfl, by simp, Or.inr rfl⟩ h
    · exact eval_wf (sep_notMem_splitOn _) hnil h

/-- The text of a path of names is cut into them again. -/
theorem splitOn_join {c : List α} {stk : List (List α)} (h : ∀ d ∈ c :: stk, sep ∉ d) :
    (spell sep stk ++ c).splitOn sep = (c :: stk).reverse := by
  induction stk generalizing c with
  | nil =>
    rw [spell_nil, List.nil_append, List.splitOn_eq_singleton (h c List.mem_cons_self)]
    rfl
  | cons d stk ih =>
    rw [spell_cons, List.append_assoc, List.singleton_append, List.splitOn_append_cons_self,
      ih fun e he => h e (List.mem_cons_of_mem _ he), List.splitOn_eq_singleton (h c List.mem_cons_self)]
    simp

theorem resolve_absText {cs : List (List α)} (h : ∀ c ∈ cs, Name sep dot c) :
    resolve sep dot (absText sep cs) = some (cs.reverse ++ [[]]) := by
  cases cs with
  | nil => simp [absText, resolve, eval, push]
  | cons c cs =>
    have hsplit : (c ++ cs.flatMap (sep :: ·)).splitOn sep = c :: cs :=
      splitOn_flatMap (h c List.mem_cons_self).2.2.2 fun d hd => (h d (List.mem_cons_of_mem _ hd)).2.2.2
    have htext : absText sep (c :: cs) = sep :: (c ++ cs.flatMap (sep :: ·)) := by simp [absText]
    rw [htext, resolve, if_pos rfl, hsplit, eval_names h]

/-- **The text of a stack is normal, and resolves to the stack.** -/
theorem join_normal {stk : List (List α)} (hw : Wf sep dot stk) :
    (join sep stk = [] ∨ AbsNormal sep dot (join sep stk) ∨ RelNormal sep dot (join sep stk)) ∧
      resolve sep dot (join sep stk) = some stk := by
  obtain ⟨names, root, rfl, hn, rfl | rfl⟩ := hw
  · rw [List.append_nil]
    cases names with
    | nil => exact ⟨Or.inl rfl, rfl⟩
    | cons c stk =>
      have hne : ¬ (c = [] ∧ stk = []) := fun h => (hn c List.mem_cons_self).1 h.1
      have hsplit : (join sep (c :: stk)).splitOn sep = (c :: stk).reverse := by
        rw [join, if_neg hne]
        exact splitOn_join fun d hd => (hn d hd).2.2.2
      have hnames : ∀ d ∈ (c :: stk).reverse, Name sep dot d := fun d hd => hn d (List.mem_reverse.1 hd)
      refine ⟨Or.inr (Or.inr fun d hd => ?_), ?_⟩
      · rw [hsplit] at hd
        obtain ⟨h1, h2, h3, -⟩ := hnames d hd
        exact ⟨h1, h2, h3⟩
      · -- the text does not start with a separator, since its first component is a name
        cases hj : join sep (c :: stk) with
        | nil =>
          rw [hj, List.splitOn_nil] at hsplit
          exact absurd rfl (hnames [] (by rw [← hsplit]; exact List.mem_singleton_self _)).1
        | cons a t =>
          have ha : a ≠ sep := by
            rintro rfl
            have hcut : (a :: t).splitOn a = [] :: t.splitOn a := List.splitOn_append_cons_self (a := a) [] t
            rw [hj, hcut] at hsplit
            exact absurd rfl (hnames [] (by rw [← hsplit]; exact List.mem_cons_self)).1
          rw [resolve, if_neg ha, ← hj, hsplit, eval_names hnames, List.append_nil, List.reverse_reverse]
  · have hrev : names ++ [[]] = names.reverse.reverse ++ [[]] := by rw [List.reverse_reverse]
    have hn' : ∀ c ∈ names.reverse, Name sep dot c := fun c hc => hn c (List.mem_reverse.1 hc)
    rw [hrev, join_abs]
    exact ⟨Or.inr (Or.inl (absNormal_absText hn')), resolve_absText hn'⟩

end CompPath
