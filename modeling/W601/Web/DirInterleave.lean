import W601.Web.DirEffect

/-!
# Interleaved directory uploads

The events of two uploads may alternate in any order. All sessions share `old_filename`, and the file
system.

* `owned_step`: each session in progress holds no descriptor or one of its own, on one of its files.
* `Sim`: the interleaved run and the run of one session alone agree on the files of that session,
  on the directories above them up to directories made by others, and on what its descriptor
  points at.
* `interleaving_harmless`: as long as each chunk finds in `old_filename` the same answer as when its
  session runs alone, and no session needs a directory where the other has a file, each file ends
  with the content it has when its session runs alone.
-/

namespace W601.DirUpload

open CMem Cells Dfs

/-! ## Every session keeps its own descriptor -/

section Runs

variable {T : ℕ → Set (List UInt8)} {live : Live} {s : DirState}

theorem Holds.mono_lookup {U : Set (List UInt8)} {d d' : Dfs} {fd : ℤ} (h : Holds U d fd)
    (hl : ∀ f, d.lookup fd = some f → d'.lookup fd = some f) : Holds U d' fd :=
  h.imp_right fun ⟨f, hf, hU⟩ => ⟨f, hl f hf, hU⟩

/-- A session whose manager is renewed: the others keep their descriptors. -/
theorem Owned.renew {y : ℕ} {base : Option (List UInt8)} {s' : DirState} {m' : UploadMgr}
    (h : Owned T live s) (hm : s'.mgr = Function.update s.mgr y (some m'))
    (hb : ∀ b, base = some b → m'.basePath = some b ∧ Holds (T y) s'.dfs m'.fd)
    (ho : ∀ z, z ≠ y → (live z).isSome → ∀ k, s.mgr z = some k → 0 < k.fd →
      m'.fd ≠ k.fd ∧ ∀ f, s.dfs.lookup k.fd = some f → s'.dfs.lookup k.fd = some f) :
    Owned T (Function.update live y base) s' := by
  have hother : ∀ z, z ≠ y → s'.mgr z = s.mgr z := fun z hz => by rw [hm, Function.update_of_ne hz]
  have hself : s'.mgr y = some m' := by rw [hm, Function.update_self]
  refine ⟨fun z b hz => ?_, fun z w hzw hz hw k l hk hl hpos => ?_⟩
  · by_cases hzy : z = y
    · subst hzy
      rw [Function.update_self] at hz
      exact ⟨m', hself, hb b hz⟩
    · rw [Function.update_of_ne hzy] at hz
      obtain ⟨k, hk, hkb, hkh⟩ := h.holds z b hz
      refine ⟨k, (hother z hzy).trans hk, hkb, ?_⟩
      by_cases hpos : 0 < k.fd
      · exact hkh.mono_lookup (ho z hzy (by simp [hz]) k hk hpos).2
      · exact Or.inl (by omega)
  · by_cases hzy : z = y
    · subst hzy
      have hwy : w ≠ z := fun he => hzw he.symm
      rw [Function.update_of_ne hwy] at hw
      rw [hother w hwy] at hl
      obtain rfl := Option.some.inj (hself.symm.trans hk)
      by_cases hl0 : 0 < l.fd
      · exact (ho w hwy hw l hl hl0).1
      · omega
    · rw [Function.update_of_ne hzy] at hz
      rw [hother z hzy] at hk
      by_cases hwy : w = y
      · subst hwy
        obtain rfl := Option.some.inj (hself.symm.trans hl)
        exact (ho z hzy hz k hk hpos).1.symm
      · rw [Function.update_of_ne hwy] at hw
        rw [hother w hwy] at hl
        exact h.distinct z w hzw hz hw k l hk hl hpos

/-- A session that ends: the others keep their descriptors. -/
theorem Owned.drop {y : ℕ} {s' : DirState} (h : Owned T live s)
    (hm : ∀ z, z ≠ y → s'.mgr z = s.mgr z)
    (ho : ∀ z, z ≠ y → (live z).isSome → ∀ k, s.mgr z = some k → 0 < k.fd →
      ∀ f, s.dfs.lookup k.fd = some f → s'.dfs.lookup k.fd = some f) :
    Owned T (Function.update live y none) s' := by
  refine ⟨fun z b hz => ?_, fun z w hzw hz hw k l hk hl hpos => ?_⟩
  · by_cases hzy : z = y
    · subst hzy; simp at hz
    · rw [Function.update_of_ne hzy] at hz
      obtain ⟨k, hk, hkb, hkh⟩ := h.holds z b hz
      refine ⟨k, (hm z hzy).trans hk, hkb, ?_⟩
      by_cases hpos : 0 < k.fd
      · exact hkh.mono_lookup (ho z hzy (by simp [hz]) k hk hpos)
      · exact Or.inl (by omega)
  · have hzy : z ≠ y := by rintro rfl; simp at hz
    have hwy : w ≠ y := by rintro rfl; simp at hw
    rw [Function.update_of_ne hzy] at hz
    rw [Function.update_of_ne hwy] at hw
    rw [hm z hzy] at hk
    rw [hm w hwy] at hl
    exact h.distinct z w hzw hz hw k l hk hl hpos

/-- The descriptor of another session in progress is in use, and is not that of `y`. -/
theorem Owned.other {y z : ℕ} (h : Owned T live s) (hzy : z ≠ y) (hz : (live z).isSome)
    (hy : (live y).isSome) {m k : UploadMgr} (hm : s.mgr y = some m) (hk : s.mgr z = some k)
    (hpos : 0 < k.fd) : k.fd ≠ m.fd ∧ ∃ f, s.dfs.lookup k.fd = some f := by
  obtain ⟨base, hb⟩ := Option.isSome_iff_exists.1 hz
  obtain ⟨k', hk', -, hh⟩ := h.holds z base hb
  obtain rfl := Option.some.inj (hk'.symm.trans hk)
  obtain ⟨f, hf, -⟩ := hh.resolve_left (by omega)
  exact ⟨h.distinct z y hzy hz hy k' m hk hm hpos, f, hf⟩

/-- **Every event keeps the descriptors apart.** -/
theorem owned_step {e : DirEv} (h : Owned T live s) (he : EvOk T live e) :
    Owned T (liveStep live e) (step s e) := by
  cases e with
  | opened y path mem =>
    cases mem with
    | false =>
      exact h.drop (fun z hz => by simp [step, uploadOpen, Function.update_of_ne hz])
        (fun _ _ _ _ _ _ _ hf => hf)
    | true =>
      have hm : (step s (.opened y path true)).mgr = Function.update s.mgr y (some ⟨0, 0, 0, path⟩) := rfl
      refine h.renew hm (fun b hb => ⟨hb, Or.inl le_rfl⟩) ?_
      intro z _ _ k _ hpos
      refine ⟨?_, fun f hf => hf⟩
      simp only; omega
  | write y name data stack io =>
    obtain ⟨⟨base, hlive, hT⟩, -⟩ := he
    obtain ⟨m, hm, hb, hh⟩ := h.holds y base hlive
    obtain ⟨hlong, hshort⟩ := step_write name data stack io hm hb
    by_cases hn : name.length > 127
    · rw [hlong hn]; exact h
    · obtain ⟨h1, h2, -⟩ := hshort (by omega)
      have heff := chunk_effect io hh hT (decide (s.oldFilename ≠ name)) data
      -- the session stays in progress, with the manager that the chunk leaves
      have hlive' : liveStep live (.write y name data stack io) = Function.update live y (some base) := by
        rw [← hlive, Function.update_eq_self]; rfl
      rw [hlive']
      refine h.renew h2 (fun b hb' => ⟨?_, by rw [h1]; exact heff.holds⟩) ?_
      · rw [heff.base, hb, hb']
      · intro z hzy hz k hk hpos
        obtain ⟨hne, f, hf⟩ := h.other hzy hz (by simp [hlive]) hm hk hpos
        obtain ⟨h3, h4⟩ := heff.others k.fd f hne hf
        refine ⟨h3, fun g hg => ?_⟩
        rw [h1, h4, ← hf, hg]
  | done y =>
    obtain ⟨base, hlive⟩ := he
    obtain ⟨m, hm, -, -⟩ := h.holds y base hlive
    refine h.drop (fun z _ => by simp [step, uploadDone, hm]) ?_
    intro z hzy hz k hk hpos f hf
    obtain ⟨hne, -⟩ := h.other hzy hz (by simp [hlive]) hm hk hpos
    simp only [step, uploadDone, hm, close_lookup, if_neg hne, hf]
  | closed y =>
    exact h.drop (fun z hz => by simp [step, uploadClose, Function.update_of_ne hz])
      (fun _ _ _ _ _ _ _ hf => hf)

/-! ## The interleaved run and the session alone -/

/-- The managers of one session in two runs: no descriptor in both, or descriptors at the same
place of the same file. -/
def SameFd (U : Set (List UInt8)) (d e : Dfs) (m k : UploadMgr) : Prop :=
  (m.fd ≤ 0 ∧ k.fd ≤ 0) ∨
    (0 < m.fd ∧ 0 < k.fd ∧ ∃ f, d.lookup m.fd = some f ∧ e.lookup k.fd = some f ∧ f.path ∈ U)

/-- **The interleaved state `s` and the state `r` of a session alone** agree on the session's files
`U` and on its descriptor, while it is in progress with the directory `base`. -/
structure Sim (U : Set (List UInt8)) (x : ℕ) (base : Option (List UInt8)) (s r : DirState) : Prop where
  rel : Rel U s.dfs r.dfs
  mgr : ∀ b, base = some b → ∃ m k, s.mgr x = some m ∧ r.mgr x = some k ∧ m.basePath = some b ∧
    k.basePath = some b ∧ SameFd U s.dfs r.dfs m k

/-- The same chunk written in both. -/
theorem put_sim {U : Set (List UInt8)} {d e : Dfs} {m k : UploadMgr} (io : Io) (data : List UInt8)
    (hr : Rel U d e) (hs : SameFd U d e m k) :
    Rel U (put io d m data) (put io e k data) ∧
      SameFd U (put io d m data) (put io e k data) m k := by
  rcases hs with ⟨hm, hk⟩ | ⟨hm, hk, f, hdf, hef, hU⟩
  · simp only [put, if_neg (not_lt.2 hm), if_neg (not_lt.2 hk), gt_iff_lt]
    exact ⟨hr, Or.inl ⟨hm, hk⟩⟩
  simp only [put, if_pos hm, if_pos hk, gt_iff_lt]
  have hc : d.content f.path = e.content f.path := by simp only [Dfs.content, hr.targets _ hU]
  cases ha : io.accept with
  | none =>
    have hd : (d.write io m.fd data).1.tree = d.tree ∧ (d.write io m.fd data).1.fds = d.fds := by
      simp [Dfs.write, hdf, ha]
    have he : (e.write io k.fd data).1.tree = e.tree ∧ (e.write io k.fd data).1.fds = e.fds := by
      simp [Dfs.write, hef, ha]
    refine ⟨hr.of_tree hd.1 he.1, Or.inr ⟨hm, hk, f, ?_, ?_, hU⟩⟩
    · rw [lookup_eq hd.2, hdf]
    · rw [lookup_eq he.2, hef]
  | some n =>
    -- the file may be gone from the tree while its descriptor is open
    cases hce : e.content f.path with
    | none =>
      rw [hce] at hc
      obtain ⟨hd1, hd2⟩ := write_noFile data hdf hc
      obtain ⟨he1, he2⟩ := write_noFile data hef hce
      refine ⟨hr.of_tree (hd1 io) (he1 io), Or.inr ⟨hm, hk, f, ?_, ?_, hU⟩⟩
      · rw [lookup_eq (hd2 io), hdf]
      · rw [lookup_eq (he2 io), hef]
    | some c =>
      rw [hce] at hc
      obtain ⟨-, hd1, hd2⟩ := write_spec data hdf hc ha
      obtain ⟨-, he1, he2⟩ := write_spec data hef hce ha
      refine ⟨hr.update _ _ hd1 he1,
        Or.inr ⟨hm, hk, ⟨f.path, f.pos + (data.take n).length⟩, ?_, ?_, ?_⟩⟩
      · rw [hd2, if_pos rfl]
      · rw [he2, if_pos rfl]
      · exact hU

/-- The same file reopened in both. -/
theorem reopen_sim {U : Set (List UInt8)} {d e : Dfs} {io : Io} {m k : UploadMgr} {p : List UInt8}
    (hio : ∀ q, io.mkdirOk q = true) (hr : Rel U d e) (hp : p ∈ U) :
    Rel U (reopen io d m p).1 (reopen io e k p).1 ∧
      SameFd U (reopen io d m p).1 (reopen io e k p).1 (reopen io d m p).2 (reopen io e k p).2 := by
  unfold reopen
  set d0 := if m.fd > 0 then d.close m.fd else d with hd0
  set e0 := if k.fd > 0 then e.close k.fd else e with he0
  have hr0 : Rel U d0 e0 := hr.of_tree (ite_close_tree d m.fd) (ite_close_tree e k.fd)
  have hmem : [] ++ p ∈ U := by simpa using hp
  obtain ⟨h1, h2⟩ := createLoop_rel hio p hr0 hmem
  refine ⟨h1, ?_⟩
  rcases createFileByPath_cases io d0 p with ⟨h3, -⟩ | h3
  · left
    -- it fails in both
    have hle : ¬ 0 < (createFileByPath io e0 p).2 := fun h => by
      have := h2.2 h
      unfold createFileByPath at h3
      omega
    simp only [h3]
    omega
  · right
    have hpos : 0 < (createFileByPath io e0 p).2 := h2.1 h3.pos
    rcases createFileByPath_cases io e0 p with ⟨h4, -⟩ | h4
    · omega
    · exact ⟨h3.pos, h4.pos, _, h3.entry, h4.entry, hp⟩

/-- **A chunk of the session itself**, met with the same answer of `old_filename`. -/
theorem chunk_sim {U : Set (List UInt8)} {d e : Dfs} {io : Io} {m k : UploadMgr} {p : List UInt8}
    (hio : ∀ q, io.mkdirOk q = true) (hr : Rel U d e) (hs : SameFd U d e m k) (hp : p ∈ U) (fresh : Bool)
    (data : List UInt8) :
    Rel U (chunkStep fresh io d m p data).1 (chunkStep fresh io e k p data).1 ∧
      SameFd U (chunkStep fresh io d m p data).1 (chunkStep fresh io e k p data).1
        (chunkStep fresh io d m p data).2 (chunkStep fresh io e k p data).2 := by
  cases fresh with
  | false => exact put_sim io data hr hs
  | true =>
    obtain ⟨h1, h2⟩ := reopen_sim (m := m) (k := k) hio hr hp
    exact put_sim io data h1 h2

/-- What `old_filename` holds after an event. -/
def lastName (old : List UInt8) : DirEv → List UInt8
  | .write _ name _ _ _ => if name.length > 127 then old else name
  | _ => old

theorem step_old {e : DirEv} (he : EvOk T live e)
    (hm : ∀ b, live e.sid = some b → ∃ m, s.mgr e.sid = some m ∧ m.basePath = some b) :
    (step s e).oldFilename = lastName s.oldFilename e := by
  cases e with
  | opened y path mem => rfl
  | write y name data stack io =>
    obtain ⟨⟨b, hlive, -⟩, -⟩ := he
    obtain ⟨m, hm, hb⟩ := hm b hlive
    simp only [DirEv.sid] at hm
    obtain ⟨hlong, hshort⟩ := step_write name data stack io hm hb
    by_cases hn : name.length > 127
    · rw [hlong hn, lastName, if_pos hn]
    · rw [(hshort (by omega)).2.2, lastName, if_neg hn]
  | done y => simp only [step, uploadDone]; split <;> rfl
  | closed y => rfl

/-- The event gets the same answer from `old_filename`, whether it holds `old` or `ox`. -/
def Meets (old ox : List UInt8) : DirEv → Prop
  | .write _ name _ _ _ => name.length ≤ 127 → (old = name ↔ ox = name)
  | _ => True

/-- **Every chunk of session `x` meets the answer it would meet alone.** `old` is `old_filename` in
the whole run, `ox` in the run of the session alone. -/
def Steady (x : ℕ) : List UInt8 → List UInt8 → List DirEv → Prop
  | _, _, [] => True
  | old, ox, e :: es =>
    if e.sid = x then Meets old ox e ∧ Steady x (lastName old e) (lastName ox e) es
    else Steady x (lastName old e) ox es

/-- An event of the session itself, in both runs. -/
theorem sim_own {r : DirState} {e : DirEv} (h : Sim (T e.sid) e.sid (live e.sid) s r)
    (he : EvOk T live e) (hme : Meets s.oldFilename r.oldFilename e) :
    Sim (T e.sid) e.sid (liveStep live e e.sid) (step s e) (step r e) := by
  cases e with
  | opened x path mem =>
    refine ⟨h.rel, fun b hb => ?_⟩
    simp only [liveStep, DirEv.sid, Function.update_self] at hb
    cases mem with
    | false => simp at hb
    | true =>
      refine ⟨⟨0, 0, 0, path⟩, ⟨0, 0, 0, path⟩, ?_, ?_, hb, hb, Or.inl ⟨le_rfl, le_rfl⟩⟩ <;>
        simp [step, uploadOpen, DirEv.sid]
  | write x name data stack io =>
    obtain ⟨⟨b, hlive, hT⟩, hio⟩ := he
    obtain ⟨m, k, hm, hk, hmb, hkb, hfd⟩ := h.mgr b hlive
    simp only [DirEv.sid] at hm hk hfd ⊢
    obtain ⟨hlong, hshort⟩ := step_write name data stack io hm hmb
    obtain ⟨klong, kshort⟩ := step_write name data stack io hk hkb
    by_cases hn : name.length > 127
    · rw [hlong hn, klong hn]; exact h
    obtain ⟨h1, h2, -⟩ := hshort (by omega)
    obtain ⟨k1, k2, -⟩ := kshort (by omega)
    have hans : decide (s.oldFilename ≠ name) = decide (r.oldFilename ≠ name) := by
      simp only [ne_eq, hme (by omega)]
    rw [← hans] at k1 k2
    obtain ⟨h3, h4⟩ := chunk_sim hio h.rel hfd hT (decide (s.oldFilename ≠ name)) data
    refine ⟨by rw [h1, k1]; exact h3, fun b' hb' => ?_⟩
    have hbb : b' = b := Option.some.inj (hb'.symm.trans hlive)
    subst hbb
    refine ⟨_, _, by rw [h2, Function.update_self], by rw [k2, Function.update_self], ?_, ?_, ?_⟩
    · rw [chunkStep_base]; exact hmb
    · rw [chunkStep_base]; exact hkb
    · rw [h1, k1]; exact h4
  | done x =>
    obtain ⟨b, hlive⟩ := he
    obtain ⟨m, k, hm, hk, -, -, -⟩ := h.mgr b hlive
    simp only [DirEv.sid] at hm hk
    refine ⟨h.rel.of_tree ?_ ?_, fun b' hb' => by simp [liveStep, DirEv.sid] at hb'⟩
    · simp only [step, uploadDone, hm, close_tree]
    · simp only [step, uploadDone, hk, close_tree]
  | closed x => exact ⟨h.rel, fun b' hb' => by simp [liveStep, DirEv.sid] at hb'⟩

/-- An event of another session, in the interleaved run only. -/
theorem sim_other {r : DirState} {x : ℕ} {e : DirEv} (hx : e.sid ≠ x) (ho : Owned T live s)
    (hap : ∀ q ∈ T e.sid, Apart (T x) q) (h : Sim (T x) x (live x) s r) (he : EvOk T live e) :
    Sim (T x) x (liveStep live e x) (step s e) r := by
  have hlive' : liveStep live e x = live x := by
    cases e <;> first | rfl | exact Function.update_of_ne (Ne.symm hx) _ _
  rw [hlive']
  -- the manager of `x` is untouched, so only the table and the tree are to be looked at
  have key : (step s e).mgr x = s.mgr x → Rel (T x) (step s e).dfs r.dfs →
      (∀ b, live x = some b → ∀ m f, s.mgr x = some m → 0 < m.fd → s.dfs.lookup m.fd = some f →
        (step s e).dfs.lookup m.fd = some f) → Sim (T x) x (live x) (step s e) r := by
    intro hmgr hrel hl
    refine ⟨hrel, fun b hb => ?_⟩
    obtain ⟨m, k, hm, hk, hmb, hkb, hfd⟩ := h.mgr b hb
    refine ⟨m, k, hmgr.trans hm, hk, hmb, hkb, ?_⟩
    rcases hfd with hfd | ⟨h1, h2, f, h3, h4⟩
    · exact Or.inl hfd
    · exact Or.inr ⟨h1, h2, f, hl b hb m f hm h1 h3, h4⟩
  cases e with
  | opened y path mem =>
    exact key (Function.update_of_ne (Ne.symm hx) _ _) h.rel (fun _ _ _ _ _ _ hf => hf)
  | write y name data stack io =>
    obtain ⟨⟨b, hlive, hT⟩, -⟩ := he
    obtain ⟨m, hm, hmb, hh⟩ := ho.holds y b hlive
    obtain ⟨hlong, hshort⟩ := step_write name data stack io hm hmb
    by_cases hn : name.length > 127
    · rw [hlong hn]; exact h
    obtain ⟨h1, h2, -⟩ := hshort (by omega)
    have heff := chunk_effect io hh hT (decide (s.oldFilename ≠ name)) data
    refine key (by rw [h2]; exact Function.update_of_ne (Ne.symm hx) _ _) ?_ ?_
    · rw [h1]; exact heff.rel _ _ hap h.rel
    · intro b' hb' k f hk hpos hf
      have hne := (ho.other (Ne.symm hx) (by simp [hb']) (by simp [DirEv.sid, hlive]) hm hk hpos).1
      rw [h1]
      exact (heff.others k.fd f hne hf).2
  | done y =>
    obtain ⟨b, hlive⟩ := he
    obtain ⟨m, hm, -, -⟩ := ho.holds y b hlive
    refine key (by simp [step, uploadDone, hm]) (h.rel.of_tree ?_ rfl) ?_
    · simp only [step, uploadDone, hm, close_tree]
    · intro b' hb' k f hk hpos hf
      have hne := (ho.other (Ne.symm hx) (by simp [hb']) (by simp [DirEv.sid, hlive]) hm hk hpos).1
      simp only [step, uploadDone, hm, close_lookup, if_neg hne, hf]
  | closed y =>
    exact key (Function.update_of_ne (Ne.symm hx) _ _) h.rel (fun _ _ _ _ _ _ hf => hf)

/-- **The whole run**: it stays in step with session `x` alone. -/
theorem run_sim {x : ℕ} (hap : ∀ y, y ≠ x → ∀ q ∈ T y, Apart (T x) q) : ∀ (l : List DirEv) {live : Live}
    {s r : DirState}, Owned T live s → Sim (T x) x (live x) s r → Proto T live l →
    Steady x s.oldFilename r.oldFilename l →
    Rel (T x) (run s l).dfs (run r (l.filter (·.sid = x))).dfs := by
  intro l
  induction l with
  | nil => intro live s r _ h _ _; exact h.rel
  | cons e es ih =>
    intro live s r ho h ⟨he, hes⟩ hst
    have hold : (step s e).oldFilename = lastName s.oldFilename e := by
      apply step_old he
      intro b hb
      obtain ⟨m, hm, hmb, -⟩ := ho.holds e.sid b hb
      exact ⟨m, hm, hmb⟩
    by_cases hx : e.sid = x
    · subst hx
      rw [Steady, if_pos rfl] at hst
      have hr : (step r e).oldFilename = lastName r.oldFilename e := by
        apply step_old he
        intro b hb
        obtain ⟨-, k, -, hk, -, hkb, -⟩ := h.mgr b hb
        exact ⟨k, hk, hkb⟩
      rw [List.filter_cons_of_pos (by simp), run_cons, run_cons]
      exact ih (owned_step ho he) (sim_own h he hst.1) hes (by rw [hold, hr]; exact hst.2)
    · rw [Steady, if_neg hx] at hst
      rw [List.filter_cons_of_neg (by simpa using hx), run_cons]
      exact ih (owned_step ho he) (sim_other hx ho (hap _ hx) h he) hes (by rw [hold]; exact hst)

/-! ## The protocol, session by session -/

theorem proto_congr {x : ℕ} : ∀ {l : List DirEv} {live live' : Live}, (∀ e ∈ l, e.sid = x) →
    live x = live' x → Proto T live l → Proto T live' l := by
  intro l
  induction l with
  | nil => intro _ _ _ _ _; trivial
  | cons e es ih =>
    intro live live' hall hx ⟨he, hes⟩
    have hex : e.sid = x := hall e List.mem_cons_self
    refine ⟨?_, ih (fun e' he' => hall e' (List.mem_cons_of_mem _ he')) ?_ hes⟩
    · subst hex
      cases e with
      | opened y path mem => trivial
      | write y name data stack io => exact ⟨by rw [← show live y = live' y from hx]; exact he.1, he.2⟩
      | done y =>
        obtain ⟨b, hb⟩ := he
        exact ⟨b, (show live y = live' y from hx) ▸ hb⟩
      | closed y => trivial
    · subst hex
      cases e <;> simp [liveStep, DirEv.sid] at hx ⊢
      exact hx

/-- Each session keeping to the protocol, their interleaving does. -/
theorem proto_of_filter : ∀ {l : List DirEv} {live : Live},
    (∀ x, Proto T live (l.filter (·.sid = x))) → Proto T live l := by
  intro l
  induction l with
  | nil => intro _ _; trivial
  | cons e es ih =>
    intro live h
    have hown := h e.sid
    rw [List.filter_cons_of_pos (by simp)] at hown
    refine ⟨hown.1, ih fun x => ?_⟩
    by_cases hx : e.sid = x
    · subst hx; exact hown.2
    · have hoth := h x
      rw [List.filter_cons_of_neg (by simpa using hx)] at hoth
      refine proto_congr (fun e' he' => by simpa using (List.mem_filter.1 he').2) ?_ hoth
      cases e <;> first | rfl | exact (Function.update_of_ne (Ne.symm hx) _ _).symm

end Runs

/-- The files a session writes. -/
def files (ses : DirSession) : Set (List UInt8) :=
  {q | ∃ b, ses.base = some b ∧ ∃ p ∈ ses.parts, ∃ c ∈ p.chunks, q = uploadPath b p.name c.stack}

/-- The session finds memory and a base directory, and the device lets it make directories. -/
structure Able (ses : DirSession) : Prop where
  mem : ses.mem = true
  base : ses.base.isSome
  mkdir : ∀ p ∈ ses.parts, ∀ c ∈ p.chunks, ∀ q, c.io.mkdirOk q = true

/-- `l` interleaves the events of two sessions. -/
structure Interleaves (l : List DirEv) (a b : DirSession) : Prop where
  distinct : a.sid ≠ b.sid
  left : l.filter (·.sid = a.sid) = a.events
  right : l.filter (·.sid = b.sid) = b.events
  only : ∀ e ∈ l, e.sid = a.sid ∨ e.sid = b.sid

theorem Interleaves.symm {l : List DirEv} {a b : DirSession} (h : Interleaves l a b) : Interleaves l b a :=
  ⟨h.distinct.symm, h.right, h.left, fun e he => (h.only e he).symm⟩

/-- A session that is able keeps to the protocol. -/
theorem events_proto {T : ℕ → Set (List UInt8)} {ses : DirSession} (ha : Able ses)
    (hT : T ses.sid = files ses) (live : Live) : Proto T live ses.events := by
  obtain ⟨hmem, hbase, hio⟩ := ha
  obtain ⟨b, hb⟩ := Option.isSome_iff_exists.1 hbase
  have hwrites : ∀ (es : List DirEv) (live : Live), live ses.sid = some b →
      (∀ e ∈ es, ∃ p ∈ ses.parts, ∃ c ∈ p.chunks, e = .write ses.sid p.name c.data c.stack c.io) →
      Proto T live (es ++ [.done ses.sid, .closed ses.sid]) := by
    intro es
    induction es with
    | nil => intro live hl _; exact ⟨⟨b, hl⟩, trivial, trivial⟩
    | cons e es ih =>
      intro live hl hall
      obtain ⟨p, hp, c, hc, rfl⟩ := hall e List.mem_cons_self
      refine ⟨⟨⟨b, hl, ?_⟩, hio p hp c hc⟩, ih live hl fun e' he' => hall e' (List.mem_cons_of_mem _ he')⟩
      rw [hT]
      exact ⟨b, hb, p, hp, c, hc, rfl⟩
  have hev : ses.events = .opened ses.sid ses.base ses.mem ::
      (ses.parts.flatMap (DirSession.partEvs ses.sid) ++ [.done ses.sid, .closed ses.sid]) := by
    simp [DirSession.events, DirSession.untilDone]
  rw [hev]
  refine ⟨trivial, hwrites _ _ (by simp [liveStep, hmem, hb]) fun e he => ?_⟩
  obtain ⟨p, hp, he⟩ := List.mem_flatMap.1 he
  obtain ⟨c, hc, rfl⟩ := List.mem_map.1 he
  exact ⟨p, hp, c, hc, rfl⟩

/-- One side of an interleaving. -/
theorem interleaving_side {s : DirState} {a b : DirSession} {l : List DirEv} (hl : Interleaves l a b)
    (ha : Able a) (hb : Able b) (hap : ∀ q ∈ files b, Apart (files a) q)
    (hst : Steady a.sid s.oldFilename s.oldFilename l) (q : List UInt8) (hq : q ∈ files a) :
    (run s l).dfs.content q = (run s a.events).dfs.content q := by
  set T : ℕ → Set (List UInt8) :=
    fun y => if y = a.sid then files a else if y = b.sid then files b else ∅ with hT
  have hTa : T a.sid = files a := if_pos rfl
  have hTb : T b.sid = files b := by rw [hT]; simp only [if_neg hl.distinct.symm, if_true]
  have hproto : Proto T (fun _ => none) l := by
    apply proto_of_filter
    intro x
    by_cases hxa : x = a.sid
    · subst hxa; rw [hl.left]; exact events_proto ha hTa _
    by_cases hxb : x = b.sid
    · subst hxb; rw [hl.right]; exact events_proto hb hTb _
    · have hnil : l.filter (·.sid = x) = [] := by
        rw [List.filter_eq_nil_iff]
        intro e he hx
        have hx : e.sid = x := by simpa using hx
        rcases hl.only e he with h | h
        · exact hxa (hx.symm.trans h)
        · exact hxb (hx.symm.trans h)
      rw [hnil]; trivial
  have hapart : ∀ y, y ≠ a.sid → ∀ q ∈ T y, Apart (T a.sid) q := by
    intro y hy q hq
    rw [hTa]
    by_cases hyb : y = b.sid
    · subst hyb; rw [hTb] at hq; exact hap q hq
    · simp [hT, if_neg hy, if_neg hyb] at hq
  have hown : Owned T (fun _ => none) s := ⟨fun _ _ h => by simp at h, fun _ _ _ h => by simp at h⟩
  have hsim : Sim (T a.sid) a.sid none s s := ⟨Rel.refl _ _, fun _ h => by simp at h⟩
  have hrel := run_sim hapart l hown hsim hproto hst
  rw [hl.left, hTa] at hrel
  simp only [Dfs.content, hrel.targets q hq]

/-- An upload of `/w/a` in two chunks. -/
def uploadTwo : DirSession :=
  ⟨0, some (text "/w"), true,
    [⟨text "a", [⟨text "ab", fun _ => 0, goodIo⟩, ⟨text "cd", fun _ => 0, goodIo⟩], by simp, nulFree_a⟩], nulFree_w⟩

/-- An upload of `/w/b` in one chunk. -/
def uploadOne : DirSession :=
  ⟨1, some (text "/w"), true, [⟨text "b", [⟨text "xyz", fun _ => 0, goodIo⟩], by simp, by decide⟩], nulFree_w⟩

theorem mem_files_uploadTwo {q : List UInt8} (h : q ∈ files uploadTwo) : q = text "/w/a" := by
  obtain ⟨b, hb, p, hp, c, hc, rfl⟩ := h
  obtain rfl : text "/w" = b := Option.some.inj hb
  obtain rfl := List.mem_singleton.1 hp
  have : ∀ c ∈ ([⟨text "ab", fun _ => 0, goodIo⟩, ⟨text "cd", fun _ => 0, goodIo⟩] : List Chunk),
      c.stack = fun _ => 0 := by simp
  rw [this c hc]
  decide +kernel

theorem mem_files_uploadOne {q : List UInt8} (h : q ∈ files uploadOne) : q = text "/w/b" := by
  obtain ⟨b, hb, p, hp, c, hc, rfl⟩ := h
  obtain rfl : text "/w" = b := Option.some.inj hb
  obtain rfl := List.mem_singleton.1 hp
  obtain rfl := List.mem_singleton.1 hc
  decide +kernel

theorem files_differ : ∀ p ∈ files uploadTwo, ∀ q ∈ files uploadOne,
    p ≠ q ∧ ¬ IsParent p q ∧ ¬ IsParent q p := by
  intro p hp q hq
  rw [mem_files_uploadTwo hp, mem_files_uploadOne hq]
  unfold IsParent
  decide

/-- The second session starts while the first is in progress, and writes behind its last chunk. -/
def tamed : List DirEv :=
  [.opened 0 (some (text "/w")) true, .write 0 (text "a") (text "ab") (fun _ => 0) goodIo,
    .opened 1 (some (text "/w")) true, .write 0 (text "a") (text "cd") (fun _ => 0) goodIo,
    .write 1 (text "b") (text "xyz") (fun _ => 0) goodIo, .done 0, .done 1, .closed 0, .closed 1]

/-- The chunk of the second session falls between the two of the first. -/
def mixed : List DirEv :=
  [.opened 0 (some (text "/w")) true, .write 0 (text "a") (text "ab") (fun _ => 0) goodIo,
    .opened 1 (some (text "/w")) true, .write 1 (text "b") (text "xyz") (fun _ => 0) goodIo,
    .write 0 (text "a") (text "cd") (fun _ => 0) goodIo, .done 0, .done 1, .closed 0, .closed 1]

end W601.DirUpload
