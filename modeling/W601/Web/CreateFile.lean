import W601.Web.Dfs

/-!
# The directories that `create_file_by_path` makes

The function over any file system: `FileSys` has a state of any type and answers as it likes. The path
is copied into `path_buff` character by character, and what stands there so far is handed to the calls.

* `Builds`: the calls for a list of directories and a file behind them, with the answer.
* `createLoop_builds`: the loop makes the calls for the ancestors that are still to come.
* `creates_path`: the function makes the calls for the ancestors of its path.
* `createFileByPath_dfs`: over the file system of the uploads it is the function used there.
-/

namespace W601.CreateFile

open CMem CompPath

variable {σ : Type*}

/-- A file system: any state, any answers. -/
structure FileSys (σ : Type*) where
  opendir : List UInt8 → σ → Bool × σ
  closedir : List UInt8 → σ → σ
  /-- A negative answer is an error. -/
  mkdir : List UInt8 → σ → ℤ × σ
  openFile : List UInt8 → σ → ℤ × σ

/-- A call with its answer. -/
inductive Call
  | opendir (path : List UInt8) (ok : Bool)
  | closedir (path : List UInt8)
  | mkdir (path : List UInt8) (ret : ℤ)
  | openFile (path : List UInt8) (fd : ℤ)
  deriving DecidableEq

section Code

variable (fs : FileSys σ)

/-- `_check_or_create_directory`: the calls, whether the directory is there, and the state behind them. -/
def checkOrCreateDirectory (dirPath : List UInt8) (s : σ) : List Call × Bool × σ :=
  match fs.opendir dirPath s with
  | (true, s) => ([.opendir dirPath true, .closedir dirPath], true, fs.closedir dirPath s)
  | (false, s) =>
    match fs.mkdir dirPath s with
    | (ret, s) => ([.opendir dirPath false, .mkdir dirPath ret], decide (0 ≤ ret), s)

/-- The loop of `create_file_by_path` from index `i` on; the list is the path from there on. -/
def createLoop (pathBuff : Mem) (i : ℕ) : List UInt8 → σ → List Call × ℤ × σ
  | [], s => ([], -1, s)
  | c :: rest, s =>
    let pathBuff := Function.update pathBuff i c
    let name := readStr pathBuff maxFilenameLength 0
    if rest.headD 0 = slash then
      match checkOrCreateDirectory fs name s with
      | (calls, true, s) =>
        let r := createLoop pathBuff (i + 1) rest s
        (calls ++ r.1, r.2)
      | (calls, false, s) => (calls, -1, s)
    else if rest.headD 0 = 0 ∧ c ≠ slash then
      match fs.openFile name s with
      | (fd, s) =>
        if fd > 0 then ([.openFile name fd], fd, s)
        else
          -- the error is printed, and the loop goes on to its end
          let r := createLoop pathBuff (i + 1) rest s
          (.openFile name fd :: r.1, r.2)
    else createLoop pathBuff (i + 1) rest s

/-- `create_file_by_path`: the calls, the answer, and the state behind them. `stack` is what the stack
holds before `path_buff` is cleared. -/
def createFileByPath (stack : Mem) (path : List UInt8) (s : σ) : List Call × ℤ × σ :=
  createLoop fs (store stack 0 (List.replicate maxFilenameLength 0)) 0 path s

end Code

/-! ## What is to be done for a path -/

/-- **The proper, non-root ancestors of a path**, from the shortest to the longest: what stands before
one of its slashes. -/
def ancestors (path : List UInt8) : List (List UInt8) :=
  path.inits.filter fun q => q ≠ [] ∧ q ++ [slash] <+: path

/-- A path without an empty, `.` or `..` component and without a slash at its end, except for the root. -/
def Normalised (path : List UInt8) : Prop := AbsNormal slash dot path ∨ RelNormal slash dot path

/-- **The calls for the directories `dirs` and the file `path`**, with the answer: each directory is
checked, and made if it cannot be opened; the first one that cannot be made is the end; otherwise the
file is opened once. -/
inductive Builds (path : List UInt8) : List (List UInt8) → List Call → ℤ → Prop
  | opened {fd : ℤ} : 0 < fd → Builds path [] [.openFile path fd] fd
  | refused {fd : ℤ} : fd ≤ 0 → Builds path [] [.openFile path fd] (-1)
  | found {q : List UInt8} {dirs : List (List UInt8)} {calls : List Call} {ret : ℤ} : Builds path dirs calls ret →
      Builds path (q :: dirs) (.opendir q true :: .closedir q :: calls) ret
  | made {q : List UInt8} {dirs : List (List UInt8)} {calls : List Call} {ret r : ℤ} : 0 ≤ r →
      Builds path dirs calls ret → Builds path (q :: dirs) (.opendir q false :: .mkdir q r :: calls) ret
  | stopped {q : List UInt8} {dirs : List (List UInt8)} {r : ℤ} : r < 0 →
      Builds path (q :: dirs) [.opendir q false, .mkdir q r] (-1)

/-- The ancestors that end behind the text `done`, when `rest` is to come. -/
def laterDirs (done : List UInt8) : List UInt8 → List (List UInt8)
  | [] => []
  | c :: rest =>
    if rest.headD 0 = slash then (done ++ [c]) :: laterDirs (done ++ [c]) rest else laterDirs (done ++ [c]) rest

theorem headD_eq_slash {rest : List UInt8} : rest.headD 0 = slash ↔ [slash] <+: rest := by
  cases rest with
  | nil => simp [slash]
  | cons a t => simp [List.cons_prefix_cons, eq_comm]

/-- The loop sees an ancestor where the next character is a slash. -/
theorem filter_inits (path : List UInt8) : ∀ (rest done : List UInt8), path = done ++ rest →
    ((rest.inits.tail.map (done ++ ·)).filter fun q => q ++ [slash] <+: path) = laterDirs done rest := by
  intro rest
  induction rest with
  | nil => intro done _; rfl
  | cons c rest ih =>
    intro done hpath
    have hcat : path = (done ++ [c]) ++ rest := by simpa using hpath
    have hdir : (done ++ [c]) ++ [slash] <+: path ↔ rest.headD 0 = slash := by
      rw [hcat, List.prefix_append_right_inj, headD_eq_slash]
    have hinits : ((c :: rest).inits.tail.map (done ++ ·)) =
        (done ++ [c]) :: rest.inits.tail.map ((done ++ [c]) ++ ·) := by
      cases rest with
      | nil => simp
      | cons d rest => simp [Function.comp_def]
    rw [hinits, List.filter_cons, laterDirs, ih _ hcat]
    simp only [decide_eq_true_eq, hdir]

theorem ancestors_eq (path : List UInt8) : ancestors path = laterDirs [] path := by
  have hinits : path.inits = [] :: path.inits.tail := by
    cases path <;> rfl
  have hne : ∀ q ∈ path.inits.tail, q ≠ [] := by
    intro q hq
    cases path with
    | nil => simp at hq
    | cons c rest =>
      obtain ⟨t, -, rfl⟩ : ∃ a, a <+: rest ∧ c :: a = q := by simpa using hq
      simp
  rw [← filter_inits path path [] rfl, ancestors, hinits]
  simp only [List.nil_append, List.map_id', List.tail_cons]
  rw [List.filter_cons_of_neg (by simp)]
  apply List.filter_congr
  intro q hq
  simp [hne q hq]

/-! ## The buffer -/

/-- The buffer holds the text so far, and zeros behind it. -/
structure Copied (done : List UInt8) (buff : Mem) : Prop where
  text : At buff 0 done
  nulFree : 0 ∉ done
  rest : ∀ j : ℕ, done.length ≤ j → j < maxFilenameLength → buff j = 0

theorem Copied.snoc {done : List UInt8} {buff : Mem} {c : UInt8} (h : Copied done buff) (hc : c ≠ 0) :
    Copied (done ++ [c]) (Function.update buff done.length c) := by
  refine ⟨?_, ?_, fun j hj hlt => ?_⟩
  · have hat := at_snoc_update h.text c
    rwa [Int.zero_add] at hat
  · rw [List.mem_append, List.mem_singleton, not_or]
    exact ⟨h.nulFree, hc.symm⟩
  · rw [List.length_append, List.length_singleton] at hj
    rw [Function.update_of_ne (by omega)]
    exact h.rest j (by omega) hlt

theorem Copied.readStr {done : List UInt8} {buff : Mem} (h : Copied done buff)
    (hlen : done.length < maxFilenameLength) : readStr buff maxFilenameLength 0 = done := by
  have hend : At buff (0 + done.length) [0] := by
    refine ⟨?_, trivial⟩
    rw [Int.zero_add]
    exact h.rest _ le_rfl hlen
  exact readStr_eq ⟨(at_append _ _ _ _).2 ⟨h.text, hend⟩, h.nulFree⟩ hlen.le

theorem copied_nil (stack : Mem) : Copied [] (store stack 0 (List.replicate maxFilenameLength 0)) := by
  refine ⟨trivial, by simp, fun j _ hlt => ?_⟩
  have hcell := (at_store (List.replicate maxFilenameLength (0 : UInt8)) stack 0).getElem j (by simpa using hlt)
  rwa [Int.zero_add, List.getElem_replicate] at hcell

/-! ## The loop -/

variable {fs : FileSys σ}

/-- What a check of a directory adds to the calls. -/
theorem checkOrCreateDirectory_cases (fs : FileSys σ) (q : List UInt8) (s : σ) :
    (∃ s', checkOrCreateDirectory fs q s = ([.opendir q true, .closedir q], true, s')) ∨
      (∃ r s', 0 ≤ r ∧ checkOrCreateDirectory fs q s = ([.opendir q false, .mkdir q r], true, s')) ∨
      ∃ r s', r < 0 ∧ checkOrCreateDirectory fs q s = ([.opendir q false, .mkdir q r], false, s') := by
  unfold checkOrCreateDirectory
  rcases fs.opendir q s with ⟨ok, s1⟩
  cases ok with
  | true => exact Or.inl ⟨_, rfl⟩
  | false =>
    right
    obtain ⟨r, s2, hmk⟩ : ∃ r s2, fs.mkdir q s1 = (r, s2) := ⟨_, _, rfl⟩
    simp only [hmk]
    by_cases hr : 0 ≤ r
    · exact Or.inl ⟨r, s2, hr, by simp [hr]⟩
    · exact Or.inr ⟨r, s2, not_le.1 hr, by simp [hr]⟩

/-- **The loop makes the calls for what is still to come** of a path that does not end in a slash. -/
theorem createLoop_builds {path : List UInt8} (hlen : path.length < maxFilenameLength) (h0 : 0 ∉ path)
    (hlast : ∀ c ∈ path.getLast?, c ≠ slash) : ∀ (rest done : List UInt8) (buff : Mem) (s : σ),
    path = done ++ rest → rest ≠ [] → Copied done buff →
    Builds path (laterDirs done rest) (createLoop fs buff done.length rest s).1
      (createLoop fs buff done.length rest s).2.1 := by
  intro rest
  induction rest with
  | nil => intro done buff s _ hne _; exact absurd rfl hne
  | cons c rest ih =>
    intro done buff s hpath _ hbuff
    have hcat : path = (done ++ [c]) ++ rest := by simpa using hpath
    have hc : c ≠ 0 := by
      rintro rfl
      exact h0 (by rw [hpath]; simp)
    have hbuff' := hbuff.snoc hc
    have hdone : (done ++ [c]).length < maxFilenameLength := by
      have hle := congrArg List.length hcat
      rw [List.length_append] at hle
      omega
    have hname := hbuff'.readStr hdone
    have hsucc : done.length + 1 = (done ++ [c]).length := by simp
    simp only [createLoop, laterDirs, hname, hsucc]
    by_cases hslash : rest.headD 0 = slash
    · -- a directory: it is found or made, and the loop goes on, or it cannot be made
      have hrest : rest ≠ [] := by
        rintro rfl
        exact absurd hslash (by decide)
      rw [if_pos hslash, if_pos hslash]
      rcases checkOrCreateDirectory_cases fs (done ++ [c]) s with ⟨s', h⟩ | ⟨r, s', hr, h⟩ | ⟨r, s', hr, h⟩
      · rw [h]
        exact .found (ih _ _ s' hcat hrest hbuff')
      · rw [h]
        exact .made hr (ih _ _ s' hcat hrest hbuff')
      · rw [h]
        exact .stopped hr
    · rw [if_neg hslash, if_neg hslash]
      cases rest with
      | nil =>
        have hcs : c ≠ slash := hlast c (by rw [hpath]; simp)
        have hname : path = done ++ [c] := hpath
        rw [if_pos ⟨rfl, hcs⟩, ← hname]
        rcases fs.openFile path s with ⟨fd, s'⟩
        split_ifs with hfd
        · exact .opened hfd
        · exact .refused (not_lt.1 hfd)
      | cons a t =>
        have ha : a ≠ 0 := by
          rintro rfl
          exact h0 (by rw [hpath]; simp)
        rw [if_neg fun h => ha h.1]
        exact ih _ _ s hcat (by simp) hbuff'

/-! ## The whole function -/

/-- A normalised path other than the root does not end in a slash. -/
theorem Normalised.getLast {path : List UInt8} (h : Normalised path) (hne : path ≠ [slash]) :
    path ≠ [] ∧ ∀ c ∈ path.getLast?, c ≠ slash := by
  -- a slash at the end would have an empty component behind it
  have hlast : ∀ t : List UInt8, (∀ c ∈ t.splitOn slash, c ≠ []) → t ≠ [] ∧ ∀ c ∈ t.getLast?, c ≠ slash := by
    intro t ht
    refine ⟨?_, ?_⟩
    · rintro rfl
      exact ht [] (by simp) rfl
    · rintro c hc rfl
      obtain ⟨u, rfl⟩ := List.getLast?_eq_some_iff.1 hc
      rw [List.splitOn_append_cons_self] at ht
      exact ht [] (by simp) rfl
  rcases h with ⟨t, rfl, rfl | ht⟩ | h
  · exact absurd rfl hne
  · obtain ⟨h1, h2⟩ := hlast t fun c hc => (ht c hc).1
    refine ⟨by simp, fun c hc => h2 c ?_⟩
    rwa [List.getLast?_cons_of_ne_nil h1] at hc
  · exact hlast path fun c hc => (h c hc).1

/-- **`create_file_by_path` builds exactly the needed directories.** -/
theorem creates_path (fs : FileSys σ) (stack : Mem) (s : σ) {path : List UInt8} (hn : Normalised path)
    (h0 : 0 ∉ path) (hlen : path.length < maxFilenameLength) :
    (path = [slash] → createFileByPath fs stack path s = ([], -1, s)) ∧
      (path ≠ [slash] → Builds path (ancestors path) (createFileByPath fs stack path s).1
        (createFileByPath fs stack path s).2.1) := by
  refine ⟨?_, fun hne => ?_⟩
  · rintro rfl
    simp [createFileByPath, createLoop, slash]
  · obtain ⟨hnil, hlast⟩ := hn.getLast hne
    rw [ancestors_eq]
    exact createLoop_builds hlen h0 hlast path [] _ s rfl hnil (copied_nil stack)

/-- A file system in which there is nothing yet, and everything can be made. -/
def blank : FileSys Unit := ⟨fun _ _ => (false, ()), fun _ _ => (), fun _ _ => (0, ()), fun _ _ => (3, ())⟩

/-- For `/webnet/img/x` the directories `/webnet` and `/webnet/img` are made. -/
theorem creates_path_webnet :
    ancestors (text "/webnet/img/x") = [text "/webnet", text "/webnet/img"] ∧
      Builds (text "/webnet/img/x") (ancestors (text "/webnet/img/x"))
        (createFileByPath blank (fun _ => 7) (text "/webnet/img/x") ()).1
        (createFileByPath blank (fun _ => 7) (text "/webnet/img/x") ()).2.1 :=
  ⟨by decide, (creates_path blank (fun _ => 7) () (Or.inl ⟨text "webnet/img/x", rfl, Or.inr (by decide)⟩) (by decide)
    (by decide)).2 (by decide)⟩

/-- The file system of the uploads. -/
def dfsSys (io : Io) : FileSys Dfs where
  opendir p d := ((d.opendir p).2, (d.opendir p).1)
  closedir _ d := d
  mkdir p d := (if (d.mkdir io p).2 then 0 else -1, (d.mkdir io p).1)
  openFile p d := ((d.openFile io p).2, (d.openFile io p).1)

theorem checkOrCreateDirectory_dfs (io : Io) (q : List UInt8) (d : Dfs) :
    (checkOrCreateDirectory (dfsSys io) q d).2 =
      ((W601.checkOrCreateDirectory io d q).2, (W601.checkOrCreateDirectory io d q).1) := by
  obtain ⟨d1, ok, hop⟩ : ∃ d1 ok, d.opendir q = (d1, ok) := ⟨_, _, rfl⟩
  simp only [checkOrCreateDirectory, W601.checkOrCreateDirectory, dfsSys, hop]
  cases ok with
  | true => rfl
  | false =>
    obtain ⟨d2, ok, hmk⟩ : ∃ d2 ok, d1.mkdir io q = (d2, ok) := ⟨_, _, rfl⟩
    simp only [hmk]
    cases ok <;> rfl

theorem createLoop_dfs (io : Io) : ∀ (rest done : List UInt8) (buff : Mem) (d : Dfs), 0 ∉ rest →
    (done ++ rest).length < maxFilenameLength → Copied done buff →
    (createLoop (dfsSys io) buff done.length rest d).2 =
      ((W601.createLoop io d done rest).2, (W601.createLoop io d done rest).1) := by
  intro rest
  induction rest with
  | nil => intro done buff d _ _ _; rfl
  | cons c rest ih =>
    intro done buff d h0 hlen hbuff
    rw [List.mem_cons, not_or] at h0
    have hcat : done ++ c :: rest = (done ++ [c]) ++ rest := by simp
    rw [hcat] at hlen
    have hbuff' := hbuff.snoc (Ne.symm h0.1)
    have hname := hbuff'.readStr (by rw [List.length_append] at hlen; omega)
    have hsucc : done.length + 1 = (done ++ [c]).length := by simp
    have hgo := fun d' => ih (done ++ [c]) _ d' h0.2 hlen hbuff'
    simp only [createLoop, hname, hsucc]
    cases rest with
    | nil =>
      have h0s : ¬ (0 : UInt8) = slash := by decide
      simp only [W601.createLoop, List.headD_nil, h0s, if_false, true_and]
      by_cases hc : c = slash
      · simp only [hc, ne_eq, not_true_eq_false, if_false, if_true, createLoop]
      · obtain ⟨d1, fd, hop⟩ : ∃ d1 fd, d.openFile io (done ++ [c]) = (d1, fd) := ⟨_, _, rfl⟩
        have hsys : (dfsSys io).openFile (done ++ [c]) d = (fd, d1) := by simp only [dfsSys, hop]
        simp only [hc, ne_eq, not_false_eq_true, if_false, if_true, createLoop, hop, hsys]
        split_ifs <;> rfl
    | cons a t =>
      have ha : a ≠ 0 := fun h => h0.2 (by rw [h]; exact List.mem_cons_self)
      rw [W601.createLoop]
      simp only [List.headD_cons, ha, false_and, if_false]
      by_cases hslash : a = slash
      · have hcheck := checkOrCreateDirectory_dfs io (done ++ [c]) d
        obtain ⟨calls, ok, d1, h1⟩ : ∃ calls ok d1, checkOrCreateDirectory (dfsSys io) (done ++ [c]) d =
          (calls, ok, d1) := ⟨_, _, _, rfl⟩
        obtain ⟨d2, ok2, h2⟩ : ∃ d2 ok2, W601.checkOrCreateDirectory io d (done ++ [c]) = (d2, ok2) := ⟨_, _, rfl⟩
        rw [h1, h2] at hcheck
        obtain ⟨rfl, rfl⟩ := Prod.mk.inj hcheck
        simp only [hslash, if_true, h1, h2]
        rw [hslash] at hgo
        cases ok with
        | true => exact hgo d1
        | false => rfl
      · simp only [hslash, if_false]
        exact hgo d

/-- **Over the file system of the uploads** the function is the one that the uploads use. -/
theorem createFileByPath_dfs (io : Io) (stack : Mem) (d : Dfs) {path : List UInt8} (h0 : 0 ∉ path)
    (hlen : path.length < maxFilenameLength) :
    (createFileByPath (dfsSys io) stack path d).2 =
      ((W601.createFileByPath io d path).2, (W601.createFileByPath io d path).1) :=
  createLoop_dfs io path [] _ d h0 hlen (copied_nil stack)

end W601.CreateFile
