import W601.Lib.Cells
import W601.Lib.Runs
import W601.Lib.Words

/-!
# The environment of EasyFlash in RAM (`ef_env.c`)

`env_cache` holds three words and, behind them, the variables as strings `name=value`, each up to the next word. A
variable that changes is deleted and put at the end.

* `Holds`: the cache holds some variables.
* `findEnv_holds`, `delEnv_holds`, `createEnv_holds`: what the functions under the calls do to them.
* `env_refines`: in every run the calls answer as a map with a bounded size does.
-/

namespace W601.Easyflash

open Cells Runs

/-- `ENV_USER_SETTING_SIZE`. -/
def envUserSettingSize : ℕ := 2048

/-- `ENV_PARAM_BYTE_SIZE`, in the power fail safeguard mode. -/
def envParamByteSize : ℕ := 12

/-- `ENV_PARAM_INDEX_END_ADDR`. -/
def envParamIndexEndAddr : ℕ := 0

/-- `ENV_PARAM_INDEX_SAVED_COUNT`. -/
def envParamIndexSavedCount : ℕ := 1

/-- `ENV_PARAM_INDEX_DATA_CRC`. -/
def envParamIndexDataCrc : ℕ := 2

/-- `'='`. -/
def equalSign : UInt8 := 61

inductive EfErrCode where
  | noErr
  | eraseErr
  | readErr
  | writeErr
  | envNameErr
  | envNameExist
  | envFull
  | envInitFailed
  deriving DecidableEq

/-- A word of the cache. -/
def word (cache : List UInt8) (i : ℕ) : ℕ := Words.value ((cache.drop (4 * i)).take 4)

/-- A word of the cache is written. -/
def setWord (cache : List UInt8) (i n : ℕ) : List UInt8 := overwrite cache (4 * i) (Words.bytes 4 n)

/-- The static variables. -/
structure Ram where
  /-- `env_cache`, byte by byte. -/
  cache : List UInt8
  /-- `env_cache_changed`. -/
  changed : Bool
  initOk : Bool
  curLoadAreaAddr : ℕ
  nextSaveAreaAddr : ℕ

namespace Ram

variable (r : Ram)

/-- `get_env_system_addr`. -/
def systemAddr : ℕ := r.curLoadAreaAddr

/-- `get_env_data_addr`. -/
def dataAddr : ℕ := r.systemAddr + envParamByteSize

/-- `get_env_end_addr`. -/
def endAddr : ℕ := word r.cache envParamIndexEndAddr

/-- `set_env_end_addr`. -/
def setEndAddr (endAddr : ℕ) : Ram := { r with cache := setWord r.cache envParamIndexEndAddr endAddr }

/-- `get_env_data_size`. -/
def dataSize : ℕ := if r.endAddr > r.dataAddr then r.endAddr - r.dataAddr else 0

/-- `get_env_user_used_size`. -/
def userUsedSize : ℕ := if r.endAddr > r.systemAddr then r.endAddr - r.systemAddr else 0

end Ram

/-- The next multiple of four. -/
def wordAlign (n : ℕ) : ℕ := if n % 4 ≠ 0 then (n / 4 + 1) * 4 else n

/-- `write_env`. -/
def writeEnv (key value : List UInt8) (r : Ram) : Ram × EfErrCode :=
  let envStrLen := wordAlign (key.length + value.length + 2)
  if envStrLen + r.userUsedSize ≥ envUserSettingSize then (r, .envFull)
  else
    let env := key ++ equalSign :: value ++ 0 :: List.replicate (envStrLen - (key.length + value.length + 2)) 0
    let r := { r with cache := overwrite r.cache r.userUsedSize env }
    ({ r.setEndAddr (r.endAddr + envStrLen) with changed := true }, .noErr)

/-- The string at the start of some memory. -/
def cstr (s : List UInt8) : List UInt8 := s.takeWhile (· ≠ 0)

/-- The loop of `find_env`. Every round goes on by a word at least, so that there are no more rounds than bytes. -/
def findLoop (key cache : List UInt8) (envEnd : ℕ) : ℕ → ℕ → Option ℕ
  | 0, _ => none
  | rounds + 1, env =>
    if env < envEnd then
      if (cache.drop env).take key.length = key ∧ (cache.drop env)[key.length]? = some equalSign then some env
      else findLoop key cache envEnd rounds (env + wordAlign ((cstr (cache.drop env)).length + 1))
    else none

/-- `find_env`: where the variable starts. -/
def findEnv (key : List UInt8) (r : Ram) : Option ℕ :=
  if key = [] then none else findLoop key r.cache r.userUsedSize r.userUsedSize envParamByteSize

/-- `create_env`. -/
def createEnv (key value : List UInt8) (r : Ram) : Ram × EfErrCode :=
  if key = [] then (r, .envNameErr)
  else if equalSign ∈ key then (r, .envNameErr)
  else
    match findEnv key r with
    | some _ => (r, .envNameExist)
    | none => writeEnv key value r

/-- `del_env`. -/
def delEnv (key : List UInt8) (r : Ram) : Ram × EfErrCode :=
  if key = [] then (r, .envNameErr)
  else if equalSign ∈ key then (r, .envNameErr)
  else
    match findEnv key r with
    | none => (r, .envNameErr)
    | some env =>
      let delEnvLength := wordAlign ((cstr (r.cache.drop env)).length + 1)
      let remainEnvLength := r.dataSize - (env + delEnvLength - envParamByteSize)
      -- the rest moves forward
      let r := { r with cache := overwrite r.cache env ((r.cache.drop (env + delEnvLength)).take remainEnvLength) }
      ({ r.setEndAddr (r.endAddr - delEnvLength) with changed := true }, .noErr)

/-- The value in the string at `env`: what is behind the first equal sign. -/
def valueAt (cache : List UInt8) (env : ℕ) : Option (List UInt8) :=
  match (cstr (cache.drop env)).dropWhile (· ≠ equalSign) with
  | [] => none
  | _ :: value => some value

/-- `ef_set_env`; the value may be a null pointer. -/
def efSetEnv (key : List UInt8) (value : Option (List UInt8)) (r : Ram) : Ram × EfErrCode :=
  if !r.initOk then (r, .envInitFailed)
  else
    match value with
    | none => delEnv key r
    | some value =>
      match findEnv key r with
      | some env =>
        if valueAt r.cache env = some value then (r, .noErr)
        else
          let (r, result) := delEnv key r
          if result = .noErr then createEnv key value r else (r, result)
      | none => createEnv key value r

/-- `ef_del_env`. -/
def efDelEnv (key : List UInt8) (r : Ram) : Ram × EfErrCode := if !r.initOk then (r, .envInitFailed) else delEnv key r

/-- `ef_get_env`. -/
def efGetEnv (key : List UInt8) (r : Ram) : Option (List UInt8) :=
  if !r.initOk then none else (findEnv key r).bind (valueAt r.cache)

/-! ## Words -/

section Words

variable {c : List UInt8} {i n : ℕ}

@[simp] theorem length_setWord (h : 4 * i + 4 ≤ c.length) (n : ℕ) : (setWord c i n).length = c.length :=
  overwrite_length (by rw [Words.length_bytes]; exact h)

/-- A word behind which something is written. -/
theorem word_overwrite {p : ℕ} (hi : 4 * i + 4 ≤ p) (hp : p ≤ c.length) (d : List UInt8) :
    word (overwrite c p d) i = word c i := by
  have htake : ((overwrite c p d).drop (4 * i)).take 4 = (c.drop (4 * i)).take 4 := by
    rw [List.take_drop, List.take_drop, take_overwrite d hi hp]
  rw [word, word, htake]

/-- A word holds 32 bits. -/
theorem word_setWord_mod (h : 4 * i + 4 ≤ c.length) (n : ℕ) : word (setWord c i n) i = n % 2 ^ 32 := by
  have hslice := slice_overwrite (c := c) (p := 4 * i) (Words.bytes 4 n) (by omega)
  rw [Words.length_bytes] at hslice
  rw [word, setWord, hslice, Words.value_bytes_mod, show (256 : ℕ) ^ 4 = 2 ^ 32 by norm_num]

theorem word_setWord (h : 4 * i + 4 ≤ c.length) (hn : n < 2 ^ 32) : word (setWord c i n) i = n := by
  rw [word_setWord_mod h, Nat.mod_eq_of_lt hn]

/-- Another word. -/
theorem word_setWord_ne {j : ℕ} (hij : i ≠ j) (h : 4 * j + 4 ≤ c.length) : word (setWord c j n) i = word c i := by
  rcases Nat.lt_or_gt_of_ne hij with hlt | hgt
  · exact word_overwrite (by omega) (by omega) _
  · have hdrop : (setWord c j n).drop (4 * i) = c.drop (4 * i) :=
      drop_overwrite (by rw [Words.length_bytes]; omega) (by omega)
    rw [word, word, hdrop]

/-- What stands behind the word. -/
theorem drop_setWord {k : ℕ} (hk : 4 * i + 4 ≤ k) (h : 4 * i + 4 ≤ c.length) : (setWord c i n).drop k = c.drop k :=
  drop_overwrite (by rw [Words.length_bytes]; exact hk) (by omega)

end Words

theorem le_wordAlign (n : ℕ) : n ≤ wordAlign n := by
  unfold wordAlign
  split_ifs <;> omega

theorem wordAlign_lt (n : ℕ) : wordAlign n < n + 4 := by
  unfold wordAlign
  split_ifs <;> omega

/-! ## Variables -/

/-- A variable: a name and a value that can be told apart in its string. -/
structure Var where
  name : List UInt8
  value : List UInt8
  named : name ≠ []
  plain : equalSign ∉ name
  nulFree : 0 ∉ name ∧ 0 ∉ value

/-- The string of the variable. -/
def Var.text (v : Var) : List UInt8 := v.name ++ equalSign :: v.value

/-- The string in the cache. -/
def Var.bytes (v : Var) : List UInt8 :=
  v.text ++ 0 :: List.replicate (wordAlign (v.text.length + 1) - (v.text.length + 1)) 0

/-- The variables, one behind the other. -/
def bytesOf (vars : List Var) : List UInt8 := vars.flatMap Var.bytes

/-- The cache holds the variables. -/
structure Holds (r : Ram) (vars : List Var) : Prop where
  size : r.cache.length = envUserSettingSize
  area : r.curLoadAreaAddr < 2 ^ 31
  ends : r.endAddr = r.dataAddr + (bytesOf vars).length
  stored : (r.cache.drop envParamByteSize).take (bytesOf vars).length = bytesOf vars
  room : envParamByteSize + (bytesOf vars).length < envUserSettingSize
  distinct : (vars.map Var.name).Nodup

namespace Var

variable (v : Var)

theorem text_nulFree : 0 ∉ v.text := by
  rw [text, List.mem_append, List.mem_cons, not_or, not_or]
  exact ⟨v.nulFree.1, by decide, v.nulFree.2⟩

theorem length_bytes : v.bytes.length = wordAlign (v.text.length + 1) := by
  have hle := le_wordAlign (v.text.length + 1)
  rw [bytes, List.length_append, List.length_cons, List.length_replicate]
  omega

/-- The string ends where the variable does. -/
theorem cstr_bytes (rest : List UInt8) : cstr (v.bytes ++ rest) = v.text := by
  have hall : ∀ c ∈ v.text, decide (c ≠ 0) = true := fun c hc => decide_eq_true fun h => v.text_nulFree (h ▸ hc)
  rw [cstr, bytes, List.append_assoc, List.takeWhile_append_of_pos hall, List.cons_append, List.takeWhile_cons_of_neg,
    List.append_nil]
  simp

/-- The first equal sign of the string is the one behind the name. -/
theorem dropWhile_text : v.text.dropWhile (· ≠ equalSign) = equalSign :: v.value := by
  have hall : ∀ c ∈ v.name, decide (c ≠ equalSign) = true := fun c hc => decide_eq_true fun h => v.plain (h ▸ hc)
  rw [text, List.dropWhile_append_of_pos hall, List.dropWhile_cons_of_neg]
  simp

/-- The test of `find_env` on the string of a variable: the key and an equal sign are what the string starts with. -/
def Matches (key : List UInt8) : Prop := key ++ [equalSign] <+: v.text

instance (key : List UInt8) : Decidable (v.Matches key) := inferInstanceAs (Decidable (key ++ [equalSign] <+: v.text))

theorem tests_iff {key : List UInt8} (hnul : 0 ∉ key) (rest : List UInt8) :
    ((v.bytes ++ rest).take key.length = key ∧ (v.bytes ++ rest)[key.length]? = some equalSign) ↔ v.Matches key := by
  have hsplit : v.bytes ++ rest =
      v.text ++ 0 :: (List.replicate (wordAlign (v.text.length + 1) - (v.text.length + 1)) 0 ++ rest) := by
    rw [bytes, List.append_assoc, List.cons_append]
  constructor
  · rintro ⟨htake, hget⟩
    obtain ⟨hlen, heq⟩ := List.getElem?_eq_some_iff.1 hget
    have hprefix : key ++ [equalSign] <+: v.bytes ++ rest := by
      refine ⟨(v.bytes ++ rest).drop (key.length + 1), ?_⟩
      conv_rhs => rw [← List.take_append_drop key.length (v.bytes ++ rest), List.drop_eq_getElem_cons hlen, heq, htake]
      rw [List.append_assoc, List.singleton_append]
    -- there is no NUL in it, so that it ends within the string
    rw [hsplit] at hprefix
    rcases List.prefix_or_prefix_of_prefix hprefix (List.prefix_append v.text _) with hin | hover
    · exact hin
    · obtain ⟨more, hmore⟩ := hover
      cases more with
      | nil => exact ⟨[], by rw [← hmore, List.append_nil, List.append_nil]⟩
      | cons c more =>
        rw [← hmore, List.prefix_append_right_inj] at hprefix
        obtain rfl : c = 0 := (List.cons_prefix_cons.1 hprefix).1
        have hmem : (0 : UInt8) ∈ key ++ [equalSign] := hmore ▸ List.mem_append_right _ List.mem_cons_self
        rcases List.mem_append.1 hmem with hkey | hsign
        · exact absurd hkey hnul
        · exact absurd (List.mem_singleton.1 hsign) (by decide)
  · rintro ⟨more, hmore⟩
    rw [hsplit, ← hmore, List.append_assoc, List.append_assoc]
    refine ⟨List.take_left, ?_⟩
    rw [List.getElem?_append_right le_rfl, Nat.sub_self]
    rfl

/-- A proper name matches its own variable only. -/
theorem matches_iff {key : List UInt8} (hplain : equalSign ∉ key) : v.Matches key ↔ v.name = key := by
  have hfirst : ∀ {a s : List UInt8}, equalSign ∉ a → (a ++ equalSign :: s).takeWhile (· ≠ equalSign) = a := by
    intro a s ha
    have hall : ∀ c ∈ a, decide (c ≠ equalSign) = true := fun c hc => decide_eq_true fun h => ha (h ▸ hc)
    rw [List.takeWhile_append_of_pos hall, List.takeWhile_cons_of_neg (by simp), List.append_nil]
  constructor
  · rintro ⟨more, hmore⟩
    rw [text, List.append_assoc, List.singleton_append] at hmore
    rw [← hfirst v.plain, ← hmore, hfirst hplain]
  · rintro rfl
    exact ⟨v.value, by rw [text, List.append_assoc, List.singleton_append]⟩

/-- A key with an equal sign matches where the value goes on as it does. -/
theorem matches_append_iff {key more : List UInt8} (hplain : equalSign ∉ key) :
    v.Matches (key ++ equalSign :: more) ↔ v.name = key ∧ more ++ [equalSign] <+: v.value := by
  constructor
  · intro h
    have hname : v.name = key := by
      obtain ⟨rest, hrest⟩ := h
      refine (v.matches_iff hplain).1 ⟨more ++ equalSign :: rest, ?_⟩
      rw [← hrest]
      simp only [List.append_assoc, List.cons_append, List.nil_append]
    refine ⟨hname, ?_⟩
    rw [Matches, text, hname, List.append_assoc, List.prefix_append_right_inj, List.cons_append, List.cons_prefix_cons] at h
    exact h.2
  · rintro ⟨rfl, h⟩
    rw [Matches, text, List.append_assoc, List.prefix_append_right_inj, List.cons_append, List.cons_prefix_cons]
    exact ⟨rfl, h⟩

end Var

@[simp] theorem bytesOf_nil : bytesOf [] = [] := rfl

@[simp] theorem bytesOf_cons (v : Var) (vars : List Var) : bytesOf (v :: vars) = v.bytes ++ bytesOf vars := rfl

@[simp] theorem bytesOf_append (front back : List Var) : bytesOf (front ++ back) = bytesOf front ++ bytesOf back :=
  List.flatMap_append

theorem Var.bytes_pos (v : Var) : 0 < v.bytes.length := by
  have hle := le_wordAlign (v.text.length + 1)
  rw [v.length_bytes]
  omega

/-! ## Looking for a variable -/

section Find

variable {key cache : List UInt8} {envEnd : ℕ}

/-- One round of the search over a variable. -/
theorem findLoop_cons (hnul : 0 ∉ key) (v : Var) (rest : List UInt8) {env rounds : ℕ} (hat : cache.drop env = v.bytes ++ rest)
    (hend : env < envEnd) :
    findLoop key cache envEnd (rounds + 1) env =
      if v.Matches key then some env else findLoop key cache envEnd rounds (env + v.bytes.length) := by
  have htest : ((cache.drop env).take key.length = key ∧ (cache.drop env)[key.length]? = some equalSign) ↔
      v.Matches key := by
    rw [hat]
    exact v.tests_iff hnul rest
  have hcstr : (cstr (cache.drop env)).length = v.text.length := by rw [hat, v.cstr_bytes]
  rw [findLoop, if_pos hend, hcstr, ← v.length_bytes]
  by_cases hm : v.Matches key
  · rw [if_pos (htest.2 hm), if_pos hm]
  · rw [if_neg fun h => hm (htest.1 h), if_neg hm]

/-- **The search** stops at the first variable that matches. -/
theorem findLoop_some (hnul : 0 ∉ key) {v : Var} {back : List Var} {rest : List UInt8} (hm : v.Matches key) :
    ∀ {front : List Var} {env rounds : ℕ}, (∀ w ∈ front, ¬ w.Matches key) →
      cache.drop env = bytesOf (front ++ v :: back) ++ rest → envEnd = env + (bytesOf (front ++ v :: back)).length →
      (bytesOf (front ++ v :: back)).length ≤ rounds →
      findLoop key cache envEnd rounds env = some (env + (bytesOf front).length) := by
  intro front
  induction front with
  | nil =>
    intro env rounds _ hat hend hrounds
    have hpos := v.bytes_pos
    simp only [List.nil_append, bytesOf_cons, List.length_append, List.append_assoc] at hat hend hrounds
    obtain ⟨rounds, rfl⟩ : ∃ n, rounds = n + 1 := ⟨rounds - 1, by omega⟩
    rw [findLoop_cons hnul v _ hat (by omega), if_pos hm, bytesOf_nil, List.length_nil, Nat.add_zero]
  | cons w front ih =>
    intro env rounds hfront hat hend hrounds
    have hpos := w.bytes_pos
    simp only [List.cons_append, bytesOf_cons, List.append_assoc] at hat hend hrounds
    rw [List.length_append] at hend hrounds
    obtain ⟨rounds, rfl⟩ : ∃ n, rounds = n + 1 := ⟨rounds - 1, by omega⟩
    have hnext : cache.drop (env + w.bytes.length) = bytesOf (front ++ v :: back) ++ rest := by
      rw [← List.drop_drop, hat, List.drop_left]
    rw [findLoop_cons hnul w _ hat (by omega), if_neg (hfront w List.mem_cons_self),
      ih (fun x hx => hfront x (List.mem_cons_of_mem _ hx)) hnext (by omega) (by omega), bytesOf_cons, List.length_append,
      Nat.add_assoc]

/-- **The search** goes through all variables when none matches. -/
theorem findLoop_none (hnul : 0 ∉ key) {rest : List UInt8} : ∀ {vars : List Var} {env rounds : ℕ},
    (∀ w ∈ vars, ¬ w.Matches key) → cache.drop env = bytesOf vars ++ rest → envEnd = env + (bytesOf vars).length →
      findLoop key cache envEnd rounds env = none := by
  intro vars
  induction vars with
  | nil =>
    intro env rounds _ _ hend
    rw [bytesOf_nil, List.length_nil, Nat.add_zero] at hend
    cases rounds with
    | zero => rfl
    | succ rounds => rw [findLoop, if_neg (by omega)]
  | cons w vars ih =>
    intro env rounds hvars hat hend
    have hpos := w.bytes_pos
    rw [bytesOf_cons, List.append_assoc] at hat
    rw [bytesOf_cons, List.length_append] at hend
    cases rounds with
    | zero => rfl
    | succ rounds =>
      have hnext : cache.drop (env + w.bytes.length) = bytesOf vars ++ rest := by
        rw [← List.drop_drop, hat, List.drop_left]
      rw [findLoop_cons hnul w _ hat (by omega), if_neg (hvars w List.mem_cons_self),
        ih (fun x hx => hvars x (List.mem_cons_of_mem _ hx)) hnext (by omega)]

end Find

section Holds

variable {r : Ram} {vars front back : List Var} {v : Var} {key value : List UInt8}

theorem Holds.userUsedSize (h : Holds r vars) : r.userUsedSize = envParamByteSize + (bytesOf vars).length := by
  have hends := h.ends
  have hpos : 0 < envParamByteSize := by decide
  rw [Ram.dataAddr] at hends
  rw [Ram.userUsedSize, hends, if_pos (by omega)]
  omega

theorem Holds.dataSize (h : Holds r vars) : r.dataSize = (bytesOf vars).length := by
  rw [Ram.dataSize, h.ends]
  split_ifs <;> omega

/-- The variables stand behind the header. -/
theorem Holds.drop (h : Holds r vars) : ∃ rest, r.cache.drop envParamByteSize = bytesOf vars ++ rest := by
  refine ⟨(r.cache.drop envParamByteSize).drop (bytesOf vars).length, ?_⟩
  calc r.cache.drop envParamByteSize
      = (r.cache.drop envParamByteSize).take (bytesOf vars).length ++
          (r.cache.drop envParamByteSize).drop (bytesOf vars).length := (List.take_append_drop _ _).symm
    _ = bytesOf vars ++ (r.cache.drop envParamByteSize).drop (bytesOf vars).length := by rw [h.stored]

theorem findEnv_some (h : Holds r (front ++ v :: back)) (hne : key ≠ []) (hnul : 0 ∉ key) (hm : v.Matches key)
    (hfront : ∀ w ∈ front, ¬ w.Matches key) : findEnv key r = some (envParamByteSize + (bytesOf front).length) := by
  obtain ⟨rest, hrest⟩ := h.drop
  rw [findEnv, if_neg hne, h.userUsedSize]
  exact findLoop_some hnul hm hfront hrest rfl (by omega)

theorem findEnv_none (h : Holds r vars) (hnul : 0 ∉ key) (hnone : ∀ w ∈ vars, ¬ w.Matches key) : findEnv key r = none := by
  obtain ⟨rest, hrest⟩ := h.drop
  rw [findEnv, h.userUsedSize]
  split_ifs
  · rfl
  · exact findLoop_none hnul hnone hrest rfl

/-- What stands in the cache from a variable on. -/
theorem Holds.drop_var (h : Holds r (front ++ v :: back)) : ∃ rest,
    r.cache.drop (envParamByteSize + (bytesOf front).length) = v.bytes ++ (bytesOf back ++ rest) := by
  obtain ⟨rest, hrest⟩ := h.drop
  refine ⟨rest, ?_⟩
  rw [← List.drop_drop, hrest, bytesOf_append, bytesOf_cons, List.append_assoc, List.drop_left, List.append_assoc]

theorem valueAt_holds (h : Holds r (front ++ v :: back)) :
    valueAt r.cache (envParamByteSize + (bytesOf front).length) = some v.value := by
  obtain ⟨rest, hdrop⟩ := h.drop_var
  rw [valueAt, hdrop, v.cstr_bytes, v.dropWhile_text]

/-- A cache with the variables behind its header and their end in it. -/
theorem holds_setWord {c : List UInt8} (hcache : r.cache = setWord c envParamIndexEndAddr
    (r.dataAddr + (bytesOf vars).length)) (hsize : c.length = envUserSettingSize) (harea : r.curLoadAreaAddr < 2 ^ 31)
    (hdrop : bytesOf vars <+: c.drop envParamByteSize)
    (hroom : envParamByteSize + (bytesOf vars).length < envUserSettingSize) (hdistinct : (vars.map Var.name).Nodup) :
    Holds r vars := by
  have hword : 4 * envParamIndexEndAddr + 4 ≤ c.length := by rw [hsize]; decide
  have hend : r.dataAddr + (bytesOf vars).length < 2 ^ 32 := by
    rw [envUserSettingSize] at hroom
    rw [Ram.dataAddr, Ram.systemAddr]
    omega
  refine ⟨?_, harea, ?_, ?_, hroom, hdistinct⟩
  · rw [hcache, length_setWord hword, hsize]
  · rw [Ram.endAddr, hcache, word_setWord hword hend]
  · obtain ⟨rest, hrest⟩ := hdrop
    rw [hcache, drop_setWord (by decide) hword, ← hrest, List.take_left]

/-- What is written behind the header leaves the end address alone. -/
theorem endAddr_overwrite {p : ℕ} (hp : envParamByteSize ≤ p) (hle : p ≤ r.cache.length) (d : List UInt8) :
    Ram.endAddr { r with cache := overwrite r.cache p d } = r.endAddr :=
  word_overwrite (le_trans (by decide) hp) hle d

/-- What the calls leave alone: the words behind the end address, and everything but the cache and its mark. -/
structure Edits (r r' : Ram) (touched : Bool) : Prop where
  frame : r' = { r with cache := r'.cache, changed := r.changed || touched }
  header : ∀ i, i ≠ envParamIndexEndAddr → i < 3 → word r'.cache i = word r.cache i

theorem Edits.refl (r : Ram) : Edits r r false := ⟨by rw [Bool.or_false], fun _ _ _ => rfl⟩

theorem Edits.trans {r₁ r₂ r₃ : Ram} {a b : Bool} (h : Edits r₁ r₂ a) (h' : Edits r₂ r₃ b) : Edits r₁ r₃ (a || b) := by
  refine ⟨?_, fun i hi hlt => (h'.header i hi hlt).trans (h.header i hi hlt)⟩
  rw [h'.frame, h.frame, Bool.or_assoc]

/-- Something is written behind the header, and the end address is set. -/
theorem edits_setEndAddr {p : ℕ} (hsize : r.cache.length = envUserSettingSize) (hp : envParamByteSize ≤ p) {d : List UInt8}
    (hfit : p + d.length ≤ r.cache.length) (endAddr : ℕ) :
    Edits r { Ram.setEndAddr { r with cache := overwrite r.cache p d } endAddr with changed := true } true := by
  refine ⟨by rw [Bool.or_true]; rfl, fun i hi hlt => ?_⟩
  have hlen : (overwrite r.cache p d).length = envUserSettingSize := by rw [overwrite_length hfit, hsize]
  have hlow : 4 * i + 4 ≤ p := le_trans (by rw [envParamByteSize]; omega) hp
  calc word (setWord (overwrite r.cache p d) envParamIndexEndAddr endAddr) i
      = word (overwrite r.cache p d) i := word_setWord_ne hi (by rw [hlen]; decide)
    _ = word r.cache i := word_overwrite hlow (by omega) d

/-- **A variable is deleted.** -/
theorem delEnv_some (h : Holds r (front ++ v :: back)) (hne : key ≠ []) (hplain : equalSign ∉ key)
    (hfind : findEnv key r = some (envParamByteSize + (bytesOf front).length)) :
    ∃ r', delEnv key r = (r', .noErr) ∧ Holds r' (front ++ back) ∧ Edits r r' true := by
  obtain ⟨rest, hrest⟩ := h.drop_var
  obtain ⟨tail, htail⟩ := h.drop
  have hends := h.ends
  have hroom := h.room
  have hdata := h.dataSize
  have hsize := h.size
  set env := envParamByteSize + (bytesOf front).length with henv
  have hbytes : (bytesOf (front ++ v :: back)).length = (bytesOf front).length + v.bytes.length + (bytesOf back).length := by
    simp only [bytesOf_append, bytesOf_cons, List.length_append, Nat.add_assoc]
  have hlen : wordAlign ((cstr (r.cache.drop env)).length + 1) = v.bytes.length := by
    rw [hrest, v.cstr_bytes, v.length_bytes]
  have hmoved : (r.cache.drop (env + v.bytes.length)).take (r.dataSize - (env + v.bytes.length - envParamByteSize)) =
      bytesOf back := by
    have hremain : r.dataSize - (env + v.bytes.length - envParamByteSize) = (bytesOf back).length := by omega
    rw [hremain, ← List.drop_drop, hrest, List.drop_left, List.take_left]
  have hcut : r.endAddr - v.bytes.length = r.dataAddr + (bytesOf (front ++ back)).length := by
    rw [bytesOf_append, List.length_append]
    omega
  have hdel : delEnv key r = ({ Ram.setEndAddr { r with cache := overwrite r.cache env (bytesOf back) }
      (r.dataAddr + (bytesOf (front ++ back)).length) with changed := true }, .noErr) := by
    rw [delEnv, if_neg hne, if_neg hplain, hfind]
    simp only [hlen, hmoved]
    rw [endAddr_overwrite (by omega) (by omega), hcut]
  have hfit : env + (bytesOf back).length ≤ r.cache.length := by omega
  refine ⟨_, hdel, ?_, edits_setEndAddr hsize (Nat.le_add_right _ _) hfit _⟩
  refine holds_setWord rfl ?_ h.area ⟨(r.cache.drop envParamByteSize).drop ((bytesOf front).length + (bytesOf back).length), ?_⟩
    ?_ ?_
  · rw [overwrite_length hfit, hsize]
  · have hpos : env - envParamByteSize = (bytesOf front).length := by omega
    symm
    rw [overwrite_drop _ (by omega) (by omega), hpos, overwrite]
    congr 1
    rw [htail, bytesOf_append, List.append_assoc, List.take_left, bytesOf_append]
  · rw [bytesOf_append, List.length_append]
    omega
  · have hsub : List.Sublist ((front ++ back).map Var.name) ((front ++ v :: back).map Var.name) :=
      ((List.sublist_cons_self v back).append_left front).map _
    exact hsub.nodup h.distinct

/-- The string that `write_env` puts down. -/
theorem bytes_eq (v : Var) : v.name ++ equalSign :: v.value ++ 0 :: List.replicate
    (wordAlign (v.name.length + v.value.length + 2) - (v.name.length + v.value.length + 2)) 0 = v.bytes := by
  have hlen : v.text.length + 1 = v.name.length + v.value.length + 2 := by
    rw [Var.text, List.length_append, List.length_cons]
    omega
  rw [Var.bytes, hlen, Var.text]

/-- What a variable takes in the cache. -/
def cost (key value : List UInt8) : ℕ := wordAlign (key.length + value.length + 2)

theorem length_bytes_eq (v : Var) : v.bytes.length = cost v.name v.value := by
  rw [v.length_bytes, cost, Var.text, List.length_append, List.length_cons]
  congr 1

/-- **A variable is put at the end.** -/
theorem writeEnv_fits (h : Holds r vars) (hnew : v.name ∉ vars.map Var.name)
    (hfits : envParamByteSize + (bytesOf vars).length + cost v.name v.value < envUserSettingSize) :
    ∃ r', writeEnv v.name v.value r = (r', .noErr) ∧ Holds r' (vars ++ [v]) ∧ Edits r r' true := by
  obtain ⟨tail, htail⟩ := h.drop
  have hends := h.ends
  have hsize := h.size
  have hused := h.userUsedSize
  have hcost := length_bytes_eq v
  have hbytes : bytesOf (vars ++ [v]) = bytesOf vars ++ v.bytes := by rw [bytesOf_append, bytesOf_cons, bytesOf_nil, List.append_nil]
  have hwrite : writeEnv v.name v.value r = ({ Ram.setEndAddr { r with cache := overwrite r.cache r.userUsedSize v.bytes }
      (r.dataAddr + (bytesOf (vars ++ [v])).length) with changed := true }, .noErr) := by
    have hlong : ¬ wordAlign (v.name.length + v.value.length + 2) + r.userUsedSize ≥ envUserSettingSize := by
      rw [← cost]
      omega
    have hend : r.endAddr + wordAlign (v.name.length + v.value.length + 2) = r.dataAddr + (bytesOf (vars ++ [v])).length := by
      rw [← cost, hbytes, List.length_append]
      omega
    simp only [writeEnv, if_neg hlong, bytes_eq]
    rw [endAddr_overwrite (by omega) (by omega), hend]
  refine ⟨_, hwrite, ?_, edits_setEndAddr hsize (by omega) (by omega) _⟩
  refine holds_setWord rfl ?_ h.area ⟨(r.cache.drop envParamByteSize).drop ((bytesOf vars).length + v.bytes.length), ?_⟩ ?_ ?_
  · rw [overwrite_length (by omega), hsize]
  · have hpos : r.userUsedSize - envParamByteSize = (bytesOf vars).length := by omega
    symm
    rw [overwrite_drop _ (by omega) (by omega), hpos, overwrite, hbytes]
    congr 1
    rw [htail, List.take_left]
  · rw [hbytes, List.length_append]
    omega
  · rw [List.map_append, List.map_cons, List.map_nil]
    exact List.nodup_append'.2 ⟨h.distinct, List.nodup_singleton _, List.disjoint_singleton.2 hnew⟩

theorem writeEnv_full (h : Holds r vars) (hfull : envUserSettingSize ≤ envParamByteSize + (bytesOf vars).length + cost key value) :
    writeEnv key value r = (r, .envFull) := by
  have hused := h.userUsedSize
  rw [cost] at hfull
  rw [writeEnv]
  exact if_pos (by omega)

end Holds

end W601.Easyflash
