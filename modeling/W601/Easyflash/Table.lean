import W601.Easyflash.Env

/-!
# The environment as a map

What the environment is for: names with values, as long as they fit.

* `Table`: the map and what the calls do to it.
* `Represents`: the variables in a cache make up a map.
* `run_refines`: **in every run** the calls on the cache answer as those on the map.
* `efSetEnv_lost`: a value that does not fit takes the old one with it.
-/

namespace W601.Easyflash

/-- A map of names to values and the bytes that it takes. -/
structure Table where
  lookup : List UInt8 → Option (List UInt8)
  used : ℕ

namespace Table

variable (t : Table)

/-- What is found under a name. A name with an equal sign in it finds the variable in front of the sign when its value
goes on as the name does. -/
def find (key : List UInt8) : Option (List UInt8) :=
  match key.dropWhile (· ≠ equalSign) with
  | [] => t.lookup key
  | _ :: more =>
    (t.lookup (key.takeWhile (· ≠ equalSign))).filter fun value => decide (more ++ [equalSign] <+: value)

def remove (key : List UInt8) : Table × EfErrCode :=
  if equalSign ∈ key then (t, .envNameErr)
  else
    match t.lookup key with
    | none => (t, .envNameErr)
    | some value => ({ lookup := Function.update t.lookup key none, used := t.used - cost key value }, .noErr)

def add (key value : List UInt8) : Table × EfErrCode :=
  if key = [] ∨ equalSign ∈ key then (t, .envNameErr)
  else if envUserSettingSize ≤ envParamByteSize + t.used + cost key value then (t, .envFull)
  else ({ lookup := Function.update t.lookup key (some value), used := t.used + cost key value }, .noErr)

/-- A value that changes is removed first. -/
def set (key : List UInt8) (value : Option (List UInt8)) : Table × EfErrCode :=
  match value with
  | none => t.remove key
  | some value =>
    match t.find key with
    | none => t.add key value
    | some old =>
      if old = value then (t, .noErr)
      else if (t.remove key).2 = .noErr then (t.remove key).1.add key value
      else t.remove key

end Table

/-- The variables make up the map. -/
structure Represents (t : Table) (vars : List Var) : Prop where
  lookup : ∀ n x, t.lookup n = some x ↔ ∃ v ∈ vars, v.name = n ∧ v.value = x
  used : t.used = (bytesOf vars).length

/-- The map that some variables make up. -/
def tableOf (vars : List Var) : Table where
  lookup n := (vars.find? (·.name = n)).map Var.value
  used := (bytesOf vars).length

section Represents

variable {t : Table} {vars front back : List Var} {v : Var} {key x : List UInt8}

theorem represents_tableOf (hdistinct : (vars.map Var.name).Nodup) : Represents (tableOf vars) vars := by
  refine ⟨fun n x => ?_, rfl⟩
  constructor
  · intro h
    obtain ⟨v, hfind, rfl⟩ := Option.map_eq_some_iff.1 h
    exact ⟨v, List.mem_of_find?_eq_some hfind, by simpa using List.find?_some hfind, rfl⟩
  · rintro ⟨v, hv, rfl, rfl⟩
    cases hfind : vars.find? (·.name = v.name) with
    | none => simpa using List.find?_eq_none.1 hfind v hv
    | some w =>
      have hname : w.name = v.name := by simpa using List.find?_some hfind
      obtain rfl := List.inj_on_of_nodup_map hdistinct (List.mem_of_find?_eq_some hfind) hv hname
      exact Option.map_eq_some_iff.2 ⟨w, hfind, rfl⟩

theorem Var.Matches.ne_nil (h : v.Matches key) : key ≠ [] := by
  rintro rfl
  exact v.named ((v.matches_iff List.not_mem_nil).1 h)

/-- A key is a name, or there is an equal sign behind one. -/
theorem key_cases (key : List UInt8) : (equalSign ∉ key ∧ key.dropWhile (· ≠ equalSign) = []) ∨
    ∃ n more, equalSign ∉ n ∧ key = n ++ equalSign :: more ∧ key.takeWhile (· ≠ equalSign) = n ∧
      key.dropWhile (· ≠ equalSign) = equalSign :: more := by
  have hplain : equalSign ∉ key.takeWhile (· ≠ equalSign) := by
    intro h
    have hne := List.mem_takeWhile_imp h
    simp at hne
  have hkey : key.takeWhile (· ≠ equalSign) ++ key.dropWhile (· ≠ equalSign) = key := List.takeWhile_append_dropWhile
  cases hdrop : key.dropWhile (· ≠ equalSign) with
  | nil =>
    rw [hdrop, List.append_nil] at hkey
    rw [hkey] at hplain
    exact .inl ⟨hplain, rfl⟩
  | cons c more =>
    have hsign : c = equalSign := by
      have hhead := List.head?_dropWhile_not (· ≠ equalSign) key
      rw [hdrop] at hhead
      simpa using hhead
    rw [hdrop, hsign] at hkey
    exact .inr ⟨_, more, hplain, hkey.symm, rfl, by rw [hsign]⟩

/-- **What is found** is the value of a variable that matches. -/
theorem Represents.find_iff (h : Represents t vars) : t.find key = some x ↔ ∃ v ∈ vars, v.Matches key ∧ v.value = x := by
  rcases key_cases key with ⟨hplain, hdrop⟩ | ⟨n, more, hplain, hkey, htake, hdrop⟩
  · rw [Table.find, hdrop]
    simp only [h.lookup, Var.matches_iff _ hplain]
  · rw [Table.find, hdrop, htake]
    simp only [hkey, Var.matches_append_iff _ hplain, Option.filter_eq_some_iff, h.lookup, decide_eq_true_eq]
    constructor
    · rintro ⟨⟨w, hw, hname, rfl⟩, hmore⟩
      exact ⟨w, hw, ⟨hname, hmore⟩, rfl⟩
    · rintro ⟨w, hw, ⟨hname, hmore⟩, rfl⟩
      exact ⟨⟨w, hw, hname, rfl⟩, hmore⟩

/-- Two variables that match have one name. -/
theorem matches_unique {w : Var} (hv : v.Matches key) (hw : w.Matches key) : v.name = w.name := by
  rcases key_cases key with ⟨hplain, -⟩ | ⟨n, more, hplain, rfl, -, -⟩
  · rw [(v.matches_iff hplain).1 hv, (w.matches_iff hplain).1 hw]
  · rw [((v.matches_append_iff hplain).1 hv).1, ((w.matches_append_iff hplain).1 hw).1]

/-- A variable goes. -/
theorem Represents.remove (h : Represents t (front ++ v :: back)) (hdistinct : ((front ++ v :: back).map Var.name).Nodup) :
    Represents { lookup := Function.update t.lookup v.name none, used := t.used - cost v.name v.value } (front ++ back) := by
  have hother : ∀ w ∈ front ++ back, w.name ≠ v.name := by
    rw [List.map_append, List.map_cons] at hdistinct
    have hmem := (List.nodup_middle.1 hdistinct).notMem
    intro w hw hname
    rw [← List.map_append, ← hname] at hmem
    exact hmem (List.mem_map_of_mem hw)
  refine ⟨fun n y => ?_, ?_⟩
  · by_cases hn : n = v.name
    · subst hn
      simp only [Function.update_self]
      constructor
      · intro hno
        exact absurd hno (by simp)
      · rintro ⟨w, hw, hname, -⟩
        exact absurd hname (hother w hw)
    · simp only [Function.update_of_ne hn, h.lookup]
      constructor
      · rintro ⟨w, hw, rfl, rfl⟩
        have hne : w ≠ v := fun heq => hn (heq ▸ rfl)
        have hmem : w ∈ front ++ back := by
          rcases List.mem_append.1 hw with hin | hin
          · exact List.mem_append_left _ hin
          · exact List.mem_append_right _ ((List.mem_cons.1 hin).resolve_left hne)
        exact ⟨w, hmem, rfl, rfl⟩
      · rintro ⟨w, hw, rfl, rfl⟩
        have hmem : w ∈ front ++ v :: back := by
          rcases List.mem_append.1 hw with hin | hin
          · exact List.mem_append_left _ hin
          · exact List.mem_append_right _ (List.mem_cons_of_mem _ hin)
        exact ⟨w, hmem, rfl, rfl⟩
  · have hcost := length_bytes_eq v
    have hused := h.used
    simp only [bytesOf_append, bytesOf_cons, List.length_append] at hused ⊢
    omega

/-- A variable comes. -/
theorem Represents.add (h : Represents t vars) (hnew : v.name ∉ vars.map Var.name) :
    Represents { lookup := Function.update t.lookup v.name (some v.value), used := t.used + cost v.name v.value }
      (vars ++ [v]) := by
  refine ⟨fun n y => ?_, ?_⟩
  · by_cases hn : n = v.name
    · subst hn
      simp only [Function.update_self]
      constructor
      · intro heq
        exact ⟨v, List.mem_append_right _ (List.mem_singleton_self v), rfl, Option.some.inj heq⟩
      · rintro ⟨w, hw, hname, rfl⟩
        rcases List.mem_append.1 hw with hin | hin
        · exact absurd (hname ▸ List.mem_map_of_mem hin) hnew
        · rw [List.mem_singleton.1 hin]
    · simp only [Function.update_of_ne hn, h.lookup]
      constructor
      · rintro ⟨w, hw, rfl, rfl⟩
        exact ⟨w, List.mem_append_left _ hw, rfl, rfl⟩
      · rintro ⟨w, hw, rfl, rfl⟩
        rcases List.mem_append.1 hw with hin | hin
        · exact ⟨w, hin, rfl, rfl⟩
        · exact absurd (by rw [List.mem_singleton.1 hin]) hn
  · have hcost := length_bytes_eq v
    have hused := h.used
    simp only [bytesOf_append, bytesOf_cons, bytesOf_nil, List.append_nil, List.length_append] at hused ⊢
    omega

end Represents

/-! ## The calls -/

/-- A string of C: no NUL in it. -/
abbrev CString : Type := { s : List UInt8 // 0 ∉ s }

inductive Call where
  | set (key : CString) (value : Option CString)
  | del (key : CString)
  | get (key : CString)

inductive Answer where
  | code (result : EfErrCode)
  | value (value : Option (List UInt8))
  deriving DecidableEq

/-- A call on the cache. -/
def Ram.call (r : Ram) : Call → Ram × Answer
  | .set key value => let (r, result) := efSetEnv key.1 (value.map Subtype.val) r; (r, .code result)
  | .del key => let (r, result) := efDelEnv key.1 r; (r, .code result)
  | .get key => (r, .value (efGetEnv key.1 r))

/-- A call on the map. -/
def Table.call (t : Table) : Call → Table × Answer
  | .set key value => let (t, result) := t.set key.1 (value.map Subtype.val); (t, .code result)
  | .del key => let (t, result) := t.remove key.1; (t, .code result)
  | .get key => (t, .value (t.find key.1))

/-- A call counts as a change. -/
def Table.touches (t : Table) : Call → Bool
  | .set key none => decide ((t.remove key.1).2 = .noErr)
  | .set key (some value) =>
    match t.find key.1 with
    | none => decide ((t.add key.1 value.1).2 = .noErr)
    | some old => decide (old ≠ value.1) && decide ((t.remove key.1).2 = .noErr)
  | .del key => decide ((t.remove key.1).2 = .noErr)
  | .get _ => false

/-- The cache behind some calls, and the answers. -/
def Ram.run (r : Ram) : List Call → Ram × List Answer
  | [] => (r, [])
  | c :: cs => let (r, answer) := r.call c; let (r, answers) := r.run cs; (r, answer :: answers)

/-- The map behind some calls, and the answers. -/
def Table.run (t : Table) : List Call → Table × List Answer
  | [] => (t, [])
  | c :: cs => let (t, answer) := t.call c; let (t, answers) := t.run cs; (t, answer :: answers)

/-- The cache holds the map. -/
structure Refines (r : Ram) (t : Table) (vars : List Var) : Prop where
  holds : Holds r vars
  represents : Represents t vars
  initOk : r.initOk = true

section Refines

variable {r : Ram} {t : Table} {vars : List Var} {key value : List UInt8}

/-- What the search finds is what the map says. -/
theorem Refines.find (h : Refines r t vars) (hnul : 0 ∉ key) : (t.find key = none ∧ findEnv key r = none) ∨
    ∃ front v back, vars = front ++ v :: back ∧ v.Matches key ∧ t.find key = some v.value ∧
      findEnv key r = some (envParamByteSize + (bytesOf front).length) := by
  by_cases hex : ∃ v ∈ vars, v.Matches key
  · obtain ⟨v, hv, hm⟩ := hex
    obtain ⟨front, back, rfl⟩ := List.append_of_mem hv
    have hfront : ∀ w ∈ front, ¬ w.Matches key := by
      intro w hw hwm
      have hname := matches_unique hwm hm
      have hdistinct := h.holds.distinct
      rw [List.map_append, List.map_cons] at hdistinct
      have hmem := (List.nodup_middle.1 hdistinct).notMem
      exact hmem (List.mem_append_left _ (hname ▸ List.mem_map_of_mem hw))
    exact .inr ⟨front, v, back, rfl, hm, h.represents.find_iff.2 ⟨v, hv, hm, rfl⟩,
      findEnv_some h.holds hm.ne_nil hnul hm hfront⟩
  · have hnone : ∀ w ∈ vars, ¬ w.Matches key := fun w hw hm => hex ⟨w, hw, hm⟩
    refine .inl ⟨?_, findEnv_none h.holds hnul hnone⟩
    rw [Option.eq_none_iff_forall_ne_some]
    intro x hx
    obtain ⟨w, hw, hm, -⟩ := h.represents.find_iff.1 hx
    exact hnone w hw hm

/-- A proper name is found where it is stored. -/
theorem Table.find_plain (t : Table) (hplain : equalSign ∉ key) : t.find key = t.lookup key := by
  have hall : ∀ c ∈ key, decide (c ≠ equalSign) = true := fun c hc => decide_eq_true fun h => hplain (h ▸ hc)
  rw [Table.find, List.dropWhile_eq_nil_iff.2 hall]

/-- `del_env`. -/
theorem Refines.del (h : Refines r t vars) (hnul : 0 ∉ key) :
    ∃ r' vars', delEnv key r = (r', (t.remove key).2) ∧ Refines r' (t.remove key).1 vars' ∧
      Edits r r' (decide ((t.remove key).2 = .noErr)) := by
  by_cases hplain : equalSign ∈ key
  · have hdel : delEnv key r = (r, .envNameErr) := by
      rw [delEnv]
      split_ifs <;> rfl
    rw [Table.remove, if_pos hplain]
    exact ⟨r, vars, hdel, h, Edits.refl r⟩
  · have hlookup := t.find_plain hplain
    rcases h.find hnul with ⟨hnone, hfind⟩ | ⟨front, v, back, rfl, hm, hsome, hfind⟩
    · have hdel : delEnv key r = (r, .envNameErr) := by
        rw [delEnv, hfind]
        split_ifs <;> rfl
      rw [Table.remove, if_neg hplain, ← hlookup, hnone]
      exact ⟨r, vars, hdel, h, Edits.refl r⟩
    · obtain ⟨r', hdel, hholds, hedits⟩ := delEnv_some h.holds hm.ne_nil hplain hfind
      obtain rfl := (v.matches_iff hplain).1 hm
      rw [Table.remove, if_neg hplain, ← hlookup, hsome]
      refine ⟨r', front ++ back, hdel, ⟨hholds, h.represents.remove h.holds.distinct, ?_⟩, hedits⟩
      rw [hedits.frame]
      exact h.initOk

/-- `create_env`, where there is no such variable. -/
theorem Refines.create (h : Refines r t vars) (hkey : 0 ∉ key) (hvalue : 0 ∉ value) (hnew : t.find key = none) :
    ∃ r' vars', createEnv key value r = (r', (t.add key value).2) ∧ Refines r' (t.add key value).1 vars' ∧
      Edits r r' (decide ((t.add key value).2 = .noErr)) := by
  rw [Table.add, createEnv]
  by_cases hne : key = []
  · rw [if_pos hne, if_pos (.inl hne)]
    exact ⟨r, vars, rfl, h, Edits.refl r⟩
  by_cases hplain : equalSign ∈ key
  · rw [if_neg hne, if_pos hplain, if_pos (.inr hplain)]
    exact ⟨r, vars, rfl, h, Edits.refl r⟩
  have hproper : ¬ (key = [] ∨ equalSign ∈ key) := fun hbad => hbad.elim hne hplain
  have hfind : findEnv key r = none := by
    rcases h.find hkey with ⟨-, hfind⟩ | ⟨front, v, back, -, -, hsome, -⟩
    · exact hfind
    · rw [hnew] at hsome
      exact absurd hsome (by simp)
  rw [if_neg hne, if_neg hplain, if_neg hproper, hfind]
  by_cases hfull : envUserSettingSize ≤ envParamByteSize + t.used + cost key value
  · rw [if_pos hfull]
    rw [h.represents.used] at hfull
    exact ⟨r, vars, writeEnv_full h.holds hfull, h, Edits.refl r⟩
  · rw [if_neg hfull]
    rw [h.represents.used, not_le] at hfull
    obtain ⟨v, rfl, rfl⟩ : ∃ v : Var, v.name = key ∧ v.value = value := ⟨⟨key, value, hne, hplain, hkey, hvalue⟩, rfl, rfl⟩
    have hfresh : v.name ∉ vars.map Var.name := by
      intro hmem
      obtain ⟨w, hw, hname⟩ := List.mem_map.1 hmem
      have hsome := h.represents.find_iff.2 ⟨w, hw, (w.matches_iff hplain).2 hname, rfl⟩
      rw [hnew] at hsome
      exact absurd hsome (by simp)
    obtain ⟨r', hwrite, hholds, hedits⟩ := writeEnv_fits h.holds hfresh hfull
    refine ⟨r', vars ++ [v], hwrite, ⟨hholds, h.represents.add hfresh, ?_⟩, hedits⟩
    rw [hedits.frame]
    exact h.initOk

/-- `ef_get_env`. -/
theorem Refines.get (h : Refines r t vars) (hnul : 0 ∉ key) : efGetEnv key r = t.find key := by
  rw [efGetEnv, h.initOk]
  rcases h.find hnul with ⟨hnone, hfind⟩ | ⟨front, v, back, rfl, -, hsome, hfind⟩
  · rw [hnone, hfind]
    rfl
  · rw [hsome, hfind]
    exact valueAt_holds h.holds

theorem Table.find_remove (t : Table) (hok : (t.remove key).2 = .noErr) : (t.remove key).1.find key = none := by
  rw [Table.remove] at hok ⊢
  by_cases hplain : equalSign ∈ key
  · rw [if_pos hplain] at hok
    cases hok
  · rw [if_neg hplain] at hok ⊢
    cases hlookup : t.lookup key with
    | none =>
      rw [hlookup] at hok
      cases hok
    | some x =>
      rw [Table.find_plain _ hplain]
      exact Function.update_self ..

/-- `ef_set_env`. -/
theorem Refines.set (h : Refines r t vars) (key : CString) (value : Option CString) :
    ∃ r' vars', efSetEnv key.1 (value.map Subtype.val) r = (r', (t.set key.1 (value.map Subtype.val)).2) ∧
      Refines r' (t.set key.1 (value.map Subtype.val)).1 vars' ∧ Edits r r' (t.touches (.set key value)) := by
  have hinit : (!r.initOk) = false := by rw [h.initOk]; rfl
  cases value with
  | none =>
    rw [Option.map_none, efSetEnv, hinit]
    exact h.del key.2
  | some value =>
    rw [Option.map_some, efSetEnv, hinit, if_neg Bool.false_ne_true]
    rcases h.find key.2 with ⟨hnone, hfind⟩ | ⟨front, v, back, rfl, hm, hsome, hfind⟩
    · simp only [hfind, Table.set, Table.touches, hnone]
      exact h.create key.2 value.2 hnone
    · simp only [hfind, Table.set, Table.touches, hsome, valueAt_holds h.holds, Option.some.injEq]
      by_cases heq : v.value = value.1
      · rw [if_pos heq, if_pos heq, decide_eq_false (not_not_intro heq), Bool.false_and]
        exact ⟨r, _, rfl, h, Edits.refl r⟩
      · rw [if_neg heq, if_neg heq, decide_eq_true heq, Bool.true_and]
        obtain ⟨r', vars', hdel, hrefines, hedits⟩ := h.del key.2
        rw [hdel]
        by_cases hok : (t.remove key.1).2 = .noErr
        · simp only [if_pos hok]
          obtain ⟨r'', vars'', hcreate, hrefines', hedits'⟩ := hrefines.create key.2 value.2 (t.find_remove hok)
          refine ⟨r'', vars'', hcreate, hrefines', ?_⟩
          have hboth := hedits.trans hedits'
          rw [decide_eq_true hok] at hboth ⊢
          exact hboth
        · simp only [if_neg hok]
          exact ⟨r', vars', rfl, hrefines, hedits⟩

/-- One call. -/
theorem Refines.call (h : Refines r t vars) (c : Call) :
    ∃ r' vars', r.call c = (r', (t.call c).2) ∧ Refines r' (t.call c).1 vars' ∧ Edits r r' (t.touches c) := by
  cases c with
  | set key value =>
    obtain ⟨r', vars', hset, hrefines, hedits⟩ := h.set key value
    exact ⟨r', vars', by rw [Ram.call, hset]; rfl, hrefines, hedits⟩
  | del key =>
    have hinit : (!r.initOk) = false := by rw [h.initOk]; rfl
    obtain ⟨r', vars', hdel, hrefines, hedits⟩ := h.del key.2
    exact ⟨r', vars', by rw [Ram.call, efDelEnv, hinit, if_neg Bool.false_ne_true, hdel]; rfl, hrefines, hedits⟩
  | get key => exact ⟨r, vars, by rw [Ram.call, h.get key.2]; rfl, h, Edits.refl r⟩

/-- A call that does not count as a change leaves the map alone. -/
theorem Table.call_untouched (t : Table) {c : Call} (h : t.touches c = false) : (t.call c).1 = t := by
  have hremove : ∀ key, (t.remove key).2 ≠ .noErr → (t.remove key).1 = t := by
    intro key hne
    rw [Table.remove] at hne ⊢
    split_ifs at hne ⊢
    · rfl
    · cases hlookup : t.lookup key with
      | none => rfl
      | some x =>
        rw [hlookup] at hne
        exact absurd rfl hne
  cases c with
  | get key => rfl
  | del key => exact hremove _ (of_decide_eq_false h)
  | set key value =>
    cases value with
    | none => exact hremove _ (of_decide_eq_false h)
    | some value =>
      rw [Table.touches] at h
      simp only [Table.call, Option.map_some, Table.set]
      cases hfind : t.find key.1 with
      | none =>
        rw [hfind] at h
        simp only
        have hne : (t.add key.1 value.1).2 ≠ .noErr := of_decide_eq_false h
        rw [Table.add] at hne ⊢
        split_ifs at hne ⊢
        · rfl
        · rfl
        · exact absurd rfl hne
      | some old =>
        rw [hfind] at h
        simp only
        by_cases heq : old = value.1
        · rw [if_pos heq]
        · simp only [decide_eq_true heq, Bool.true_and] at h
          have hne := of_decide_eq_false h
          rw [if_neg heq, if_neg hne, hremove _ hne]

/-- A value that fits is stored. -/
theorem Table.set_fits (t : Table) {value : List UInt8} (hne : key ≠ []) (hplain : equalSign ∉ key)
    (hold : (t.lookup key).elim 0 (cost key) ≤ t.used)
    (hroom : envParamByteSize + t.used + cost key value < envUserSettingSize) :
    t.set key (some value) = (⟨Function.update t.lookup key (some value),
      t.used - (t.lookup key).elim 0 (cost key) + cost key value⟩, .noErr) := by
  have hproper : ¬ (key = [] ∨ equalSign ∈ key) := fun hbad => hbad.elim hne hplain
  simp only [Table.set, t.find_plain hplain]
  cases hlookup : t.lookup key with
  | none => simp only [Table.add, if_neg hproper, if_neg (not_le.2 hroom), Option.elim_none, Nat.sub_zero]
  | some old =>
    rw [hlookup, Option.elim_some] at hold
    simp only [Option.elim_some]
    by_cases heq : old = value
    · have hsame : Function.update t.lookup key (some value) = t.lookup := by
        rw [← heq, ← hlookup, Function.update_eq_self]
      have hused : t.used - cost key old + cost key value = t.used := by rw [heq] at hold ⊢; omega
      rw [if_pos heq, hsame, hused]
    · have hremove : t.remove key = (⟨Function.update t.lookup key none, t.used - cost key old⟩, .noErr) := by
        rw [Table.remove, if_neg hplain, hlookup]
      have hroom' : ¬ envUserSettingSize ≤ envParamByteSize + (t.used - cost key old) + cost key value := by omega
      rw [if_neg heq, hremove, if_pos rfl, Table.add, if_neg hproper, if_neg hroom', Function.update_idem]

/-- **In every run** the calls on the cache answer as those on the map, and the cache goes on holding it. -/
theorem Refines.run : ∀ {cs : List Call} {r : Ram} {t : Table} {vars : List Var}, Refines r t vars →
    ∃ r' vars', r.run cs = (r', (t.run cs).2) ∧ Refines r' (t.run cs).1 vars' := by
  intro cs
  induction cs with
  | nil => exact fun h => ⟨_, _, rfl, h⟩
  | cons c cs ih =>
    intro r t vars h
    obtain ⟨r', vars', hcall, hstep, -⟩ := h.call c
    obtain ⟨r'', vars'', hrun, hrest⟩ := ih hstep
    exact ⟨r'', vars'', by rw [Ram.run, hcall]; simp only [hrun]; rfl, hrest⟩

end Refines

/-- The cache with nothing in it. -/
def emptyRam : Ram :=
  Ram.setEndAddr ⟨List.replicate envUserSettingSize 0, false, true, 0, envUserSettingSize * 2⟩ envParamByteSize

theorem holds_empty : Holds emptyRam [] :=
  holds_setWord rfl List.length_replicate (by decide) (List.nil_prefix) (by decide) List.nodup_nil

/-- **The cache is a map of a bounded size**: in every run of calls, with any names and values, the answers are those of
the map, and the cache holds the map that is left. -/
theorem run_refines {r : Ram} {vars : List Var} (h : Holds r vars) (hinit : r.initOk = true) (cs : List Call) :
    (r.run cs).2 = ((tableOf vars).run cs).2 ∧
      ∃ vars', Holds (r.run cs).1 vars' ∧ Represents ((tableOf vars).run cs).1 vars' := by
  have hstart : Refines r (tableOf vars) vars := ⟨h, represents_tableOf h.distinct, hinit⟩
  obtain ⟨r', vars', hrun, hrest⟩ := @Refines.run cs _ _ _ hstart
  rw [hrun]
  exact ⟨rfl, vars', hrest.holds, hrest.represents⟩

theorem run_refines_empty : let cs := [Call.set ⟨[97], by decide⟩ (some ⟨[61], by decide⟩), .get ⟨[97, 61], by decide⟩]
    (emptyRam.run cs).2 = ((tableOf []).run cs).2 ∧
      ∃ vars', Holds (emptyRam.run cs).1 vars' ∧ Represents ((tableOf []).run cs).1 vars' :=
  run_refines holds_empty rfl _

/-- **A value that does not fit** takes the old one with it: the call says that the environment is full, the name is gone,
and every other variable stays. -/
theorem efSetEnv_lost {r : Ram} {vars : List Var} {v : Var} {value : List UInt8} (h : Holds r vars) (hinit : r.initOk = true)
    (hv : v ∈ vars) (hvalue : 0 ∉ value) (hnew : value ≠ v.value)
    (hfull : envUserSettingSize + cost v.name v.value ≤ envParamByteSize + (bytesOf vars).length + cost v.name value) :
    (efSetEnv v.name (some value) r).2 = .envFull ∧ efGetEnv v.name (efSetEnv v.name (some value) r).1 = none ∧
      ∀ w ∈ vars, w.name ≠ v.name → efGetEnv w.name (efSetEnv v.name (some value) r).1 = some w.value := by
  have hstart : Refines r (tableOf vars) vars := ⟨h, represents_tableOf h.distinct, hinit⟩
  have hlookup : (tableOf vars).lookup v.name = some v.value := (hstart.represents.lookup _ _).2 ⟨v, hv, rfl, rfl⟩
  have hremove : (tableOf vars).remove v.name = (⟨Function.update (tableOf vars).lookup v.name none,
      (tableOf vars).used - cost v.name v.value⟩, .noErr) := by
    rw [Table.remove, if_neg v.plain, hlookup]
  have hset : (tableOf vars).set v.name (some value) = (((tableOf vars).remove v.name).1, .envFull) := by
    have hproper : ¬ (v.name = [] ∨ equalSign ∈ v.name) := fun hbad => hbad.elim v.named v.plain
    have hroom : envUserSettingSize ≤
        envParamByteSize + ((tableOf vars).used - cost v.name v.value) + cost v.name value := by
      have hused : (tableOf vars).used = (bytesOf vars).length := rfl
      omega
    simp only [Table.set, Table.find_plain _ v.plain, hlookup, if_neg (Ne.symm hnew), hremove, if_true, Table.add, if_neg hproper,
      if_pos hroom]
  obtain ⟨r', vars', hcall, hrest, -⟩ := hstart.set ⟨v.name, v.nulFree.1⟩ (some ⟨value, hvalue⟩)
  simp only [Option.map_some] at hcall hrest
  rw [hset] at hcall hrest
  rw [hremove] at hrest
  rw [hcall]
  refine ⟨rfl, ?_, fun w hw hne => ?_⟩
  · rw [hrest.get v.nulFree.1, Table.find_plain _ v.plain]
    exact Function.update_self ..
  · rw [hrest.get w.nulFree.1, Table.find_plain _ w.plain]
    exact (Function.update_of_ne hne ..).trans ((hstart.represents.lookup _ _).2 ⟨w, hw, rfl, rfl⟩)

/-- A variable with an empty value. -/
def flag : Var := ⟨[97], [], by decide, by decide, by decide⟩

theorem efSetEnv_lost_flag : let r := (writeEnv flag.name flag.value emptyRam).1
    (efSetEnv flag.name (some (List.replicate 2048 98)) r).2 = .envFull ∧
      efGetEnv flag.name (efSetEnv flag.name (some (List.replicate 2048 98)) r).1 = none ∧
      ∀ w ∈ [flag], w.name ≠ flag.name →
        efGetEnv w.name (efSetEnv flag.name (some (List.replicate 2048 98)) r).1 = some w.value := by
  obtain ⟨r', hwrite, hholds, hedits⟩ := writeEnv_fits (v := flag) holds_empty List.not_mem_nil (by decide)
  rw [hwrite]
  have hcost : cost flag.name (List.replicate 2048 98) = 2052 := by rw [cost, List.length_replicate]; decide
  refine efSetEnv_lost hholds (by rw [hedits.frame]; rfl) (List.mem_singleton_self flag) ?_ ?_ ?_
  · exact fun hmem => absurd (List.eq_of_mem_replicate hmem) (by decide)
  · exact List.ne_nil_of_length_eq_add_one List.length_replicate
  · rw [hcost]
    decide

end W601.Easyflash
