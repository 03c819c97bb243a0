import W601.Smtp.Receivers

/-!
# The setters, and what they leave behind a failure

What a session holds is a `View`: the strings of the server, the three arrays of the credentials, and the receivers. Each
setter does to the view what `View.setServerAddr`, `View.setAuth` and `View.addReceiver` say, whatever its allocations
come to.

* `setServerAddr_refines`, `setAuth_eq`, `addReceiver_refines`: the setters on the heap.
* `setters_atomic_iff`: when a setter returns, and leaves what the session holds where it answers `-1`.
-/

namespace W601.Smtp.Mem

open CMem

/-! ## What a session holds -/

/-- The strings of the server, the cells of the credentials, and the addresses of the receivers. -/
@[ext] structure View where
  server : ServerString → Option (List UInt8)
  fields : ℤ → UInt8
  receivers : List (List UInt8)

/-- A pointer to a string, or a null pointer. -/
def StringAt (h : Heap Block) (p : Option ℕ) : Option (List UInt8) → Prop
  | none => p = none
  | some t => ∃ q m, p = some q ∧ h.cells q = some (.str m) ∧ StrAt m 0 t

/-- The session holds the view, with the entries `l`; no block has two owners. -/
structure Stores (s : Session) (l : List Entry) (v : View) : Prop where
  server : ∀ f, StringAt s.heap (s.server f) (v.server f)
  other : ∀ f g p, s.server f = some p → s.server g = some p → f = g
  away : ∀ f p, s.server f = some p → p ∉ footprint l
  fields : s.fields = v.fields
  list : Receivers s.heap s.addressTo l
  receivers : addrs l = v.receivers

/-- What the session holds. -/
def Holds (s : Session) (v : View) : Prop := ∃ l, Stores s l v

section View

variable {s : Session} {l : List Entry} {v v' : View} {f : ServerString}

theorem StringAt.unique {h : Heap Block} {p : Option ℕ} {t t' : Option (List UInt8)} (ht : StringAt h p t)
    (ht' : StringAt h p t') : t = t' := by
  cases t with
  | none =>
    cases t' with
    | none => rfl
    | some t' =>
      obtain ⟨q, m, hq, -⟩ := ht'
      exact absurd (ht.symm.trans hq) (by simp)
  | some t =>
    obtain ⟨q, m, rfl, hm, htext⟩ := ht
    cases t' with
    | none => exact absurd ht' (by simp [StringAt])
    | some t' =>
      obtain ⟨q', m', hq', hm', htext'⟩ := ht'
      obtain rfl := Option.some.inj hq'
      obtain rfl := Block.str.inj (Option.some.inj (hm.symm.trans hm'))
      rw [htext.unique htext']

theorem StringAt.frame {h h' : Heap Block} {p : Option ℕ} {t : Option (List UInt8)} (ht : StringAt h p t)
    (hf : ∀ q, p = some q → h'.cells q = h.cells q) : StringAt h' p t := by
  cases t with
  | none => exact ht
  | some t =>
    obtain ⟨q, m, rfl, hm, htext⟩ := ht
    exact ⟨q, m, rfl, (hf q rfl).trans hm, htext⟩

/-- A block of the server is allocated. -/
theorem Stores.server_lt (h : Stores s l v) {p : ℕ} (hp : s.server f = some p) : ∃ m, s.heap.cells p = some (.str m) := by
  have hstring := h.server f
  rw [hp] at hstring
  cases ht : v.server f with
  | none =>
    rw [ht] at hstring
    exact absurd hstring (by simp [StringAt])
  | some t =>
    rw [ht] at hstring
    obtain ⟨q, m, hq, hm, -⟩ := hstring
    obtain rfl := Option.some.inj hq
    exact ⟨m, hm⟩

/-- **A session holds one view.** -/
theorem Holds.unique (h : Holds s v) (h' : Holds s v') : v = v' := by
  obtain ⟨l, h⟩ := h
  obtain ⟨l', h'⟩ := h'
  apply View.ext
  · funext f
    exact (h.server f).unique (h'.server f)
  · exact h.fields.symm.trans h'.fields
  · rw [← h.receivers, ← h'.receivers, h.list.part.unique h'.list.part]

/-- **A change of the list** leaves the strings of the server. -/
theorem Stores.setList (h : Stores s l v) {h' : Heap Block} {head : Option ℕ} {l' : List Entry} (hlist : Receivers h' head l')
    (hf : ∀ x < s.heap.bound, x ∉ footprint l → h'.cells x = s.heap.cells x)
    (hl' : ∀ x ∈ footprint l', x ∈ footprint l ∨ s.heap.bound ≤ x) :
    Stores { s with heap := h', addressTo := head } l' { v with receivers := addrs l' } where
  server f := by
    apply (h.server f).frame
    intro q hq
    obtain ⟨m, hm⟩ := h.server_lt hq
    exact hf q (Heap.lt_bound hm) (h.away f q hq)
  other := h.other
  away f p hp hmem := by
    obtain ⟨m, hm⟩ := h.server_lt hp
    have hlt := Heap.lt_bound hm
    rcases hl' p hmem with hx | hx
    · exact h.away f p hp hx
    · omega
  fields := h.fields
  list := hlist
  receivers := rfl

end View

/-! ## `smtp_set_server_addr` -/

section Server

variable {s : Session} {l : List Entry} {v : View}

/-- A string of the server is freed, and its pointer is not used any more. -/
theorem Stores.freed (h : Stores s l v) (f : ServerString) :
    ∃ h', s.free (s.server f) = some { s with heap := h' } ∧
      Stores { s with heap := h', server := Function.update s.server f none } l
        { v with server := Function.update v.server f none } := by
  obtain ⟨h', hrun, hframe⟩ : ∃ h', s.free (s.server f) = some { s with heap := h' } ∧
      ∀ x, s.server f ≠ some x → h'.cells x = s.heap.cells x := by
    cases hp : s.server f with
    | none => exact ⟨s.heap, rfl, fun x _ => rfl⟩
    | some p =>
      obtain ⟨m, hm⟩ := h.server_lt hp
      exact ⟨s.heap.drop p, free_eq hm, fun x hx => Heap.drop_other _ fun he => hx (congrArg some he.symm)⟩
  have hold : ∀ g p, Function.update s.server f none g = some p → g ≠ f ∧ s.server g = some p := by
    intro g p hg
    by_cases hgf : g = f
    · rw [hgf, Function.update_self] at hg
      exact absurd hg (by simp)
    · rw [Function.update_of_ne hgf] at hg
      exact ⟨hgf, hg⟩
  refine ⟨h', hrun, ?_, ?_, ?_, h.fields, ?_, h.receivers⟩
  · intro g
    by_cases hgf : g = f
    · subst hgf
      simp only [Function.update_self, StringAt]
    · simp only [Function.update_of_ne hgf]
      apply (h.server g).frame
      intro q hq
      exact hframe q fun hf => hgf (h.other _ _ _ hq hf)
  · intro g g' p hg hg'
    exact h.other g g' p (hold g p hg).2 (hold g' p hg').2
  · intro g p hg
    exact h.away g p (hold g p hg).2
  · apply h.list.frame
    intro x hx
    exact hframe x fun hf => h.away f x hf hx

/-- A copy of a string is allocated. -/
theorem Stores.stored {f : ServerString} (h : Stores s l v) (hf : s.server f = none) (dirt : ℤ → UInt8) (str : CStr) :
    Stores { s with
        heap := s.heap.alloc (.str (store dirt 0 (str.bytes ++ [0])))
        server := Function.update s.server f (some s.heap.bound) } l
      { v with server := Function.update v.server f (some str.bytes) } := by
  have hold : ∀ g p, Function.update s.server f (some s.heap.bound) g = some p →
      (g = f ∧ p = s.heap.bound) ∨ (s.server g = some p ∧ p < s.heap.bound) := by
    intro g p hg
    by_cases hgf : g = f
    · rw [hgf, Function.update_self] at hg
      exact Or.inl ⟨hgf, (Option.some.inj hg).symm⟩
    · rw [Function.update_of_ne hgf] at hg
      obtain ⟨m, hm⟩ := h.server_lt hg
      exact Or.inr ⟨hg, Heap.lt_bound hm⟩
  refine ⟨?_, ?_, ?_, h.fields, ?_, h.receivers⟩
  · intro g
    by_cases hgf : g = f
    · subst hgf
      simp only [Function.update_self]
      exact ⟨_, _, rfl, Heap.alloc_new .., strAt_store str.nulFree dirt 0⟩
    · simp only [Function.update_of_ne hgf]
      apply (h.server g).frame
      intro q hq
      obtain ⟨m, hm⟩ := h.server_lt hq
      exact Heap.alloc_old _ (Heap.lt_bound hm).ne
  · intro g g' p hg hg'
    rcases hold g p hg with ⟨rfl, rfl⟩ | ⟨h1, h2⟩ <;> rcases hold g' _ hg' with ⟨rfl, h3⟩ | ⟨h3, h4⟩
    · rfl
    · omega
    · omega
    · exact h.other g g' p h1 h3
  · intro g p hg hmem
    have hlt := h.list.part.lt_bound hmem
    rcases hold g p hg with ⟨rfl, rfl⟩ | ⟨h1, -⟩
    · omega
    · exact h.away g p h1 hmem
  · apply h.list.frame
    intro x hx
    exact Heap.alloc_old _ (h.list.part.lt_bound hx).ne

/-- What is kept of a string that is copied. -/
def kept (mem : Malloc) (str : CStr) : Option (List UInt8) := mem.map fun _ => str.bytes

/-- Another string of the server. -/
def View.replace (f : ServerString) (mem : Malloc) (str : CStr) (v : View) : View :=
  { v with server := Function.update v.server f (kept mem str) }

theorem replace_refines (h : Holds s v) (f : ServerString) (mem : Malloc) (str : CStr) :
    ∃ s', replace f mem str s = some s' ∧ Holds s' (v.replace f mem str) := by
  obtain ⟨l, h⟩ := h
  obtain ⟨h', hrun, hfreed⟩ := h.freed f
  cases mem with
  | none =>
    refine ⟨{ s with heap := h', server := Function.update s.server f none }, ?_, l, hfreed⟩
    simp only [replace, hrun, rtStrdup, Option.bind_eq_bind, Option.bind_some]
    rfl
  | some dirt =>
    have hstored := hfreed.stored (Function.update_self ..) dirt str
    simp only [Function.update_idem] at hstored
    refine ⟨_, ?_, l, hstored⟩
    simp only [replace, hrun, rtStrdup, Option.bind_eq_bind, Option.bind_some]
    rfl

/-- What `smtp_set_server_addr` makes of what the session holds. -/
def View.setServerAddr (addrMem portMem : Malloc) (serverAddr : CStr) (domain : Bool) (port : CStr) (v : View) : View × Bool :=
  let f := if domain then .serverDomain else .serverIp
  -- an IP address is checked first, and its length is kept in a `uint16_t`
  if domain = false ∧ serverAddr.bytes.length % 2 ^ 16 > 15 then (v, false)
  -- the port is checked last
  else if port.bytes = [] then (v.replace f addrMem serverAddr, false)
  else ((v.replace f addrMem serverAddr).replace .serverPort portMem port, true)

/-- **`smtp_set_server_addr`** does to the session what it does to the view. -/
theorem setServerAddr_refines (h : Holds s v) (addrMem portMem : Malloc) (serverAddr : CStr) (domain : Bool) (port : CStr) :
    ∃ s', smtpSetServerAddr addrMem portMem serverAddr domain port s =
        some (s', (v.setServerAddr addrMem portMem serverAddr domain port).2) ∧
      Holds s' (v.setServerAddr addrMem portMem serverAddr domain port).1 := by
  -- both kinds of addresses go on in the same way
  have hset : ∀ f, ∃ s', ((replace f addrMem serverAddr s).bind fun s =>
        if port.bytes.length ≤ 0 then some (s, false) else (replace .serverPort portMem port s).map (·, true)) =
          some (s', (if port.bytes = [] then (v.replace f addrMem serverAddr, false)
            else ((v.replace f addrMem serverAddr).replace .serverPort portMem port, true)).2) ∧
        Holds s' (if port.bytes = [] then (v.replace f addrMem serverAddr, false)
          else ((v.replace f addrMem serverAddr).replace .serverPort portMem port, true)).1 := by
    intro f
    obtain ⟨s1, hrun1, h1⟩ := replace_refines h f addrMem serverAddr
    by_cases hport : port.bytes = []
    · refine ⟨s1, ?_, ?_⟩
      · simp [hrun1, hport]
      · rw [if_pos hport]
        exact h1
    · have hlen : ¬ port.bytes.length ≤ 0 := fun hle => hport (List.length_eq_zero_iff.1 (Nat.le_zero.1 hle))
      obtain ⟨s2, hrun2, h2⟩ := replace_refines h1 .serverPort portMem port
      refine ⟨s2, ?_, ?_⟩
      · simp [hrun1, hrun2, hport]
      · rw [if_neg hport]
        exact h2
  unfold smtpSetServerAddr View.setServerAddr
  cases domain with
  | true =>
    dsimp only
    rw [if_pos rfl, if_neg (by simp), if_pos rfl]
    exact hset .serverDomain
  | false =>
    simp only [Bool.false_eq_true, if_false]
    by_cases hlen : serverAddr.bytes.length % 2 ^ 16 > 15
    · rw [if_pos hlen, if_pos ⟨trivial, hlen⟩]
      exact ⟨s, rfl, h⟩
    · rw [if_neg hlen, if_neg fun hb => hlen hb.2]
      exact hset .serverIp

end Server

/-! ## `smtp_set_auth` -/

/-- One of the arrays, of 100 cells, with the string `t`. -/
abbrev array (t : List UInt8) : List UInt8 := padded 100 t

theorem array_length {t : List UInt8} (ht : t.length ≤ 100) : (array t).length = 100 := padded_length ht

/-- The arrays `username`, `password` and `address_from`. -/
structure Filled (m : ℤ → UInt8) (u p a : List UInt8) : Prop where
  username : At m usernameAt (array u)
  password : At m passwordAt (array p)
  addressFrom : At m addressFromAt (array a)

/-- The credentials with other contents of the arrays. -/
def filled (u p a : List UInt8) (m : ℤ → UInt8) : ℤ → UInt8 :=
  store (store (store m usernameAt (array u)) passwordAt (array p)) addressFromAt (array a)

section Auth

variable {m m' : ℤ → UInt8} {u p a : List UInt8}

theorem filled_filled (hu : u.length ≤ 100) (hp : p.length ≤ 100) (ha : a.length ≤ 100) (m : ℤ → UInt8) :
    Filled (filled u p a m) u p a := by
  have h1 := array_length hu
  have h2 := array_length hp
  have h3 := array_length ha
  refine ⟨?_, ?_, at_store _ _ _⟩
  · apply At.store
    · apply At.store
      · exact at_store _ _ _
      · simp only [usernameAt, passwordAt]
        omega
    · simp only [usernameAt, addressFromAt]
      omega
  · apply At.store
    · exact at_store _ _ _
    · simp only [passwordAt, addressFromAt]
      omega

theorem filled_outside (hu : u.length ≤ 100) (hp : p.length ≤ 100) (ha : a.length ≤ 100) (m : ℤ → UInt8) {j : ℤ}
    (hj : j < 0 ∨ 300 ≤ j) : filled u p a m j = m j := by
  have h1 := array_length hu
  have h2 := array_length hp
  have h3 := array_length ha
  unfold filled usernameAt passwordAt addressFromAt
  rw [store_outside _ _ _ (by omega), store_outside _ _ _ (by omega), store_outside _ _ _ (by omega)]

/-- **Memories with the same arrays**, and the same cells around them. -/
theorem Filled.ext (hu : u.length ≤ 100) (hp : p.length ≤ 100) (ha : a.length ≤ 100) (h : Filled m u p a)
    (h' : Filled m' u p a) (hout : ∀ j, j < 0 ∨ 300 ≤ j → m j = m' j) : m = m' := by
  have h1 := array_length hu
  have h2 := array_length hp
  have h3 := array_length ha
  have e1 : usernameAt = 0 := rfl
  have e2 : passwordAt = 100 := rfl
  have e3 : addressFromAt = 200 := rfl
  funext j
  by_cases hj : j < 0 ∨ 300 ≤ j
  · exact hout j hj
  by_cases hj1 : j < 100
  · exact h.username.agree h'.username (by omega) (by omega)
  by_cases hj2 : j < 200
  · exact h.password.agree h'.password (by omega) (by omega)
  · exact h.addressFrom.agree h'.addressFrom (by omega) (by omega)

theorem filled_eq_iff (hu : u.length ≤ 100) (hp : p.length ≤ 100) (ha : a.length ≤ 100) :
    filled u p a m = m ↔ Filled m u p a := by
  constructor
  · intro h
    have hfilled := filled_filled hu hp ha m
    rwa [h] at hfilled
  · intro h
    apply Filled.ext hu hp ha (filled_filled hu hp ha m) h
    exact fun j hj => filled_outside hu hp ha m hj

/-- `smtp_base64_encode` in the session, for a source that has a length of 32 bits. -/
theorem encodeAt_eq (target : ℤ) (source : CStr) (m : ℤ → UInt8) :
    encodeAt target (maxAuthLen * 2) source.bytes m =
      if source.bytes.length ≤ 75 then
        (4 * ((source.bytes.length + 2) / 3), store m target (Base64.encode Base64.standard Base64.standardPad source.bytes))
      else (0, m) := by
  have hshift : (fun i => (fun j => m (target + j)) (i - target)) = m := by
    funext i
    simp
  rw [encodeAt, smtpBase64EncodeMem_eq _ _ source.short, smtpBase64Encode_eq]
  by_cases hlen : source.bytes.length ≤ 75
  · have hfit : ¬ maxAuthLen * 2 < 4 * ((source.bytes.length + 2) / 3) := by
      unfold maxAuthLen
      omega
    rw [if_neg hfit, if_pos hlen]
    dsimp only
    rw [Base64.encode_length, store_shift, add_zero]
  · have hfit : maxAuthLen * 2 < 4 * ((source.bytes.length + 2) / 3) := by
      unfold maxAuthLen
      omega
    rw [if_pos hfit, if_neg hlen]
    dsimp only
    rw [hshift]

/-- What the encoder leaves in a cleared array. -/
def encoded (source : CStr) : List UInt8 :=
  if source.bytes.length ≤ 75 then Base64.encode Base64.standard Base64.standardPad source.bytes else []

theorem encoded_length (source : CStr) : (encoded source).length ≤ 100 := by
  unfold encoded
  split_ifs with h
  · rw [Base64.encode_length]
    omega
  · simp

/-- What `smtp_set_auth` makes of what the session holds. -/
def View.setAuth (username password : CStr) (v : View) : View × Bool :=
  if username.bytes = [] ∨ password.bytes = [] ∨ 100 < username.bytes.length then (v, false)
  else if username.bytes.length ≤ 75 ∧ password.bytes.length ≤ 75 then
    ({ v with fields := filled (encoded username) (encoded password) username.bytes v.fields }, true)
  -- the arrays have been overwritten when an encoding does not fit
  else ({ v with fields := filled (encoded username) [] username.bytes v.fields }, false)

/-- The arrays behind the three `memset`. -/
theorem cleared_filled (m : ℤ → UInt8) : Filled (cleared m) [] [] [] := by
  have hz : array [] = List.replicate 100 0 := rfl
  unfold cleared
  refine ⟨?_, ?_, ?_⟩
  · rw [hz]
    apply At.store
    · exact at_store _ _ _
    · simp [usernameAt, passwordAt, maxAuthLen]
  · exact at_store _ _ _
  · rw [hz]
    apply At.store
    · apply At.store
      · exact at_store _ _ _
      · simp [usernameAt, addressFromAt, maxAuthLen]
    · simp [passwordAt, addressFromAt, maxAuthLen]

theorem cleared_outside (m : ℤ → UInt8) {j : ℤ} (hj : j < 0 ∨ 300 ≤ j) : cleared m j = m j := by
  unfold cleared usernameAt passwordAt addressFromAt maxAddrLen maxAuthLen
  rw [store_outside _ _ _ (by simp; omega), store_outside _ _ _ (by simp; omega), store_outside _ _ _ (by simp; omega)]

/-- The strings of `smtp_set_auth`, one behind the other. -/
theorem stored_filled (m : ℤ → UInt8) (hu : u.length ≤ 100) (hp : p.length ≤ 100) (ha : a.length ≤ 100) :
    store (store (store (cleared m) addressFromAt a) usernameAt u) passwordAt p = filled u p a m := by
  have hcleared := cleared_filled m
  apply Filled.ext hu hp ha
  · refine ⟨?_, ?_, ?_⟩
    · apply At.store
      · refine At.store_padded ?_ hu
        apply At.store
        · exact hcleared.username
        · rw [array_length (by simp)]
          simp [usernameAt, addressFromAt]
      · rw [array_length hu]
        simp [usernameAt, passwordAt]
    · refine At.store_padded ?_ hp
      apply At.store
      · apply At.store
        · exact hcleared.password
        · rw [array_length (by simp)]
          simp [passwordAt, addressFromAt]
      · simp only [usernameAt, passwordAt]
        omega
    · apply At.store
      · apply At.store
        · exact hcleared.addressFrom.store_padded ha
        · simp only [usernameAt, addressFromAt]
          omega
      · simp only [passwordAt, addressFromAt]
        omega
  · exact filled_filled hu hp ha m
  · intro j hj
    have e1 : usernameAt = 0 := rfl
    have e2 : passwordAt = 100 := rfl
    have e3 : addressFromAt = 200 := rfl
    rw [store_outside _ _ _ (by omega), store_outside _ _ _ (by omega), store_outside _ _ _ (by omega), cleared_outside m hj,
      filled_outside hu hp ha m hj]

/-- **`smtp_set_auth`** does to the credentials what it does to the view. -/
theorem setAuth_eq {s : Session} {v : View} (hv : s.fields = v.fields) (username password : CStr) :
    smtpSetAuth username password s =
      ({ s with fields := (v.setAuth username password).1.fields }, (v.setAuth username password).2) := by
  have hu := username.short
  have hp := password.short
  have hu32 : username.bytes.length % 2 ^ 32 = username.bytes.length := Nat.mod_eq_of_lt (by omega)
  have hp32 : password.bytes.length % 2 ^ 32 = password.bytes.length := Nat.mod_eq_of_lt (by omega)
  have hself : { s with fields := v.fields } = s := by rw [← hv]
  unfold smtpSetAuth View.setAuth
  rw [hu32, hp32]
  dsimp only
  rw [List.take_length]
  have hbad : ((username.bytes.length = 0 ∨ password.bytes.length = 0) ∨ username.bytes.length > maxAddrLen) ↔
      username.bytes = [] ∨ password.bytes = [] ∨ 100 < username.bytes.length := by
    rw [List.length_eq_zero_iff, List.length_eq_zero_iff, or_assoc]
    rfl
  by_cases hempty : username.bytes.length = 0 ∨ password.bytes.length = 0
  · rw [if_pos hempty, if_pos (hbad.1 (Or.inl hempty)), hself]
  · obtain ⟨hune, hpne⟩ := not_or.1 hempty
    rw [if_neg hempty]
    by_cases hlong : username.bytes.length > maxAddrLen
    · rw [if_pos hlong, if_pos (hbad.1 (Or.inr hlong)), hself]
    · have hle : username.bytes.length ≤ 100 := Nat.le_of_not_lt hlong
      have hgood := mt hbad.2 (not_or.2 ⟨hempty, hlong⟩)
      have hnil : ([] : List UInt8).length ≤ 100 := by simp
      rw [if_neg hlong, if_neg hgood, ← hv]
      simp only [encodeAt_eq]
      by_cases hu75 : username.bytes.length ≤ 75
      · have hfirst : ¬ 4 * ((username.bytes.length + 2) / 3) = 0 := by omega
        have henc : encoded username = Base64.encode Base64.standard Base64.standardPad username.bytes := if_pos hu75
        simp only [if_pos hu75, if_neg hfirst, ← henc]
        by_cases hp75 : password.bytes.length ≤ 75
        · have hsecond : ¬ 4 * ((password.bytes.length + 2) / 3) = 0 := by omega
          have hencp : encoded password = Base64.encode Base64.standard Base64.standardPad password.bytes := if_pos hp75
          rw [if_pos hp75, if_pos ⟨hu75, hp75⟩, ← hencp,
            stored_filled s.fields (encoded_length _) (encoded_length _) hle]
          simp [hsecond]
        · rw [if_neg hp75, if_neg fun h => hp75 h.2]
          have hstored := stored_filled s.fields (encoded_length username) hnil hle
          rw [store] at hstored
          rw [hstored]
          rfl
      · have henc : encoded username = [] := if_neg hu75
        have hstored := stored_filled s.fields hnil hnil hle
        rw [store, store] at hstored
        rw [if_neg hu75, if_pos rfl, if_neg fun h => hu75 h.1, henc, hstored]

theorem setAuth_refines {s : Session} {v : View} (h : Holds s v) (username password : CStr) :
    Holds (smtpSetAuth username password s).1 (v.setAuth username password).1 := by
  obtain ⟨l, h⟩ := h
  have hserver : (v.setAuth username password).1.server = v.server := by
    unfold View.setAuth
    split_ifs <;> rfl
  have hreceivers : (v.setAuth username password).1.receivers = v.receivers := by
    unfold View.setAuth
    split_ifs <;> rfl
  rw [setAuth_eq h.fields]
  refine ⟨l, ?_, h.other, h.away, rfl, h.list, ?_⟩
  · rw [hserver]
    exact h.server
  · rw [hreceivers]
    exact h.receivers

end Auth

/-! ## `smtp_add_receiver` -/

section Receiver

variable {s : Session} {v : View}

/-- What `smtp_add_receiver` makes of what the session holds, where it returns. -/
def View.addReceiver (nodeMem strMem : Malloc) (receiverAddr : CStr) (v : View) : Option (View × Bool) :=
  match nodeMem, strMem with
  | none, _ => some (v, false)
  -- the roll-back looks for the node in front of the new one
  | some _, none => if v.receivers = [] then none else some (v, false)
  | some _, some _ => some ({ v with receivers := v.receivers ++ [receiverAddr.bytes] }, true)

/-- A call comes to what it makes of the view: it does not return, or it answers, with a session that holds the new view. -/
def Refines (r : Option (Session × Bool)) : Option (View × Bool) → Prop
  | none => r = none
  | some p => ∃ s, r = some (s, p.2) ∧ Holds s p.1

/-- **`smtp_add_receiver`** does to the session what it does to the view. -/
theorem addReceiver_refines (h : Holds s v) (nodeMem strMem : Malloc) (a : CStr) :
    Refines (smtpAddReceiver nodeMem strMem a s) (v.addReceiver nodeMem strMem a) := by
  obtain ⟨l, h⟩ := h
  have hsame : ∀ {h' : Heap Block}, Receivers h' s.addressTo l →
      (∀ x < s.heap.bound, x ∉ footprint l → h'.cells x = s.heap.cells x) → Holds { s with heap := h' } v := by
    intro h' hlist hframe
    have hstores := h.setList hlist hframe fun x hx => Or.inl hx
    rw [h.receivers] at hstores
    exact ⟨l, hstores⟩
  cases nodeMem with
  | none =>
    obtain ⟨h', hrun, hlist, hframe⟩ := addReceiver_noNode h.list strMem a
    exact ⟨_, hrun, hsame hlist fun x _ => hframe x⟩
  | some dirtNode =>
    cases strMem with
    | none =>
      rcases List.eq_nil_or_concat l with rfl | ⟨front, e, rfl⟩
      · have hnil : v.receivers = [] := h.receivers.symm
        have hnone : v.addReceiver (some dirtNode) none a = none := if_pos hnil
        rw [hnone]
        exact addReceiver_first h.list.head_none dirtNode a
      · rw [List.concat_eq_append] at *
        have hne : v.receivers ≠ [] := by
          rw [← h.receivers]
          simp [addrs]
        have hsome : v.addReceiver (some dirtNode) none a = some (v, false) := if_neg hne
        obtain ⟨h', hrun, hlist, hframe⟩ := addReceiver_noStr h.list dirtNode a
        rw [hsome]
        exact ⟨_, hrun, hsame hlist hframe⟩
    | some dirt =>
      obtain ⟨h', head, hrun, hlist, hframe⟩ := addReceiver_stored h.list dirtNode dirt a
      have hstores := h.setList hlist hframe (by
        intro x hx
        rw [footprint_append, List.mem_append] at hx
        apply hx.imp_right
        intro hx
        simp only [footprint_cons, footprint_nil, List.mem_cons, List.not_mem_nil, or_false] at hx
        omega)
      have haddrs : addrs (l ++ [⟨s.heap.bound, s.heap.bound + 1, a.bytes⟩]) = v.receivers ++ [a.bytes] := by
        rw [← h.receivers]
        simp [addrs]
      rw [haddrs] at hstores
      exact ⟨_, hrun, _, hstores⟩

end Receiver

/-! ## Failures -/

section Atomic

variable {s : Session} {v : View} {r : Option (Session × Bool)} {p : View × Bool}

/-- The call returns, and what the session held is still there when the answer is `-1`. -/
def Atomic (v : View) (r : Option (Session × Bool)) : Prop := ∃ s ok, r = some (s, ok) ∧ (ok = false → Holds s v)

theorem Refines.atomic_iff (h : Refines r (some p)) : Atomic v r ↔ p.2 = true ∨ p.1 = v := by
  obtain ⟨s, rfl, hs⟩ := h
  constructor
  · rintro ⟨s', ok, hr, hheld⟩
    obtain ⟨rfl, rfl⟩ := Prod.mk.inj (Option.some.inj hr)
    cases hok : p.2 with
    | true => exact Or.inl rfl
    | false => exact Or.inr (hs.unique (hheld hok))
  · intro h
    refine ⟨s, p.2, rfl, fun hok => ?_⟩
    rcases h with h | rfl
    · exact absurd (h.symm.trans hok) (by simp)
    · exact hs

/-- The port is given, or the address is refused, or the copy of the address is what was there. -/
def ServerKept (addrMem : Malloc) (serverAddr : CStr) (domain : Bool) (port : CStr) (v : View) : Prop :=
  port.bytes ≠ [] ∨ (domain = false ∧ serverAddr.bytes.length % 2 ^ 16 > 15) ∨
    v.server (if domain then .serverDomain else .serverIp) = kept addrMem serverAddr

/-- The credentials are refused before anything is written, or both encodings fit, or the arrays hold already what is left in
them. -/
def AuthKept (username password : CStr) (m : ℤ → UInt8) : Prop :=
  username.bytes = [] ∨ password.bytes = [] ∨ 100 < username.bytes.length ∨
    (username.bytes.length ≤ 75 ∧ password.bytes.length ≤ 75) ∨ Filled m (encoded username) [] username.bytes

/-- The node is refused, or the string is granted, or there is a receiver already. -/
def ReceiverKept (nodeMem strMem : Malloc) (v : View) : Prop := nodeMem = none ∨ strMem ≠ none ∨ v.receivers ≠ []

theorem View.replace_eq_iff {f : ServerString} {mem : Malloc} {str : CStr} : v.replace f mem str = v ↔ v.server f = kept mem str := by
  constructor
  · intro h
    have hf := congrFun (congrArg View.server h) f
    rw [← hf]
    exact Function.update_self ..
  · intro h
    rw [View.replace, ← h, Function.update_eq_self]

theorem setServerAddr_atomic (h : Holds s v) (addrMem portMem : Malloc) (serverAddr : CStr) (domain : Bool) (port : CStr) :
    Atomic v (smtpSetServerAddr addrMem portMem serverAddr domain port s) ↔ ServerKept addrMem serverAddr domain port v := by
  have hrefines : Refines _ (some (v.setServerAddr addrMem portMem serverAddr domain port)) :=
    setServerAddr_refines h addrMem portMem serverAddr domain port
  rw [hrefines.atomic_iff]
  unfold View.setServerAddr ServerKept
  by_cases hip : domain = false ∧ serverAddr.bytes.length % 2 ^ 16 > 15
  · rw [if_pos hip]
    exact ⟨fun _ => Or.inr (Or.inl hip), fun _ => Or.inr rfl⟩
  · rw [if_neg hip]
    by_cases hport : port.bytes = []
    · rw [if_pos hport]
      simp only [Bool.false_eq_true, false_or, View.replace_eq_iff, hport, ne_eq, not_true_eq_false, hip]
    · rw [if_neg hport]
      exact ⟨fun _ => Or.inl hport, fun _ => Or.inl rfl⟩

theorem setAuth_atomic (h : Holds s v) (username password : CStr) :
    Atomic v (some (smtpSetAuth username password s)) ↔ AuthKept username password v.fields := by
  have hrefines : Refines (some (smtpSetAuth username password s)) (some (v.setAuth username password)) := by
    refine ⟨_, ?_, setAuth_refines h username password⟩
    obtain ⟨l, h⟩ := h
    rw [setAuth_eq h.fields]
  rw [hrefines.atomic_iff]
  unfold View.setAuth AuthKept
  by_cases hbad : username.bytes = [] ∨ password.bytes = [] ∨ 100 < username.bytes.length
  · rw [if_pos hbad]
    refine ⟨fun _ => ?_, fun _ => Or.inr rfl⟩
    rcases hbad with h | h | h
    · exact Or.inl h
    · exact Or.inr (Or.inl h)
    · exact Or.inr (Or.inr (Or.inl h))
  · rw [if_neg hbad]
    obtain ⟨hu, hp, hlong⟩ := not_or.1 hbad |>.imp_right not_or.1
    by_cases hfit : username.bytes.length ≤ 75 ∧ password.bytes.length ≤ 75
    · rw [if_pos hfit]
      exact ⟨fun _ => Or.inr (Or.inr (Or.inr (Or.inl hfit))), fun _ => Or.inl rfl⟩
    · rw [if_neg hfit]
      have hsame : { v with fields := filled (encoded username) [] username.bytes v.fields } = v ↔
          filled (encoded username) [] username.bytes v.fields = v.fields :=
        ⟨fun h => congrArg View.fields h, fun h => by rw [h]⟩
      simp only [Bool.false_eq_true, false_or, hsame, hu, hp, hlong, hfit]
      exact filled_eq_iff (encoded_length username) (by simp) (Nat.le_of_not_lt hlong)

theorem addReceiver_atomic (h : Holds s v) (nodeMem strMem : Malloc) (a : CStr) :
    Atomic v (smtpAddReceiver nodeMem strMem a s) ↔ ReceiverKept nodeMem strMem v := by
  have hrefines := addReceiver_refines h nodeMem strMem a
  cases nodeMem with
  | none =>
    have hsome : Refines _ (some (v, false)) := hrefines
    exact hsome.atomic_iff.trans ⟨fun _ => Or.inl rfl, fun _ => Or.inr rfl⟩
  | some dirtNode =>
    cases strMem with
    | none =>
      by_cases hnil : v.receivers = []
      · have hnone : v.addReceiver (some dirtNode) none a = none := if_pos hnil
        rw [hnone] at hrefines
        have hrun : smtpAddReceiver (some dirtNode) none a s = none := hrefines
        simp [Atomic, ReceiverKept, hrun, hnil]
      · have hsome : v.addReceiver (some dirtNode) none a = some (v, false) := if_neg hnil
        rw [hsome] at hrefines
        exact hrefines.atomic_iff.trans ⟨fun _ => Or.inr (Or.inr hnil), fun _ => Or.inr rfl⟩
    | some dirt =>
      have hsome : Refines _ (some ({ v with receivers := v.receivers ++ [a.bytes] }, true)) := hrefines
      exact hsome.atomic_iff.trans ⟨fun _ => Or.inr (Or.inl (by simp)), fun _ => Or.inl rfl⟩

/-- **A setter returns, and leaves what the session holds where it answers `-1`**, under these conditions and no others. -/
theorem setters_atomic_iff (h : Holds s v) :
    (∀ addrMem portMem serverAddr domain port, Atomic v (smtpSetServerAddr addrMem portMem serverAddr domain port s) ↔
      ServerKept addrMem serverAddr domain port v) ∧
    (∀ username password, Atomic v (some (smtpSetAuth username password s)) ↔ AuthKept username password v.fields) ∧
    ∀ nodeMem strMem a, Atomic v (smtpAddReceiver nodeMem strMem a s) ↔ ReceiverKept nodeMem strMem v :=
  ⟨setServerAddr_atomic h, setAuth_atomic h, addReceiver_atomic h⟩

/-- What a session holds behind `smtp_client_init`. -/
def View.init : View := ⟨fun _ => none, fun _ => 0, []⟩

theorem holds_init : Holds .init .init :=
  ⟨[], fun _ => rfl, by simp [Session.init], by simp [Session.init], rfl, receivers_init, rfl⟩

/-- A first receiver with both allocations. -/
theorem setters_atomic_first : Atomic .init (smtpAddReceiver (some fun _ => 0xA5) (some fun _ => 0xA5) receiverA .init) :=
  ((setters_atomic_iff holds_init).2.2 _ _ receiverA).2 (Or.inr (Or.inl (by simp)))

/-- **The address is stored, and then the port is refused.** -/
theorem server_stored_without_port : Holds .init .init ∧
    ¬ Atomic .init (smtpSetServerAddr (some fun _ => 0xA5) (some fun _ => 0xA5) receiverA true ⟨[], by simp, by simp⟩ .init) := by
  refine ⟨holds_init, ?_⟩
  rw [setServerAddr_atomic holds_init]
  rintro (h | h | h)
  · exact h rfl
  · exact absurd h.1 (by simp)
  · exact absurd h (by simp [View.init, kept])

end Atomic

/-! ## Every session -/

section Reachable

/-- A call that changes the session; each allocation has its outcome. -/
inductive Setting
  | serverAddr (addrMem portMem : Malloc) (addr : CStr) (domain : Bool) (port : CStr)
  | auth (username password : CStr)
  | add (nodeMem strMem : Malloc) (receiverAddr : CStr)
  | delete (receiverAddr : CStr)
  | clear

/-- The session behind a call that returns. -/
def setting (s : Session) : Setting → Option Session
  | .serverAddr addrMem portMem addr domain port => (smtpSetServerAddr addrMem portMem addr domain port s).map (·.1)
  | .auth username password => some (smtpSetAuth username password s).1
  | .add nodeMem strMem a => (smtpAddReceiver nodeMem strMem a s).map (·.1)
  | .delete a => (smtpDeleteReceiver a s).map (·.1)
  | .clear => smtpClearReceiver s

theorem setting_holds {s t : Session} {v : View} (h : Holds s v) (c : Setting) (ht : setting s c = some t) : ∃ v', Holds t v' := by
  cases c with
  | serverAddr addrMem portMem addr domain port =>
    obtain ⟨s', hrun, h'⟩ := setServerAddr_refines h addrMem portMem addr domain port
    rw [setting, hrun] at ht
    exact Option.some.inj ht ▸ ⟨_, h'⟩
  | auth username password => exact Option.some.inj ht ▸ ⟨_, setAuth_refines h username password⟩
  | add nodeMem strMem a =>
    have hrefines := addReceiver_refines h nodeMem strMem a
    cases hv : v.addReceiver nodeMem strMem a with
    | none =>
      rw [hv] at hrefines
      have hrun : smtpAddReceiver nodeMem strMem a s = none := hrefines
      rw [setting, hrun] at ht
      exact absurd ht (by simp)
    | some r =>
      rw [hv] at hrefines
      obtain ⟨s', hrun, h'⟩ := hrefines
      rw [setting, hrun] at ht
      exact Option.some.inj ht ▸ ⟨_, h'⟩
  | delete a =>
    obtain ⟨l, h⟩ := h
    obtain ⟨h', head, hrun, hlist, hframe⟩ := deleteReceiver_spec h.list a
    rw [setting, hrun] at ht
    refine Option.some.inj ht ▸ ⟨_, _, h.setList hlist (fun x _ => hframe x) fun x hx => Or.inl ?_⟩
    obtain ⟨e, he, hx⟩ := List.mem_flatMap.1 hx
    exact List.mem_flatMap.2 ⟨e, List.mem_of_mem_eraseP he, hx⟩
  | clear =>
    obtain ⟨l, h⟩ := h
    obtain ⟨h', hrun, hframe⟩ := clearReceiver_spec h.list
    rw [setting, hrun] at ht
    exact Option.some.inj ht ▸ ⟨_, [], h.setList ⟨rfl, List.nodup_nil⟩ (fun x _ => hframe x) (by simp)⟩

/-- **Every session that calls lead to holds a view**: its pointers are to strings and to a list, and no block has two owners. -/
theorem exec_holds (calls : List Setting) {s t : Session} {v : View} (h : Holds s v) (ht : Runs.exec setting s calls = some t) :
    ∃ v', Holds t v' := by
  have hall : Runs.Upholds setting (fun s => ∃ v, Holds s v) s calls := by
    apply Runs.upholds_of_inv
    · exact fun _ h => h
    · exact fun _ c _ ⟨_, h⟩ ht => setting_holds h c ht
    · exact ⟨v, h⟩
  exact hall.exec ht

end Reachable

end W601.Smtp.Mem
