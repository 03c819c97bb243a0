import W601.Smtp.Recite
import W601.Smtp.Setters

/-!
# Accepted settings and the buffers they go to

`smtp_set_auth` takes an encoding of up to 100 letters for an array of 100 cells, and `smtp_add_receiver` takes any string; the
buffers of the commands and of the content are filled by `sprintf`.

* `stored_iff`: when the arrays hold C strings.
* `fits_iff`: when what is printed fits, by the lengths of the strings.
* `accepted_fit_iff`: both, for settings that were accepted.
-/

namespace W601.Smtp.Mem

open CMem

/-! ## Accepted settings -/

/-- A receiver to be added, with the outcomes of its allocations. -/
structure Addition where
  nodeMem : Malloc
  strMem : Malloc
  addr : CStr

/-- `smtp_add_receiver` for each of the receivers, every one of them accepted. -/
def addAll : List Addition → Session → Option Session
  | [], s => some s
  | r :: rs, s =>
    match smtpAddReceiver r.nodeMem r.strMem r.addr s with
    | some (s, true) => addAll rs s
    | _ => none

/-- What `%s` prints of a string of the session: it goes on to the next zero cell, wherever that is. -/
def Session.text (s : Session) (i : ℤ) : List UInt8 := readStr s.fields (2 ^ 29) i

/-- The session while a mail is sent: `m` has the connection, the subject, the body and the attachments. -/
def Session.mail (s : Session) (l : List Entry) (m : SmtpSession) : SmtpSession :=
  { m with
    username := s.text usernameAt
    password := s.text passwordAt
    addressFrom := s.text addressFromAt
    addressTo := l.map fun e => ⟨e.node, e.addr⟩ }

/-- The letters for a user name or a password. -/
def letters (c : CStr) : List UInt8 := Base64.encode Base64.standard Base64.standardPad c.bytes

/-- An array of 100 cells holds a C string. -/
def InArray (m : ℤ → UInt8) (i : ℤ) (t : List UInt8) : Prop := StrAt m i t ∧ t.length < 100

/-- The credentials are in their arrays, and everything that is printed for a mail fits its buffer. -/
structure FitsUse (username password : CStr) (s : Session) (m : SmtpSession) : Prop where
  user : InArray s.fields usernameAt (letters username)
  pass : InArray s.fields passwordAt (letters password)
  sender : InArray s.fields addressFromAt username.bytes
  printed : ∃ l v, Stores s l v ∧ Fits (s.mail l m)

section Stored

variable {m : ℤ → UInt8} {i : ℤ} {t : List UInt8}

/-- **A string in an array** has its terminator there when it is shorter than the array. -/
theorem inArray_iff (h : At m i (array t)) (h0 : 0 ∉ t) : InArray m i t ↔ t.length < 100 :=
  ⟨fun hin => hin.2, fun hlt => ⟨strAt_of_padded h h0 hlt, hlt⟩⟩

theorem letters_nulFree (c : CStr) : 0 ∉ letters c := by
  have hstandard : ∀ i < 64, Base64.standard i ≠ 0 := by decide
  intro h0
  rcases Base64.mem_encode h0 with h | ⟨i, hi, h⟩
  · exact absurd h (by decide)
  · exact hstandard i hi h.symm

theorem letters_length (c : CStr) : (letters c).length = 4 * ((c.bytes.length + 2) / 3) := Base64.encode_length _ _ _

variable {s : Session} {username password : CStr}

/-- **The arrays hold C strings** when neither encoding fills its array. -/
theorem stored_iff (h : Filled s.fields (letters username) (letters password) username.bytes)
    (hu : username.bytes.length ≤ 75) (hp : password.bytes.length ≤ 75) :
    (InArray s.fields usernameAt (letters username) ∧ InArray s.fields passwordAt (letters password) ∧
      InArray s.fields addressFromAt username.bytes) ↔ username.bytes.length ≤ 72 ∧ password.bytes.length ≤ 72 := by
  have hul := letters_length username
  have hpl := letters_length password
  rw [inArray_iff h.username (letters_nulFree username), inArray_iff h.password (letters_nulFree password),
    inArray_iff h.addressFrom username.nulFree, hul, hpl]
  omega

theorem text_eq (h : StrAt s.fields i t) (ht : t.length < 100) : s.text i = t := by
  have hle : t.length ≤ 2 ^ 29 := by omega
  exact readStr_eq h hle

end Stored

/-! ## What is printed -/

/-- What is left of `content_buf` for the sender, the first receiver, the subject and the body. -/
def contentRoom (m : SmtpSession) : ℕ := if m.attachments = [] then 733 else 570

theorem contentText_length (m : SmtpSession) (rcv : List UInt8) :
    (contentText m rcv).length < contentBufLen ↔
      m.addressFrom.length + rcv.length + m.subject.length + m.body.length ≤ contentRoom m := by
  unfold contentText contentRoom contentBufLen sendDataMaxLen
  split_ifs
  · simp only [List.length_append]
    have h1 : (text "FROM: <").length = 7 := rfl
    have h2 : (text ">\r\nTO: <").length = 8 := rfl
    have h3 : (text ">\r\nSUBJECT:").length = 11 := rfl
    have h4 : (text "\r\n\r\n").length = 4 := rfl
    omega
  · simp only [List.length_append]
    have h1 : (text "FROM:<").length = 6 := rfl
    have h2 : (text ">\r\nTO:<").length = 7 := rfl
    have h3 : (text ">\r\nSUBJECT:").length = 11 := rfl
    have h4 : (text "\r\nContent-Type: multipart/mixed;boundary=\"smtp_client_boundary\"\r\n\r\n").length = 67 := by decide
    have h5 : (text "\r\nContent-Type: text/plain; charset=\"utf-8\"\r\nContent-Transfer-Encoding: 7bit\r\n\r\n").length = 80 := by
      decide
    have h6 : (text "\r\n\r\n").length = 4 := rfl
    have h7 : boundary.length = 22 := by decide
    omega

/-- **Everything that is printed fits**, by the lengths of the strings. -/
theorem fits_iff (m : SmtpSession) :
    Fits m ↔ m.username.length < 100 ∧ m.password.length < 100 ∧ m.addressFrom.length < 100 ∧
      (∀ r ∈ m.addressTo, r.addr.length ≤ 101) ∧
      ∀ r ∈ m.addressTo.head?, m.addressFrom.length + r.addr.length + m.subject.length + m.body.length ≤ contentRoom m := by
  have hauth : ∀ t : List UInt8, (authInfo t).length < authInfoLen ↔ t.length < 100 := by
    intro t
    have hcrlf : (text "\r\n").length = 2 := rfl
    rw [authInfo, List.length_append, authInfoLen, maxAuthLen]
    omega
  have hroom : addrInfoLen = 115 := by decide
  have hmail : ∀ t : List UInt8, (cmdMail t).length < addrInfoLen ↔ t.length < 100 := by
    intro t
    have hhead : (text "MAIL FROM: <").length = 12 := rfl
    have hend : (text ">\r\n").length = 3 := rfl
    rw [cmdMail, List.length_append, List.length_append, hroom]
    omega
  have hrcpt : ∀ t : List UInt8, (cmdRcpt t).length < addrInfoLen ↔ t.length ≤ 101 := by
    intro t
    have hhead : (text "RCPT TO: <").length = 10 := rfl
    have hend : (text ">\r\n").length = 3 := rfl
    rw [cmdRcpt, List.length_append, List.length_append, hroom]
    omega
  constructor
  · intro h
    exact ⟨(hauth _).1 h.user, (hauth _).1 h.pass, (hmail _).1 h.mail, fun r hr => (hrcpt _).1 (h.rcpt r hr),
      fun r hr => (contentText_length m r.addr).1 (h.content r hr)⟩
  · rintro ⟨h1, h2, h3, h4, h5⟩
    exact ⟨(hauth _).2 h1, (hauth _).2 h2, (hmail _).2 h3, fun r hr => (hrcpt _).2 (h4 r hr),
      fun r hr => (contentText_length m r.addr).2 (h5 r hr)⟩

/-! ## Both -/

section Accepted

variable {s t : Session} {v : View} {username password : CStr}

/-- Receivers that are accepted stand in the list. -/
theorem addAll_holds : ∀ {rs : List Addition} {s : Session} {v : View}, Holds s v → addAll rs s = some t →
    Holds t { v with receivers := v.receivers ++ rs.map (·.addr.bytes) } := by
  intro rs
  induction rs with
  | nil =>
    intro s v h ht
    obtain rfl := Option.some.inj ht
    simpa using h
  | cons r rs ih =>
    intro s v h ht
    obtain ⟨nodeMem, strMem, a⟩ := r
    have hrefines := addReceiver_refines h nodeMem strMem a
    unfold addAll at ht
    split at ht
    · rename_i s' hrun
      dsimp only at hrun
      rw [hrun] at hrefines
      -- the answer is `0` behind both allocations only
      have hview : Refines (some (s', true)) (some ({ v with receivers := v.receivers ++ [a.bytes] }, true)) := by
        cases nodeMem with
        | none =>
          obtain ⟨_, hr, -⟩ := hrefines
          simp at hr
        | some dirtNode =>
          cases strMem with
          | none =>
            by_cases hnil : v.receivers = []
            · have hnone : v.addReceiver (some dirtNode) none a = none := if_pos hnil
              rw [hnone] at hrefines
              exact absurd hrefines (by simp [Refines])
            · have hsome : v.addReceiver (some dirtNode) none a = some (v, false) := if_neg hnil
              rw [hsome] at hrefines
              obtain ⟨_, hr, -⟩ := hrefines
              simp at hr
          | some dirt => exact hrefines
      obtain ⟨_, hr, hheld⟩ := hview
      obtain ⟨rfl, -⟩ := Prod.mk.inj (Option.some.inj hr)
      have hnext := ih hheld ht
      simpa using hnext
    · exact absurd ht (by simp)

/-- Credentials that are accepted stand in the arrays. -/
theorem setAuth_accepted (h : Holds s v) (hauth : smtpSetAuth username password s = (t, true)) :
    username.bytes.length ≤ 75 ∧ password.bytes.length ≤ 75 ∧
      Holds t { v with fields := filled (letters username) (letters password) username.bytes v.fields } := by
  obtain ⟨l, hl⟩ := h
  have heq := setAuth_eq hl.fields username password
  have hheld := setAuth_refines ⟨l, hl⟩ username password
  rw [hauth] at heq hheld
  have hok : (v.setAuth username password).2 = true := (Prod.mk.inj heq).2.symm
  unfold View.setAuth at hok hheld
  split_ifs at hok hheld with h1 h2
  have hu : encoded username = letters username := if_pos h2.1
  have hp : encoded password = letters password := if_pos h2.2
  rw [hu, hp] at hheld
  exact ⟨h2.1, h2.2, hheld⟩

/-- **Accepted settings fit where they are used** when the user name and the password have 72 bytes at most, each receiver
101, and the content leaves room for them; otherwise one of them does not. -/
theorem accepted_fit_iff (h : Holds s v) (hauth : smtpSetAuth username password s = (t, true)) {rs : List Addition} {t' : Session}
    (hadd : addAll rs t = some t') (m : SmtpSession) :
    FitsUse username password t' m ↔
      username.bytes.length ≤ 72 ∧ password.bytes.length ≤ 72 ∧
      (∀ a ∈ v.receivers ++ rs.map (·.addr.bytes), a.length ≤ 101) ∧
      ∀ a ∈ (v.receivers ++ rs.map (·.addr.bytes)).head?,
        username.bytes.length + a.length + m.subject.length + m.body.length ≤ contentRoom m := by
  obtain ⟨hu75, hp75, hheld⟩ := setAuth_accepted h hauth
  obtain ⟨l, hl⟩ := addAll_holds hheld hadd
  have hul := letters_length username
  have hpl := letters_length password
  have hfilled : Filled t'.fields (letters username) (letters password) username.bytes := by
    rw [hl.fields]
    exact filled_filled (by omega) (by omega) (by omega) v.fields
  have hstored := stored_iff hfilled hu75 hp75
  -- the addresses that are printed are those of the list
  have haddrs : addrs l = v.receivers ++ rs.map (·.addr.bytes) := hl.receivers
  have hall : (∀ r ∈ (t'.mail l m).addressTo, r.addr.length ≤ 101) ↔ ∀ a ∈ addrs l, a.length ≤ 101 := by
    simp [Session.mail, addrs]
  have hhead : ∀ n, (∀ r ∈ (t'.mail l m).addressTo.head?, n + r.addr.length + m.subject.length + m.body.length ≤ contentRoom m) ↔
      ∀ a ∈ (addrs l).head?, n + a.length + m.subject.length + m.body.length ≤ contentRoom m := by
    intro n
    cases l <;> simp [Session.mail, addrs]
  rw [← haddrs]
  constructor
  · rintro ⟨hu, hp, hs, l', v', hl', hfits⟩
    obtain rfl := hl'.list.part.unique hl.list.part
    obtain ⟨-, -, -, h4, h5⟩ := (fits_iff _).1 hfits
    have hfrom : (t'.mail l' m).addressFrom = username.bytes := text_eq hs.1 hs.2
    rw [hfrom] at h5
    obtain ⟨h1, h2⟩ := hstored.1 ⟨hu, hp, hs⟩
    exact ⟨h1, h2, hall.1 h4, (hhead _).1 h5⟩
  · rintro ⟨h1, h2, h4, h5⟩
    obtain ⟨hu, hp, hs⟩ := hstored.2 ⟨h1, h2⟩
    refine ⟨hu, hp, hs, l, _, hl, (fits_iff _).2 ⟨?_, ?_, ?_, hall.2 h4, ?_⟩⟩
    · rw [Session.mail, text_eq hu.1 hu.2]
      exact hu.2
    · rw [Session.mail, text_eq hp.1 hp.2]
      exact hp.2
    · rw [Session.mail, text_eq hs.1 hs.2]
      exact hs.2
    · have hfrom : (t'.mail l m).addressFrom = username.bytes := text_eq hs.1 hs.2
      rw [hfrom]
      exact (hhead _).2 h5

theorem setAuth_init_ok (hu : username.bytes ≠ [] ∧ username.bytes.length ≤ 75) (hp : password.bytes ≠ [] ∧ password.bytes.length ≤ 75) :
    (smtpSetAuth username password .init).2 = true := by
  have hfields : Session.init.fields = View.init.fields := rfl
  have hgood : ¬ (username.bytes = [] ∨ password.bytes = [] ∨ 100 < username.bytes.length) := by
    rintro (h | h | h)
    · exact hu.1 h
    · exact hp.1 h
    · omega
  rw [setAuth_eq hfields]
  unfold View.setAuth
  rw [if_neg hgood, if_pos ⟨hu.2, hp.2⟩]

/-- A mail on a plain connection, without attachments. -/
def plainMail (subject body : List UInt8) : SmtpSession := ⟨none, none, none, [], [], [], [], subject, body, 1, []⟩

/-- A user, a password and a receiver of a few bytes. -/
theorem accepted_fit_short : ∃ t t', smtpSetAuth receiverA receiverB .init = (t, true) ∧
    addAll [⟨some fun _ => 0xA5, some fun _ => 0xA5, receiverB⟩] t = some t' ∧
    FitsUse receiverA receiverB t' (plainMail (text "WARNING") (text "31.5")) := by
  have hok : (smtpSetAuth receiverA receiverB .init).2 = true := setAuth_init_ok ⟨by decide, by decide⟩ ⟨by decide, by decide⟩
  have hauth : smtpSetAuth receiverA receiverB .init = ((smtpSetAuth receiverA receiverB .init).1, true) := Prod.ext rfl hok
  have hheld := setAuth_refines holds_init receiverA receiverB
  obtain ⟨t', hrun, -⟩ := addReceiver_refines hheld (some fun _ => 0xA5) (some fun _ => 0xA5) receiverB
  have hadd : addAll [⟨some fun _ => 0xA5, some fun _ => 0xA5, receiverB⟩] (smtpSetAuth receiverA receiverB .init).1 = some t' := by
    simp only [addAll, hrun]
  refine ⟨_, t', hauth, hadd, (accepted_fit_iff holds_init hauth hadd _).2 ⟨by decide, by decide, ?_, ?_⟩⟩
  · intro a ha
    obtain rfl := List.mem_singleton.1 ha
    decide
  · intro a ha
    obtain rfl := Option.some.inj ha
    decide

/-- A user name of 73 bytes. -/
def longUser : CStr := ⟨List.replicate 73 97, by decide, by decide⟩

/-- **The letters of a user name of 73 bytes fill their array**, and no terminator stands in it. -/
theorem long_user_accepted : ∃ t, smtpSetAuth longUser receiverA .init = (t, true) ∧ addAll [] t = some t ∧
    ¬ FitsUse longUser receiverA t (plainMail (text "WARNING") (text "31.5")) := by
  have hok : (smtpSetAuth longUser receiverA .init).2 = true := setAuth_init_ok ⟨by decide, by decide⟩ ⟨by decide, by decide⟩
  refine ⟨_, Prod.ext rfl hok, rfl, fun h => ?_⟩
  have hlen := h.user.2
  rw [letters_length] at hlen
  exact absurd hlen (by decide)

end Accepted

end W601.Smtp.Mem
