import W601.Lib.CMem

/-!
# The SMTP configuration

`smtp_session` and `w601_smtp`, and the functions that change them: the setters of the SMTP client and
`smtp_data_config`, which a web request calls with new settings. Heap strings and receiver nodes carry
the identity of their allocation, so that a pointer kept from before can be told to be stale.
Allocations succeed.
-/

namespace W601.Smtp

open CMem

/-- `SMTP_MAX_ADDR_LEN`. -/
def maxAddrLen : ℕ := 100

/-- `SMTP_MAX_AUTH_LEN`. -/
def maxAuthLen : ℕ := 50

/-- A string on the heap. -/
structure HeapStr where
  id : ℕ
  text : List UInt8
  deriving DecidableEq

/-- A node of the receiver list, with its string. -/
structure Rcpt where
  id : ℕ
  addr : List UInt8
  deriving DecidableEq

structure Attachment where
  filePath : List UInt8
  fileName : List UInt8
  deriving DecidableEq

/-- `smtp_session_t`, its strings without their terminators. -/
structure SmtpSession where
  serverDomain : Option HeapStr
  serverIp : Option HeapStr
  serverPort : Option HeapStr
  username : List UInt8
  password : List UInt8
  addressFrom : List UInt8
  addressTo : List Rcpt
  subject : List UInt8
  body : List UInt8
  connFd : ℤ
  attachments : List Attachment
  deriving DecidableEq

/-- The strings of `smtp_module_t`. -/
structure SmtpModule where
  serverAddr : List UInt8
  serverPort : List UInt8
  username : List UInt8
  password : List UInt8
  receiver : List UInt8
  deriving DecidableEq

/-- The globals and the heap. -/
structure Store where
  /-- `smtp_session`. -/
  session : SmtpSession
  /-- `w601_smtp`. -/
  w601Smtp : SmtpModule
  /-- The identity of the next allocation. -/
  nextId : ℕ
  /-- The allocations that have been freed. -/
  freed : List ℕ
  /-- A buffer was written behind its end. -/
  overflow : Bool
  deriving DecidableEq

/-! ## Base64 -/

/-- `smtp_base64_table`. -/
def base64Table : List UInt8 := text "ABCDEFGHIJKLMNOPQRSTUVWXYZabcdefghijklmnopqrstuvwxyz0123456789+/"

/-- The variables of the loop of `smtp_base64_encode`. -/
structure B64 where
  x : ℕ
  current : ℕ
  target : List UInt8

/-- One bit of the source. -/
def B64.bit (s : B64) (shift : Bool) : B64 :=
  let current := s.current ||| (shift.toNat <<< s.x)
  if s.x = 0 then ⟨5, 0, s.target ++ [base64Table.getD current 0]⟩
  else ⟨s.x - 1, current, s.target⟩

/-- One byte of the source, from its highest bit on. -/
def B64.byte (s : B64) (b : UInt8) : B64 :=
  [7, 6, 5, 4, 3, 2, 1, 0].foldl (fun s j => s.bit (b.toNat.testBit j)) s

/-- `smtp_base64_encode`: what it leaves in the target, or `none` where it answers `0` because the
target is too short. -/
def smtpBase64Encode (targetLen : ℕ) (source : List UInt8) : Option (List UInt8) :=
  -- the zero bytes that fill up the last group of three
  let longer := if 3 - source.length % 3 = 3 then 0 else 3 - source.length % 3
  let len := (source.length + longer) * 4 / 3
  if targetLen < len then none
  else
    let s := (source ++ List.replicate longer 0).foldl B64.byte ⟨5, 0, []⟩
    some (s.target.take (len - longer) ++ List.replicate longer (UInt8.ofNat '='.toNat))

/-! ## Setters -/

/-- Free a string. -/
def Store.free (m : Store) (p : Option HeapStr) : Store :=
  { m with freed := m.freed ++ (p.map (·.id)).toList }

/-- `smtp_set_server_addr`; `domain` says whether the address type is `ADDRESS_TYPE_DOMAIN`. -/
def smtpSetServerAddr (m : Store) (serverAddr : List UInt8) (domain : Bool) (port : List UInt8) :
    Store × Bool :=
  let setPort (m : Store) : Store × Bool :=
    if port.length = 0 then (m, false)
    else
      ({ m.free m.session.serverPort with
          session := { m.session with serverPort := some ⟨m.nextId, port⟩ }, nextId := m.nextId + 1 }, true)
  if domain then
    setPort { m.free m.session.serverDomain with
      session := { m.session with serverDomain := some ⟨m.nextId, serverAddr⟩ }, nextId := m.nextId + 1 }
  -- the length is kept in a `uint16_t`
  else if serverAddr.length % 2 ^ 16 > 15 then (m, false)
  else
    setPort { m.free m.session.serverIp with
      session := { m.session with serverIp := some ⟨m.nextId, serverAddr⟩ }, nextId := m.nextId + 1 }

/-- `smtp_set_auth`. -/
def smtpSetAuth (m : Store) (username password : List UInt8) : Store × Bool :=
  if username.length = 0 ∨ password.length = 0 then (m, false)
  else if username.length > maxAddrLen then (m, false)
  else
    -- all three are overwritten before anything can fail
    let s := { m.session with addressFrom := username, username := [], password := [] }
    match smtpBase64Encode (maxAuthLen * 2) username with
    | none => ({ m with session := s }, false)
    | some u =>
      match smtpBase64Encode (maxAuthLen * 2) password with
      | none => ({ m with session := { s with username := u } }, false)
      | some p => ({ m with session := { s with username := u, password := p } }, true)

/-- `smtp_add_receiver`: a new node at the end of the list. -/
def smtpAddReceiver (m : Store) (receiverAddr : List UInt8) : Store :=
  { m with
    session := { m.session with addressTo := m.session.addressTo ++ [⟨m.nextId, receiverAddr⟩] }
    nextId := m.nextId + 1 }

/-- The first node that the string is the beginning of, and the list without it. -/
def unlink (receiverAddr : List UInt8) : List Rcpt → Option (Rcpt × List Rcpt)
  | [] => none
  | r :: rs =>
    -- `memcmp` over the length of the string that is looked for
    if receiverAddr.isPrefixOf r.addr then some (r, rs)
    else (unlink receiverAddr rs).map fun p => (p.1, r :: p.2)

/-- `smtp_delete_receiver`. -/
def smtpDeleteReceiver (m : Store) (receiverAddr : List UInt8) : Store × Bool :=
  match unlink receiverAddr m.session.addressTo with
  | none => (m, false)
  | some (r, rest) => ({ m with session := { m.session with addressTo := rest }, freed := m.freed ++ [r.id] }, true)

/-- The settings of a web request to `smtp_save`. -/
structure Save where
  serverAddr : List UInt8
  serverPort : List UInt8
  username : List UInt8
  password : List UInt8
  receiver : List UInt8
  deriving DecidableEq

/-- The settings fit the fields of `smtp_module_t`, with their terminators. -/
def Save.fits (r : Save) : Bool :=
  r.serverAddr.length < 100 && r.serverPort.length < 10 && r.username.length < 50 && r.password.length < 50 &&
    r.receiver.length < 100

/-- `smtp_data_config`, but for the temperature limit. -/
def smtpDataConfig (m : Store) (r : Save) : Store :=
  let m := if m.w601Smtp.receiver ≠ [] then (smtpDeleteReceiver m m.w601Smtp.receiver).1 else m
  let m :=
    { m with
      w601Smtp := ⟨r.serverAddr, r.serverPort, r.username, r.password, r.receiver⟩
      overflow := m.overflow || !r.fits }
  -- no result is looked at from here on
  let m := (smtpSetServerAddr m r.serverAddr true r.serverPort).1
  let m := (smtpSetAuth m r.username r.password).1
  smtpAddReceiver m r.receiver

/-- The state after `smtp_client_init` and the clearing of `w601_smtp`. -/
def Store.cleared : Store :=
  ⟨⟨none, none, none, [], [], [], [], [], [], 0, []⟩, ⟨[], [], [], [], []⟩, 0, [], false⟩

/-! ## The heap -/

/-- The allocations that the session points to. -/
def SmtpSession.owned (s : SmtpSession) : List ℕ :=
  (s.serverDomain.map (·.id)).toList ++ (s.serverIp.map (·.id)).toList ++ (s.serverPort.map (·.id)).toList ++
    s.addressTo.map (·.id)

/-- Owned and freed allocations, each once. -/
structure Store.Wf (m : Store) : Prop where
  nodup : (m.session.owned ++ m.freed).Nodup
  lt : ∀ i ∈ m.session.owned ++ m.freed, i < m.nextId

/-- **Allocations change hands**: behind a step that allocates the identities from `m.nextId` on, those
that were there are still there, each once. -/
theorem Store.Wf.of_perm {m m' : Store} (h : m.Wf) (k : ℕ) (hnext : m'.nextId = m.nextId + k)
    (hp : (m'.session.owned ++ m'.freed).Perm
      (List.range' m.nextId k ++ (m.session.owned ++ m.freed))) : m'.Wf := by
  refine ⟨hp.nodup_iff.2 ?_, fun i hi => ?_⟩
  · refine List.nodup_append.2 ⟨List.nodup_range', h.nodup, fun a ha b hb => ?_⟩
    have h1 := List.mem_range'_1.1 ha
    have h2 := h.lt b hb
    omega
  · rw [hnext]
    rcases List.mem_append.1 (hp.mem_iff.1 hi) with hi | hi
    · exact (List.mem_range'_1.1 hi).2
    · exact Nat.lt_add_right k (h.lt i hi)

theorem Store.Wf.cleared : Store.cleared.Wf := ⟨by decide, by decide⟩

section Wf

variable {m : Store} (h : m.Wf)
include h

theorem Store.Wf.setDomain (t : List UInt8) :
    Store.Wf { m.free m.session.serverDomain with
      session := { m.session with serverDomain := some ⟨m.nextId, t⟩ }, nextId := m.nextId + 1 } := by
  refine h.of_perm 1 rfl (List.perm_iff_count.2 fun i => ?_)
  simp only [SmtpSession.owned, Store.free, Option.map_some, Option.toList_some, List.count_append, List.range'_one]
  omega

theorem Store.Wf.setIp (t : List UInt8) :
    Store.Wf { m.free m.session.serverIp with
      session := { m.session with serverIp := some ⟨m.nextId, t⟩ }, nextId := m.nextId + 1 } := by
  refine h.of_perm 1 rfl (List.perm_iff_count.2 fun i => ?_)
  simp only [SmtpSession.owned, Store.free, Option.map_some, Option.toList_some, List.count_append, List.range'_one]
  omega

theorem Store.Wf.setPort (t : List UInt8) :
    Store.Wf { m.free m.session.serverPort with
      session := { m.session with serverPort := some ⟨m.nextId, t⟩ }, nextId := m.nextId + 1 } := by
  refine h.of_perm 1 rfl (List.perm_iff_count.2 fun i => ?_)
  simp only [SmtpSession.owned, Store.free, Option.map_some, Option.toList_some, List.count_append, List.range'_one]
  omega

theorem smtpSetServerAddr_wf (a : List UInt8) (domain : Bool) (port : List UInt8) :
    (smtpSetServerAddr m a domain port).1.Wf := by
  unfold smtpSetServerAddr
  dsimp only
  split_ifs
  · exact h.setDomain a
  · exact (h.setDomain a).setPort port
  · exact h
  · exact h.setIp a
  · exact (h.setIp a).setPort port

theorem smtpSetAuth_wf (u p : List UInt8) : (smtpSetAuth m u p).1.Wf := by
  unfold smtpSetAuth
  split_ifs
  · exact h
  · exact h
  · split
    · exact ⟨h.nodup, h.lt⟩
    · split <;> exact ⟨h.nodup, h.lt⟩

theorem smtpAddReceiver_wf (a : List UInt8) : (smtpAddReceiver m a).Wf := by
  refine h.of_perm 1 rfl (List.perm_iff_count.2 fun i => ?_)
  simp only [SmtpSession.owned, smtpAddReceiver, List.map_append, List.map_cons, List.map_nil, List.count_append,
    List.range'_one]
  omega

omit h in
/-- The node that is unlinked is one of the list. -/
theorem unlink_perm {a : List UInt8} {l rest : List Rcpt} {r : Rcpt} (hu : unlink a l = some (r, rest)) :
    (r :: rest).Perm l := by
  induction l generalizing rest with
  | nil => simp [unlink] at hu
  | cons q l ih =>
    unfold unlink at hu
    split_ifs at hu
    · obtain ⟨rfl, rfl⟩ := Prod.mk.inj (Option.some.inj hu)
      exact List.Perm.refl _
    · obtain ⟨⟨r', rest'⟩, hp, he⟩ := Option.map_eq_some_iff.1 hu
      obtain ⟨rfl, rfl⟩ := Prod.mk.inj he
      exact (List.Perm.swap q r' rest').trans ((ih hp).cons q)

theorem smtpDeleteReceiver_wf (a : List UInt8) : (smtpDeleteReceiver m a).1.Wf := by
  unfold smtpDeleteReceiver
  split
  · exact h
  · rename_i r rest hu
    have hc := fun i => List.perm_iff_count.1 ((unlink_perm hu).map (·.id)) i
    refine h.of_perm 0 rfl (List.perm_iff_count.2 fun i => ?_)
    have := hc i
    simp only [SmtpSession.owned, List.map_cons, List.count_append, List.count_cons, List.count_nil,
      List.range'_zero, List.nil_append] at this ⊢
    omega

/-- **A request keeps the heap well formed.** -/
theorem smtpDataConfig_wf (r : Save) : (smtpDataConfig m r).Wf := by
  have h1 : (if m.w601Smtp.receiver ≠ [] then (smtpDeleteReceiver m m.w601Smtp.receiver).1 else m).Wf := by
    split
    · exact smtpDeleteReceiver_wf h _
    · exact h
  unfold smtpDataConfig
  refine smtpAddReceiver_wf (smtpSetAuth_wf (smtpSetServerAddr_wf ?_ _ _ _) _ _) _
  exact ⟨h1.nodup, h1.lt⟩

theorem foldl_smtpDataConfig_wf (rs : List Save) : (rs.foldl smtpDataConfig m).Wf := by
  induction rs generalizing m with
  | nil => exact h
  | cons r rs ih => exact ih (smtpDataConfig_wf h r)

end Wf

end W601.Smtp
