import W601.Smtp.Transaction

/-!
# The segments of the replies

The client takes what one `read` of three bytes returns for the status of a reply, and what one `read` of
512 bytes returns for the rest of it. A server that sends whole, valid replies, over a network that may
cut them anywhere, is modelled by `server`; `Indifferent` says that the cuts make no difference.

* `refused_silent`: no mail is begun unless the greeting is `220`, however it is cut.
* `indifferent_iff`: the cuts make no difference exactly when no mail is begun at all.
-/

namespace W601.Smtp

open CMem CNum Dialogue

/-- **A valid reply**: lines with the same code, a hyphen behind it in all but the last. -/
structure Reply where
  code : List UInt8
  /-- The texts of the lines before the last. -/
  more : List (List UInt8)
  /-- The text of the last line. -/
  last : Option (List UInt8)
  code_length : code.length = 3
  code_digits : ∀ c ∈ code, isDigit c = true
  one_line : ∀ t ∈ more ++ last.toList, ∀ c ∈ t, c ≠ 13 ∧ c ≠ 10

def crlf : List UInt8 := text "\r\n"

/-- The bytes of a reply. -/
def Reply.bytes (r : Reply) : List UInt8 :=
  (r.more.flatMap fun t => r.code ++ text "-" ++ t ++ crlf) ++
    (r.code ++ (r.last.map fun t => text " " ++ t).getD [] ++ crlf)

/-- A reply begins with its code. -/
theorem Reply.take_bytes (r : Reply) : r.bytes.take 3 = r.code := by
  have h : ∃ rest, r.bytes = r.code ++ rest := by
    unfold Reply.bytes
    cases r.more with
    | nil => exact ⟨_, by rw [List.flatMap_nil, List.nil_append, List.append_assoc]⟩
    | cons t l => exact ⟨_, by rw [List.flatMap_cons]; simp only [List.append_assoc]; rfl⟩
  obtain ⟨rest, hr⟩ := h
  rw [hr, ← r.code_length, List.take_left]

theorem Reply.three_le (r : Reply) : 3 ≤ r.bytes.length := by
  have h := congrArg List.length r.take_bytes
  rw [r.code_length, List.length_take] at h
  omega

/-- The network and the server: what was sent and not yet read, and how many reads and writes there were. -/
structure Wire where
  pending : List UInt8
  reads : ℕ
  writes : ℕ

/-- The number of bytes that a read of `n` returns: any number from one on, as `cut` has it. -/
def Wire.taken (s : Wire) (cut : ℕ → ℕ) (n : ℕ) : ℕ := min n (min s.pending.length (max 1 (cut s.reads)))

/-- **A server on a segmenting network.** It greets, and answers the `i`-th write with the replies `answers i`;
the `i`-th read returns `cut i` bytes, if there are so many. With nothing to read, the read fails. -/
def server (fd : ℤ) (greeting : Reply) (answers : ℕ → List Reply) (cut : ℕ → ℕ) : Net Wire where
  getaddrinfo s := (some [0], s)
  socket s := (fd, s)
  connect _ _ s := (true, { s with pending := s.pending ++ greeting.bytes })
  read _ n s :=
    (if s.pending = [] then none else some (s.pending.take (s.taken cut n)),
      { s with pending := s.pending.drop (s.taken cut n), reads := s.reads + 1 })
  write _ b s :=
    (b.length, { s with pending := s.pending ++ (answers s.writes).flatMap Reply.bytes, writes := s.writes + 1 })
  read_le := by
    intro _ n s l h
    split_ifs at h
    obtain rfl := Option.some.inj h
    exact (List.length_take_le _ _).trans (Nat.min_le_left _ _)

/-- The mail, the network cutting as `cut` has it. -/
def mailOver (fd : ℤ) (greeting : Reply) (answers : ℕ → List Reply) (files : List UInt8 → Option (List UInt8)) (m : Store)
    (cut : ℕ → ℕ) : World Wire × Bool :=
  smtpSend (server fd greeting answers cut) [] files (World.start m ⟨[], 0, 0⟩)

/-- **The cuts make no difference**, to the result or to what is written. -/
def Indifferent (fd : ℤ) (greeting : Reply) (answers : ℕ → List Reply) (files : List UInt8 → Option (List UInt8))
    (m : Store) : Prop :=
  ∀ c d : ℕ → ℕ,
    (mailOver fd greeting answers files m c).2 = (mailOver fd greeting answers files m d).2 ∧
    writes (mailOver fd greeting answers files m c).1.log = writes (mailOver fd greeting answers files m d).1.log

variable {fd : ℤ} {greeting : Reply} {answers : ℕ → List Reply} {files : List UInt8 → Option (List UInt8)} {m : Store}
  {cut : ℕ → ℕ}

/-- The first bytes of the greeting that are read. -/
def greeted (greeting : Reply) (cut : ℕ → ℕ) : List UInt8 := greeting.bytes.take (min 3 (max 1 (cut 0)))

/-- The greeting is taken for `220` when that is its code and no cut is in it. -/
theorem greeted_eq_iff : greeted greeting cut = text "220" ↔ greeting.code = text "220" ∧ 3 ≤ cut 0 := by
  have hlen : (text "220").length = 3 := rfl
  have h3 := greeting.three_le
  unfold greeted
  constructor
  · intro h
    have hl := congrArg List.length h
    rw [List.length_take, hlen] at hl
    have hc : 3 ≤ cut 0 := by omega
    refine ⟨?_, hc⟩
    rw [← greeting.take_bytes, ← h]
    congr 1
    omega
  · rintro ⟨h, hc⟩
    rw [← h, ← greeting.take_bytes]
    congr 1
    omega

/-- The server is reached when its greeting is taken for `220`. -/
theorem reach_server (s : SmtpSession) :
    reach (server fd greeting answers cut) s ⟨[], 0, 0⟩ =
      if s.serverIp.isSome then none
      else if s.serverDomain.isSome then
        if fd < 0 then none
        else if greeted greeting cut = text "220" then
          some (fd, ⟨greeting.bytes.drop (min 3 (max 1 (cut 0))), 1, 0⟩)
        else none
      else none := by
  have h3 := greeting.three_le
  have hne : greeting.bytes ≠ [] := by
    intro h
    simp [h] at h3
  -- a reply is never shorter than its code
  have hk : min 3 (min greeting.bytes.length (max 1 (cut 0))) = min 3 (max 1 (cut 0)) := by omega
  have hlen : (text "220").length = 3 := rfl
  simp only [reach, server, dial, Option.bind_some, List.nil_append, if_neg hne, if_true, Wire.taken, hlen, hk, greeted,
    Option.some.injEq, Nat.zero_add]
  congr!

/-- **A mail is begun**: there is a server name, a socket that is not descriptor 0, and the greeting is `220`. -/
def Begun (fd : ℤ) (greeting : Reply) (s : SmtpSession) : Prop :=
  s.serverIp = none ∧ s.serverDomain.isSome = true ∧ 0 < fd ∧ greeting.code = text "220"

section Mail

variable (hplain : m.session.plain = true) (hwf : m.Wf)
include hplain hwf

/-- A greeting that is not taken for `220`, or no socket: nothing is written. -/
theorem mailOver_silent (h : ∀ fd' e, reach (server fd greeting answers cut) m.session ⟨[], 0, 0⟩ = some (fd', e) → fd' = 0) :
    (mailOver fd greeting answers files m cut).2 = false ∧ writes (mailOver fd greeting answers files m cut).1.log = [] := by
  unfold mailOver
  rcases smtpSend_cases (w := World.start m (⟨[], 0, 0⟩ : Wire)) (server fd greeting answers cut) files hplain hwf with
    ⟨-, fd', e', es, hd, hrun⟩ | ⟨fd', e', es, hr, hd, hrun⟩
  · rw [hrun]
    exact ⟨rfl, hd.silent⟩
  · rw [hrun, behind_zero _ files (by exact h fd' e' hr)]
    exact ⟨rfl, hd.silent⟩

/-- **No mail is begun unless the greeting is `220`**, however it is cut. -/
theorem refused_silent (h : ¬ Begun fd greeting m.session) :
    (mailOver fd greeting answers files m cut).2 = false ∧ writes (mailOver fd greeting answers files m cut).1.log = [] := by
  apply mailOver_silent hplain hwf
  intro fd' e hr
  rw [reach_server] at hr
  split_ifs at hr with h1 h2 h3 h4
  obtain ⟨rfl, -⟩ := Prod.mk.inj (Option.some.inj hr)
  by_contra hfd
  exact h ⟨by simpa using h1, h2, by omega, (greeted_eq_iff.1 h4).1⟩

/-- A cut in the greeting ends the mail at once. -/
theorem cut_greeting_silent (hcut : cut 0 < 3) :
    (mailOver fd greeting answers files m cut).2 = false ∧ writes (mailOver fd greeting answers files m cut).1.log = [] := by
  apply mailOver_silent hplain hwf
  intro fd' e hr
  rw [reach_server] at hr
  split_ifs at hr with h1 h2 h3 h4
  have := (greeted_eq_iff.1 h4).2
  omega

/-- A greeting of `220` that is read whole is answered with `EHLO`. -/
theorem whole_greeting_answered (h : Begun fd greeting m.session) (hcut : 3 ≤ cut 0) :
    writes (mailOver fd greeting answers files m cut).1.log ≠ [] := by
  obtain ⟨hip, hdom, hfd, hcode⟩ := h
  have hr : reach (server fd greeting answers cut) m.session ⟨[], 0, 0⟩ =
      some (fd, ⟨greeting.bytes.drop (min 3 (max 1 (cut 0))), 1, 0⟩) := by
    rw [reach_server, hip, if_neg (by simp), if_pos hdom, if_neg (by omega), if_pos (greeted_eq_iff.2 ⟨hcode, hcut⟩)]
  unfold mailOver
  rcases smtpSend_cases (w := World.start m (⟨[], 0, 0⟩ : Wire)) (server fd greeting answers cut) files hplain hwf with
    ⟨hr', -⟩ | ⟨fd', e', es, hr', hd, hrun⟩
  · exact absurd (hr.symm.trans hr') (by simp)
  · obtain ⟨rfl, -⟩ := Prod.mk.inj (Option.some.inj (hr.symm.trans hr'))
    have hu : Usable ((World.start m (⟨[], 0, 0⟩ : Wire)).connected fd e' es) := ⟨hplain, by exact hfd.ne'⟩
    obtain ⟨t, ht⟩ := behind_says_ehlo (server fd greeting answers cut) files hu (hwf.distinct fd)
    rw [hrun, ht]
    simp

/-- **The cuts make no difference** exactly when no mail is begun. -/
theorem indifferent_iff (fd : ℤ) (greeting : Reply) (answers : ℕ → List Reply)
    (files : List UInt8 → Option (List UInt8)) :
    Indifferent fd greeting answers files m ↔ ¬ Begun fd greeting m.session := by
  constructor
  · intro h hb
    -- one byte of the greeting, or its whole status
    obtain ⟨-, hw⟩ := h (fun _ => 1) (fun _ => 3)
    rw [(cut_greeting_silent hplain hwf (by decide)).2] at hw
    exact whole_greeting_answered hplain hwf hb (by decide) hw.symm
  · intro h c d
    exact ⟨(refused_silent hplain hwf h).1.trans (refused_silent hplain hwf h).1.symm,
      (refused_silent hplain hwf h).2.trans (refused_silent hplain hwf h).2.symm⟩

end Mail

/-- A reply of one line. -/
def Reply.line (code : List UInt8) (hlen : code.length = 3) (hdig : ∀ c ∈ code, isDigit c = true) : Reply :=
  ⟨code, [], some (text "ok"), hlen, hdig, by decide +kernel⟩

def greeting220 : Reply := .line (text "220") rfl (by decide +kernel)

/-- The replies to a mail that is taken: one to each write but that of the content. -/
def takenReplies : ℕ → List Reply
  | 0 => [.line (text "250") rfl (by decide +kernel)]
  | 1 => [.line (text "334") rfl (by decide +kernel)]
  | 2 => [.line (text "334") rfl (by decide +kernel)]
  | 3 => [.line (text "235") rfl (by decide +kernel)]
  | 4 => [.line (text "250") rfl (by decide +kernel)]
  | 5 => [.line (text "250") rfl (by decide +kernel)]
  | 6 => [.line (text "354") rfl (by decide +kernel)]
  | 7 => []
  | 8 => [.line (text "250") rfl (by decide +kernel)]
  | _ => [.line (text "221") rfl (by decide +kernel)]

theorem indifferent_iff_refused :
    Indifferent 3 (.line (text "421") rfl (by decide +kernel)) (fun _ => []) (fun _ => none)
      (smtpDataConfig Store.cleared firstSave) :=
  (indifferent_iff (by decide +kernel) (smtpDataConfig_wf Store.Wf.cleared _) 3 _ _ _).2 fun h =>
    absurd h.2.2.2 (by decide +kernel)

/-- The same replies: read whole, the mail is sent; with the greeting cut behind its second byte it is not. -/
theorem cut_greeting_fails :
    (mailOver 3 greeting220 takenReplies (fun _ => none) (smtpDataConfig Store.cleared firstSave) fun _ => 512).2 = true ∧
    (mailOver 3 greeting220 takenReplies (fun _ => none) (smtpDataConfig Store.cleared firstSave)
      fun i => if i = 0 then 2 else 512).2 = false := by
  decide +kernel

end W601.Smtp
