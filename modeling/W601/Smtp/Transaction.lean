import W601.Smtp.Recite

/-!
# The transaction of a mail

What `smtp_send` says on the plain port, and in which order, against any resolver, network and server.

* `smtpSend_cases`, `smtpSend_behind`: the whole function, without requests, as a search for a connection
  and a recital.
* `smtpSend_transaction`: a mail that was sent went through its whole dialogue, each command answered as
  it must be; behind a check that fails nothing is written.
-/

namespace W601.Smtp

open CMem Dialogue

variable {σ : Type*} {net : Net σ} {files : List UInt8 → Option (List UInt8)} {w : World σ}

theorem writes_closes (fd : ℤ) (n : ℕ) : writes (List.replicate n (.close fd)) = [] := by
  induction n with
  | zero => rfl
  | succ n ih => exact ih

theorem talk_closes (fd : ℤ) (n : ℕ) : talk 3 (List.replicate n (.close fd)) = [] := by
  induction n with
  | zero => rfl
  | succ n ih => exact ih

/-- What comes behind a connection. -/
def behind (net : Net σ) (files : List UInt8 → Option (List UInt8)) (w : World σ) : World σ × Bool :=
  ifOk (smtpHandshake net [] w) fun w => ifOk (speak net [] files w) fun w => (smtpCloseConnection w, true)

theorem Store.Wf.distinct {m : Store} (h : m.Wf) (fd : ℤ) : Distinct { m.session with connFd := fd } := by
  have h1 := (List.nodup_append.1 h.nodup).1
  exact (List.nodup_append.1 h1).2.1

/-- **The server is reached or not.** -/
theorem smtpSend_cases (net : Net σ) (files : List UInt8 → Option (List UInt8)) (hpl : w.session.plain = true)
    (hwf : w.toStore.Wf) :
    (reach net w.session w.env = none ∧ ∃ fd e es, Dialled none fd e es ∧
      smtpSend net [] files w = (w.connected fd e es, false)) ∨
    (∃ fd e es, reach net w.session w.env = some (fd, e) ∧ Dialled (some (fd, e)) fd e es ∧
      smtpSend net [] files w = behind net files (w.connected fd e es)) := by
  obtain ⟨fd, e, es, hrun, hd⟩ := connectServer_dials net hpl hwf
  rw [smtpSend_eq, hrun]
  cases hr : reach net w.session w.env with
  | none =>
    rw [hr] at hd
    exact Or.inl ⟨rfl, fd, e, es, hd, rfl⟩
  | some p =>
    rw [hr] at hd
    obtain ⟨rfl, -⟩ := hd.greeted p rfl
    exact Or.inr ⟨fd, e, es, rfl, hd, rfl⟩

/-- **Behind a connection**, a mail with a receiver is a recital of its dialogue. -/
theorem smtpSend_behind (net : Net σ) (files : List UInt8 → Option (List UInt8)) (hu : Usable w)
    (hd : Distinct w.session) (hne : w.session.addressTo ≠ []) :
    ∃ o, (Fits w.session → o = w.overflow) ∧ behind net files w =
      (((w.played (talkTo net w (dialogue files w.session))).closing
        (closes net w (transaction files w.session))).marked o, (talkTo net w (dialogue files w.session)).ok) := by
  have hspeak : ∀ w' : World σ, w'.session = w.session →
      Recites net (transaction files w.session) 2 w' (speak net [] files w') := by
    intro w' hs'
    rw [← hs'] at hd hne ⊢
    exact speak_recites net files (hu.of_session hs') hd hne
  obtain ⟨o, ho, hrun⟩ := handshake_recites (g := fun w => (smtpCloseConnection w, true)) hu hspeak
  refine ⟨o, ho, ?_⟩
  unfold behind
  rw [hrun]
  change _ = (((w.played (talkTo net w (.cmd cmdEhlo (text "250") :: _))).closing _).marked o,
    (talkTo net w (.cmd cmdEhlo (text "250") :: _)).ok)
  split
  · rename_i hok
    rw [close_eq (by exact hu.plain), closes, hok]
    simp [World.closing, World.marked]
  · rename_i hok
    rw [Bool.not_eq_true] at hok
    rw [hok]

/-- Behind a connection, a mail without a receiver. -/
theorem behind_no_receiver (net : Net σ) (files : List UInt8 → Option (List UInt8)) (hu : Usable w)
    (hnil : w.session.addressTo = []) :
    ∃ o, behind net files w =
      if (talkTo net w (.cmd cmdEhlo (text "250") :: preamble w.session)).ok then
        ({ (w.played (talkTo net w (.cmd cmdEhlo (text "250") :: preamble w.session))).marked o with fault := true },
          false)
      else (((w.played (talkTo net w (.cmd cmdEhlo (text "250") :: preamble w.session))).closing
        (closes net w (preamble w.session))).marked o, false) := by
  have hpre : ∀ w' : World σ, w'.session = w.session →
      Recites net (preamble w.session) 2 w' (speakPreamble net w') := by
    intro w' hs'
    rw [← hs']
    exact speakPreamble_recites net (hu.of_session hs') (by rw [hs', Distinct, hnil]; exact List.nodup_nil)
  obtain ⟨o, -, hrun⟩ := handshake_recites (g := fun w => ({ w with fault := true }, false)) hu hpre
  refine ⟨o, ?_⟩
  rw [← hrun, behind]
  apply ifOk_congr
  have hs : (smtpHandshake net [] w).1.session = w.session := by
    rw [smtpHandshake, check_recites hu (idle_nil _) rfl, recite_session]
  rw [speak_faults net files (hu.of_session hs) (by rw [hs]; exact hnil), ifOk_assoc]
  rfl

/-- A connection without a descriptor is not used. -/
theorem behind_zero (net : Net σ) (files : List UInt8 → Option (List UInt8)) (h : w.session.connFd = 0) :
    behind net files w = (w, false) := by
  have hs : smtpHandshake net [] w = (w, false) := by
    simp [smtpHandshake, smtpSendDataWithResponseCheck, h]
  rw [behind, hs]
  rfl

/-- Behind a connection, `EHLO` is written first. -/
theorem behind_says_ehlo (net : Net σ) (files : List UInt8 → Option (List UInt8)) (hu : Usable w)
    (hd : Distinct w.session) : ∃ t, writes (behind net files w).1.log = writes w.log ++ cmdEhlo :: t := by
  have hplay : ∀ (L : List Item) (n : ℕ), ∃ t, writes (w.log ++ (talkTo net w (.cmd cmdEhlo (text "250") :: L)).events ++
      List.replicate n (.close w.session.connFd)) = writes w.log ++ cmdEhlo :: t := by
    intro L n
    obtain ⟨t, ht⟩ := play_says net w.session.connFd responseMaxLen 3 cmdEhlo (text "250") L w.env
    exact ⟨t, by rw [writes_append, writes_append, writes_closes, List.append_nil, talkTo, ht]⟩
  by_cases hnil : w.session.addressTo = []
  · obtain ⟨o, hb⟩ := behind_no_receiver net files hu hnil
    rw [hb]
    split
    · obtain ⟨t, ht⟩ := hplay (preamble w.session) 0
      exact ⟨t, by rw [← ht, List.replicate_zero, List.append_nil]; rfl⟩
    · exact hplay _ _
  · obtain ⟨o, -, hb⟩ := smtpSend_behind net files hu hd hnil
    rw [hb]
    exact hplay _ _

/-- The statuses that must be read, the greeting first. -/
def expected (L : List Item) : List (List UInt8) := text "220" :: codes L

/-- A check of the mail that fails, the events `pre` having gone before: a read of three bytes that does
not give the next status, or a command that is not written whole. -/
def MailCheckFails (L : List Item) (pre : List NetEv) : NetEv → Prop
  | .read _ n r => n = 3 ∧ r ≠ (expected L)[(statuses 3 pre).length]?
  | .write _ b n => n ≠ b.length ∧ ∃ c, L[(writes pre).length]? = some (.cmd b c)
  | _ => False

/-- A close is no check. -/
theorem not_mailCheckFails_close {L : List Item} {pre : List NetEv} {ev : NetEv} {fd : ℤ} {n : ℕ}
    (h : ev ∈ List.replicate n (.close fd)) : ¬ MailCheckFails L pre ev := by
  have hev : ev = .close fd := List.eq_of_mem_replicate h
  rw [hev]
  exact id

/-- The greeting that was accepted is no check that fails. -/
theorem not_mailCheckFails_greeting {L : List Item} {es pre post : List NetEv} {ev : NetEv}
    (hw : writes es = []) (hs : statuses 3 es = [some (text "220")]) (h : es = pre ++ ev :: post) :
    ¬ MailCheckFails L pre ev := by
  intro hf
  rw [h] at hw hs
  cases ev with
  | read fd n r =>
    obtain ⟨rfl, hne⟩ := hf
    rw [statuses_append, statuses_read] at hs
    cases hpre : statuses 3 pre with
    | nil =>
      rw [hpre, List.nil_append, List.cons.injEq] at hs
      exact hne (by rw [hpre, hs.1]; rfl)
    | cons a l => simp [hpre] at hs
  | write fd b n => simp at hw
  | socket fd => exact hf
  | connect fd ok => exact hf
  | close fd => exact hf

/-- **Behind a check that fails, nothing is written**: the greeting, a dialogue, some closes. -/
theorem mail_stops {L : List Item} {fd : ℤ} {e e' : σ} {es pre post : List NetEv} {ev : NetEv} {n : ℕ}
    (hd : Dialled (some (fd, e)) fd e es)
    (h : es ++ ((play net fd responseMaxLen 3 L e').events ++ List.replicate n (.close fd)) = pre ++ ev :: post)
    (hf : MailCheckFails L pre ev) : writes post = [] := by
  obtain ⟨-, hst⟩ := hd.greeted _ rfl
  -- a check of the dialogue, seen from behind the greeting
  have key : ∀ as, pre = es ++ as →
      (play net fd responseMaxLen 3 L e').events ++ List.replicate n (.close fd) = as ++ ev :: post →
      writes post = [] := by
    rintro as rfl h
    rcases List.append_eq_append_iff.1 h with ⟨cs, -, h⟩ | ⟨cs, hev, h⟩
    · exact absurd hf (not_mailCheckFails_close (by rw [h]; simp))
    · cases cs with
      | nil => exact absurd hf (not_mailCheckFails_close (by rw [← List.nil_append (List.replicate n _), ← h]; simp))
      | cons c cs =>
        rw [List.cons_append, List.cons.injEq] at h
        obtain ⟨rfl, rfl⟩ := h
        rw [writes_append, writes_closes, List.append_nil]
        apply play_stops (by decide) hev
        cases ev with
        | read fd' k r =>
          refine ⟨hf.1, fun hr => hf.2 ?_⟩
          rw [hr, statuses_append, hst, List.length_append, List.length_singleton, Nat.add_comm]
          rfl
        | write fd' b k =>
          obtain ⟨hk, c, hc⟩ := hf
          rw [writes_append, hd.silent] at hc
          exact ⟨hk, c, hc⟩
        | socket fd' => exact hf
        | connect fd' ok => exact hf
        | close fd' => exact hf
  -- where the check falls: behind the greeting, or in the search for the connection
  rcases List.append_eq_append_iff.1 h with ⟨as, hpre, h⟩ | ⟨bs, hes, h⟩
  · exact key as hpre h
  · cases bs with
    | nil => exact key [] (by simp [hes]) h.symm
    | cons b bs =>
      rw [List.cons_append, List.cons.injEq] at h
      obtain ⟨rfl, -⟩ := h
      exact absurd hf (not_mailCheckFails_greeting hd.silent hst hes)

theorem writes_of_silent {es pre post : List NetEv} {ev : NetEv} (hw : writes es = [])
    (h : es = pre ++ ev :: post) : writes post = [] := by
  rw [h, List.append_cons, writes_append] at hw
  exact (List.append_eq_nil_iff.1 hw).2

/-- `smtp_set_auth` has stored user and password. -/
structure Authorised (s : SmtpSession) (user password : List UInt8) : Prop where
  user : smtpBase64Encode (maxAuthLen * 2) user = some s.username
  password : smtpBase64Encode (maxAuthLen * 2) password = some s.password

/-- **The dialogue of a mail, written out.** `b64` encodes user and password. -/
def mailDialogue (files : List UInt8 → Option (List UInt8)) (user password : List UInt8) (s : SmtpSession) :
    List Item :=
  let b64 (t : List UInt8) : List UInt8 := (smtpBase64Encode (maxAuthLen * 2) t).getD []
  .cmd (text "EHLO DM11\r\n") (text "250") ::
  .cmd (text "AUTH LOGIN\r\n") (text "334") ::
  .cmd (b64 user ++ text "\r\n") (text "334") ::
  .cmd (b64 password ++ text "\r\n") (text "235") ::
  .cmd (text "MAIL FROM: <" ++ s.addressFrom ++ text ">\r\n") (text "250") ::
  ((s.addressTo.map fun r => .cmd (text "RCPT TO: <" ++ r.addr ++ text ">\r\n") (text "250")) ++
  .cmd (text "DATA\r\n") (text "354") ::
  ((contentBufs files s).map .data ++
  [.cmd (text "\r\n.\r\n") (text "250"),
  .cmd (text "QUIT\r\n") (text "221")]))

theorem mailDialogue_eq {s : SmtpSession} {user password : List UInt8} (h : Authorised s user password) :
    mailDialogue files user password s = dialogue files s := by
  simp [mailDialogue, dialogue, transaction, message, credentials, envelope, h.user, h.password, authInfo, cmdEhlo,
    cmdAuthLogin, cmdMail, cmdRcpt, cmdData, cmdBodyFinished, cmdQuit]

/-- **A mail is sent in one transaction.** Against any resolver, network and server: `smtp_send` answers `0`
only behind a connection, its greeting and the whole dialogue, each command followed by its status, with
nothing else said between; behind the first check that fails it writes nothing more; and no buffer
overflows. -/
theorem smtpSend_transaction (net : Net σ) (files : List UInt8 → Option (List UInt8)) (m : Store) (e : σ)
    (user password : List UInt8) (hplain : m.session.plain = true) (hwf : m.Wf) (hne : m.session.addressTo ≠ [])
    (hfit : Fits m.session) (hauth : Authorised m.session user password) :
    ((smtpSend net [] files (World.start m e)).2 = true →
      talk 3 (smtpSend net [] files (World.start m e)).1.log =
        .heard (some (text "220")) :: script (mailDialogue files user password m.session)) ∧
    (∀ pre ev post, (smtpSend net [] files (World.start m e)).1.log = pre ++ ev :: post →
      MailCheckFails (mailDialogue files user password m.session) pre ev → writes post = []) ∧
    (smtpSend net [] files (World.start m e)).1.overflow = m.overflow := by
  rw [mailDialogue_eq hauth]
  rcases smtpSend_cases (w := World.start m e) net files hplain hwf with
    ⟨-, fd, e', es, hd, hrun⟩ | ⟨fd, e', es, -, hd, hrun⟩
  · -- no connection: nothing is written at all
    rw [hrun]
    exact ⟨fun h => absurd h (by simp), fun pre ev post h _ => writes_of_silent hd.silent h, rfl⟩
  · set w1 := (World.start m e).connected fd e' es with hw1
    -- descriptor 0 counts as no connection: nothing is written either
    by_cases hfd : fd = 0
    · rw [hrun, behind_zero net files (by exact hfd)]
      exact ⟨fun h => absurd h (by simp), fun pre ev post h _ => writes_of_silent hd.silent h, rfl⟩
    · obtain ⟨o, ho, hb⟩ := smtpSend_behind net files (w := w1) ⟨hplain, hfd⟩ (hwf.distinct fd) hne
      have hlog : (smtpSend net [] files (World.start m e)).1.log =
          es ++ ((talkTo net w1 (dialogue files m.session)).events ++
            List.replicate (closes net w1 (transaction files m.session)) (.close fd)) := by
        rw [hrun, hb]
        exact List.append_assoc _ _ _
      refine ⟨fun h => ?_, fun pre ev post h hf => ?_, ?_⟩
      · rw [hrun, hb] at h
        rw [hlog, talk_append, talk_append, talk_closes, List.append_nil, talk_of_silent 3 hd.silent,
          (hd.greeted _ rfl).2]
        exact congrArg (Utter.heard (some (text "220")) :: ·) (play_complete (by decide) h)
      · rw [hlog] at h
        exact mail_stops hd h hf
      · rw [hrun, hb]
        exact ho ⟨hfit.user, hfit.pass, hfit.mail, hfit.rcpt, hfit.content⟩

/-- A server that gives each read the next of its answers. -/
def scripted (fd : ℤ) : Net (List (List UInt8)) where
  getaddrinfo e := (some [0], e)
  socket e := (fd, e)
  connect _ _ e := (true, e)
  read _ n e :=
    match e with
    | [] => (none, [])
    | a :: e => (some (a.take n), e)
  write _ b e := (b.length, e)
  read_le := by
    intro _ n e l h
    cases e with
    | nil => simp at h
    | cons a e =>
      obtain rfl := Option.some.inj h
      simp

/-- The settings of a first request. -/
def firstSave : Save := ⟨text "s", text "25", text "u", text "p", text "r"⟩

/-- The answers to a mail that is taken. -/
def accepting : List (List UInt8) :=
  text "220" :: [text "250", text "334", text "334", text "235", text "250", text "250", text "354", text "250",
    text "221"].flatMap fun c => [text " ok\r\n", c]

theorem smtpSend_transaction_accepted :
    (smtpSend (scripted 3) [] (fun _ => none) (World.start (smtpDataConfig Store.cleared firstSave) accepting)).2 = true ∧
      talk 3 (smtpSend (scripted 3) [] (fun _ => none)
        (World.start (smtpDataConfig Store.cleared firstSave) accepting)).1.log =
        .heard (some (text "220")) ::
          script (mailDialogue (fun _ => none) (text "u") (text "p") (smtpDataConfig Store.cleared firstSave).session) := by
  have hok : (smtpSend (scripted 3) [] (fun _ => none)
      (World.start (smtpDataConfig Store.cleared firstSave) accepting)).2 = true := by decide +kernel
  have hfit : Fits (smtpDataConfig Store.cleared firstSave).session :=
    ⟨by decide +kernel, by decide +kernel, by decide +kernel, by decide +kernel, by decide +kernel⟩
  have hauth : Authorised (smtpDataConfig Store.cleared firstSave).session (text "u") (text "p") :=
    ⟨by decide +kernel, by decide +kernel⟩
  refine ⟨hok, (smtpSend_transaction (scripted 3) (fun _ => none) (smtpDataConfig Store.cleared firstSave) accepting
    (text "u") (text "p") (by decide +kernel) (smtpDataConfig_wf Store.Wf.cleared _) (by decide +kernel) hfit hauth).1 hok⟩

end W601.Smtp
