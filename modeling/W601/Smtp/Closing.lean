import W601.Smtp.Transaction

/-!
# The socket of a mail

Each level of the client closes the connection when the level below has failed, and none of them takes note
of it, so the number of closes depends on where a mail fails. Descriptor 0 is taken for no connection at
all and never closed.

* `ledger_behind`: the closes behind a dialogue, against one open socket.
* `closed_once_iff`: when `smtp_send_mail` closes what it opens, once.
-/

namespace W601.Smtp

open CMem Dialogue

variable {σ : Type*} {net : Net σ} {files : List UInt8 → Option (List UInt8)} {w : World σ}

/-- The server answers all of `L` as expected. -/
def Answers (net : Net σ) (fd : ℤ) (e : σ) (L : List Item) : Prop :=
  (play net fd responseMaxLen 3 L e).ok = true

theorem Answers.of_append {fd : ℤ} {e : σ} {L M : List Item} (h : Answers net fd e (L ++ M)) :
    Answers net fd e L := by
  rw [Answers, play_append, Played.andThen] at h
  split at h
  · assumption
  · exact h

/-- **When a mail closes its socket once**: the server is not reached; or its socket is not descriptor 0, and
it refuses `EHLO` or answers the whole dialogue. A mail without a receiver does not come back once `DATA`
has been accepted. -/
def ClosesOnce (net : Net σ) (files : List UInt8 → Option (List UInt8)) (s : SmtpSession) (e : σ) : Prop :=
  ∀ fd e', reach net s e = some (fd, e') → fd ≠ 0 ∧
    (¬ Answers net fd e' [.cmd cmdEhlo (text "250")] ∨ Answers net fd e' (dialogue files s) ∨
      (s.addressTo = [] ∧ Answers net fd e' (.cmd cmdEhlo (text "250") :: preamble s)))

/-- **The closes behind a dialogue** leave nothing open exactly when `EHLO` was refused or all was answered. -/
theorem ledger_behind {e : σ} {es : List NetEv} (hd : Dialled (some (w.session.connFd, e)) w.session.connFd e es)
    (L : List Item) :
    ledger [] (es ++ (talkTo net w (.cmd cmdEhlo (text "250") :: L)).events ++
      List.replicate (closes net w L) (.close w.session.connFd)) = some [] ↔
    (¬ Answers net w.session.connFd w.env [.cmd cmdEhlo (text "250")] ∨
      Answers net w.session.connFd w.env (.cmd cmdEhlo (text "250") :: L)) := by
  have h1 : ledger [w.session.connFd] (talkTo net w (.cmd cmdEhlo (text "250") :: L)).events =
      some [w.session.connFd] := play_ledger ..
  rw [ledger_append, ledger_append, hd.sockets, Option.bind_some, Option.isSome_some, if_pos rfl, h1,
    Option.bind_some, closes]
  change _ ↔ (¬ (talkTo net w _).ok = true ∨ (talkTo net w _).ok = true)
  by_cases h2 : (talkTo net w [.cmd cmdEhlo (text "250")]).ok = true
  · by_cases h3 : (talkTo net w (.cmd cmdEhlo (text "250") :: L)).ok = true
    · simp [h2, h3, ledger, ledgerStep]
    · simp [h2, h3, ledger, ledgerStep]
  · simp [h2, ledger, ledgerStep]

/-- **Behind a connection**: what the closes leave open. -/
theorem behind_closed_iff {e : σ} (files : List UInt8 → Option (List UInt8)) (hu : Usable w) (hfault : w.fault = false)
    (hdist : Distinct w.session) (hd : Dialled (some (w.session.connFd, e)) w.session.connFd e w.log) :
    ((behind net files w).1.fault = false → ledger [] (behind net files w).1.log = some []) ↔
    (¬ Answers net w.session.connFd w.env [.cmd cmdEhlo (text "250")] ∨
      Answers net w.session.connFd w.env (dialogue files w.session) ∨
      (w.session.addressTo = [] ∧
        Answers net w.session.connFd w.env (.cmd cmdEhlo (text "250") :: preamble w.session))) := by
  by_cases hnil : w.session.addressTo = []
  · obtain ⟨o, hb⟩ := behind_no_receiver net files hu hnil
    rw [hb]
    by_cases hok : (talkTo net w (.cmd cmdEhlo (text "250") :: preamble w.session)).ok = true
    · -- the null pointer is followed
      rw [if_pos hok]
      exact iff_of_true (fun h => absurd h (by simp)) (Or.inr (Or.inr ⟨hnil, hok⟩))
    · rw [if_neg hok]
      -- the dialogue cannot be answered further than its beginning
      have hall : ¬ Answers net w.session.connFd w.env (dialogue files w.session) := by
        intro h
        refine hok (Answers.of_append (M := message files w.session) ?_)
        simpa [dialogue, transaction, preamble] using h
      refine (imp_iff_right (by exact hfault)).trans ((ledger_behind hd _).trans ?_)
      exact ⟨fun h => Or.inl (h.resolve_right hok), fun h => Or.inl ((h.resolve_right
        fun h => h.elim hall fun h => hok h.2))⟩
  · obtain ⟨o, -, hb⟩ := smtpSend_behind net files hu hdist hnil
    rw [hb]
    refine (imp_iff_right (by exact hfault)).trans ((ledger_behind hd _).trans ?_)
    exact ⟨fun h => h.imp_right Or.inl, fun h => h.imp_right fun h => h.resolve_right fun h => hnil h.1⟩

/-- **A mail closes its socket once** exactly when `ClosesOnce` holds of the network: a command behind `EHLO`
that fails closes twice, and descriptor 0 is never closed. -/
theorem closed_once_iff (net : Net σ) (files : List UInt8 → Option (List UInt8)) (m : Store) (e : σ)
    (subject body : List UInt8) (hplain : m.session.plain = true) (hwf : m.Wf) :
    ((smtpSendMail net [] files subject body (World.start m e)).1.fault = false →
      ledger [] (smtpSendMail net [] files subject body (World.start m e)).1.log = some []) ↔
    ClosesOnce net files { m.session with subject := subject, body := body } e := by
  set m' : Store := { m with session := { m.session with subject := subject, body := body } } with hm'
  have hsend : smtpSendMail net [] files subject body (World.start m e) = smtpSend net [] files (World.start m' e) := rfl
  have hwf' : m'.Wf := ⟨hwf.nodup, hwf.lt⟩
  rw [hsend]
  change _ ↔ ClosesOnce net files m'.session e
  rcases smtpSend_cases (w := World.start m' e) net files hplain hwf' with
    ⟨hr, fd, e', es, hd, hrun⟩ | ⟨fd, e', es, hr, hd, hrun⟩
  · have hr' : reach net m'.session e = none := hr
    rw [hrun]
    refine iff_of_true (fun _ => hd.sockets []) fun fd e' h => ?_
    rw [hr'] at h
    cases h
  · have hr' : reach net m'.session e = some (fd, e') := hr
    rw [hrun]
    set w1 := (World.start m' e).connected fd e' es with hw1
    have hcond : ClosesOnce net files m'.session e ↔ fd ≠ 0 ∧
        (¬ Answers net fd e' [.cmd cmdEhlo (text "250")] ∨ Answers net fd e' (dialogue files m'.session) ∨
          (m'.session.addressTo = [] ∧ Answers net fd e' (.cmd cmdEhlo (text "250") :: preamble m'.session))) := by
      unfold ClosesOnce
      rw [hr']
      simp
    rw [hcond]
    by_cases hfd : fd = 0
    · rw [behind_zero net files (by exact hfd)]
      refine iff_of_false (fun h => ?_) fun h => h.1 hfd
      -- descriptor 0 is open and stays so
      have hopen := hd.sockets []
      have hclosed : ledger [] es = some [] := h rfl
      rw [hclosed] at hopen
      simp at hopen
    · rw [and_iff_right hfd]
      exact behind_closed_iff files (w := w1) ⟨hplain, hfd⟩ rfl (hwf'.distinct fd) hd

theorem closed_once_iff_accepted :
    ClosesOnce (scripted 3) (fun _ => none)
      { (smtpDataConfig Store.cleared firstSave).session with subject := text "s", body := text "b" } accepting :=
  (closed_once_iff (scripted 3) (fun _ => none) (smtpDataConfig Store.cleared firstSave) accepting (text "s") (text "b")
    (by decide +kernel) (smtpDataConfig_wf Store.Wf.cleared _)).1 fun _ => by decide +kernel

/-- A login that is refused: the response check closes the connection, and `smtp_auth_login` closes it again. -/
theorem refused_login_closes_twice :
    let w := (smtpSendMail (scripted 3) [] (fun _ => none) (text "s") (text "b")
      (World.start (smtpDataConfig Store.cleared firstSave)
        [text "220", text " ok\r\n", text "250", text " ok\r\n", text "535"])).1
    w.fault = false ∧ w.log.filter (· = .close 3) = [.close 3, .close 3] ∧ ledger [] w.log = none := by
  decide +kernel

end W601.Smtp
