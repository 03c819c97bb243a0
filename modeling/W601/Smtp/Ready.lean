import W601.Smtp.Reconfig

/-!
# A session that can be used

`smtp_connect_server` takes the port of the session as a string, and `smtp_send_content` its first receiver, without
looking for null pointers. A session that has a port, a domain and a receiver keeps them under every request, also
while a mail is being sent.

* `configure_configured`: what the setters of `smtp_data_config` leave behind.
* `sendMail_noFault`: no null pointer is followed by `smtp_send_mail` on a configured session.
-/

namespace W601.Smtp

open CMem Dialogue

variable {σ : Type*}

/-- **The session has a port, a domain and a receiver.** -/
structure SmtpSession.Configured (s : SmtpSession) : Prop where
  port : s.serverPort.isSome = true
  domain : s.serverDomain.isSome = true
  receivers : s.addressTo ≠ []

/-! ## The setters -/

/-- The session behind `smtp_set_server_addr` with a domain. -/
theorem smtpSetServerAddr_session (m : Store) (a p : List UInt8) :
    (smtpSetServerAddr m a true p).1.session =
      { m.session with
        serverDomain := some ⟨m.nextId, a⟩
        serverPort := if p = [] then m.session.serverPort else some ⟨m.nextId + 1, p⟩ } := by
  unfold smtpSetServerAddr
  by_cases hp : p = []
  · subst hp
    rfl
  · have hlen : p.length ≠ 0 := fun h => hp (List.length_eq_zero_iff.1 h)
    simp [hp, hlen, Store.free]

/-- `smtp_set_auth` changes the credentials only. -/
theorem smtpSetAuth_session (m : Store) (u p : List UInt8) :
    ∃ a b c, (smtpSetAuth m u p).1.session = { m.session with username := a, password := b, addressFrom := c } := by
  unfold smtpSetAuth
  split_ifs
  · exact ⟨_, _, _, rfl⟩
  · exact ⟨_, _, _, rfl⟩
  · split
    · exact ⟨_, _, _, rfl⟩
    · split <;> exact ⟨_, _, _, rfl⟩

/-- **What the setters leave behind**: a domain and a receiver, and a port when one is given or there was one. -/
theorem configure_configured (m : Store) (a p u w rcv : List UInt8) (hport : p ≠ [] ∨ m.session.serverPort.isSome = true) :
    (smtpAddReceiver (smtpSetAuth (smtpSetServerAddr m a true p).1 u w).1 rcv).session.Configured := by
  obtain ⟨x, y, z, hauth⟩ := smtpSetAuth_session (smtpSetServerAddr m a true p).1 u w
  have hsession : (smtpAddReceiver (smtpSetAuth (smtpSetServerAddr m a true p).1 u w).1 rcv).session =
      { (smtpSetAuth (smtpSetServerAddr m a true p).1 u w).1.session with
        addressTo := (smtpSetAuth (smtpSetServerAddr m a true p).1 u w).1.session.addressTo ++
          [⟨(smtpSetAuth (smtpSetServerAddr m a true p).1 u w).1.nextId, rcv⟩] } := rfl
  rw [hsession, hauth, smtpSetServerAddr_session]
  refine ⟨?_, rfl, by simp⟩
  by_cases hp : p = []
  · rcases hport with h | h
    · exact absurd hp h
    · simpa [hp] using h
  · simp [hp]

theorem smtpDeleteReceiver_port (m : Store) (a : List UInt8) :
    (smtpDeleteReceiver m a).1.session.serverPort = m.session.serverPort := by
  unfold smtpDeleteReceiver
  split <;> rfl

/-- **A request keeps the port** and leaves a domain and a receiver. -/
theorem smtpDataConfig_configured {m : Store} (r : Save) (h : m.session.serverPort.isSome = true) :
    (smtpDataConfig m r).session.Configured := by
  unfold smtpDataConfig
  refine configure_configured _ _ _ _ _ _ (Or.inr ?_)
  show (if m.w601Smtp.receiver ≠ [] then (smtpDeleteReceiver m m.w601Smtp.receiver).1 else m).session.serverPort.isSome =
    true
  split_ifs
  · rw [smtpDeleteReceiver_port]
    exact h
  · exact h

theorem foldl_configured (rs : List Save) : ∀ {m : Store}, m.session.Configured →
    (rs.foldl smtpDataConfig m).session.Configured := by
  induction rs with
  | nil => intro m h; exact h
  | cons r rs ih => intro m h; exact ih (smtpDataConfig_configured r h.port)

/-! ## Sending -/

/-- The session is configured, and no null pointer has been followed. -/
def Ready (w : World σ) : Prop := w.session.Configured ∧ w.fault = false

theorem stable_ready (web : Web) : Stable web (fun _ => True) (Ready (σ := σ)) :=
  ⟨fun _ _ _ h => h, fun _ _ h => h, fun _ p _ h => ⟨foldl_configured (web.during p) h.1, h.2⟩⟩

section Send

variable (net : Net σ) (web : Web) (files : List UInt8 → Option (List UInt8)) {w : World σ}

/-- A phase that keeps the session ready, and one behind it. -/
theorem ready_ifOk {r : World σ × Bool} {f : World σ → World σ × Bool} (h : Ready r.1)
    (hf : ∀ w, Ready w → Ready (f w).1) : Ready (ifOk r f).1 := by
  unfold ifOk
  split
  · exact hf _ h
  · exact h

theorem ready_checked (c : Cmd) (buf code : List UInt8) (h : Ready w) : Ready (checked net web c buf code w).1 :=
  (checked_tells (stable_ready web) net (fun _ => trivial) buf code w h).1

theorem ready_connectServer (h : Ready w) : Ready (smtpConnectServer net web w).1 := by
  unfold smtpConnectServer
  obtain ⟨p, hp⟩ := Option.isSome_iff_exists.1 h.1.port
  rw [hp]
  dsimp only
  split_ifs
  · exact h
  · unfold smtpConnectServerByHostname
    have hserve : Ready ({ w with env := (net.getaddrinfo w.env).2 }.serve web .resolve) :=
      (stable_ready web).serve _ _ trivial h
    dsimp only
    split
    · exact hserve
    · refine (connectLoop_tells (stable_ready web) net (fun _ => ⟨trivial, trivial⟩)
        (fun _ _ h => ⟨⟨h.1.port, h.1.domain, h.1.receivers⟩, h.2⟩) _ 0 _ ?_).1
      exact hserve
  · exact h
  · exact h

theorem ready_rcptLoop : ∀ (fuel i : ℕ) (cursor : Option ℕ) {w : World σ}, Ready w →
    Ready (rcptLoop net web fuel i cursor w).1 := by
  intro fuel
  induction fuel with
  | zero => intro i cursor w h; exact h
  | succ fuel ih =>
    intro i cursor w h
    cases cursor with
    | none => exact h
    | some id =>
      unfold rcptLoop
      split
      · exact h
      · refine ready_ifOk (ready_checked net web _ _ _ h) fun w hw => ?_
        split
        · exact hw
        · exact ih _ _ hw

theorem ready_sendContent (h : Ready w) : Ready (smtpSendContent net web files w).1 := by
  unfold smtpSendContent
  refine ready_ifOk (ready_checked net web _ _ _ h) fun w hw => ?_
  -- there is a receiver to be named
  split
  · rename_i hnil
    exact absurd hnil hw.1.receivers
  · apply ready_checked net web _ _ _
    refine (writeBufs_tells (stable_ready web) net (fun _ => trivial) _ 0 _ ?_).1
    exact hw

/-- **No null pointer is followed** by `smtp_send`. -/
theorem ready_send (h : Ready w) : Ready (smtpSend net web files w).1 := by
  unfold smtpSend
  refine ready_ifOk (ready_connectServer net web h) fun w h => ?_
  refine ready_ifOk ((check_tells (stable_ready web) net (fun _ => trivial) _ _ w h).1) fun w h => ?_
  refine ready_ifOk ?_ fun w h => ?_
  · unfold smtpAuthLogin
    refine ready_ifOk (ready_checked net web _ _ _ h) fun w h => ?_
    exact ready_ifOk (ready_checked net web _ _ _ h) fun w h => ready_checked net web _ _ _ h
  refine ready_ifOk ?_ fun w h => ?_
  · unfold smtpSetSenderReceiver
    exact ready_ifOk (ready_checked net web _ _ _ h) fun w h => ready_rcptLoop net web _ _ _ h
  refine ready_ifOk (ready_sendContent net web files h) fun w h => ?_
  unfold smtpQuit
  exact ready_ifOk (ready_checked net web _ _ _ h) fun w h => (stable_ready web).close h

/-- **A mail on a configured session follows no null pointer**, whatever the network does and whichever requests run
during the calls. -/
theorem sendMail_noFault (subject body : List UInt8) {m : Store} (h : m.session.Configured) (env : σ) :
    (smtpSendMail net web files subject body (World.start m env)).1.fault = false :=
  (ready_send net web files ⟨⟨h.port, h.domain, h.receivers⟩, rfl⟩).2

end Send

end W601.Smtp
