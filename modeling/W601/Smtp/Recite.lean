import W601.Smtp.Client

/-!
# The client recites its dialogue

As long as no request changes the settings, the functions of the client are plays of one dialogue,
`dialogue`, with a number of closes behind a failure: one when `EHLO` fails, two when a later command
fails.

* `checked_recites`: one command.
* `authLogin_recites`, `setSenderReceiver_recites`, `sendContent_recites`: the phases.
* `smtpSend_recites`: the whole mail, behind a connection.
-/

namespace W601.Smtp

open CMem Dialogue

variable {σ : Type*} {net : Net σ} {web : Web} {files : List UInt8 → Option (List UInt8)} {w : World σ}

/-- No request runs during a command. -/
def Idle (web : Web) (c : Cmd) : Prop := ∀ k, web.during (.exchange c k) = []

theorem idle_nil (c : Cmd) : Idle [] c := fun _ => rfl

theorem serve_eq {p : Point} (h : web.during p = []) : w.serve web p = w := by
  simp [World.serve, h]

theorem serve_nil (p : Point) : w.serve [] p = w := serve_eq rfl

theorem sprintf_eq {n : ℕ} {t : List UInt8} (h : t.length < n) : w.sprintf n t = w := by
  have hf : decide (n ≤ t.length) = false := by simpa using h
  simp [World.sprintf, hf]

/-! ## The dialogue of a mail -/

def credentials (s : SmtpSession) : List Item :=
  [.cmd (authInfo s.username) (text "334"), .cmd (authInfo s.password) (text "235")]

def envelope (s : SmtpSession) : List Item :=
  .cmd (cmdMail s.addressFrom) (text "250") :: s.addressTo.map fun r => .cmd (cmdRcpt r.addr) (text "250")

/-- The message content: one buffer, and those of the attachments. -/
def contentBufs (files : List UInt8 → Option (List UInt8)) (s : SmtpSession) : List (List UInt8) :=
  match s.addressTo with
  | [] => []
  | r :: _ => contentText s r.addr :: attachmentBufs files 0 s.attachments

/-- Everything behind `DATA`. -/
def message (files : List UInt8 → Option (List UInt8)) (s : SmtpSession) : List Item :=
  (contentBufs files s).map .data ++ [.cmd cmdBodyFinished (text "250"), .cmd cmdQuit (text "221")]

/-- Everything behind `EHLO`. -/
def transaction (files : List UInt8 → Option (List UInt8)) (s : SmtpSession) : List Item :=
  .cmd cmdAuthLogin (text "334") :: credentials s ++ envelope s ++ .cmd cmdData (text "354") :: message files s

/-- **The dialogue of a mail.** -/
def dialogue (files : List UInt8 → Option (List UInt8)) (s : SmtpSession) : List Item :=
  .cmd cmdEhlo (text "250") :: transaction files s

/-- The strings of the session fit the buffers they are printed into. -/
structure Fits (s : SmtpSession) : Prop where
  user : (authInfo s.username).length < authInfoLen
  pass : (authInfo s.password).length < authInfoLen
  mail : (cmdMail s.addressFrom).length < addrInfoLen
  rcpt : ∀ r ∈ s.addressTo, (cmdRcpt r.addr).length < addrInfoLen
  content : ∀ r ∈ s.addressTo.head?, (contentText s r.addr).length < contentBufLen

/-! ## Playing a dialogue on the connection -/

/-- The dialogue `L` on the connection. -/
def talkTo (net : Net σ) (w : World σ) (L : List Item) : Played σ :=
  play net w.session.connFd responseMaxLen 3 L w.env

/-- The world behind a dialogue. -/
def World.played (w : World σ) (p : Played σ) : World σ := { w with env := p.env, log := w.log ++ p.events }

/-- The connection is closed `k` times. -/
def World.closing (w : World σ) (k : ℕ) : World σ :=
  { w with log := w.log ++ List.replicate k (.close w.session.connFd) }

/-- The overflow mark is set to `o`. -/
def World.marked (w : World σ) (o : Bool) : World σ := { w with overflow := o }

/-- Play `L`, and close the connection `k` times if that fails. -/
def recite (net : Net σ) (L : List Item) (k : ℕ) (w : World σ) : World σ × Bool :=
  (if (talkTo net w L).ok then w.played (talkTo net w L) else (w.played (talkTo net w L)).closing k,
    (talkTo net w L).ok)

theorem recite_session (net : Net σ) (L : List Item) (k : ℕ) (w : World σ) :
    (recite net L k w).1.session = w.session := by
  unfold recite
  split <;> rfl

theorem recite_overflow (net : Net σ) (L : List Item) (k : ℕ) (w : World σ) :
    (recite net L k w).1.overflow = w.overflow := by
  unfold recite
  split <;> rfl

theorem recite_marked (net : Net σ) (L : List Item) (k : ℕ) (w : World σ) (o : Bool) :
    recite net L k (w.marked o) = ((recite net L k w).1.marked o, (recite net L k w).2) := by
  have ht : talkTo net (w.marked o) L = talkTo net w L := rfl
  unfold recite
  rw [ht]
  split <;> rfl

/-- **Two dialogues in a row** are one. -/
theorem recite_append (L M : List Item) (k : ℕ) (w : World σ) :
    recite net (L ++ M) k w = ifOk (recite net L k w) (recite net M k) := by
  have happ : talkTo net w (L ++ M) = (talkTo net w L).andThen (play net w.session.connFd responseMaxLen 3 M) :=
    play_append ..
  cases hok : (talkTo net w L).ok with
  | true =>
    have h1 : recite net L k w = (w.played (talkTo net w L), true) := by simp [recite, hok]
    have h2 : talkTo net w (L ++ M) =
        (talkTo net (w.played (talkTo net w L)) M).after (talkTo net w L).events := by
      rw [happ, Played.andThen, hok]; rfl
    rw [h1, ifOk, if_pos rfl]
    simp only [recite, h2, Played.after_ok]
    simp [World.played, World.closing]
  | false =>
    have h1 : recite net L k w = ((w.played (talkTo net w L)).closing k, false) := by simp [recite, hok]
    have h2 : talkTo net w (L ++ M) = talkTo net w L := by rw [happ, Played.andThen, hok]
    rw [h1, ifOk, if_neg (by simp)]
    simp [recite, h2, hok]

theorem ifOk_congr {r : World σ × Bool} {f g : World σ → World σ × Bool} (h : f r.1 = g r.1) :
    ifOk r f = ifOk r g := by
  unfold ifOk
  rw [h]

/-- **The result `r` is a recital of `L`**, but for the overflow mark, which changes only when a string of
the session does not fit. -/
def Recites (net : Net σ) (L : List Item) (k : ℕ) (w : World σ) (r : World σ × Bool) : Prop :=
  ∃ o, (Fits w.session → o = w.overflow) ∧ r = ((recite net L k w).1.marked o, (recite net L k w).2)

theorem Recites.of_eq {L : List Item} {k : ℕ} {r : World σ × Bool} (h : r = recite net L k w) :
    Recites net L k w r := by
  refine ⟨w.overflow, fun _ => rfl, ?_⟩
  rw [h, ← recite_overflow net L k w]
  rfl

theorem Recites.session {L : List Item} {k : ℕ} {r : World σ × Bool} (h : Recites net L k w r) :
    r.1.session = w.session := by
  obtain ⟨o, -, rfl⟩ := h
  exact recite_session net L k w

/-- Printing what fits leaves no mark. -/
theorem Recites.sprintf {L : List Item} {k n : ℕ} {t : List UInt8} {r : World σ × Bool}
    (ht : Fits w.session → t.length < n) (h : Recites net L k (w.sprintf n t) r) : Recites net L k w r := by
  obtain ⟨o, ho, rfl⟩ := h
  refine ⟨o, fun hfit => ?_, ?_⟩
  · rw [ho hfit, sprintf_eq (ht hfit)]
  · have hm : w.sprintf n t = w.marked (w.overflow || decide (n ≤ t.length)) := rfl
    rw [hm, recite_marked]
    rfl

/-- **A phase that goes on with another one.** -/
theorem Recites.andThen {L M : List Item} {k : ℕ} {r : World σ × Bool} {f : World σ → World σ × Bool}
    (h : Recites net L k w r) (hf : ∀ w', w'.session = w.session → Recites net M k w' (f w')) :
    Recites net (L ++ M) k w (ifOk r f) := by
  obtain ⟨o, ho, rfl⟩ := h
  rw [Recites, recite_append]
  cases hok : (recite net L k w).2 with
  | false =>
    refine ⟨o, ho, ?_⟩
    simp [ifOk, hok]
  | true =>
    have hs := recite_session net L k w
    obtain ⟨o', ho', hr⟩ := hf ((recite net L k w).1.marked o) hs
    refine ⟨o', fun hfit => ?_, ?_⟩
    · rw [ho' (by rw [World.marked, hs]; exact hfit)]
      exact ho hfit
    · simp only [ifOk, hok, if_true]
      rw [hr, recite_marked]
      rfl

/-! ## The commands -/

/-- The connection can be used. -/
structure Usable (w : World σ) : Prop where
  plain : w.session.plain = true
  fd : w.session.connFd ≠ 0

theorem Usable.of_session {w' : World σ} (h : Usable w) (hs : w'.session = w.session) : Usable w' :=
  ⟨by rw [hs]; exact h.plain, by rw [hs]; exact h.fd⟩

theorem close_eq (h : w.session.plain = true) : smtpCloseConnection w = w.closing 1 := by
  simp [smtpCloseConnection, h, World.closing]

theorem flush_idle (net : Net σ) {c : Cmd} (hpl : w.session.plain = true) (hidle : Idle web c) :
    smtpFlush net web c w = w.call (net.read w.session.connFd responseMaxLen w.env).2
      (.read w.session.connFd responseMaxLen (net.read w.session.connFd responseMaxLen w.env).1) := by
  simp only [smtpFlush, hpl, if_true, readConn, serve_eq (hidle .flush)]

theorem write_idle (net : Net σ) {p : Point} (buf : List UInt8) (hpl : w.session.plain = true)
    (hidle : web.during p = []) :
    smtpWrite net web p buf w =
      (w.call (net.write w.session.connFd buf w.env).2
        (.write w.session.connFd buf (net.write w.session.connFd buf w.env).1),
        (net.write w.session.connFd buf w.env).1) := by
  simp only [smtpWrite, hpl, if_true, serve_eq hidle]

theorem read_idle (net : Net σ) {c : Cmd} (n : ℕ) (hpl : w.session.plain = true) (hidle : Idle web c) :
    smtpRead net web c n w =
      (w.call (net.read w.session.connFd n w.env).2
        (.read w.session.connFd n (net.read w.session.connFd n w.env).1),
        (net.read w.session.connFd n w.env).1) := by
  simp only [smtpRead, hpl, if_true, readConn, serve_eq (hidle .read)]

/-- **One command** is a dialogue of one item. -/
theorem check_recites {c : Cmd} {buf code : List UInt8} (hu : Usable w) (hidle : Idle web c) (hcode : code.length = 3) :
    smtpSendDataWithResponseCheck net web c buf code w = recite net [.cmd buf code] 1 w := by
  have hpl := hu.plain
  -- the three calls, each with no request behind it
  have hflush := flush_idle net hpl hidle
  set r := net.read w.session.connFd responseMaxLen w.env with hr
  set w1 := w.call r.2 (.read w.session.connFd responseMaxLen r.1) with hw1
  have hwrite : smtpWrite net web (.exchange c .write) buf w1 =
      (w1.call (net.write w.session.connFd buf r.2).2
        (.write w.session.connFd buf (net.write w.session.connFd buf r.2).1), (net.write w.session.connFd buf r.2).1) :=
    write_idle (w := w1) net buf hpl (hidle .write)
  set n := net.write w.session.connFd buf r.2 with hn
  set w2 := w1.call n.2 (.write w.session.connFd buf n.1) with hw2
  have hread : smtpRead net web c 3 w2 =
      (w2.call (net.read w.session.connFd 3 n.2).2 (.read w.session.connFd 3 (net.read w.session.connFd 3 n.2).1),
        (net.read w.session.connFd 3 n.2).1) := read_idle (w := w2) net 3 hpl hidle
  set a := net.read w.session.connFd 3 n.2 with ha
  have hplay : talkTo net w [.cmd buf code] =
      if n.1 ≠ buf.length then
        ⟨n.2, [.read w.session.connFd responseMaxLen r.1, .write w.session.connFd buf n.1], false⟩
      else if a.1 = some code then
        ⟨a.2, [.read w.session.connFd responseMaxLen r.1, .write w.session.connFd buf n.1,
          .read w.session.connFd 3 a.1], true⟩
      else ⟨a.2, [.read w.session.connFd responseMaxLen r.1, .write w.session.connFd buf n.1,
          .read w.session.connFd 3 a.1], false⟩ := by
    simp only [talkTo, play]
    rfl
  simp only [smtpSendDataWithResponseCheck, if_neg hu.fd, hflush, hwrite, hread]
  by_cases h1 : n.1 = buf.length
  · rw [if_neg (by simpa using h1)]
    rw [if_neg (by simpa using h1)] at hplay
    by_cases h2 : a.1 = some code
    · rw [if_pos h2] at hplay
      rw [if_neg (by simp [h2, hcode]), if_neg (by simpa using h2)]
      simp [recite, hplay, World.played, hw2, hw1, World.call]
    · rw [if_neg h2] at hplay
      -- a short read and a wrong status come to the same
      have hboth : ∀ x : World σ × Bool, (if (a.1.getD []).length < 3 then x
          else if a.1 ≠ some code then x else (w2.call a.2 (.read w.session.connFd 3 a.1), true)) = x := by
        intro x
        split_ifs <;> rfl
      rw [hboth, close_eq (by exact hpl)]
      simp [recite, hplay, World.played, World.closing, hw2, hw1, World.call]
  · rw [if_pos h1]
    rw [if_pos h1] at hplay
    rw [close_eq (by exact hpl)]
    simp [recite, hplay, World.played, World.closing, hw2, hw1, World.call]

/-- **A command whose failure closes once more.** -/
theorem checked_recites {c : Cmd} {buf code : List UInt8} (hu : Usable w) (hidle : Idle web c)
    (hcode : code.length = 3) : checked net web c buf code w = recite net [.cmd buf code] 2 w := by
  unfold checked
  rw [check_recites hu hidle hcode]
  cases hok : (talkTo net w [.cmd buf code]).ok with
  | true => simp [recite, hok]
  | false =>
    simp only [recite, hok, Bool.false_eq_true, if_false]
    rw [close_eq (by exact hu.plain)]
    simp [World.closing]

theorem Recites.one {c : Cmd} {buf code : List UInt8} (hu : Usable w) (hidle : Idle web c)
    (hcode : code.length = 3) : Recites net [.cmd buf code] 2 w (checked net web c buf code w) :=
  Recites.of_eq (checked_recites hu hidle hcode)

/-- A command, and what comes behind it. -/
theorem Recites.command {c : Cmd} {buf code : List UInt8} {M : List Item} {f : World σ → World σ × Bool}
    (hu : Usable w) (hidle : Idle web c) (hcode : code.length = 3)
    (hf : ∀ w', w'.session = w.session → Recites net M 2 w' (f w')) :
    Recites net (.cmd buf code :: M) 2 w (ifOk (checked net web c buf code w) f) :=
  (Recites.one hu hidle hcode).andThen hf

/-! ## The phases -/

theorem authLogin_recites (net : Net σ) (hu : Usable w) (h1 : Idle web .authLogin) (h2 : Idle web .user) (h3 : Idle web .pass) :
    Recites net (.cmd cmdAuthLogin (text "334") :: credentials w.session) 2 w (smtpAuthLogin net web w) := by
  unfold smtpAuthLogin
  refine Recites.command hu h1 rfl fun w1 hs1 => ?_
  rw [← hs1]
  apply Recites.sprintf Fits.user
  refine Recites.command (hu.of_session hs1) h2 rfl fun w2 hs2 => ?_
  have hs2' : w2.session = w1.session := hs2
  rw [← hs2']
  apply Recites.sprintf Fits.pass
  exact Recites.one (hu.of_session (hs2'.trans hs1)) h3 rfl

/-- The nodes of the list are different allocations. -/
def Distinct (s : SmtpSession) : Prop := (s.addressTo.map (·.id)).Nodup

theorem find_node {pre suf : List Rcpt} {r : Rcpt} (h : ((pre ++ r :: suf).map (·.id)).Nodup) :
    (pre ++ r :: suf).find? (·.id = r.id) = some r ∧
      nextOf r.id (pre ++ r :: suf) = some (suf.head?.map (·.id)) := by
  induction pre with
  | nil => simp [nextOf]
  | cons q pre ih =>
    rw [List.cons_append, List.map_cons, List.nodup_cons] at h
    have hne : q.id ≠ r.id := fun he => h.1 (List.mem_map.2 ⟨r, by simp, he.symm⟩)
    obtain ⟨h1, h2⟩ := ih h.2
    refine ⟨?_, ?_⟩
    · rw [List.cons_append, List.find?_cons_of_neg (by simpa using hne), h1]
    · rw [List.cons_append, nextOf, if_neg hne, h2]

theorem recites_nil {k : ℕ} : Recites net [] k w (w, true) := by
  apply Recites.of_eq
  simp [recite, talkTo, play, World.played]

/-- The loop over the receivers that are left. -/
theorem rcptLoop_recites (hidle : ∀ i, Idle web (.rcpt i)) (suf : List Rcpt) : ∀ (pre : List Rcpt) {w : World σ}
    {fuel i : ℕ}, Usable w → w.session.addressTo = pre ++ suf → Distinct w.session → suf.length < fuel →
    Recites net (suf.map fun r => .cmd (cmdRcpt r.addr) (text "250")) 2 w
      (rcptLoop net web fuel i (suf.head?.map (·.id)) w) := by
  induction suf with
  | nil =>
    intro pre w fuel i _ _ _ hfuel
    obtain ⟨n, rfl⟩ := Nat.exists_eq_succ_of_ne_zero (by omega : fuel ≠ 0)
    exact recites_nil
  | cons r suf ih =>
    intro pre w fuel i hu hlist hd hfuel
    obtain ⟨n, rfl⟩ := Nat.exists_eq_succ_of_ne_zero (by omega : fuel ≠ 0)
    have hd' : ((pre ++ r :: suf).map (·.id)).Nodup := by rw [← hlist]; exact hd
    -- the cursor is on the first of the receivers that are left
    obtain ⟨hfind, hnext⟩ := find_node hd'
    simp only [List.head?_cons, Option.map_some, rcptLoop, hlist, hfind]
    refine Recites.sprintf (fun hfit => hfit.rcpt r (by simp [hlist])) ?_
    refine Recites.command (hu.of_session rfl) (hidle i) rfl fun w1 hs1 => ?_
    have hs1' : w1.session = w.session := hs1
    have hlist1 : w1.session.addressTo = pre ++ r :: suf := by rw [hs1']; exact hlist
    simp only [hlist1, hnext]
    exact ih (pre ++ [r]) (hu.of_session hs1') (by simp [hlist1]) (by rw [hs1']; exact hd)
      (by simp at hfuel; omega)

theorem setSenderReceiver_recites (net : Net σ) (hu : Usable w) (hd : Distinct w.session)
    (h1 : Idle web .mailFrom) (h2 : ∀ i, Idle web (.rcpt i)) :
    Recites net (envelope w.session) 2 w (smtpSetSenderReceiver net web w) := by
  unfold smtpSetSenderReceiver
  apply Recites.sprintf Fits.mail
  refine Recites.command (hu.of_session rfl) h1 rfl fun w1 hs1 => ?_
  have hs1' : w1.session = w.session := hs1
  rw [← hs1']
  exact rcptLoop_recites h2 _ [] (hu.of_session hs1') rfl (by rw [hs1']; exact hd) (by omega)

/-- Plain data is written without looking back. -/
theorem writeBufs_recites (net : Net σ) (hidle : ∀ j, web.during (.content j) = []) (bufs : List (List UInt8)) :
    ∀ {w : World σ} (i : ℕ), w.session.plain = true →
    (writeBufs net web i bufs w, true) = recite net (bufs.map .data) 2 w := by
  induction bufs with
  | nil => intro w i _; simp [writeBufs, recite, talkTo, play, World.played]
  | cons b bufs ih =>
    intro w i hpl
    have hstep := congrArg Prod.fst (write_idle net b hpl (hidle i))
    have hcons : recite net ([.data b] ++ bufs.map .data) 2 w =
        ifOk (recite net [.data b] 2 w) (recite net (bufs.map .data) 2) :=
      recite_append ..
    have hone : recite net [.data b] 2 w = ((smtpWrite net web (.content i) b w).1, true) := by
      rw [hstep]
      simp [recite, talkTo, play, World.played, World.call, Played.after]
    rw [writeBufs, List.map_cons, ← List.singleton_append, hcons, hone, ifOk, if_pos rfl]
    exact ih (i + 1) (by rw [hstep]; exact hpl)

/-- The content of a mail that has a receiver. -/
theorem sendContent_recites (hu : Usable w) (hne : w.session.addressTo ≠ [])
    (h1 : Idle web .data) (h2 : ∀ j, web.during (.content j) = []) (h3 : Idle web .finish) :
    Recites net ([Item.cmd cmdData (text "354")] ++ ((contentBufs files w.session).map Item.data ++
      [Item.cmd cmdBodyFinished (text "250")])) 2 w (smtpSendContent net web files w) := by
  unfold smtpSendContent
  obtain ⟨r, rest, hlist⟩ := List.exists_cons_of_ne_nil hne
  refine Recites.command hu h1 rfl fun w1 hs1 => ?_
  have hlist1 : w1.session.addressTo = r :: rest := by rw [hs1]; exact hlist
  have hbufs : contentBufs files w.session =
      contentText w1.session r.addr :: attachmentBufs files 0 w1.session.attachments := by
    simp only [contentBufs, hlist, hs1]
  simp only [hlist1, hbufs]
  refine Recites.sprintf (fun hfit => hfit.content r (by simp [hlist1])) ?_
  -- the content is written unchecked, then the end marker is a command
  set w2 := w1.sprintf contentBufLen (contentText w1.session r.addr) with hw2
  have hs2 : w2.session = w.session := hs1
  set bufs := contentText w1.session r.addr :: attachmentBufs files 0 w1.session.attachments
  have hw := writeBufs_recites net h2 bufs 0 (hu.of_session hs2).plain
  have hc := (Recites.of_eq hw).andThen
    (f := fun w => checked net web .finish cmdBodyFinished (text "250") w) fun w3 hs3 =>
      Recites.one (hu.of_session (hs3.trans hs2)) h3 rfl
  exact hc

/-- A mail without a receiver: behind `DATA` a null pointer is followed. -/
theorem sendContent_faults (hu : Usable w) (hnil : w.session.addressTo = []) (h1 : Idle web .data) :
    smtpSendContent net web files w =
      ifOk (checked net web .data cmdData (text "354") w) fun w => ({ w with fault := true }, false) := by
  have hs : (checked net web .data cmdData (text "354") w).1.session.addressTo = [] := by
    rw [checked_recites hu h1 rfl, recite_session]
    exact hnil
  apply ifOk_congr
  simp only [hs]

/-! ## The connection -/

/-- The world behind the search for a connection. -/
def World.connected (w : World σ) (fd : ℤ) (e : σ) (es : List NetEv) : World σ :=
  { w with session := { w.session with connFd := fd }, env := e, log := w.log ++ es }

/-- What the search for a connection leaves: nothing said, and the socket it answers with, if any, as the
only one open. -/
structure Dialled (found : Option (ℤ × σ)) (fd : ℤ) (e : σ) (es : List NetEv) : Prop where
  silent : writes es = []
  greeted : ∀ p, found = some p → p = (fd, e) ∧ statuses 3 es = [some (text "220")]
  sockets : ∀ l, ledger l es = some (if found.isSome then fd :: l else l)

/-- Calls that open nothing for good. -/
theorem Dialled.behind {found : Option (ℤ × σ)} {fd : ℤ} {e : σ} {es fs : List NetEv} (h : Dialled found fd e es)
    (hw : writes fs = []) (hs : statuses 3 fs = []) (hl : ∀ l, ledger l fs = some l) :
    Dialled found fd e (fs ++ es) := by
  refine ⟨by rw [writes_append, hw, h.silent]; rfl, fun p hp => ⟨(h.greeted p hp).1, ?_⟩, fun l => ?_⟩
  · rw [statuses_append, hs, (h.greeted p hp).2]; rfl
  · rw [ledger_append, hl]
    exact h.sockets l

section ConnectLoop

variable {a : ℕ} {addrs : List ℕ} {s : ℤ × σ} {c : Bool × σ} {r : Option (List UInt8) × σ}

/-- No socket: the next address. -/
theorem connectLoop_no_socket (k : ℕ) (hs : net.socket w.env = s) (hneg : s.1 < 0) :
    connectLoop net [] k (a :: addrs) w = connectLoop net [] (k + 1) addrs (w.connected s.1 s.2 [.socket s.1]) := by
  simp only [connectLoop, hs, if_pos hneg]
  rfl

/-- No connection: the socket is closed, then the next address. -/
theorem connectLoop_no_connection (k : ℕ) (hpl : w.session.plain = true) (hs : net.socket w.env = s) (hneg : ¬ s.1 < 0)
    (hc : net.connect s.1 a s.2 = c) (hok : ¬ c.1 = true) :
    connectLoop net [] k (a :: addrs) w = connectLoop net [] (k + 1) addrs
      (w.connected s.1 c.2 [.socket s.1, .connect s.1 c.1, .close s.1]) := by
  simp only [connectLoop, hs, if_neg hneg, World.call, hc, if_neg hok, serve_nil]
  rw [close_eq (by exact hpl)]
  simp [World.connected, World.closing]

/-- A connection: the greeting decides. -/
theorem connectLoop_connection (k : ℕ) (hpl : w.session.plain = true) (hs : net.socket w.env = s) (hneg : ¬ s.1 < 0)
    (hc : net.connect s.1 a s.2 = c) (hok : c.1 = true) (hr : net.read s.1 3 c.2 = r) :
    connectLoop net [] k (a :: addrs) w =
      if r.1 = some (text "220") then
        (w.connected s.1 r.2 [.socket s.1, .connect s.1 c.1, .read s.1 3 r.1], true)
      else (w.connected s.1 r.2 [.socket s.1, .connect s.1 c.1, .read s.1 3 r.1, .close s.1], false) := by
  simp only [connectLoop, hs, if_neg hneg, World.call, hc, if_pos hok, serve_nil, readConn, hr]
  by_cases hg : r.1 = some (text "220")
  · rw [if_neg (by rw [hg]; decide), if_pos hg, if_pos hg]
    simp [World.connected]
  · -- too short or another status, the connection is closed
    have hboth : ∀ x y : World σ × Bool, (if (r.1.getD []).length < 3 then x
        else if r.1 = some (text "220") then y else x) = x := by
      intro x y
      split_ifs <;> rfl
    rw [hboth, if_neg hg, close_eq (by exact hpl)]
    simp [World.connected, World.closing]

end ConnectLoop

/-- **The search for a connection** is `dial`. -/
theorem connectLoop_dials (net : Net σ) (addrs : List ℕ) : ∀ (k : ℕ) {w : World σ}, w.session.plain = true →
    ∃ fd e es, connectLoop net [] k addrs w = (w.connected fd e es, (dial net (text "220") addrs w.env).isSome) ∧
      Dialled (dial net (text "220") addrs w.env) fd e es := by
  induction addrs with
  | nil =>
    intro k w _
    refine ⟨w.session.connFd, w.env, [], ?_, ⟨rfl, fun p hp => by simp [dial] at hp, fun l => rfl⟩⟩
    simp [connectLoop, dial, World.connected]
  | cons a addrs ih =>
    intro k w hpl
    set s := net.socket w.env with hs
    set c := net.connect s.1 a s.2 with hc
    set r := net.read s.1 3 c.2 with hr
    by_cases hneg : s.1 < 0
    · have hdial : dial net (text "220") (a :: addrs) w.env = dial net (text "220") addrs s.2 := by
        simp only [dial, ← hs, if_pos hneg]
      obtain ⟨fd, e, es, hrun, hd⟩ := ih (k + 1) (w := w.connected s.1 s.2 [.socket s.1]) hpl
      rw [connectLoop_no_socket k hs.symm hneg, hrun, hdial]
      refine ⟨fd, e, [.socket s.1] ++ es, by simp [World.connected], ?_⟩
      exact hd.behind rfl rfl fun l => by simp [ledger, ledgerStep, hneg]
    by_cases hok : c.1 = true
    · have hread : net.read s.1 (text "220").length c.2 = r := rfl
      have hdial : dial net (text "220") (a :: addrs) w.env =
          if r.1 = some (text "220") then some (s.1, r.2) else none := by
        simp only [dial, ← hs, if_neg hneg, ← hc, if_pos hok, hread]
      rw [connectLoop_connection k hpl hs.symm hneg hc.symm hok hr.symm, hdial]
      by_cases hg : r.1 = some (text "220")
      · rw [if_pos hg, if_pos hg]
        refine ⟨s.1, r.2, _, rfl, rfl, fun p hp => ⟨(Option.some.inj hp).symm, by simp [hg]⟩, fun l => ?_⟩
        simp [ledger, ledgerStep, hneg]
      · rw [if_neg hg, if_neg hg]
        refine ⟨s.1, r.2, _, rfl, rfl, fun p hp => by simp at hp, fun l => ?_⟩
        simp [ledger, ledgerStep, hneg]
    · have hdial : dial net (text "220") (a :: addrs) w.env = dial net (text "220") addrs c.2 := by
        simp only [dial, ← hs, if_neg hneg, ← hc, if_neg hok]
      obtain ⟨fd, e, es, hrun, hd⟩ :=
        ih (k + 1) (w := w.connected s.1 c.2 [.socket s.1, .connect s.1 c.1, .close s.1]) hpl
      rw [connectLoop_no_connection k hpl hs.symm hneg hc.symm hok, hrun, hdial]
      refine ⟨fd, e, [.socket s.1, .connect s.1 c.1, .close s.1] ++ es, by simp [World.connected], ?_⟩
      exact hd.behind rfl rfl fun l => by simp [ledger, ledgerStep, hneg]

/-- **Reaching the server**: the socket that is connected to it, and the state behind its greeting. -/
def reach (net : Net σ) (s : SmtpSession) (e : σ) : Option (ℤ × σ) :=
  if s.serverIp.isSome then none
  else if s.serverDomain.isSome then
    (net.getaddrinfo e).1.bind fun addrs => dial net (text "220") addrs (net.getaddrinfo e).2
  else none

theorem dialled_none (fd : ℤ) (e : σ) : Dialled none fd e [] :=
  ⟨rfl, fun p hp => by simp at hp, fun _ => rfl⟩

theorem World.connected_nil (w : World σ) : w.connected w.session.connFd w.env [] = w := by
  simp [World.connected]

/-- The strings given to the resolver have not been freed. -/
theorem resolver_args_live (h : w.toStore.Wf) :
    ((w.session.serverDomain.map (·.id)).toList ++ (w.session.serverPort.map (·.id)).toList).any (· ∈ w.freed) = false := by
  rw [List.any_eq_false]
  intro i hi hf
  have hd := (List.nodup_append.1 h.nodup).2.2 i ?_ i (by simpa using hf)
  · exact hd rfl
  · unfold SmtpSession.owned
    simp only [List.mem_append] at hi ⊢
    tauto

theorem connectServer_dials (net : Net σ) (hpl : w.session.plain = true) (hwf : w.toStore.Wf) :
    ∃ fd e es, smtpConnectServer net [] w = (w.connected fd e es, (reach net w.session w.env).isSome) ∧
      Dialled (reach net w.session w.env) fd e es := by
  obtain ⟨port, hport⟩ : ∃ p, w.session.serverPort = some p := by
    cases h : w.session.serverPort with
    | none => simp [SmtpSession.plain, h] at hpl
    | some p => exact ⟨p, rfl⟩
  simp only [smtpConnectServer, hport, hpl, if_true, reach]
  split_ifs with hip hdom
  · exact ⟨_, _, [], by rw [World.connected_nil]; rfl, dialled_none _ _⟩
  · set g := net.getaddrinfo w.env with hg
    have huaf : ({ w with env := g.2, useAfterFree := w.useAfterFree || ((w.session.serverDomain.map (·.id)).toList ++
        (w.session.serverPort.map (·.id)).toList).any (· ∈ w.freed) } : World σ) = { w with env := g.2 } := by
      rw [resolver_args_live hwf, Bool.or_false]
    simp only [smtpConnectServerByHostname, ← hg, serve_nil, huaf]
    cases hr : g.1 with
    | none => exact ⟨w.session.connFd, g.2, [], by simp [World.connected], dialled_none _ _⟩
    | some addrs => exact connectLoop_dials net addrs 0 (w := { w with env := g.2 }) hpl
  · exact ⟨_, _, [], by rw [World.connected_nil]; rfl, dialled_none _ _⟩

/-! ## The whole mail -/

/-- The commands behind `EHLO`. -/
def speak (net : Net σ) (web : Web) (files : List UInt8 → Option (List UInt8)) (w : World σ) : World σ × Bool :=
  ifOk (smtpAuthLogin net web w) fun w =>
  ifOk (smtpSetSenderReceiver net web w) fun w =>
  ifOk (smtpSendContent net web files w) fun w =>
  checked net web .quit cmdQuit (text "221") w

theorem ifOk_assoc (r : World σ × Bool) (f g : World σ → World σ × Bool) :
    ifOk (ifOk r f) g = ifOk r fun w => ifOk (f w) g := by
  unfold ifOk
  split_ifs <;> simp_all

theorem smtpSend_eq (net : Net σ) (web : Web) (files : List UInt8 → Option (List UInt8)) (w : World σ) :
    smtpSend net web files w = ifOk (smtpConnectServer net web w) fun w =>
      ifOk (smtpHandshake net web w) fun w =>
        ifOk (speak net web files w) fun w => (smtpCloseConnection w, true) := by
  simp only [smtpSend, speak, smtpQuit, ifOk_assoc]

/-- **Everything behind `EHLO`** is a recital of `transaction`. -/
theorem speak_recites (net : Net σ) (files : List UInt8 → Option (List UInt8)) (hu : Usable w)
    (hd : Distinct w.session) (hne : w.session.addressTo ≠ []) :
    Recites net (transaction files w.session) 2 w (speak net [] files w) := by
  have hL : transaction files w.session = (Item.cmd cmdAuthLogin (text "334") :: credentials w.session) ++
      (envelope w.session ++ (([Item.cmd cmdData (text "354")] ++ ((contentBufs files w.session).map Item.data ++
        [Item.cmd cmdBodyFinished (text "250")])) ++ [Item.cmd cmdQuit (text "221")])) := by
    simp [transaction, message]
  rw [hL]
  unfold speak
  apply Recites.andThen (authLogin_recites net hu (idle_nil _) (idle_nil _) (idle_nil _))
  intro w1 hs1
  rw [← hs1] at hd hne ⊢
  have hu1 := hu.of_session hs1
  apply Recites.andThen (setSenderReceiver_recites net hu1 hd (idle_nil _) fun _ => idle_nil _)
  intro w2 hs2
  rw [← hs2] at hne ⊢
  have hu2 := hu1.of_session hs2
  apply Recites.andThen (sendContent_recites hu2 hne (idle_nil _) (fun _ => rfl) (idle_nil _))
  intro w3 hs3
  exact Recites.one (hu2.of_session hs3) (idle_nil _) rfl

/-- The commands up to `DATA`. -/
def preamble (s : SmtpSession) : List Item :=
  (.cmd cmdAuthLogin (text "334") :: credentials s) ++ (envelope s ++ [.cmd cmdData (text "354")])

/-- The commands up to `DATA`, in the code. -/
def speakPreamble (net : Net σ) (w : World σ) : World σ × Bool :=
  ifOk (smtpAuthLogin net [] w) fun w =>
  ifOk (smtpSetSenderReceiver net [] w) fun w =>
  checked net [] .data cmdData (text "354") w

theorem speakPreamble_recites (net : Net σ) (hu : Usable w) (hd : Distinct w.session) :
    Recites net (preamble w.session) 2 w (speakPreamble net w) := by
  unfold speakPreamble
  apply (authLogin_recites net hu (idle_nil _) (idle_nil _) (idle_nil _)).andThen
  intro w1 hs1
  rw [← hs1] at hd ⊢
  have hu1 := hu.of_session hs1
  apply (setSenderReceiver_recites net hu1 hd (idle_nil _) fun _ => idle_nil _).andThen
  intro w2 hs2
  exact Recites.one (hu1.of_session hs2) (idle_nil _) rfl

/-- **A mail without a receiver** follows a null pointer once `DATA` has been accepted. -/
theorem speak_faults (net : Net σ) (files : List UInt8 → Option (List UInt8)) (hu : Usable w)
    (hnil : w.session.addressTo = []) :
    speak net [] files w = ifOk (speakPreamble net w) fun w => ({ w with fault := true }, false) := by
  have hd : Distinct w.session := by rw [Distinct, hnil]; exact List.nodup_nil
  rw [speak, speakPreamble, ifOk_assoc]
  apply ifOk_congr
  have hs1 := (authLogin_recites net hu (idle_nil _) (idle_nil _) (idle_nil _)).session
  have hu1 := hu.of_session hs1
  rw [← hs1] at hd hnil
  have hset := setSenderReceiver_recites net hu1 hd (idle_nil _) fun _ => idle_nil _
  rw [ifOk_assoc]
  apply ifOk_congr
  rw [sendContent_faults (hu1.of_session hset.session) (by rw [hset.session]; exact hnil) (idle_nil _),
    ifOk_assoc]
  rfl

/-- The closes behind a dialogue that opens with `EHLO`: two when a later command fails. -/
def closes (net : Net σ) (w : World σ) (L : List Item) : ℕ :=
  if (talkTo net w [.cmd cmdEhlo (text "250")]).ok && !(talkTo net w (.cmd cmdEhlo (text "250") :: L)).ok then 2 else 1

/-- `EHLO`, and behind it a recital of `L` whose end is closed by `f`. -/
theorem handshake_recites {L : List Item} {f g : World σ → World σ × Bool} (hu : Usable w)
    (hf : ∀ w', w'.session = w.session → Recites net L 2 w' (f w')) :
    ∃ o, (Fits w.session → o = w.overflow) ∧
      ifOk (smtpHandshake net [] w) (fun w => ifOk (f w) g) =
        if (talkTo net w (.cmd cmdEhlo (text "250") :: L)).ok then
          g ((w.played (talkTo net w (.cmd cmdEhlo (text "250") :: L))).marked o)
        else (((w.played (talkTo net w (.cmd cmdEhlo (text "250") :: L))).closing (closes net w L)).marked o, false) := by
  have happ : talkTo net w (.cmd cmdEhlo (text "250") :: L) =
      (talkTo net w [.cmd cmdEhlo (text "250")]).andThen (play net w.session.connFd responseMaxLen 3 L) :=
    play_append net _ _ _ [_] L _
  have hehlo : smtpHandshake net [] w = recite net [.cmd cmdEhlo (text "250")] 1 w := check_recites hu (idle_nil _) rfl
  rw [hehlo]
  cases hok : (talkTo net w [.cmd cmdEhlo (text "250")]).ok with
  | false =>
    rw [Played.andThen, hok] at happ
    refine ⟨w.overflow, fun _ => rfl, ?_⟩
    rw [if_neg (by rw [happ, hok]; simp), closes, hok, happ]
    simp only [recite, ifOk, hok]
    rfl
  | true =>
    rw [Played.andThen, hok] at happ
    set w1 := w.played (talkTo net w [.cmd cmdEhlo (text "250")]) with hw1
    have h1 : recite net [.cmd cmdEhlo (text "250")] 1 w = (w1, true) := by simp [recite, hok, hw1]
    have h2 : talkTo net w (.cmd cmdEhlo (text "250") :: L) =
        (talkTo net w1 L).after (talkTo net w [.cmd cmdEhlo (text "250")]).events := happ
    have hplayed : w.played (talkTo net w (.cmd cmdEhlo (text "250") :: L)) = w1.played (talkTo net w1 L) := by
      rw [h2]
      simp [World.played, hw1]
    obtain ⟨o, ho, hr⟩ := hf w1 rfl
    refine ⟨o, ho, ?_⟩
    rw [h1, ifOk, if_pos rfl, hr, closes, hok, hplayed]
    have h3 : (talkTo net w (.cmd cmdEhlo (text "250") :: L)).ok = (talkTo net w1 L).ok := by rw [h2]; rfl
    rw [h3]
    cases hL : (talkTo net w1 L).ok with
    | false => simp [recite, ifOk, hL]
    | true => simp [recite, ifOk, hL]

end W601.Smtp
