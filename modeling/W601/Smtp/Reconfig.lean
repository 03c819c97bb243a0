import W601.Smtp.Transaction

/-!
# Requests while a mail is sent

A request to `smtp_save` changes the session that `smtp_send` is working with. `Point.safe` names the
blocking calls during which that does no harm: those behind which nothing of the old settings is used any
more, or nothing of the new ones is used yet.

* `Follows`: the session is what the requests served so far have made of the settings at the start.
* `Tells`: a phase keeps an invariant and writes a beginning of its texts.
* `one_configuration`: with requests at safe calls only, a mail is sent under one configuration, and no freed
  memory is read.
-/

namespace W601.Smtp

open CMem Dialogue

variable {σ : Type*} {net : Net σ} {web : Web} {files : List UInt8 → Option (List UInt8)} {m : Store} {w : World σ}

/-! ## Settings -/

/-- The store without what the sender writes to it: the descriptor and the overflow mark. -/
def Store.settings (m : Store) : Store := { m with session := { m.session with connFd := 0 }, overflow := false }

theorem smtpDeleteReceiver_settings (m : Store) (a : List UInt8) :
    (smtpDeleteReceiver m.settings a).1.settings = (smtpDeleteReceiver m a).1.settings := by
  have h : m.settings.session.addressTo = m.session.addressTo := rfl
  unfold smtpDeleteReceiver
  rw [h]
  cases unlink a m.session.addressTo <;> rfl

theorem smtpSetServerAddr_settings (m : Store) (a : List UInt8) (d : Bool) (p : List UInt8) :
    (smtpSetServerAddr m.settings a d p).1.settings = (smtpSetServerAddr m a d p).1.settings := by
  unfold smtpSetServerAddr
  dsimp only
  split_ifs <;> rfl

theorem smtpSetAuth_settings (m : Store) (u p : List UInt8) :
    (smtpSetAuth m.settings u p).1.settings = (smtpSetAuth m u p).1.settings := by
  unfold smtpSetAuth
  split_ifs
  · rfl
  · rfl
  · cases smtpBase64Encode (maxAuthLen * 2) u with
    | none => rfl
    | some u' => cases smtpBase64Encode (maxAuthLen * 2) p <;> rfl

/-- **A request reads and writes the settings only.** -/
theorem smtpDataConfig_settings (m : Store) (r : Save) :
    (smtpDataConfig m.settings r).settings = (smtpDataConfig m r).settings := by
  -- one step of `smtp_data_config` after the other, each on stores with the same settings
  have hdel : (if m.settings.w601Smtp.receiver ≠ [] then (smtpDeleteReceiver m.settings m.settings.w601Smtp.receiver).1
      else m.settings).settings =
      (if m.w601Smtp.receiver ≠ [] then (smtpDeleteReceiver m m.w601Smtp.receiver).1 else m).settings := by
    have h : m.settings.w601Smtp.receiver = m.w601Smtp.receiver := rfl
    rw [h]
    split_ifs
    · exact smtpDeleteReceiver_settings m _
    · rfl
  have hcopy : ∀ {a b : Store} (o o' : Bool) (q : SmtpModule), a.settings = b.settings →
      ({ a with w601Smtp := q, overflow := o } : Store).settings =
        ({ b with w601Smtp := q, overflow := o' } : Store).settings := by
    intro a b o o' q h
    exact congrArg (fun c : Store => { c with w601Smtp := q }) h
  have haddr : ∀ {a b : Store}, a.settings = b.settings →
      (smtpSetServerAddr a r.serverAddr true r.serverPort).1.settings =
        (smtpSetServerAddr b r.serverAddr true r.serverPort).1.settings := by
    intro a b h
    rw [← smtpSetServerAddr_settings a, h, smtpSetServerAddr_settings b]
  have hauth : ∀ {a b : Store}, a.settings = b.settings →
      (smtpSetAuth a r.username r.password).1.settings = (smtpSetAuth b r.username r.password).1.settings := by
    intro a b h
    rw [← smtpSetAuth_settings a, h, smtpSetAuth_settings b]
  have hadd : ∀ {a b : Store}, a.settings = b.settings →
      (smtpAddReceiver a r.receiver).settings = (smtpAddReceiver b r.receiver).settings := by
    intro a b h
    exact congrArg (smtpAddReceiver · r.receiver) h
  exact hadd (hauth (haddr (hcopy _ _ _ hdel)))

theorem foldl_settings {m m' : Store} (h : m.settings = m'.settings) (rs : List Save) :
    (rs.foldl smtpDataConfig m).settings = (rs.foldl smtpDataConfig m').settings := by
  induction rs generalizing m m' with
  | nil => exact h
  | cons r rs ih =>
    apply ih
    rw [← smtpDataConfig_settings m, h, smtpDataConfig_settings]

/-- **The session follows the requests**: its settings are those at the start, changed by the requests served,
and no freed memory has been read. -/
structure Follows (m : Store) (w : World σ) : Prop where
  settings : w.toStore.settings = (w.served.foldl smtpDataConfig m).settings
  live : w.useAfterFree = false

theorem Follows.start (m : Store) (e : σ) : Follows m (World.start m e) := ⟨rfl, rfl⟩

theorem Follows.serve (h : Follows m w) (web : Web) (p : Point) : Follows m (w.serve web p) := by
  refine ⟨?_, h.live⟩
  change ((web.during p).foldl smtpDataConfig w.toStore).settings =
    ((w.served ++ web.during p).foldl smtpDataConfig m).settings
  rw [List.foldl_append]
  exact foldl_settings h.settings _

/-- The heap is well formed at any time. -/
theorem Follows.wf (h : Follows m w) (hwf : m.Wf) : w.toStore.Wf := by
  have h1 : (w.served.foldl smtpDataConfig m).settings.Wf := by
    have h2 := foldl_smtpDataConfig_wf hwf w.served
    exact ⟨h2.nodup, h2.lt⟩
  rw [← h.settings] at h1
  exact ⟨h1.nodup, h1.lt⟩

/-! ## Phases under an invariant -/

/-- The invariant `I` of the sender bears socket calls, print marks, and requests during the calls `P`. -/
structure Stable (web : Web) (P : Point → Prop) (I : World σ → Prop) : Prop where
  call : ∀ w env log, I w → I { w with env := env, log := log }
  mark : ∀ w o, I w → I (w.marked o)
  serve : ∀ w p, P p → I w → I (w.serve web p)

/-- **A phase keeps the invariant and writes a beginning of its texts**, all of them if it comes to its end. -/
def Tells (I : World σ → Prop) (L : List (List UInt8)) (w : World σ) (r : World σ × Bool) : Prop :=
  I w → I r.1 ∧ ∃ K, K <+: L ∧ writes r.1.log = writes w.log ++ K ∧ (r.2 = true → K = L)

section Tells

variable {I : World σ → Prop} {P : Point → Prop} {L M : List (List UInt8)}

/-- A phase that goes on with another one. -/
theorem Tells.andThen {r : World σ × Bool} {f : World σ → World σ × Bool} (h : Tells I L w r)
    (hf : r.2 = true → I r.1 → Tells I M r.1 (f r.1)) : Tells I (L ++ M) w (ifOk r f) := by
  intro hw
  obtain ⟨hI, K, hK, hwr, hall⟩ := h hw
  unfold ifOk
  split
  · rename_i hok
    obtain ⟨hI', K', hK', hwr', hall'⟩ := hf hok hI hI
    rw [hall hok] at hwr
    refine ⟨hI', L ++ K', (List.prefix_append_right_inj L).2 hK', by rw [hwr', hwr, List.append_assoc], ?_⟩
    intro hok'
    rw [hall' hok']
  · exact ⟨hI, K, hK.trans (List.prefix_append L M), hwr, fun h => absurd h (by simp)⟩

/-- A phase that writes nothing. -/
theorem Tells.silent {r : World σ × Bool} (hI : I w → I r.1) (hw : writes r.1.log = writes w.log) :
    Tells I [] w r :=
  fun h => ⟨hI h, [], List.prefix_rfl, by rw [hw, List.append_nil], fun _ => rfl⟩

/-- A phase that ends before its texts. -/
theorem Tells.broken : Tells I L w (w, false) :=
  fun h => ⟨h, [], List.nil_prefix, by simp, fun h => absurd h (by simp)⟩

theorem writes_close_conn (w : World σ) : writes (smtpCloseConnection w).log = writes w.log := by
  unfold smtpCloseConnection
  split
  · simp
  · rfl

theorem writes_readConn (net : Net σ) (web : Web) (p : Point) (n : ℕ) (w : World σ) :
    writes (readConn net web p n w).1.log = writes w.log := by
  simp [readConn, World.serve, World.call]

/-- A write that is made, or a port that has changed. -/
theorem smtpWrite_cases (net : Net σ) (web : Web) (p : Point) (buf : List UInt8) (w : World σ) :
    writes (smtpWrite net web p buf w).1.log = writes w.log ++ [buf] ∨
      w.session.plain = false ∧ smtpWrite net web p buf w = (w, -1) := by
  unfold smtpWrite
  split
  · exact Or.inl (by simp [World.serve, World.call])
  · rename_i h
    exact Or.inr ⟨by simpa using h, rfl⟩

/-- A port that has changed: nothing is said any more. -/
theorem checked_unplain {c : Cmd} {buf code : List UInt8} (h : w.session.plain = false) :
    checked net web c buf code w = (w, false) := by
  have hclose : smtpCloseConnection w = w := by simp [smtpCloseConnection, h]
  have hne : (-1 : ℤ) ≠ buf.length := by omega
  have hcheck : smtpSendDataWithResponseCheck net web c buf code w = (w, false) := by
    simp [smtpSendDataWithResponseCheck, smtpFlush, smtpWrite, h, hclose, hne]
  rw [checked, hcheck]
  simp [hclose]

variable (hst : Stable web P I)
include hst

theorem Stable.close (hw : I w) : I (smtpCloseConnection w) := by
  unfold smtpCloseConnection
  split
  · exact hst.call w _ _ hw
  · exact hw

theorem Stable.readConn (net : Net σ) {p : Point} (hp : P p) (n : ℕ) (hw : I w) : I (readConn net web p n w).1 :=
  hst.serve _ p hp (hst.call w _ _ hw)

theorem Stable.write (net : Net σ) {p : Point} (hp : P p) (buf : List UInt8) (hw : I w) : I (smtpWrite net web p buf w).1 := by
  unfold smtpWrite
  split
  · exact hst.serve _ p hp (hst.call w _ _ hw)
  · exact hw

/-- **One command**: it is written, or nothing is. -/
theorem check_tells (net : Net σ) {c : Cmd} (hP : ∀ k, P (.exchange c k)) (buf code : List UInt8) (w : World σ) :
    Tells I [buf] w (smtpSendDataWithResponseCheck net web c buf code w) := by
  unfold smtpSendDataWithResponseCheck
  split
  · exact Tells.broken
  · intro hw
    -- the flush only reads, whatever the port
    have hflush : I (smtpFlush net web c w) ∧ writes (smtpFlush net web c w).log = writes w.log := by
      unfold smtpFlush
      split
      · exact ⟨hst.readConn net (hP .flush) _ hw, writes_readConn ..⟩
      · exact ⟨hw, rfl⟩
    have hI1 := hst.write net (hP .write) buf hflush.1
    have hsaid := smtpWrite_cases net web (.exchange c .write) buf (smtpFlush net web c w)
    generalize smtpWrite net web (.exchange c .write) buf (smtpFlush net web c w) = p at hI1 hsaid ⊢
    obtain ⟨w1, n⟩ := p
    rw [hflush.2] at hsaid
    rcases hsaid with hsaid | ⟨-, hsaid⟩
    · -- the command was written
      have hK : ∀ (w2 : World σ) (q : Prop), I w2 → writes w2.log = writes w1.log →
          I w2 ∧ ∃ K, K <+: [buf] ∧ writes w2.log = writes w.log ++ K ∧ (q → K = [buf]) :=
        fun w2 q h2 hw2 => ⟨h2, [buf], List.prefix_rfl, hw2.trans hsaid, fun _ => rfl⟩
      dsimp only
      split
      · exact hK _ _ (hst.close hI1) (writes_close_conn _)
      · have hread : I (smtpRead net web c 3 w1).1 ∧ writes (smtpRead net web c 3 w1).1.log = writes w1.log := by
          unfold smtpRead
          split
          · exact ⟨hst.readConn net (hP .read) _ hI1, writes_readConn ..⟩
          · exact ⟨hI1, rfl⟩
        split_ifs
        · exact hK _ _ (hst.close hread.1) ((writes_close_conn _).trans hread.2)
        · exact hK _ _ (hst.close hread.1) ((writes_close_conn _).trans hread.2)
        · exact hK _ _ hread.1 hread.2
    · obtain ⟨rfl, rfl⟩ := Prod.mk.inj hsaid
      dsimp only
      rw [if_pos (by omega)]
      exact ⟨hst.close hI1, [], List.nil_prefix, by rw [writes_close_conn, hflush.2, List.append_nil],
        fun h => absurd h (by simp)⟩

theorem checked_tells (net : Net σ) {c : Cmd} (hP : ∀ k, P (.exchange c k)) (buf code : List UInt8) (w : World σ) :
    Tells I [buf] w (checked net web c buf code w) := by
  intro hw
  obtain ⟨hI, K, hK, hsaid, hall⟩ := check_tells hst net hP buf code w hw
  unfold checked
  generalize smtpSendDataWithResponseCheck net web c buf code w = p at hI hsaid hall ⊢
  obtain ⟨w1, ok⟩ := p
  cases ok with
  | true => exact ⟨hI, K, hK, hsaid, hall⟩
  | false => exact ⟨hst.close hI, K, hK, by rw [writes_close_conn, hsaid], fun h => absurd h (by simp)⟩

/-- A command that is printed first. -/
theorem printed_tells (net : Net σ) {c : Cmd} (hP : ∀ k, P (.exchange c k)) (n : ℕ) (buf code : List UInt8) (w : World σ) :
    Tells I [buf] w (checked net web c buf code (w.sprintf n buf)) :=
  fun hw => checked_tells hst net hP buf code (w.sprintf n buf) (hst.mark w _ hw)

/-- **Looking for a connection** writes nothing. -/
theorem connectLoop_tells (net : Net σ) (hP : ∀ k, P (.connect k) ∧ P (.greeting k))
    (hfd : ∀ w fd, I w → I { w with session := { w.session with connFd := fd } }) (addrs : List ℕ) :
    ∀ (k : ℕ) (w : World σ), I w → I (connectLoop net web k addrs w).1 ∧
      writes (connectLoop net web k addrs w).1.log = writes w.log := by
  induction addrs with
  | nil => exact fun k w hw => ⟨hw, rfl⟩
  | cons a addrs ih =>
    intro k w hw
    unfold connectLoop
    dsimp only
    set s := net.socket w.env
    have hw1 : I { w.call s.2 (.socket s.1) with session := { w.session with connFd := s.1 } } :=
      hfd (w.call s.2 (.socket s.1)) s.1 (hst.call w _ _ hw)
    have hs1 : writes ({ w.call s.2 (.socket s.1) with session := { w.session with connFd := s.1 } } : World σ).log =
        writes w.log := by simp [World.call]
    set w1 : World σ := { w.call s.2 (.socket s.1) with session := { w.session with connFd := s.1 } }
    split
    · obtain ⟨h1, h2⟩ := ih (k + 1) w1 hw1
      exact ⟨h1, h2.trans hs1⟩
    · set c := net.connect s.1 a w1.env
      have hw2 : I ((w1.call c.2 (.connect s.1 c.1)).serve web (.connect k)) :=
        hst.serve _ _ (hP k).1 (hst.call _ _ _ hw1)
      have hs2 : writes ((w1.call c.2 (.connect s.1 c.1)).serve web (.connect k)).log = writes w.log := by
        rw [← hs1]
        simp [World.serve, World.call]
      set w2 := (w1.call c.2 (.connect s.1 c.1)).serve web (.connect k)
      split
      · have hw3 := hst.readConn net (hP k).2 3 hw2
        have hs3 := (writes_readConn net web (.greeting k) 3 w2).trans hs2
        split_ifs
        · exact ⟨hst.close hw3, (writes_close_conn _).trans hs3⟩
        · exact ⟨hw3, hs3⟩
        · exact ⟨hst.close hw3, (writes_close_conn _).trans hs3⟩
      · obtain ⟨h1, h2⟩ := ih (k + 1) _ (hst.close hw2)
        exact ⟨h1, h2.trans ((writes_close_conn _).trans hs2)⟩

omit hst in
theorem writeBufs_unplain (h : w.session.plain = false) (bufs : List (List UInt8)) : ∀ i, writeBufs net web i bufs w = w := by
  induction bufs with
  | nil => exact fun i => rfl
  | cons b bufs ih =>
    intro i
    have hw : (smtpWrite net web (.content i) b w).1 = w := by simp [smtpWrite, h]
    rw [writeBufs, hw]
    exact ih (i + 1)

/-- **Plain data**: all of it is written, or the port changes on the way. -/
theorem writeBufs_tells (net : Net σ) (hP : ∀ i, P (.content i)) (bufs : List (List UInt8)) : ∀ (i : ℕ) (w : World σ),
    I w → I (writeBufs net web i bufs w) ∧
      (writes (writeBufs net web i bufs w).log = writes w.log ++ bufs ∨
        (writeBufs net web i bufs w).session.plain = false ∧
          ∃ K, K <+: bufs ∧ writes (writeBufs net web i bufs w).log = writes w.log ++ K) := by
  induction bufs with
  | nil => exact fun i w hw => ⟨hw, Or.inl (List.append_nil _).symm⟩
  | cons b bufs ih =>
    intro i w hw
    rcases smtpWrite_cases net web (.content i) b w with h | ⟨hpl, h⟩
    · obtain ⟨hI, hsaid⟩ := ih (i + 1) _ (hst.write net (hP i) b hw)
      refine ⟨hI, ?_⟩
      rw [h] at hsaid
      rcases hsaid with hsaid | ⟨hpl, K, hK, hsaid⟩
      · exact Or.inl (by rw [writeBufs, hsaid, List.append_assoc]; rfl)
      · exact Or.inr ⟨hpl, b :: K, (List.prefix_append_right_inj [b]).2 hK, by
          rw [writeBufs, hsaid, List.append_assoc]; rfl⟩
    · have hrest : writeBufs net web i (b :: bufs) w = w := writeBufs_unplain hpl _ i
      rw [hrest]
      exact ⟨hw, Or.inr ⟨hpl, [], List.nil_prefix, (List.append_nil _).symm⟩⟩

/-- The content, and the end of it. -/
theorem content_tells (net : Net σ) (hP : ∀ i, P (.content i)) (hP' : ∀ k, P (.exchange .finish k))
    (bufs : List (List UInt8)) (w : World σ) :
    Tells I (bufs ++ [cmdBodyFinished]) w
      (checked net web .finish cmdBodyFinished (text "250") (writeBufs net web 0 bufs w)) := by
  intro hw
  obtain ⟨hI, hsaid⟩ := writeBufs_tells hst net hP bufs 0 w hw
  rcases hsaid with hsaid | ⟨hpl, K, hK, hsaid⟩
  · obtain ⟨hI', K, hK, hsaid', hall⟩ := checked_tells hst net hP' cmdBodyFinished (text "250") _ hI
    refine ⟨hI', bufs ++ K, (List.prefix_append_right_inj bufs).2 hK, ?_, fun hok => by rw [hall hok]⟩
    rw [hsaid', hsaid, List.append_assoc]
  · rw [checked_unplain hpl]
    exact ⟨hI, K, hK.trans (List.prefix_append _ _), hsaid, fun h => absurd h (by simp)⟩

end Tells

/-! ## The three parts of a mail -/

/-- The requests served are `rs`. -/
def Held (m : Store) (rs : List Save) (w : World σ) : Prop := Follows m w ∧ w.served = rs

/-- The requests served begin with `rs`. -/
def Since (m : Store) (rs : List Save) (w : World σ) : Prop := Follows m w ∧ rs <+: w.served

theorem stable_follows (web : Web) (m : Store) : Stable web (fun _ => True) (Follows (σ := σ) m) :=
  ⟨fun _ _ _ h => ⟨h.settings, h.live⟩, fun _ _ h => ⟨h.settings, h.live⟩, fun _ p _ h => h.serve web p⟩

theorem stable_held (web : Web) (m : Store) (rs : List Save) :
    Stable web (fun p => web.during p = []) (Held (σ := σ) m rs) := by
  have hf := stable_follows (σ := σ) web m
  refine ⟨fun w env log h => ⟨hf.call w env log h.1, h.2⟩, fun w o h => ⟨hf.mark w o h.1, h.2⟩, fun w p hp h => ?_⟩
  rw [serve_eq hp]
  exact h

theorem stable_since (web : Web) (m : Store) (rs : List Save) :
    Stable web (fun _ => True) (Since (σ := σ) m rs) := by
  have hf := stable_follows (σ := σ) web m
  refine ⟨fun w env log h => ⟨hf.call w env log h.1, h.2⟩, fun w o h => ⟨hf.mark w o h.1, h.2⟩, fun w p hp h => ?_⟩
  exact ⟨h.1.serve web p, h.2.trans (List.prefix_append _ _)⟩

/-- What is read from the session is what the configuration has. -/
theorem Held.read {rs : List Save} {α : Type*} (h : Held m rs w) (f : SmtpSession → α)
    (hf : ∀ s, f { s with connFd := 0 } = f s) : f w.session = f (rs.foldl smtpDataConfig m).session := by
  have hs : ({ w.session with connFd := 0 } : SmtpSession) =
      { (rs.foldl smtpDataConfig m).session with connFd := 0 } := by
    rw [← h.2]
    exact congrArg Store.session h.1.settings
  rw [← hf, hs, hf]

/-- **The connection**: nothing is said, and the resolver reads strings that are still there. -/
theorem connectServer_tells (net : Net σ) (hwf : m.Wf) (hres : web.during .resolve = []) (w : World σ) :
    Tells (Follows m) [] w (smtpConnectServer net web w) := by
  intro hw
  unfold smtpConnectServer
  split
  · exact Tells.silent (fun h => ⟨h.settings, h.live⟩) rfl hw
  split
  · split
    · exact Tells.broken hw
    split
    · unfold smtpConnectServerByHostname
      -- no request runs during the resolution, so the strings are still owned
      have hargs := resolver_args_live (hw.wf hwf)
      simp only [serve_eq hres, hargs, Bool.or_false]
      cases (net.getaddrinfo w.env).1 with
      | none => exact Tells.silent (fun h => ⟨h.settings, h.live⟩) rfl hw
      | some addrs =>
        obtain ⟨hI, hsaid⟩ := connectLoop_tells (stable_follows web m) net (fun _ => ⟨trivial, trivial⟩)
          (fun _ _ h => ⟨h.settings, h.live⟩) addrs 0 { w with env := (net.getaddrinfo w.env).2 }
          ⟨hw.settings, hw.live⟩
        exact Tells.silent (fun _ => hI) hsaid hw
    · exact Tells.broken hw
  · exact Tells.broken hw

/-- Connection, `EHLO` and `AUTH LOGIN`. -/
def opening (net : Net σ) (web : Web) (w : World σ) : World σ × Bool :=
  ifOk (smtpConnectServer net web w) fun w =>
  ifOk (smtpHandshake net web w) fun w =>
  checked net web .authLogin cmdAuthLogin (text "334") w

/-- User and password. -/
def logOn (net : Net σ) (web : Web) (w : World σ) : World σ × Bool :=
  ifOk (checked net web .user (authInfo w.session.username) (text "334")
    (w.sprintf authInfoLen (authInfo w.session.username))) fun w =>
  checked net web .pass (authInfo w.session.password) (text "235")
    (w.sprintf authInfoLen (authInfo w.session.password))

/-- User and password, the addresses, `DATA`. -/
def middle (net : Net σ) (web : Web) (w : World σ) : World σ × Bool :=
  ifOk (logOn net web w) fun w =>
  ifOk (smtpSetSenderReceiver net web w) fun w =>
  checked net web .data cmdData (text "354") w

/-- The content. -/
def bodyPart (net : Net σ) (web : Web) (files : List UInt8 → Option (List UInt8)) (w : World σ) : World σ × Bool :=
  match w.session.addressTo with
  | [] => ({ w with fault := true }, false)
  | r :: _ =>
    checked net web .finish cmdBodyFinished (text "250")
      (writeBufs net web 0 (contentText w.session r.addr :: attachmentBufs files 0 w.session.attachments)
        (w.sprintf contentBufLen (contentText w.session r.addr)))

theorem sendContent_eq (net : Net σ) (web : Web) (files : List UInt8 → Option (List UInt8)) (w : World σ) :
    smtpSendContent net web files w =
      ifOk (checked net web .data cmdData (text "354") w) (bodyPart net web files) := rfl

/-- **A mail in three parts.** -/
theorem smtpSend_parts (net : Net σ) (web : Web) (files : List UInt8 → Option (List UInt8)) (w : World σ) :
    smtpSend net web files w = ifOk (opening net web w) fun w => ifOk (middle net web w) fun w =>
      ifOk (bodyPart net web files w) (smtpQuit net web) := by
  simp only [smtpSend, smtpAuthLogin, sendContent_eq, opening, logOn, middle, ifOk_assoc]

theorem opening_tells (net : Net σ) (hwf : m.Wf) (hres : web.during .resolve = []) (w : World σ) :
    Tells (Follows m) [cmdEhlo, cmdAuthLogin] w (opening net web w) := by
  refine (connectServer_tells net hwf hres w).andThen fun _ _ => ?_
  refine (check_tells (stable_follows web m) net (fun _ => trivial) cmdEhlo (text "250") _).andThen fun _ _ => ?_
  exact checked_tells (stable_follows web m) net (fun _ => trivial) cmdAuthLogin (text "334") _

/-- The calls during which a request does no harm: before the user name is taken from the session, and after
the content has been. The resolver holds pointers into the session. -/
def Point.safe : Point → Bool
  | .resolve => false
  | .exchange .user _ => false
  | .exchange .pass _ => false
  | .exchange .mailFrom _ => false
  | .exchange (.rcpt _) _ => false
  | .exchange .data _ => false
  | _ => true

theorem during_eq_nil (h : ∀ q ∈ web, q.1.safe = true) {p : Point} (hp : p.safe = false) : web.during p = [] := by
  unfold Web.during
  rw [List.map_eq_nil_iff, List.filter_eq_nil_iff]
  intro q hq hqp
  have hs := h q hq
  rw [of_decide_eq_true hqp, hp] at hs
  cases hs

section Middle

variable {rs : List Save} (hsafe : ∀ q ∈ web, q.1.safe = true)
include hsafe

/-- **User and password** are those of the configuration. -/
theorem logOn_tells (net : Net σ) (w : World σ) :
    Tells (Held m rs) (texts (credentials (rs.foldl smtpDataConfig m).session)) w (logOn net web w) := by
  intro hw
  have hst := stable_held (σ := σ) web m rs
  have huser := hw.read (fun s => authInfo s.username) fun _ => rfl
  have h : Tells (Held m rs) ([authInfo (rs.foldl smtpDataConfig m).session.username] ++
      [authInfo (rs.foldl smtpDataConfig m).session.password]) w (logOn net web w) := by
    rw [← huser]
    refine (printed_tells hst net (fun _ => during_eq_nil hsafe rfl) _ _ _ w).andThen fun _ hI => ?_
    rw [← hI.read (fun s => authInfo s.password) fun _ => rfl]
    exact printed_tells hst net (fun _ => during_eq_nil hsafe rfl) _ _ _ _
  exact h hw

/-- **The receivers** are those of the configuration, and the cursor stays on the list. -/
theorem rcptLoop_tells (net : Net σ) (hwf : m.Wf) (suf : List Rcpt) : ∀ (pre : List Rcpt) (fuel i : ℕ) (w : World σ),
    (rs.foldl smtpDataConfig m).session.addressTo = pre ++ suf → suf.length < fuel →
    Tells (Held m rs) (suf.map fun r => cmdRcpt r.addr) w
      (rcptLoop net web fuel i (suf.head?.map (·.id)) w) := by
  have hst := stable_held (σ := σ) web m rs
  induction suf with
  | nil =>
    intro pre fuel i w _ hfuel
    obtain ⟨n, rfl⟩ := Nat.exists_eq_succ_of_ne_zero (by omega : fuel ≠ 0)
    exact Tells.silent id rfl
  | cons r suf ih =>
    intro pre fuel i w hlist hfuel hw
    obtain ⟨n, rfl⟩ := Nat.exists_eq_succ_of_ne_zero (by omega : fuel ≠ 0)
    -- the list is that of the configuration, whose nodes are different allocations
    have hnodup : ((pre ++ r :: suf).map (·.id)).Nodup := by
      rw [← hlist]
      exact (foldl_smtpDataConfig_wf hwf rs).distinct 0
    obtain ⟨hfind, hnext⟩ := find_node hnodup
    have hread : ∀ {w : World σ}, Held m rs w → w.session.addressTo = pre ++ r :: suf := by
      intro w h
      rw [← hlist]
      exact h.read SmtpSession.addressTo fun _ => rfl
    simp only [List.head?_cons, Option.map_some, rcptLoop, hread hw, hfind]
    have hsent := printed_tells hst net (c := .rcpt i) (fun _ => during_eq_nil hsafe rfl) addrInfoLen (cmdRcpt r.addr)
      (text "250") w
    refine hsent.andThen (M := suf.map fun r => cmdRcpt r.addr) (fun _ hI => ?_) hw
    simp only [hread hI, hnext]
    exact ih (pre ++ [r]) n (i + 1) _ (by simp [hlist]) (by simp at hfuel; omega)

/-- **Sender and receivers** are those of the configuration. -/
theorem setSenderReceiver_tells (net : Net σ) (hwf : m.Wf) (w : World σ) :
    Tells (Held m rs) (texts (envelope (rs.foldl smtpDataConfig m).session)) w (smtpSetSenderReceiver net web w) := by
  intro hw
  set c := (rs.foldl smtpDataConfig m).session with hc
  have hmail : cmdMail w.session.addressFrom = cmdMail c.addressFrom := hw.read (fun s => cmdMail s.addressFrom) fun _ => rfl
  have hlist : w.session.addressTo = c.addressTo := hw.read SmtpSession.addressTo fun _ => rfl
  have htexts : texts (envelope c) = [cmdMail c.addressFrom] ++ c.addressTo.map fun r => cmdRcpt r.addr := by
    simp [texts, envelope, Item.text]
  have h : Tells (Held m rs) (texts (envelope c)) w (smtpSetSenderReceiver net web w) := by
    rw [htexts, ← hmail]
    unfold smtpSetSenderReceiver
    refine (printed_tells (stable_held web m rs) net (fun _ => during_eq_nil hsafe rfl) _ _ _ w).andThen fun _ _ => ?_
    rw [hlist]
    exact rcptLoop_tells hsafe net hwf c.addressTo [] _ 0 _ rfl (by omega)
  exact h hw

/-- **From the user name to `DATA`**, everything is taken from one configuration. -/
theorem middle_tells (net : Net σ) (hwf : m.Wf) (w : World σ) :
    Tells (Held m rs) (texts (credentials (rs.foldl smtpDataConfig m).session) ++
      (texts (envelope (rs.foldl smtpDataConfig m).session) ++ [cmdData])) w (middle net web w) := by
  refine (logOn_tells hsafe net w).andThen fun _ _ => ?_
  refine (setSenderReceiver_tells hsafe net hwf _).andThen fun _ _ => ?_
  exact checked_tells (stable_held web m rs) net (fun _ => during_eq_nil hsafe rfl) _ _ _

end Middle

/-- **The content** is that of the configuration it was begun under. -/
theorem bodyPart_tells (net : Net σ) (files : List UInt8 → Option (List UInt8)) {rs : List Save} (hw : Held m rs w) :
    Tells (Since m rs) (contentBufs files (rs.foldl smtpDataConfig m).session ++ [cmdBodyFinished]) w
      (bodyPart net web files w) := by
  have hst := stable_since (σ := σ) web m rs
  have hread : contentBufs files w.session = contentBufs files (rs.foldl smtpDataConfig m).session :=
    hw.read (contentBufs files) fun _ => rfl
  rw [← hread]
  unfold bodyPart contentBufs
  cases w.session.addressTo with
  | nil =>
    intro h
    exact ⟨⟨⟨h.1.settings, h.1.live⟩, h.2⟩, [], List.nil_prefix, (List.append_nil _).symm, fun h => absurd h (by simp)⟩
  | cons r l =>
    intro h
    exact content_tells hst net (fun _ => trivial) (fun _ => trivial) _ (w.sprintf contentBufLen _) (hst.mark w _ h)

theorem quit_tells (net : Net σ) (rs : List Save) (w : World σ) : Tells (Since m rs) [cmdQuit] w (smtpQuit net web w) := by
  have hst := stable_since (σ := σ) web m rs
  have h := (checked_tells hst net (c := .quit) (fun _ => trivial) cmdQuit (text "221") w).andThen (M := [])
    (f := fun w => (smtpCloseConnection w, true)) fun _ _ => Tells.silent hst.close (writes_close_conn _)
  exact h

/-- The texts of a mail, in its three parts. -/
theorem texts_dialogue (files : List UInt8 → Option (List UInt8)) (s : SmtpSession) :
    texts (dialogue files s) = [cmdEhlo, cmdAuthLogin] ++ ((texts (credentials s) ++ (texts (envelope s) ++ [cmdData])) ++
      (contentBufs files s ++ [cmdBodyFinished] ++ [cmdQuit])) := by
  simp [texts, dialogue, transaction, message, Item.text, Function.comp_def]

/-- From the user name to the end. -/
theorem rest_tells (net : Net σ) (files : List UInt8 → Option (List UInt8)) (hwf : m.Wf)
    (hsafe : ∀ q ∈ web, q.1.safe = true) (rs : List Save) (hw : Held m rs w) :
    Tells (Since m rs) ((texts (credentials (rs.foldl smtpDataConfig m).session) ++
        (texts (envelope (rs.foldl smtpDataConfig m).session) ++ [cmdData])) ++
        (contentBufs files (rs.foldl smtpDataConfig m).session ++ [cmdBodyFinished] ++ [cmdQuit])) w
      (ifOk (middle net web w) fun w => ifOk (bodyPart net web files w) (smtpQuit net web)) := by
  -- no request up to `DATA`; behind it the requests served may grow
  obtain ⟨hheld, hmid⟩ := middle_tells hsafe net hwf w hw
  have hsince : Since m rs (middle net web w).1 := ⟨hheld.1, by rw [hheld.2]⟩
  refine Tells.andThen (fun _ => ⟨hsince, hmid⟩) fun _ _ => ?_
  exact (bodyPart_tells net files hheld).andThen fun _ _ => quit_tells net rs _

/-- **A mail is sent under one configuration.** If the requests that run while a mail is sent run during safe
calls only, everything that is written is the beginning of one dialogue, that of the settings after some of
these requests, and no freed memory is read. -/
theorem one_configuration (net : Net σ) (web : Web) (files : List UInt8 → Option (List UInt8)) (m : Store) (e : σ)
    (hwf : m.Wf) (hsafe : ∀ q ∈ web, q.1.safe = true) :
    (∃ rs, rs <+: (smtpSend net web files (World.start m e)).1.served ∧
      writes (smtpSend net web files (World.start m e)).1.log <+:
        texts (dialogue files (rs.foldl smtpDataConfig m).session)) ∧
    (smtpSend net web files (World.start m e)).1.useAfterFree = false := by
  obtain ⟨hI1, K1, hK1, hsaid1, hall1⟩ :=
    opening_tells net hwf (during_eq_nil hsafe rfl) (World.start m e) (Follows.start m e)
  have hsaid1' : writes (opening net web (World.start m e)).1.log = K1 := hsaid1
  rw [smtpSend_parts, ifOk]
  split
  · -- the settings at the time when the user name is sent
    rename_i hok
    set w1 := (opening net web (World.start m e)).1 with hw1
    obtain ⟨hI, K, hK, hsaid, -⟩ := rest_tells net files hwf hsafe w1.served ⟨hI1, rfl⟩ ⟨hI1, List.prefix_rfl⟩
    refine ⟨⟨w1.served, hI.2, ?_⟩, hI.1.live⟩
    rw [hsaid, hsaid1', hall1 hok, texts_dialogue]
    exact (List.prefix_append_right_inj _).2 hK
  · refine ⟨⟨[], List.nil_prefix, ?_⟩, hI1.live⟩
    rw [hsaid1', texts_dialogue]
    exact hK1.trans (List.prefix_append _ _)

/-- The settings of a second request. -/
def secondSave : Save := ⟨text "t", text "25", text "v", text "q", text "s"⟩

theorem one_configuration_saved_twice :
    let r := smtpSend (scripted 3) [(.connect 0, secondSave), (.exchange .quit .read, firstSave)] (fun _ => none)
      (World.start (smtpDataConfig Store.cleared firstSave) accepting)
    r.2 = true ∧ r.1.served = [secondSave, firstSave] ∧ r.1.useAfterFree = false := by
  refine ⟨by decide +kernel, by decide +kernel, ?_⟩
  exact (one_configuration (scripted 3) _ (fun _ => none) _ accepting (smtpDataConfig_wf Store.Wf.cleared _)
    (by decide)).2

/-- A mail during whose call `p` the second request runs. -/
def disturbed (p : Point) : World (List (List UInt8)) :=
  (smtpSend (scripted 3) [(p, secondSave)] (fun _ => none)
    (World.start (smtpDataConfig Store.cleared firstSave) accepting)).1

/-- A request during the exchange of the user name: the old user goes with the new password. A request during the
exchange of a receiver: the loop goes on from a node that has been freed. -/
theorem request_between_breaks_mail :
    (¬ ∃ rs, rs <+: (disturbed (.exchange .user .read)).served ∧
      writes (disturbed (.exchange .user .read)).log <+:
        texts (dialogue (fun _ => none) (rs.foldl smtpDataConfig (smtpDataConfig Store.cleared firstSave)).session)) ∧
    (disturbed (.exchange (.rcpt 0) .read)).useAfterFree = true := by
  refine ⟨?_, by decide +kernel⟩
  rintro ⟨rs, hrs, hw⟩
  have hall : ∀ rs ∈ (disturbed (.exchange .user .read)).served.inits,
      ¬ writes (disturbed (.exchange .user .read)).log <+:
        texts (dialogue (fun _ => none) (rs.foldl smtpDataConfig (smtpDataConfig Store.cleared firstSave)).session) := by
    decide +kernel
  exact hall rs ((List.mem_inits _ _).2 hrs) hw

end W601.Smtp
