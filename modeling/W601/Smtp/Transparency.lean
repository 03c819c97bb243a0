import W601.Lib.DotStuff
import W601.Smtp.Transaction

/-!
# What the server gets of the content

`smtp_send_content` writes the content as it is, and the end of the data behind it. The server takes the first line of a single
dot for the end, and takes a leading dot off every other line; the client puts none there.

* `sendContent_writes`: the bytes behind `DATA`.
* `content_plain_iff`: when no line of the content begins with a dot, by the strings in it.
* `data_transparent_iff`: when the server gets the content as it is.
-/

namespace W601.Smtp

open CMem Dialogue DotStuff

variable {σ : Type*} {net : Net σ} {files : List UInt8 → Option (List UInt8)} {w : World σ}

/-- The server reads the bytes `sent`: it gets `content`, with the line end that the end of the data begins with, and nothing is
behind the end that it sees. -/
def Transparent (sent content : List UInt8) : Prop :=
  ∃ msg, receive 46 (segments 13 10 sent) = some (msg, [[]]) ∧ join 13 10 msg = content ++ [13, 10]

/-- No line of the text begins with a dot. -/
def NoDotLine (s : List UInt8) : Prop := ∀ l ∈ segments 13 10 s, ¬ Dotted 46 l

/-- No line end in the text has a dot behind it. -/
def NoDotInside (s : List UInt8) : Prop := NoDot 13 10 46 s

/-! ## The bytes -/

/-- **The bytes behind `DATA`**, when the server has taken that: the content, what belongs to the attachments, and the end of
the data. -/
theorem sendContent_writes (net : Net σ) (files : List UInt8 → Option (List UInt8)) (hu : Usable w)
    (hne : w.session.addressTo ≠ []) (hdata : (checked net [] .data cmdData (text "354") w).2 = true) :
    ∃ es, (smtpSendContent net [] files w).1.log = w.log ++ es ∧
      writes es = cmdData :: (contentBufs files w.session ++ [cmdBodyFinished]) := by
  have hrecites : Recites net _ 2 w (smtpSendContent net [] files w) :=
    sendContent_recites hu hne (idle_nil _) (fun _ => rfl) (idle_nil _)
  obtain ⟨o, -, hrun⟩ := hrecites
  set L := (contentBufs files w.session).map Item.data ++ [Item.cmd cmdBodyFinished (text "250")]
  -- the command is answered as expected, so the rest is played behind it
  have hok : (talkTo net w [.cmd cmdData (text "354")]).ok = true := by
    rw [checked_recites hu (idle_nil _) rfl] at hdata
    exact hdata
  have hplay : talkTo net w ([.cmd cmdData (text "354")] ++ L) =
      (play net w.session.connFd responseMaxLen 3 L (talkTo net w [.cmd cmdData (text "354")]).env).after
        (talkTo net w [.cmd cmdData (text "354")]).events := by
    rw [talkTo, play_append, ← talkTo, Played.andThen, hok]
  have hfirst : writes (talkTo net w [.cmd cmdData (text "354")]).events = [cmdData] :=
    writes_play_data net w.session.connFd responseMaxLen 3 cmdData (text "354") [] w.env
  have hevents : writes (talkTo net w ([.cmd cmdData (text "354")] ++ L)).events =
      cmdData :: (contentBufs files w.session ++ [cmdBodyFinished]) := by
    rw [hplay, Played.after_events, writes_append, hfirst, writes_play_data]
    rfl
  rw [hrun]
  cases hend : (talkTo net w ([.cmd cmdData (text "354")] ++ L)).ok with
  | true =>
    refine ⟨_, ?_, hevents⟩
    simp only [recite, hend, if_true]
    rfl
  | false =>
    refine ⟨(talkTo net w ([.cmd cmdData (text "354")] ++ L)).events ++ List.replicate 2 (.close w.session.connFd), ?_, ?_⟩
    · simp only [recite, hend, Bool.false_eq_true, if_false]
      exact List.append_assoc ..
    · rw [writes_append, hevents]
      simp [List.replicate]

/-! ## The lines -/

/-- **The lines of the content**: the headers, an empty line, the body, and an empty line. -/
theorem segments_content {s : SmtpSession} (hatt : s.attachments = []) (rcv : List UInt8) :
    segments 13 10 (contentText s rcv) =
      segments 13 10 (text "FROM: <" ++ s.addressFrom ++ [62]) ++ (segments 13 10 (text "TO: <" ++ rcv ++ [62]) ++
        (segments 13 10 (text "SUBJECT:" ++ s.subject) ++ [] :: (segments 13 10 s.body ++ [[], []]))) := by
  have hne : (13 : UInt8) ≠ 10 := by decide
  have h1 : text ">\r\nTO: <" = 62 :: 13 :: 10 :: text "TO: <" := rfl
  have h2 : text ">\r\nSUBJECT:" = 62 :: 13 :: 10 :: text "SUBJECT:" := rfl
  have h3 : text "\r\n\r\n" = [13, 10, 13, 10] := rfl
  have hcontent : contentText s rcv = (text "FROM: <" ++ s.addressFrom ++ [62]) ++ 13 :: 10 ::
      ((text "TO: <" ++ rcv ++ [62]) ++ 13 :: 10 :: ((text "SUBJECT:" ++ s.subject) ++ 13 :: 10 ::
        ([] ++ 13 :: 10 :: (s.body ++ 13 :: 10 :: ([] ++ 13 :: 10 :: []))))) := by
    rw [contentText, if_pos hatt, h1, h2, h3]
    simp only [List.append_assoc, List.cons_append, List.nil_append]
  have hnil : segments (13 : UInt8) 10 [] = [[]] := rfl
  rw [hcontent]
  simp only [segments_append hne, hnil, List.singleton_append]

/-- **No line of the content begins with a dot** when none of the body does, and none in a header but its first. -/
theorem content_plain_iff {s : SmtpSession} (hatt : s.attachments = []) (rcv : List UInt8) :
    NoDotLine (contentText s rcv) ↔
      NoDotInside s.addressFrom ∧ NoDotInside rcv ∧ NoDotInside s.subject ∧ NoDotLine s.body := by
  have hempty : ¬ Dotted (46 : UInt8) [] := by simp [Dotted]
  have hgt : (62 : UInt8) ≠ 10 ∧ (62 : UInt8) ≠ 46 := by decide
  have hp1 : 13 ∉ text "FROM: <" := by decide
  have hp2 : 13 ∉ text "TO: <" := by decide
  have hp3 : 13 ∉ text "SUBJECT:" := by decide
  have hfrom : (∀ l ∈ segments 13 10 (text "FROM: <" ++ s.addressFrom ++ [62]), ¬ Dotted 46 l) ↔ NoDotInside s.addressFrom := by
    rw [forall_segments_iff (by simp [text]) (by simp [text]), noDot_snoc hgt.1 hgt.2, noDot_prefix hp1]
    rfl
  have hto : (∀ l ∈ segments 13 10 (text "TO: <" ++ rcv ++ [62]), ¬ Dotted 46 l) ↔ NoDotInside rcv := by
    rw [forall_segments_iff (by simp [text]) (by simp [text]), noDot_snoc hgt.1 hgt.2, noDot_prefix hp2]
    rfl
  have hsubject : (∀ l ∈ segments 13 10 (text "SUBJECT:" ++ s.subject), ¬ Dotted 46 l) ↔ NoDotInside s.subject := by
    rw [forall_segments_iff (by simp [text]) (by simp [text]), noDot_prefix hp3]
    rfl
  rw [NoDotLine, segments_content hatt]
  simp only [List.forall_mem_append, List.forall_mem_cons, hfrom, hto, hsubject]
  simp [hempty, NoDotLine]

/-- What the server gets of the content and the end of the data. -/
theorem transparent_iff {s : SmtpSession} (hatt : s.attachments = []) (rcv : List UInt8) :
    Transparent (contentText s rcv ++ cmdBodyFinished) (contentText s rcv) ↔
      NoDotInside s.addressFrom ∧ NoDotInside rcv ∧ NoDotInside s.subject ∧ NoDotLine s.body := by
  rw [← content_plain_iff hatt]
  exact received_iff (by decide) (by decide) _

/-- Without attachments, the content is one buffer. -/
theorem contentBufs_plain {s : SmtpSession} (hatt : s.attachments = []) {r : Rcpt} {rest : List Rcpt}
    (hlist : s.addressTo = r :: rest) : contentBufs files s = [contentText s r.addr] := by
  simp only [contentBufs, hlist, hatt, attachmentBufs, Nat.lt_irrefl, gt_iff_lt, if_false]

/-- **The server gets the content as it is** exactly when no line of it begins with a dot: no line of the body, and no line that
a line end in an address or in the subject begins. -/
theorem data_transparent_iff (net : Net σ) (files : List UInt8 → Option (List UInt8)) (hu : Usable w)
    (hatt : w.session.attachments = []) {r : Rcpt} {rest : List Rcpt} (hlist : w.session.addressTo = r :: rest)
    (hdata : (checked net [] .data cmdData (text "354") w).2 = true) :
    ∃ es sent, (smtpSendContent net [] files w).1.log = w.log ++ es ∧ writes es = cmdData :: sent ∧
      (Transparent sent.flatten (contentText w.session r.addr) ↔
        NoDotInside w.session.addressFrom ∧ NoDotInside r.addr ∧ NoDotInside w.session.subject ∧ NoDotLine w.session.body) := by
  obtain ⟨es, hlog, hes⟩ := sendContent_writes net files hu (by rw [hlist]; simp) hdata
  refine ⟨es, _, hlog, hes, ?_⟩
  rw [contentBufs_plain hatt hlist, ← transparent_iff hatt]
  rfl

/-- A mail that is being sent to a server that answers `DATA` with `354`. -/
def sending (body : List UInt8) : World (List (List UInt8)) :=
  World.start { Store.cleared with session :=
    { Store.cleared.session with
      serverPort := some ⟨0, text "25"⟩
      addressFrom := text "w601@b.c"
      addressTo := [⟨1, text "a@b.c"⟩]
      subject := text "WARNING"
      body := body
      connFd := 3 } } [[], text "354", [], text "250"]

theorem sending_usable (body : List UInt8) : Usable (sending body) := by
  refine ⟨?_, by simp [sending, World.start]⟩
  have hport : CNum.atoi (text "25") = 25 := by decide +kernel
  simp [sending, World.start, SmtpSession.plain, hport]

/-- A body of one line comes through. -/
theorem data_transparent_line : ∃ es sent,
    (smtpSendContent (scripted 3) [] (fun _ => none) (sending (text "31.5\r\n"))).1.log = es ∧ writes es = cmdData :: sent ∧
      Transparent sent.flatten (contentText (sending (text "31.5\r\n")).session (text "a@b.c")) := by
  obtain ⟨es, sent, hlog, hes, hiff⟩ := data_transparent_iff (scripted 3) (fun _ => none) (sending_usable (text "31.5\r\n")) rfl
    rfl (by decide +kernel)
  refine ⟨es, sent, hlog, hes, hiff.2 ⟨?_, ?_, ?_, ?_⟩⟩
  · unfold NoDotInside NoDot Dotted
    decide +kernel
  · unfold NoDotInside NoDot Dotted
    decide +kernel
  · unfold NoDotInside NoDot Dotted
    decide +kernel
  · unfold NoDotLine Dotted
    decide +kernel

/-- **A dot on a line of its own ends the message**, and the rest of the body is taken for commands. -/
theorem dot_line_ends_message : ∃ es sent,
    (smtpSendContent (scripted 3) [] (fun _ => none) (sending (text ".\r\nRSET\r\n"))).1.log = es ∧
      writes es = cmdData :: sent ∧
      ¬ Transparent sent.flatten (contentText (sending (text ".\r\nRSET\r\n")).session (text "a@b.c")) := by
  obtain ⟨es, hlog, hes⟩ := sendContent_writes (scripted 3) (fun _ => none) (sending_usable (text ".\r\nRSET\r\n"))
    (by simp [sending, World.start]) (by decide +kernel)
  refine ⟨es, _, hlog, hes, fun h => ?_⟩
  obtain ⟨-, -, -, hbody⟩ := (transparent_iff (s := (sending (text ".\r\nRSET\r\n")).session) rfl (text "a@b.c")).1 h
  have hdot : (text ".").head? = some 46 := by decide
  have hmem : text "." ∈ segments 13 10 (text ".\r\nRSET\r\n") := by decide
  exact hbody _ hmem hdot

end W601.Smtp
