import W601.Lib.CNum
import W601.Lib.Dialogue
import W601.Smtp.Config

/-!
# Sending a mail (`smtp_client.c`)

`smtp_send` on the plain port: it resolves the server, connects, and says its commands, each with a read
that flushes what is left of the last answer, a write, and a read of three bytes that must be the
expected status. Every function closes the connection when something goes wrong in it.

The threads of the system switch at blocking calls only. `Web` holds the requests to `smtp_save` that the
web server runs while a mail is being sent, each at the blocking call during which it runs.
-/

namespace W601.Smtp

open CMem CNum Dialogue

variable {σ : Type*}

/-- `SMTP_RESPONSE_MAX_LEN`. -/
def responseMaxLen : ℕ := 512

/-- `SMTP_SEND_DATA_MAX_LEN`. -/
def sendDataMaxLen : ℕ := 512

/-- The length of `content_buf`. -/
def contentBufLen : ℕ := 256 + sendDataMaxLen

/-- `SMTP_MAX_ATTACHMENTS`. -/
def maxAttachments : ℕ := 20

/-- The commands of the dialogue. -/
inductive Cmd
  | ehlo
  | authLogin
  | user
  | pass
  | mailFrom
  | rcpt (i : ℕ)
  | data
  | finish
  | quit
  deriving DecidableEq

/-- The calls of one command. -/
inductive Call
  | flush
  | write
  | read
  deriving DecidableEq

/-- The blocking calls of `smtp_send`. -/
inductive Point
  | resolve
  | connect (k : ℕ)
  | greeting (k : ℕ)
  | exchange (c : Cmd) (k : Call)
  | content (i : ℕ)
  deriving DecidableEq

/-- The web requests that run while a mail is sent. -/
abbrev Web := List (Point × Save)

/-- The requests that run during a call. -/
def Web.during (web : Web) (p : Point) : List Save := (web.filter (·.1 = p)).map (·.2)

structure World (σ : Type*) extends Store where
  /-- The resolver, the network and the server. -/
  env : σ
  log : List NetEv
  /-- The requests that have run. -/
  served : List Save
  /-- Freed memory was read. -/
  useAfterFree : Bool
  /-- A null pointer was followed. -/
  fault : Bool

/-- The world when a mail is to be sent. -/
def World.start (m : Store) (env : σ) : World σ := ⟨m, env, [], [], false, false⟩

/-- A socket call comes back. -/
def World.call (w : World σ) (env : σ) (ev : NetEv) : World σ := { w with env := env, log := w.log ++ [ev] }

/-- The web server runs its requests. -/
def World.serve (w : World σ) (web : Web) (p : Point) : World σ :=
  { w with
    toStore := (web.during p).foldl smtpDataConfig w.toStore
    served := w.served ++ web.during p }

/-- `sprintf` into a buffer of `n` bytes. -/
def World.sprintf (w : World σ) (n : ℕ) (t : List UInt8) : World σ :=
  { w with overflow := w.overflow || decide (n ≤ t.length) }

/-- The server port is the plain one. -/
def SmtpSession.plain (s : SmtpSession) : Bool := (s.serverPort.map fun p => atoi p.text) = some 25

/-! ## Texts -/

def cmdEhlo : List UInt8 := text "EHLO DM11\r\n"
def cmdAuthLogin : List UInt8 := text "AUTH LOGIN\r\n"
def cmdMail (addr : List UInt8) : List UInt8 := text "MAIL FROM: <" ++ addr ++ text ">\r\n"
def cmdRcpt (addr : List UInt8) : List UInt8 := text "RCPT TO: <" ++ addr ++ text ">\r\n"
def cmdData : List UInt8 := text "DATA\r\n"
def cmdBodyFinished : List UInt8 := text "\r\n.\r\n"
def cmdQuit : List UInt8 := text "QUIT\r\n"

/-- User name or password, as it is sent. -/
def authInfo (s : List UInt8) : List UInt8 := s ++ text "\r\n"

/-- The length of `auth_info_buf`. -/
def authInfoLen : ℕ := maxAuthLen * 2 + 2

/-- The length of `addr_info_buf`. -/
def addrInfoLen : ℕ := maxAddrLen + max ((text "MAIL FROM: <").length + 3) ((text "RCPT TO: <").length + 3)

/-- `SMTP_MAIL_BOUNDARY` behind its dashes. -/
def boundary : List UInt8 := text "--smtp_client_boundary"

/-- What `content_buf` is filled with; `rcv` is the first receiver. -/
def contentText (s : SmtpSession) (rcv : List UInt8) : List UInt8 :=
  if s.attachments = [] then
    text "FROM: <" ++ s.addressFrom ++ text ">\r\nTO: <" ++ rcv ++ text ">\r\nSUBJECT:" ++ s.subject ++
      text "\r\n\r\n" ++ s.body ++ text "\r\n\r\n"
  else
    text "FROM:<" ++ s.addressFrom ++ text ">\r\nTO:<" ++ rcv ++ text ">\r\nSUBJECT:" ++ s.subject ++
      text "\r\nContent-Type: multipart/mixed;boundary=\"smtp_client_boundary\"\r\n\r\n" ++ boundary ++
      text "\r\nContent-Type: text/plain; charset=\"utf-8\"\r\nContent-Transfer-Encoding: 7bit\r\n\r\n" ++
      s.body ++ text "\r\n\r\n"

def attachmentHead (a : Attachment) : List UInt8 :=
  boundary ++ text "\r\nContent-Type: text/plain; name=\"" ++ a.fileName ++
    text "\"\r\nContent-Transfer-Encoding: binary\r\nContent-Disposition: attachment; filename=\"" ++
    a.fileName ++ text "\"\r\n\r\n"

/-- The buffers a file is sent in: full ones, and the rest, which may be empty. -/
def fileBufs (content : List UInt8) : List (List UInt8) :=
  (List.range (content.length / sendDataMaxLen)).map
      (fun i => (content.drop (sendDataMaxLen * i)).take sendDataMaxLen) ++
    [content.drop (sendDataMaxLen * (content.length / sendDataMaxLen))]

/-- The buffers of `smtp_send_attachment`; `files` is what `fopen` and `fread` find at a path. The write
results are not looked at, so the list does not depend on the network. -/
def attachmentBufs (files : List UInt8 → Option (List UInt8)) : ℕ → List Attachment → List (List UInt8)
  | cnt, [] => if cnt > 0 then [boundary ++ text "--\r\n"] else []
  | cnt, a :: as =>
    match files a.filePath with
    | none => attachmentBufs files cnt as
    | some content =>
      if cnt < maxAttachments then
        attachmentHead a :: fileBufs content ++ text "\r\n\r\n" :: attachmentBufs files (cnt + 1) as
      else [boundary ++ text "--\r\n"]

/-! ## The client -/

section Code

variable (net : Net σ) (web : Web) (files : List UInt8 → Option (List UInt8))

/-- `smtp_close_connection`. -/
def smtpCloseConnection (w : World σ) : World σ :=
  if w.session.plain then { w with log := w.log ++ [.close w.session.connFd] } else w

/-- `read` on the connection. -/
def readConn (p : Point) (n : ℕ) (w : World σ) : World σ × Option (List UInt8) :=
  let r := net.read w.session.connFd n w.env
  ((w.call r.2 (.read w.session.connFd n r.1)).serve web p, r.1)

/-- `smtp_flush`; no caller looks at its answer. -/
def smtpFlush (c : Cmd) (w : World σ) : World σ :=
  if w.session.plain then (readConn net web (.exchange c .flush) responseMaxLen w).1 else w

/-- `smtp_write`. -/
def smtpWrite (p : Point) (buf : List UInt8) (w : World σ) : World σ × ℤ :=
  if w.session.plain then
    let n := net.write w.session.connFd buf w.env
    ((w.call n.2 (.write w.session.connFd buf n.1)).serve web p, n.1)
  else (w, -1)

/-- `smtp_read`. -/
def smtpRead (c : Cmd) (n : ℕ) (w : World σ) : World σ × Option (List UInt8) :=
  if w.session.plain then readConn net web (.exchange c .read) n w else (w, none)

/-- `smtp_send_data_with_response_check`. -/
def smtpSendDataWithResponseCheck (c : Cmd) (buf responseCode : List UInt8) (w : World σ) : World σ × Bool :=
  if w.session.connFd = 0 then (w, false)
  else
    -- the flush is one read, however much is left of the last answer
    match smtpWrite net web (.exchange c .write) buf (smtpFlush net web c w) with
    | (w, n) =>
      if n ≠ buf.length then (smtpCloseConnection w, false)
      else
        match smtpRead net web c 3 w with
        | (w, r) =>
          if (r.getD []).length < 3 then (smtpCloseConnection w, false)
          else if r ≠ some responseCode then (smtpCloseConnection w, false)
          else (w, true)

/-- The loop over the addresses in `smtp_connect_server_by_hostname`. -/
def connectLoop : ℕ → List ℕ → World σ → World σ × Bool
  | _, [], w => (w, false)
  | k, cur :: rest, w =>
    let s := net.socket w.env
    let w := { w.call s.2 (.socket s.1) with session := { w.session with connFd := s.1 } }
    if s.1 < 0 then connectLoop (k + 1) rest w
    else
      let c := net.connect s.1 cur w.env
      let w := (w.call c.2 (.connect s.1 c.1)).serve web (.connect k)
      if c.1 then
        match readConn net web (.greeting k) 3 w with
        | (w, r) =>
          if (r.getD []).length < 3 then (smtpCloseConnection w, false)
          else if r = some (text "220") then (w, true)
          else (smtpCloseConnection w, false)
      -- the same descriptor field is used for the next address
      else connectLoop (k + 1) rest (smtpCloseConnection w)

/-- `smtp_connect_server_by_hostname`: the resolver still reads the strings it was given when the answer
of the name server has come. -/
def smtpConnectServerByHostname (w : World σ) : World σ × Bool :=
  let args := (w.session.serverDomain.map (·.id)).toList ++ (w.session.serverPort.map (·.id)).toList
  let g := net.getaddrinfo w.env
  let w := { w with env := g.2 }.serve web .resolve
  -- a request during the wait may have freed them
  let w := { w with useAfterFree := w.useAfterFree || args.any (· ∈ w.freed) }
  match g.1 with
  | none => (w, false)
  | some addrs => connectLoop net web 0 addrs w

/-- `smtp_connect_server`. -/
def smtpConnectServer (w : World σ) : World σ × Bool :=
  match w.session.serverPort with
  | none => ({ w with fault := true }, false)
  | some _ =>
    if w.session.plain then
      -- a connection by address is not supported
      if w.session.serverIp.isSome then (w, false)
      else if w.session.serverDomain.isSome then smtpConnectServerByHostname net web w
      else (w, false)
    else (w, false)

/-- Go on with `f`, or return `-1` at once. -/
def ifOk (r : World σ × Bool) (f : World σ → World σ × Bool) : World σ × Bool :=
  if r.2 then f r.1 else (r.1, false)

/-- `smtp_handshake`. -/
def smtpHandshake (w : World σ) : World σ × Bool :=
  smtpSendDataWithResponseCheck net web .ehlo cmdEhlo (text "250") w

/-- A command whose failure closes the connection once more. -/
def checked (c : Cmd) (buf responseCode : List UInt8) (w : World σ) : World σ × Bool :=
  match smtpSendDataWithResponseCheck net web c buf responseCode w with
  | (w, true) => (w, true)
  | (w, false) => (smtpCloseConnection w, false)

/-- `smtp_auth_login`. -/
def smtpAuthLogin (w : World σ) : World σ × Bool :=
  ifOk (checked net web .authLogin cmdAuthLogin (text "334") w) fun w =>
    let info := authInfo w.session.username
    ifOk (checked net web .user info (text "334") (w.sprintf authInfoLen info)) fun w =>
      let info := authInfo w.session.password
      checked net web .pass info (text "235") (w.sprintf authInfoLen info)

/-- The `next` of a node of the list; `none` when the node is no longer in it. -/
def nextOf (id : ℕ) : List Rcpt → Option (Option ℕ)
  | [] => none
  | r :: rs => if r.id = id then some (rs.head?.map (·.id)) else nextOf id rs

/-- The loop over the receivers in `smtp_set_sender_receiver`. `cursor` is the node at hand; a node that
is not in the list any more has been freed. -/
def rcptLoop : ℕ → ℕ → Option ℕ → World σ → World σ × Bool
  | 0, _, _, w => (w, false)
  | _ + 1, _, none, w => (w, true)
  | fuel + 1, i, some id, w =>
    match w.session.addressTo.find? (·.id = id) with
    | none => ({ w with useAfterFree := true }, false)
    | some r =>
      let info := cmdRcpt r.addr
      ifOk (checked net web (.rcpt i) info (text "250") (w.sprintf addrInfoLen info)) fun w =>
        match nextOf id w.session.addressTo with
        | none => ({ w with useAfterFree := true }, false)
        | some next => rcptLoop fuel (i + 1) next w

/-- `smtp_set_sender_receiver`. Each request adds one receiver at most, so the loop ends within the
receivers there are and the requests to come. -/
def smtpSetSenderReceiver (w : World σ) : World σ × Bool :=
  -- taken before `MAIL FROM` is sent, and kept over all exchanges
  let cursor := w.session.addressTo.head?.map (·.id)
  let fuel := w.session.addressTo.length + web.length + 1
  let info := cmdMail w.session.addressFrom
  ifOk (checked net web .mailFrom info (text "250") (w.sprintf addrInfoLen info)) fun w =>
    rcptLoop net web fuel 0 cursor w

/-- Writes whose results are not looked at. -/
def writeBufs : ℕ → List (List UInt8) → World σ → World σ
  | _, [], w => w
  | i, b :: bs, w => writeBufs (i + 1) bs (smtpWrite net web (.content i) b w).1

/-- `smtp_send_content`. -/
def smtpSendContent (w : World σ) : World σ × Bool :=
  ifOk (checked net web .data cmdData (text "354") w) fun w =>
    match w.session.addressTo with
    | [] => ({ w with fault := true }, false)
    | r :: _ =>
      let t := contentText w.session r.addr
      let w := writeBufs net web 0 (t :: attachmentBufs files 0 w.session.attachments)
        (w.sprintf contentBufLen t)
      checked net web .finish cmdBodyFinished (text "250") w

/-- `smtp_quit`. -/
def smtpQuit (w : World σ) : World σ × Bool :=
  ifOk (checked net web .quit cmdQuit (text "221") w) fun w => (smtpCloseConnection w, true)

/-- `smtp_send`: `true` is its `0`. -/
def smtpSend (w : World σ) : World σ × Bool :=
  ifOk (smtpConnectServer net web w) fun w =>
  ifOk (smtpHandshake net web w) fun w =>
  ifOk (smtpAuthLogin net web w) fun w =>
  ifOk (smtpSetSenderReceiver net web w) fun w =>
  ifOk (smtpSendContent net web files w) fun w =>
  smtpQuit net web w

/-- `smtp_send_mail`, for a subject and a body that are not null. -/
def smtpSendMail (subject body : List UInt8) (w : World σ) : World σ × Bool :=
  smtpSend net web files { w with session := { w.session with subject := subject, body := body } }

end Code

end W601.Smtp
