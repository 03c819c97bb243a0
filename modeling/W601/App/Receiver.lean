import W601.App.Startup

/-!
# The receiver behind calls of `smtp_data_config`

`smtp_data_config` deletes the receiver that `w601_smtp` names, unless that is the empty string, and adds the new
one. A call with an empty receiver adds a node all the same, and no later call deletes it.

* `receivers_eq`: the list behind any calls.
* `one_receiver_iff`: when it is the receiver of the last call alone.
-/

namespace W601.App

open CMem Smtp Settings

variable {F : Type}

/-- A call of `smtp_data_config` with a receiver that fits its field. -/
structure ConfigCall where
  save : Save
  tempWarn : List UInt8
  nulFree : NulFree save
  fits : save.receiver.length < 100

/-- The calls, one behind the other. -/
def configCalls (atof : List UInt8 → F) (calls : List ConfigCall) : Handler F Unit :=
  calls.forM fun c => Settings.smtpDataConfig atof (.all c.save c.tempWarn)

/-- The device behind the initialisation of `smtp_thread`. -/
def initialised (d : Device F) : Device F := clearSettings (smtpClientInit d)

/-- The addresses of the session's receivers. -/
def receivers (d : Device F) : List (List UInt8) := d.session.addressTo.map (·.addr)

/-! ## One call -/

/-- The device behind a call. -/
def configured (atof : List UInt8 → F) (c : ConfigCall) (d : Device F) : Device F :=
  { Device.configure c.save { d.dropReceiver with mem := copied d.dropReceiver.mem c.save } with tempWarn := atof c.tempWarn }

/-- **The receiver is stored**, however long the other strings are, since it is copied last. -/
theorem configured_receiver (atof : List UInt8 → F) (c : ConfigCall) (d : Device F) :
    cstr (configured atof c d).mem receiverAt = c.save.receiver := by
  have hfits := c.fits
  have hram : 100 ≤ ramSize := by decide
  have hat : StrAt (configured atof c d).mem receiverAt c.save.receiver := strAt_store c.nulFree.receiver _ _
  exact readStr_eq hat (by omega)

/-- The setters in front of `smtp_add_receiver` leave the list alone. -/
theorem configured_receivers (atof : List UInt8 → F) (c : ConfigCall) (d : Device F) :
    receivers (configured atof c d) = receivers d.dropReceiver ++ [c.save.receiver] := by
  set e : Device F := { d.dropReceiver with mem := copied d.dropReceiver.mem c.save } with he
  have hsession : (configured atof c d).session = (e.configure c.save).store.session := rfl
  unfold receivers
  rw [hsession, configure_store]
  have haddr := smtpSetServerAddr_session e.store (cstr e.mem serverAddrAt) (cstr e.mem serverPortAt)
  obtain ⟨x, y, z, hauth⟩ := smtpSetAuth_session
    (smtpSetServerAddr e.store (cstr e.mem serverAddrAt) true (cstr e.mem serverPortAt)).1 (cstr e.mem usernameAt)
    (cstr e.mem passwordAt)
  simp only [smtpAddReceiver, hauth, haddr, List.map_append, List.map_cons, List.map_nil]
  rfl

/-- The receiver is found behind nodes with empty strings, which it is not the beginning of. -/
theorem unlink_behind_empty {a : List UInt8} (ha : a ≠ []) (k : ℕ) : ∀ l : List Rcpt,
    l.map (·.addr) = List.replicate k [] ++ [a] → ∃ r rest, unlink a l = some (r, rest) ∧ rest.map (·.addr) = List.replicate k [] := by
  induction k with
  | zero =>
    intro l hl
    obtain ⟨r, hr, rfl⟩ := List.map_eq_singleton_iff.1 hl
    subst hr
    refine ⟨r, [], ?_, rfl⟩
    unfold unlink
    rw [if_pos (by simp)]
  | succ k ih =>
    intro l hl
    rw [List.replicate_succ, List.cons_append] at hl
    obtain ⟨r, rest, rfl, hr, hrest⟩ := List.map_eq_cons_iff.1 hl
    obtain ⟨q, rest', hq, hrest'⟩ := ih rest hrest
    refine ⟨q, r :: rest', ?_, ?_⟩
    · have hno : a.isPrefixOf r.addr = false := by
        rw [hr]
        cases a with
        | nil => exact absurd rfl ha
        | cons c s => rfl
      unfold unlink
      rw [hno, hq]
      rfl
    · rw [List.map_cons, hr, hrest', List.replicate_succ]

/-! ## Many calls -/

/-- The list holds the receiver in `w601_smtp` behind `k` empty ones. -/
structure Left (k : ℕ) (a : List UInt8) (d : Device F) : Prop where
  copy : cstr d.mem receiverAt = a
  list : receivers d = List.replicate k [] ++ [a]

/-- The number of calls with an empty receiver. -/
def empties (calls : List ConfigCall) : ℕ := calls.countP fun c => c.save.receiver = []

theorem left_dropped {k : ℕ} {a : List UInt8} {d : Device F} (h : Left k a d) :
    receivers d.dropReceiver = List.replicate (if a = [] then k + 1 else k) [] := by
  unfold Device.dropReceiver
  by_cases ha : a = []
  · have hzero : d.mem receiverAt = 0 := cstr_eq_nil.1 (h.copy.trans ha)
    rw [if_neg (not_not.2 hzero), if_pos ha, h.list, ha, List.replicate_succ']
  · have hzero : d.mem receiverAt ≠ 0 := fun hz => ha (h.copy.symm.trans (cstr_eq_nil.2 hz))
    obtain ⟨r, rest, hu, hrest⟩ := unlink_behind_empty ha k d.session.addressTo h.list
    have hdelete : (smtpDeleteReceiver d.store (cstr d.mem receiverAt)).1.session.addressTo = rest := by
      unfold smtpDeleteReceiver
      rw [h.copy, store_session, hu]
    rw [if_pos hzero, if_neg ha, ← hrest]
    unfold receivers
    rw [← hdelete]
    rfl

/-- The list behind calls that find one receiver that is stored. -/
theorem receivers_left (atof : List UInt8 → F) (calls : List ConfigCall) : ∀ (k : ℕ) (a : List UInt8) (d : Device F),
    Left k a d → ∃ t, configCalls atof calls d = .ok () t ∧
      ∀ front last, calls = front ++ [last] →
        receivers t = List.replicate ((if a = [] then k + 1 else k) + empties front) [] ++ [last.save.receiver] := by
  induction calls with
  | nil => exact fun k a d _ => ⟨d, rfl, fun front last h => by simp at h⟩
  | cons c calls ih =>
    intro k a d h
    have hlist : receivers (configured atof c d) =
        List.replicate (if a = [] then k + 1 else k) [] ++ [c.save.receiver] := by
      rw [configured_receivers, left_dropped h]
    obtain ⟨t, ht, hnext⟩ := ih _ _ _ ⟨configured_receiver atof c d, hlist⟩
    refine ⟨t, ht, fun front last hcalls => ?_⟩
    cases front with
    | nil =>
      obtain ⟨rfl, rfl⟩ := List.cons.inj hcalls
      obtain rfl := (EStateM.Result.ok.inj ht).2
      exact hlist
    | cons b front =>
      obtain ⟨rfl, hrest⟩ := List.cons.inj hcalls
      rw [hnext front last hrest]
      congr 2
      unfold empties
      rw [List.countP_cons]
      split_ifs <;> simp_all <;> omega

/-- The first call finds no receiver. -/
theorem left_first (atof : List UInt8 → F) (c : ConfigCall) (d : Device F) :
    Left 0 c.save.receiver (configured atof c (initialised d)) := by
  refine ⟨configured_receiver atof c _, ?_⟩
  have hdrop : (initialised d).dropReceiver = initialised d := if_neg (not_not.2 rfl)
  rw [configured_receivers, hdrop]
  rfl

/-- **The list behind any calls**: a node for each call with an empty receiver but the last one, and the last receiver. -/
theorem receivers_eq (atof : List UInt8 → F) (d : Device F) (front : List ConfigCall) (last : ConfigCall) :
    ∃ t, configCalls atof (front ++ [last]) (initialised d) = .ok () t ∧
      receivers t = List.replicate (empties front) [] ++ [last.save.receiver] := by
  cases front with
  | nil => exact ⟨_, rfl, (left_first atof last d).list⟩
  | cons c front =>
    obtain ⟨t, ht, hlist⟩ := receivers_left atof (front ++ [last]) _ _ _ (left_first atof c d)
    refine ⟨t, ht, ?_⟩
    rw [hlist front last rfl, empties, empties, List.countP_cons, Nat.add_comm]
    simp only [Nat.zero_add, decide_eq_true_eq]

/-- **One receiver is left** exactly when no call but the last one had an empty receiver. -/
theorem one_receiver_iff (atof : List UInt8 → F) (d : Device F) (front : List ConfigCall) (last : ConfigCall) :
    ∃ t, configCalls atof (front ++ [last]) (initialised d) = .ok () t ∧
      (receivers t = [last.save.receiver] ↔ ∀ c ∈ front, c.save.receiver ≠ []) := by
  obtain ⟨t, ht, hlist⟩ := receivers_eq atof d front last
  refine ⟨t, ht, ?_⟩
  have hone : receivers t = [last.save.receiver] ↔ empties front = 0 := by
    rw [hlist, List.append_left_eq_self, List.replicate_eq_nil_iff]
  rw [hone, empties, List.countP_eq_zero]
  simp only [decide_eq_true_eq, ne_eq]

/-- A call with everything empty but the receiver. -/
def callTo (a : List UInt8) (h0 : 0 ∉ a) (h : a.length < 100) : ConfigCall :=
  ⟨⟨[], [], [], [], a⟩, [], ⟨by simp, by simp, by simp, by simp, h0⟩, h⟩

/-- **An empty receiver stays in front of the next one.** -/
theorem empty_receiver_stays : ∃ t,
    configCalls (fun _ => (30 : ℤ)) [callTo [] (by simp) (by simp), callTo (text "a@b") (by decide) (by decide)]
      (initialised .boot) = .ok () t ∧ receivers t ≠ [text "a@b"] := by
  obtain ⟨t, ht, hlist⟩ := receivers_eq (fun _ => (30 : ℤ)) .boot [callTo [] (by simp) (by simp)]
    (callTo (text "a@b") (by decide) (by decide))
  refine ⟨t, ht, ?_⟩
  rw [hlist]
  decide

end W601.App
