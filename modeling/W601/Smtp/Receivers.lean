import W601.Lib.Runs
import W601.Smtp.Session

/-!
# The receivers as a list of strings

A receiver is appended, the first one that equals a string is taken out, or all are: that is what the calls are for, and
`StringList` is that list. `smtp_delete_receiver` compares as many bytes as its argument has, so it takes out the first
receiver that begins with the argument.

* `call_spec`: every call on the list in the heap.
* `receivers_agree_iff`: the runs of calls behind which the session has that list.
-/

namespace W601.Smtp.Mem

open CMem Runs

/-! ## Lists of strings -/

/-- A call; its allocations succeed, and find the given cells. -/
inductive Call
  | add (dirtNode dirt : ℤ → UInt8) (receiverAddr : CStr)
  | delete (receiverAddr : CStr)
  | clear

/-- The receivers as they are meant: what a call makes of them, and whether it finds what it looks for. -/
def StringList.call (l : List (List UInt8)) : Call → List (List UInt8) × Bool
  | .add _ _ a => (l ++ [a.bytes], true)
  | .delete a => (l.erase a.bytes, decide (a.bytes ∈ l))
  | .clear => ([], true)

/-- The first string that begins with the argument of a deletion is the argument. -/
def FirstExact (l : List (List UInt8)) : Call → Prop
  | .delete a => ∀ b, l.find? (a.bytes.isPrefixOf ·) = some b → b = a.bytes
  | _ => True

/-- What the calls of the client make of the strings. -/
def Prefixed.call (l : List (List UInt8)) : Call → List (List UInt8) × Bool
  | .delete a => (l.eraseP (a.bytes.isPrefixOf ·), l.any (a.bytes.isPrefixOf ·))
  | c => StringList.call l c

/-- **Where the first string that begins with the argument is the argument**, both come to the same. -/
theorem prefixed_eq {l : List (List UInt8)} {c : Call} (h : FirstExact l c) : Prefixed.call l c = StringList.call l c := by
  cases c with
  | add => rfl
  | clear => rfl
  | delete a =>
    cases hfind : l.find? (a.bytes.isPrefixOf ·) with
    | none =>
      have hno : ∀ b ∈ l, ¬ (a.bytes.isPrefixOf b = true) := List.find?_eq_none.1 hfind
      have hmem : a.bytes ∉ l := fun ha => hno _ ha (by simp)
      have hany : l.any (a.bytes.isPrefixOf ·) = false := by
        rw [List.any_eq_false]
        exact hno
      simp only [Prefixed.call, StringList.call, List.eraseP_of_forall_not hno, hany, List.erase_of_not_mem hmem, hmem,
        decide_false]
    | some b =>
      obtain rfl : b = a.bytes := h b hfind
      obtain ⟨hb, front, back, rfl, hno⟩ := List.find?_eq_some_iff_append.1 hfind
      have hno' : ∀ x ∈ front, ¬ (a.bytes.isPrefixOf x = true) := fun x hx hx' => by simpa [hx'] using hno x hx
      have hfront : a.bytes ∉ front := fun ha => hno' _ ha hb
      have hany : (front ++ a.bytes :: back).any (a.bytes.isPrefixOf ·) = true := List.any_eq_true.2 ⟨_, by simp, hb⟩
      have hmem : a.bytes ∈ front ++ a.bytes :: back := by simp
      simp only [Prefixed.call, StringList.call, List.eraseP_append_right _ hno', List.erase_append_right _ hfront, hany, hmem,
        decide_true, List.erase_cons_head, List.eraseP_cons_of_pos hb]

/-- **Where it is another string**, the lists differ by that string. -/
theorem prefixed_ne {l : List (List UInt8)} {c : Call} (h : ¬ FirstExact l c) : (Prefixed.call l c).1 ≠ (StringList.call l c).1 := by
  cases c with
  | add => exact absurd trivial h
  | clear => exact absurd trivial h
  | delete a =>
    obtain ⟨b, hb⟩ := not_forall.1 h
    obtain ⟨hfind, hne⟩ := Classical.not_imp.1 hb
    obtain ⟨hp, front, back, rfl, hno⟩ := List.find?_eq_some_iff_append.1 hfind
    have hno' : ∀ x ∈ front, ¬ (a.bytes.isPrefixOf x = true) := fun x hx hx' => by simpa [hx'] using hno x hx
    intro heq
    have hcount := congrArg (List.count b) heq
    simp only [Prefixed.call, StringList.call, List.eraseP_append_right _ hno', List.eraseP_cons_of_pos hp,
      List.count_erase_of_ne hne, List.count_append, List.count_cons_self] at hcount
    omega

/-! ## The calls on the heap -/

/-- The addresses of the receivers. -/
def addrs (l : List Entry) : List (List UInt8) := l.map (·.addr)

/-- The call of the client. -/
def call (s : Session) : Call → Option (Session × Bool)
  | .add dirtNode dirt a => smtpAddReceiver (some dirtNode) (some dirt) a s
  | .delete a => smtpDeleteReceiver a s
  | .clear => (smtpClearReceiver s).map (·, true)

/-- **The first receiver that begins with the argument** is taken out. -/
theorem deleteReceiver_spec {s : Session} {l : List Entry} (h : Receivers s.heap s.addressTo l) (a : CStr) :
    ∃ h' head, smtpDeleteReceiver a s =
        some ({ s with heap := h', addressTo := head }, l.any fun e => a.bytes.isPrefixOf e.addr) ∧
      Receivers h' head (l.eraseP fun e => a.bytes.isPrefixOf e.addr) ∧
      ∀ x, x ∉ footprint l → h'.cells x = s.heap.cells x := by
  cases hfind : l.find? fun e => a.bytes.isPrefixOf e.addr with
  | none =>
    have hno := List.find?_eq_none.1 hfind
    refine ⟨s.heap, s.addressTo, ?_, ?_, fun x _ => rfl⟩
    · rw [List.any_eq_false.2 hno]
      exact deleteReceiver_absent h fun e he hp => hno e he (List.isPrefixOf_iff_prefix.2 hp)
    · rw [List.eraseP_of_forall_not hno]
      exact h
  | some e =>
    obtain ⟨hp, front, back, rfl, hno⟩ := List.find?_eq_some_iff_append.1 hfind
    have hno' : ∀ x ∈ front, ¬ (a.bytes.isPrefixOf x.addr = true) := fun x hx hx' => by simpa [hx'] using hno x hx
    obtain ⟨h', head, hrun, hlist, hframe⟩ := deleteReceiver_found (a := a) h
      (fun x hx hpre => hno' x hx (List.isPrefixOf_iff_prefix.2 hpre)) (List.isPrefixOf_iff_prefix.1 hp)
    refine ⟨h', head, ?_, ?_, hframe⟩
    · rw [hrun, List.any_eq_true.2 ⟨e, by simp, hp⟩]
    · rw [List.eraseP_append_right _ hno', List.eraseP_cons_of_pos (p := fun x : Entry => a.bytes.isPrefixOf x.addr) hp]
      exact hlist

/-- **Every call** returns, and does to the list in the heap what it does to the strings. -/
theorem call_spec {s : Session} {l : List Entry} (h : Receivers s.heap s.addressTo l) (c : Call) :
    ∃ s' l', call s c = some (s', (Prefixed.call (addrs l) c).2) ∧ Receivers s'.heap s'.addressTo l' ∧
      addrs l' = (Prefixed.call (addrs l) c).1 := by
  cases c with
  | add dirtNode dirt a =>
    obtain ⟨h', head, hrun, hlist, -⟩ := addReceiver_stored h dirtNode dirt a
    exact ⟨_, _, hrun, hlist, List.map_append⟩
  | delete a =>
    obtain ⟨h', head, hrun, hlist, -⟩ := deleteReceiver_spec h a
    refine ⟨{ s with heap := h', addressTo := head }, _, ?_, hlist, List.eraseP_map.symm⟩
    rw [call, hrun, Prefixed.call, addrs, List.any_map]
    rfl
  | clear =>
    obtain ⟨h', hrun, -⟩ := clearReceiver_spec h
    refine ⟨{ s with heap := h', addressTo := none }, [], ?_, ⟨rfl, List.nodup_nil⟩, rfl⟩
    rw [call, hrun]
    rfl

/-- The model of the configuration, which has no pointers, unlinks the same receiver. -/
theorem unlink_eq (a : List UInt8) (l : List Rcpt) :
    unlink a l = (l.find? fun r => a.isPrefixOf r.addr).map (·, l.eraseP fun r => a.isPrefixOf r.addr) := by
  induction l with
  | nil => rfl
  | cons r l ih =>
    unfold unlink
    rw [List.find?_cons, List.eraseP_cons, ih]
    cases a.isPrefixOf r.addr
    · simp only [Bool.false_eq_true, if_false, Option.map_map, cond_false]
      rfl
    · rfl

/-- **The calls without pointers** do the same to the strings. -/
theorem configCall_eq (m : Store) (a : CStr) (dirtNode dirt : ℤ → UInt8) :
    ((Smtp.smtpAddReceiver m a.bytes).session.addressTo.map (·.addr), true) =
        Prefixed.call (m.session.addressTo.map (·.addr)) (.add dirtNode dirt a) ∧
      ((Smtp.smtpDeleteReceiver m a.bytes).1.session.addressTo.map (·.addr), (Smtp.smtpDeleteReceiver m a.bytes).2) =
        Prefixed.call (m.session.addressTo.map (·.addr)) (.delete a) := by
  refine ⟨by simp [Smtp.smtpAddReceiver, Prefixed.call, StringList.call], ?_⟩
  have hany : (m.session.addressTo.find? fun r => a.bytes.isPrefixOf r.addr).isSome =
      m.session.addressTo.any fun r => a.bytes.isPrefixOf r.addr := by
    rw [Bool.eq_iff_iff, List.find?_isSome, List.any_eq_true]
  have hcomp : ((fun x => a.bytes.isPrefixOf x) ∘ fun r : Rcpt => r.addr) = fun r => a.bytes.isPrefixOf r.addr := rfl
  rw [Smtp.smtpDeleteReceiver, unlink_eq, Prefixed.call, List.eraseP_map, List.any_map, hcomp, ← hany]
  cases hfind : m.session.addressTo.find? fun r => a.bytes.isPrefixOf r.addr with
  | none =>
    rw [List.eraseP_of_forall_not (List.find?_eq_none.1 hfind)]
    rfl
  | some r => rfl

/-- What is in the heap is one list only. -/
theorem Part.unique {cells : ℕ → Option Block} : ∀ {l l' : List Entry} {p : Option ℕ}, Part cells p l none → Part cells p l' none →
    l = l' := by
  intro l
  induction l with
  | nil =>
    intro l' p h h'
    cases l' with
    | nil => rfl
    | cons e l' =>
      obtain rfl : p = none := h
      exact absurd h'.1 (by simp)
  | cons e l ih =>
    intro l' p h h'
    obtain ⟨rfl, n, ⟨hnode, m, hstr, htext⟩, hrest⟩ := h
    cases l' with
    | nil => exact absurd h' (by simp [Seg])
    | cons e' l' =>
      obtain ⟨hp, n', ⟨hnode', m', hstr', htext'⟩, hrest'⟩ := h'
      obtain ⟨node, str, addr⟩ := e
      obtain ⟨node', str', addr'⟩ := e'
      obtain rfl : node = node' := Option.some.inj hp
      obtain ⟨hs, rfl⟩ := Block.node.inj (Option.some.inj (hnode.symm.trans hnode'))
      obtain rfl : str = str' := Option.some.inj hs
      obtain rfl := Block.str.inj (Option.some.inj (hstr.symm.trans hstr'))
      obtain rfl : addr = addr' := htext.unique htext'
      rw [ih hrest hrest']

/-! ## Runs -/

/-- A session behind calls, with what the calls are meant to make. -/
structure History where
  /-- There is none when a call did not return. -/
  session : Option Session
  strings : List (List UInt8)
  /-- Every answer so far was the one that is meant. -/
  answered : Bool

/-- The calls are made one behind the other. -/
def History.step (h : History) (c : Call) : Option History :=
  some
    { session := (h.session.bind (call · c)).map (·.1)
      strings := (StringList.call h.strings c).1
      answered := h.answered && (h.session.bind (call · c)).map (·.2) == some (StringList.call h.strings c).2 }

/-- The receivers of the session are the strings that are meant, and so were the answers. -/
def History.Agrees (h : History) : Prop :=
  ∃ s l, h.session = some s ∧ Receivers s.heap s.addressTo l ∧ addrs l = h.strings ∧ h.answered = true

/-- A call for which the first string that begins with the argument is the argument. -/
def History.Exact (h : History) (c : Call) : Prop := FirstExact h.strings c

theorem step_agrees {h t : History} {c : Call} (hI : h.Agrees) (hc : h.Exact c) (ht : h.step c = some t) : t.Agrees := by
  obtain ⟨s, l, hs, hlist, hstrings, hanswered⟩ := hI
  obtain rfl := Option.some.inj ht
  obtain ⟨s', l', hrun, hlist', haddrs⟩ := call_spec hlist c
  rw [hstrings, prefixed_eq hc] at hrun haddrs
  refine ⟨s', l', ?_, hlist', haddrs, ?_⟩
  · simp only [hs, Option.bind_some, hrun, Option.map_some]
  · simp only [hs, Option.bind_some, hrun, Option.map_some, hanswered, beq_self_eq_true, Bool.and_self]

theorem step_disagrees {h t : History} {c : Call} (hI : h.Agrees) (hc : ¬ h.Exact c) (ht : h.step c = some t) : ¬ t.Agrees := by
  obtain ⟨s, l, hs, hlist, hstrings, -⟩ := hI
  obtain rfl := Option.some.inj ht
  obtain ⟨s', l', hrun, hlist', haddrs⟩ := call_spec hlist c
  rintro ⟨s2, l2, hs2, hlist2, hstrings2, -⟩
  simp only [hs, Option.bind_some, hrun, Option.map_some, Option.some.injEq] at hs2
  subst hs2
  -- the heap holds one list, and it is not the one that is meant
  rw [hlist'.part.unique hlist2.part, hstrings2, hstrings] at haddrs
  exact prefixed_ne hc haddrs.symm

/-- **The receivers are the list of strings** in the runs in which each deletion finds its argument before a longer string that
begins with it, and in no other run. -/
theorem receivers_agree_iff {s : Session} {l : List Entry} (h : Receivers s.heap s.addressTo l) (calls : List Call) :
    Upholds History.step History.Agrees ⟨some s, addrs l, true⟩ calls ↔
      Orderly History.step History.Exact ⟨some s, addrs l, true⟩ calls := by
  apply upholds_iff_orderly
  · exact fun _ hI => hI
  · exact fun _ _ _ => step_agrees
  · exact fun _ _ _ => step_disagrees
  · exact ⟨s, l, rfl, h, rfl, rfl⟩

theorem receivers_init : Receivers Session.init.heap Session.init.addressTo [] := ⟨rfl, List.nodup_nil⟩

def receiverA : CStr := ⟨text "a@b", by decide, by decide⟩
def receiverB : CStr := ⟨text "a@b.c", by decide, by decide⟩

/-- A receiver that stands in front of a longer one. -/
theorem receivers_agree_shorter :
    Upholds History.step History.Agrees ⟨some .init, [], true⟩
      [.add (fun _ => 0xA5) (fun _ => 0xA5) receiverA, .add (fun _ => 0xA5) (fun _ => 0xA5) receiverB, .delete receiverA] := by
  refine (receivers_agree_iff receivers_init _).2 (Orderly.cons rfl trivial (Orderly.cons rfl trivial (Orderly.cons rfl ?_ trivial)))
  intro b hb
  have hfind : [text "a@b", text "a@b.c"].find? (receiverA.bytes.isPrefixOf ·) = some (text "a@b") := by decide
  exact Option.some.inj (hb.symm.trans hfind)

/-- **A longer receiver is deleted**: `a@b` is not in the list, and `a@b.c` is taken out. -/
theorem longer_receiver_deleted :
    ¬ Upholds History.step History.Agrees ⟨some .init, [], true⟩
      [.add (fun _ => 0xA5) (fun _ => 0xA5) receiverB, .delete receiverA] := by
  intro h
  have h1 := h.2 _ rfl
  refine step_disagrees (c := .delete receiverA) h1.first ?_ rfl (h1.2 _ rfl)
  intro hexact
  have hfind : [text "a@b.c"].find? (receiverA.bytes.isPrefixOf ·) = some (text "a@b.c") := by decide
  exact absurd (hexact _ hfind) (by decide)

end W601.Smtp.Mem
