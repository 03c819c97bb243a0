import W601.Lib.Runs

/-!
# Two slots that are written in turn

A value is kept in two slots, each with a number beside it. A save writes the slot that is not the current one, under the
next number, and the current slot is then that one. Loading takes the slot with the greater number. A slot that is torn
holds nothing.

* `step`: the work on a copy of the value, the saves and the loads.
* `Durable`: what the slots are for, a value that is saved and a copy of it.
* `step_durable`: without a reported failure the slots keep the saved value, wherever the power fails.
* `step_numbers`: what holds of the numbers, `step_alternate`, `step_bounded`.
-/

namespace TwoSlots

variable {α ω : Type*}

/-- How a save ends. -/
inductive Fate where
  | done
  /-- A failure is reported, and the slot is torn. The value may count as changed still. -/
  | failed (changed : Bool)
  /-- The power fails, and the slot is torn. -/
  | cut

/-- The copy that is worked on. -/
structure Session (α : Type*) where
  current : Bool
  count : ℕ
  working : α
  changed : Bool

structure State (α : Type*) where
  slot : Bool → Option (ℕ × α)
  /-- There is none while the power is off. -/
  session : Option (Session α)

inductive Event (ω : Type*) where
  | work (op : ω)
  | save (fate : Fate)
  | cut
  /-- The saves happen where both slots are torn. -/
  | boot (first second : Fate)

/-- The session goes over to the other slot. -/
def Session.next (q : Session α) (changed : Bool) : Session α :=
  { q with current := !q.current, count := q.count + 1, changed := changed }

def save (slot : Bool → Option (ℕ × α)) (q : Session α) : Fate → State α
  | .done =>
    if q.changed then ⟨Function.update slot (!q.current) (some (q.count + 1, q.working)), some (q.next false)⟩
    else ⟨slot, some q⟩
  | .failed changed =>
    if q.changed then ⟨Function.update slot (!q.current) none, some (q.next changed)⟩ else ⟨slot, some q⟩
  | .cut => if q.changed then ⟨Function.update slot (!q.current) none, none⟩ else ⟨slot, none⟩

/-- The slot with the greater number. -/
def load (slot : Bool → Option (ℕ × α)) : Option (Session α) :=
  match slot false, slot true with
  | none, none => none
  | some (m, x), none => some ⟨false, m, x, false⟩
  | none, some (n, y) => some ⟨true, n, y, false⟩
  | some (m, x), some (n, y) => if m > n then some ⟨false, m, x, false⟩ else some ⟨true, n, y, false⟩

/-- The session of a value that has not been saved. -/
def fresh (init : α) : Session α := ⟨true, 0, init, true⟩

/-- The value `init` is saved into both slots. -/
def reset (init : α) (slot : Bool → Option (ℕ × α)) (first second : Fate) : State α :=
  match first with
  | .done => save (save slot (fresh init) .done).slot ((fresh init).next true) second
  | fate => save slot (fresh init) fate

section Step

variable (apply : ω → α → Option α) (init : α)

/-- An operation on the copy, which may leave it alone. -/
def Session.work (q : Session α) (op : ω) : Session α :=
  match apply op q.working with
  | some x => { q with working := x, changed := true }
  | none => q

def step : State α → Event ω → Option (State α)
  | ⟨slot, some q⟩, .work op => some ⟨slot, some (q.work apply op)⟩
  | ⟨slot, some q⟩, .save fate => some (save slot q fate)
  | ⟨slot, _⟩, .cut => some ⟨slot, none⟩
  | ⟨slot, none⟩, .boot first second =>
    match load slot with
    | some q => some ⟨slot, some q⟩
    | none => some (reset init slot first second)
  | _, _ => none

/-- A value that is saved, and the copy that is worked on. -/
structure Durable (α : Type*) where
  durable : Option α
  working : Option α

/-- No failure is reported. -/
def Durable.save (d : Durable α) (x : α) : Fate → Option (Durable α)
  | .done => some ⟨some x, some x⟩
  | .cut => some ⟨d.durable, none⟩
  | .failed _ => none

def Durable.step : Durable α → Event ω → Option (Durable α)
  | ⟨d, some w⟩, .work op => some ⟨d, some ((apply op w).getD w)⟩
  | ⟨d, some w⟩, .save fate => Durable.save ⟨d, some w⟩ w fate
  | ⟨d, _⟩, .cut => some ⟨d, none⟩
  | ⟨some x, none⟩, .boot _ _ => some ⟨some x, some x⟩
  | ⟨none, none⟩, .boot first second =>
    match first with
    | .done => Durable.save ⟨some init, some init⟩ init second
    | _ => Durable.save ⟨none, none⟩ init first
  | _, _ => none

/-- The slots keep the saved value. -/
inductive Keeps : State α → Durable α → Prop
  | blank {slot : Bool → Option (ℕ × α)} (hnone : ∀ b, slot b = none) : Keeps ⟨slot, none⟩ ⟨none, none⟩
  | off {slot : Bool → Option (ℕ × α)} {b : Bool} {n : ℕ} {x : α} (hat : slot b = some (n, x))
      (hless : ∀ m y, slot (!b) = some (m, y) → m < n) : Keeps ⟨slot, none⟩ ⟨some x, none⟩
  | on {slot : Bool → Option (ℕ × α)} {q : Session α} {x : α} (hat : slot q.current = some (q.count, x))
      (hless : ∀ m y, slot (!q.current) = some (m, y) → m < q.count) (hsame : q.changed = false → x = q.working) :
      Keeps ⟨slot, some q⟩ ⟨some x, some q.working⟩

/-- No failure is reported. -/
def Fate.Quiet : Fate → Prop
  | .failed _ => False
  | _ => True

def Event.Quiet : Event ω → Prop
  | .save fate => fate.Quiet
  | .boot first second => first.Quiet ∧ second.Quiet
  | _ => True

variable {apply init} {slot : Bool → Option (ℕ × α)} {q : Session α} {s s' : State α} {d : Durable α} {fate : Fate}

/-- What is loaded. -/
theorem load_some {b : Bool} {n : ℕ} {x : α} (hat : slot b = some (n, x))
    (hless : ∀ m y, slot (!b) = some (m, y) → m < n) : load slot = some ⟨b, n, x, false⟩ := by
  cases b with
  | false =>
    rw [load, hat]
    cases hother : slot true with
    | none => rfl
    | some p => exact if_pos (hless p.1 p.2 hother)
  | true =>
    rw [load, hat]
    cases hother : slot false with
    | none => rfl
    | some p => exact if_neg (not_lt.2 (hless p.1 p.2 hother).le)

theorem load_none (hnone : ∀ b, slot b = none) : load slot = none := by rw [load, hnone, hnone]

theorem load_eq_none (h : load slot = none) (b : Bool) : slot b = none := by
  rw [load] at h
  cases hf : slot false with
  | none =>
    cases ht : slot true with
    | none => cases b <;> assumption
    | some p =>
      rw [hf, ht] at h
      cases h
  | some p =>
    cases ht : slot true with
    | none =>
      rw [hf, ht] at h
      cases h
    | some p' =>
      rw [hf, ht] at h
      simp only at h
      split_ifs at h

/-- A save of a value that has changed. -/
theorem keeps_save (hchanged : q.changed = true) (hquiet : fate.Quiet)
    (hsaved : d.durable = none ∧ (∀ b, slot b = none) ∨
      ∃ x, d.durable = some x ∧ slot q.current = some (q.count, x) ∧
        ∀ m y, slot (!q.current) = some (m, y) → m < q.count) :
    ∃ d', d.save q.working fate = some d' ∧ Keeps (save slot q fate) d' := by
  have hne : (!q.current) ≠ q.current := Bool.not_ne_self _
  cases fate with
  | failed changed => exact hquiet.elim
  | done =>
    refine ⟨_, rfl, ?_⟩
    rw [save, if_pos hchanged]
    refine Keeps.on (q := q.next false) (Function.update_self ..) ?_ fun _ => rfl
    intro m y hm
    rw [Session.next, Bool.not_not, Function.update_of_ne hne.symm] at hm
    rcases hsaved with ⟨-, hnone⟩ | ⟨x, -, hat, -⟩
    · rw [hnone] at hm
      exact absurd hm (by simp)
    · rw [hat, Option.some.injEq, Prod.mk.injEq] at hm
      exact hm.1 ▸ Nat.lt_succ_self _
  | cut =>
    refine ⟨_, rfl, ?_⟩
    rw [save, if_pos hchanged]
    rcases hsaved with ⟨hd, hnone⟩ | ⟨x, hd, hat, -⟩
    · rw [hd]
      refine Keeps.blank fun b => ?_
      rcases eq_or_ne b (!q.current) with rfl | hb
      · exact Function.update_self ..
      · rw [Function.update_of_ne hb, hnone]
    · rw [hd]
      refine Keeps.off (b := q.current) (n := q.count) ?_ fun m y hm => ?_
      · rw [Function.update_of_ne hne.symm, hat]
      · rw [Function.update_self] at hm
        exact absurd hm (by simp)

/-- **Without a reported failure** the slots keep the saved value. -/
theorem step_durable {e : Event ω} (hk : Keeps s d) (hquiet : e.Quiet) (hs : step apply init s e = some s') :
    ∃ d', d.step apply init e = some d' ∧ Keeps s' d' := by
  cases hk with
  | @blank slot hnone =>
    cases e with
    | work | save => cases hs
    | cut =>
      cases hs
      exact ⟨_, rfl, Keeps.blank hnone⟩
    | boot first second =>
      rw [step, load_none hnone] at hs
      obtain rfl := Option.some.inj hs
      cases first with
      | failed => exact hquiet.1.elim
      | cut => exact keeps_save (d := ⟨none, none⟩) (q := fresh init) rfl (show Fate.Quiet .cut from trivial) (.inl ⟨rfl, hnone⟩)
      | done =>
        refine keeps_save (d := ⟨some init, some init⟩) (q := (fresh init).next true) rfl hquiet.2 (.inr ⟨init, rfl, ?_, ?_⟩)
        · exact Function.update_self false (some (1, init)) slot
        · intro m y hm
          have hne : true ≠ !(fresh init).current := by simp [fresh]
          have hother := Function.update_of_ne hne (some ((fresh init).count + 1, init)) slot
          rw [hnone] at hother
          exact absurd (hother.symm.trans hm) (by simp)
  | off hat hless =>
    cases e with
    | work | save => cases hs
    | cut =>
      cases hs
      exact ⟨_, rfl, Keeps.off hat hless⟩
    | boot first second =>
      rw [step, load_some hat hless] at hs
      obtain rfl := Option.some.inj hs
      exact ⟨_, rfl, Keeps.on (q := ⟨_, _, _, false⟩) hat hless fun _ => rfl⟩
  | @on slot q x hat hless hsame =>
    cases e with
    | boot => cases hs
    | cut =>
      cases hs
      exact ⟨_, rfl, Keeps.off hat hless⟩
    | work op =>
      obtain rfl := Option.some.inj hs
      refine ⟨_, rfl, ?_⟩
      rw [Session.work]
      cases apply op q.working with
      | none => exact Keeps.on hat hless hsame
      | some w => exact Keeps.on (q := { q with working := w, changed := true }) hat hless (by simp)
    | save fate =>
      obtain rfl := Option.some.inj hs
      cases hchanged : q.changed with
      | true => exact keeps_save (d := ⟨some x, some q.working⟩) hchanged hquiet (.inr ⟨x, rfl, hat, hless⟩)
      | false =>
        have hx := hsame hchanged
        cases fate with
        | failed => exact hquiet.elim
        | done =>
          refine ⟨_, rfl, ?_⟩
          rw [save, if_neg (by rw [hchanged]; exact Bool.false_ne_true), ← hx]
          nth_rewrite 2 [hx]
          exact Keeps.on hat hless hsame
        | cut =>
          refine ⟨_, rfl, ?_⟩
          rw [save, if_neg (by rw [hchanged]; exact Bool.false_ne_true)]
          exact Keeps.off hat hless

/-! ## The numbers -/

/-- What holds of every slot and its number, and of the current one. -/
structure Numbers (P : Bool → ℕ → Prop) (s : State α) : Prop where
  slots : ∀ b n x, s.slot b = some (n, x) → P b n
  session : ∀ q, s.session = some q → P q.current q.count

/-- What is loaded is what a slot holds. -/
theorem load_slot (h : load slot = some q) : slot q.current = some (q.count, q.working) := by
  rw [load] at h
  cases hf : slot false with
  | none =>
    cases ht : slot true with
    | none =>
      rw [hf, ht] at h
      cases h
    | some p =>
      rw [hf, ht] at h
      cases h
      exact ht
  | some p =>
    cases ht : slot true with
    | none =>
      rw [hf, ht] at h
      cases h
      exact hf
    | some p' =>
      rw [hf, ht] at h
      simp only at h
      split_ifs at h
      · cases h
        exact hf
      · cases h
        exact ht

section Numbers

variable {P : ℕ → Bool → ℕ → Prop} {k : ℕ}

theorem Numbers.mono (hmono : ∀ k b n, P k b n → P (k + 1) b n) (h : Numbers (P k) s) : Numbers (P (k + 1)) s :=
  ⟨fun b n x hb => hmono k b n (h.slots b n x hb), fun q hq => hmono k _ _ (h.session q hq)⟩

theorem numbers_save (hmono : ∀ k b n, P k b n → P (k + 1) b n) (hnext : ∀ k b n, P k b n → P (k + 1) (!b) (n + 1))
    (hslots : ∀ b n x, slot b = some (n, x) → P k b n) (hq : P k q.current q.count) (fate : Fate) :
    Numbers (P (k + 1)) (save slot q fate) := by
  have hother : ∀ z : Option (ℕ × α), (∀ n x, z = some (n, x) → n = q.count + 1) → ∀ b n x,
      Function.update slot (!q.current) z b = some (n, x) → P (k + 1) b n := by
    intro z hz b n x hb
    rcases eq_or_ne b (!q.current) with rfl | hne
    · rw [Function.update_self] at hb
      rw [hz n x hb]
      exact hnext k _ _ hq
    · rw [Function.update_of_ne hne] at hb
      exact hmono k b n (hslots b n x hb)
  have hsame : Numbers (P (k + 1)) (⟨slot, some q⟩ : State α) :=
    ⟨fun b n x hb => hmono k b n (hslots b n x hb), fun q' h => Option.some.inj h ▸ hmono k _ _ hq⟩
  cases fate with
  | done =>
    rw [save]
    split_ifs
    · exact ⟨hother _ fun n x h => (congrArg Prod.fst (Option.some.inj h)).symm,
        fun q' h => Option.some.inj h ▸ hnext k _ _ hq⟩
    · exact hsame
  | failed changed =>
    rw [save]
    split_ifs
    · exact ⟨hother _ fun n x h => absurd h (by simp), fun q' h => Option.some.inj h ▸ hnext k _ _ hq⟩
    · exact hsame
  | cut =>
    rw [save]
    split_ifs
    · exact ⟨hother _ fun n x h => absurd h (by simp), fun q' h => absurd h (by simp)⟩
    · exact ⟨hsame.slots, fun q' h => absurd h (by simp)⟩

/-- **What holds of the numbers** in every run, failures or not: a step saves twice at most. -/
theorem step_numbers (hmono : ∀ k b n, P k b n → P (k + 1) b n) (hnext : ∀ k b n, P k b n → P (k + 1) (!b) (n + 1))
    (hfresh : ∀ k, P k true 0) {e : Event ω} (h : Numbers (P k) s) (hs : step apply init s e = some s') :
    Numbers (P (k + 2)) s' := by
  obtain ⟨slot, session⟩ := s
  cases e with
  | work op =>
    cases session with
    | none => cases hs
    | some q =>
      obtain rfl := Option.some.inj hs
      have hq := h.session q rfl
      refine Numbers.mono hmono (Numbers.mono hmono ⟨h.slots, fun q' hq' => ?_⟩)
      obtain rfl := Option.some.inj hq'
      rw [Session.work]
      cases apply op q.working with
      | none => exact hq
      | some x => exact hq
  | save fate =>
    cases session with
    | none => cases hs
    | some q =>
      obtain rfl := Option.some.inj hs
      exact (numbers_save hmono hnext h.slots (h.session q rfl) fate).mono hmono
  | cut =>
    have hs' : some (⟨slot, none⟩ : State α) = some s' := by
      rw [← hs]
      cases session <;> rfl
    obtain rfl := Option.some.inj hs'
    exact Numbers.mono hmono (Numbers.mono hmono ⟨h.slots, fun q hq => absurd hq (by simp)⟩)
  | boot first second =>
    cases session with
    | some q => cases hs
    | none =>
      rw [step] at hs
      cases hload : load slot with
      | some q =>
        rw [hload] at hs
        obtain rfl := Option.some.inj hs
        refine Numbers.mono hmono (Numbers.mono hmono ⟨h.slots, fun q' hq' => ?_⟩)
        obtain rfl := Option.some.inj hq'
        exact h.slots _ _ _ (load_slot hload)
      | none =>
        rw [hload] at hs
        obtain rfl := Option.some.inj hs
        have hfirst := numbers_save hmono hnext h.slots (q := fresh init) (hfresh k) first
        cases first with
        | failed | cut => exact hfirst.mono hmono
        | done =>
          exact numbers_save hmono hnext (q := (fresh init).next true) hfirst.slots
            (hfirst.session ((fresh init).next false) rfl) second

end Numbers

/-- One slot has the odd numbers, the other the even ones. -/
abbrev Alternate (s : State α) : Prop := Numbers (fun b n => n % 2 = 1 ↔ b = false) s

theorem step_alternate {e : Event ω} (h : Alternate s) (hs : step apply init s e = some s') : Alternate s' := by
  refine step_numbers (P := fun _ b n => n % 2 = 1 ↔ b = false) (k := 0) (fun _ _ _ h => h) ?_ (by simp) h hs
  intro _ b n hb
  cases b with
  | true =>
    have hodd : ¬ n % 2 = 1 := fun h => absurd (hb.1 h) (by decide)
    exact iff_of_true (by omega) rfl
  | false =>
    have hodd := hb.2 rfl
    exact iff_of_false (by omega) (by decide)

/-- No number is above the bound. -/
abbrev Bounded (s : State α) (bound : ℕ) : Prop := Numbers (fun _ n => n ≤ bound) s

theorem step_bounded {e : Event ω} {bound : ℕ} (h : Bounded s bound) (hs : step apply init s e = some s') :
    Bounded s' (bound + 2) :=
  step_numbers (P := fun k _ n => n ≤ k) (fun _ _ _ h => h.trans (Nat.le_succ _)) (fun _ _ _ h => Nat.succ_le_succ h)
    (fun _ => Nat.zero_le _) h hs

end Step

end TwoSlots
