import W601.Lib.Cells
import W601.Lib.CMem
import W601.Lib.Scanf

/-!
# Wake-on-LAN

`wol_str` reads a hardware address with three formats, one after the other into the same six bytes, and `do_wol`
broadcasts the packet that wakes the machine with that address.

* `magicData_eq`: the packet is six bytes `0xFF` and sixteen copies of the address.
* `wolStr_macText`: every address with one separator is read right, whatever an earlier format left in the bytes.
* `wakes_exactly_iff`: the texts for which a packet goes out to just the address written. The conversions take more
  than two digits, signs and marks, and nothing looks behind the sixth.
-/

namespace W601.Wol

open CMem (text)
open Cells (overwrite)
open Scanf

/-- How the network answers: the result of `socket`, and of `sendto`. -/
structure Net where
  sock : ℤ
  sendto : ℤ

/-- The answer of a call and the datagrams that went out. -/
structure Outcome where
  ret : ℤ
  sent : List (List UInt8)
deriving DecidableEq

/-- `magic_data`: all `0xFF`, and the address copied sixteen times behind the first six. -/
def magicData (mac : List UInt8) : List UInt8 :=
  (List.range 16).foldl (fun data index => overwrite data (6 + index * 6) mac) (List.replicate 102 0xff)

/-- `do_wol`. -/
def doWol (net : Net) (mac : List UInt8) : Outcome :=
  if net.sock = -1 then ⟨-1, []⟩
  -- the socket is not closed on this way out
  else if net.sendto ≠ (magicData mac).length then ⟨-1, []⟩
  else ⟨0, [magicData mac]⟩

/-- The formats of `wol_str`: six numbers with `sep` between them. -/
def sixHex (sep : Directive) : List Directive :=
  [.hhx, sep, .hhx, sep, .hhx, sep, .hhx, sep, .hhx, sep, .hhx]

/-- `:`, `-` and white space, in the order of the calls. -/
def separators : List Directive := [.literal 58, .literal 45, .space]

/-- The calls of `sscanf` and what follows them. -/
def tryFormats (net : Net) (macStr : List UInt8) : List Directive → List UInt8 → Outcome
  | [], _ => ⟨-1, []⟩
  | sep :: seps, mac =>
    let stored := scan (sixHex sep) macStr
    let mac := overwrite mac 0 stored
    if stored.length = 6 then doWol net mac else tryFormats net macStr seps mac

/-- `wol_str`. -/
def wolStr (net : Net) (macStr : List UInt8) : Outcome := tryFormats net macStr separators (List.replicate 6 0)

/-! ## What the call is for -/

/-- One or two hexadecimal digits. -/
def Group (g : List UInt8) : Prop := (g.length = 1 ∨ g.length = 2) ∧ ∀ c ∈ g, isHex c = true

/-- Six groups with one of `:`, `-` and a space between them, and nothing else. -/
structure MacText (s mac : List UInt8) : Prop where
  written : ∃ sep ∈ ([58, 45, 32] : List UInt8), ∃ groups : List (List UInt8), groups.length = 6 ∧
    (∀ g ∈ groups, Group g) ∧ s = [sep].intercalate groups ∧ mac = groups.map fun g => UInt8.ofNat (value g)

/-- The packet that wakes `mac`. -/
def magicPacket (mac : List UInt8) : List UInt8 := List.replicate 6 0xff ++ (List.replicate 16 mac).flatten

/-- A packet goes out for an address only, and to that address; for any other text the call answers `-1`. -/
structure WakesExactly (net : Net) (s : List UInt8) : Prop where
  address : ∀ mac, MacText s mac → (wolStr net s).sent = [magicPacket mac]
  other : (¬ ∃ mac, MacText s mac) → wolStr net s = ⟨-1, []⟩

/-- There is a socket and the whole packet goes out. -/
def Net.Up (net : Net) : Prop := net.sock ≠ -1 ∧ net.sendto = 102

/-- One of the formats takes the text. -/
def Scanned (s : List UInt8) : Prop := ∃ sep ∈ separators, ∃ vs, Matches (sixHex sep) s vs

/-! ## The packet -/

/-- The packet after `k` rounds of the loop. -/
theorem magicData_round {mac : List UInt8} (hmac : mac.length = 6) : ∀ k ≤ 16,
    (List.range k).foldl (fun data index => overwrite data (6 + index * 6) mac) (List.replicate 102 0xff) =
      List.replicate 6 0xff ++ (List.replicate k mac).flatten ++ List.replicate (96 - 6 * k) 0xff := by
  intro k
  induction k with
  | zero => intro _; rfl
  | succ k ih =>
    intro hk
    have hlen : 6 + k * 6 = (List.replicate 6 (0xff : UInt8) ++ (List.replicate k mac).flatten).length := by
      rw [List.length_append, List.length_replicate, List.length_flatten, List.map_replicate, List.sum_replicate, hmac,
        smul_eq_mul]
    have hleft : 96 - 6 * k - 6 = 96 - 6 * (k + 1) := by omega
    rw [List.range_succ, List.foldl_append, ih (by omega), List.foldl_cons, List.foldl_nil, hlen,
      Cells.overwrite_padding, hmac, hleft, List.replicate_succ' (n := k), List.flatten_append, List.flatten_singleton,
      List.append_assoc (List.replicate 6 0xff)]

/-- **The packet** is six bytes `0xFF` and sixteen copies of the address. -/
theorem magicData_eq {mac : List UInt8} (hmac : mac.length = 6) : magicData mac = magicPacket mac := by
  rw [magicData, magicData_round hmac 16 le_rfl]
  simp [magicPacket]

theorem doWol_eq {net : Net} {mac : List UInt8} (hmac : mac.length = 6) :
    (net.Up → doWol net mac = ⟨0, [magicPacket mac]⟩) ∧ (¬ net.Up → doWol net mac = ⟨-1, []⟩) := by
  have hlen : ((magicPacket mac).length : ℤ) = 102 := by simp [magicPacket, hmac]
  rw [doWol, magicData_eq hmac, hlen]
  constructor
  · rintro ⟨hsock, hsend⟩
    rw [if_neg hsock, if_neg (not_not.2 hsend)]
  · intro hdown
    split_ifs with hsock hsend
    · rfl
    · rfl
    · exact absurd ⟨hsock, not_not.1 hsend⟩ hdown

/-! ## The formats -/

theorem count_sixHex {sep : Directive} (hsep : sep ∈ separators) : (sixHex sep).count .hhx = 6 := by
  revert sep
  decide

theorem scan_six_iff {sep : Directive} (hsep : sep ∈ separators) {s : List UInt8} :
    (scan (sixHex sep) s).length = 6 ↔ ∃ vs, Matches (sixHex sep) s vs := by
  rw [← count_sixHex hsep]
  exact scan_complete_iff rfl

section Calls

variable (net : Net) {s mac vs : List UInt8} {sep : Directive} (seps : List Directive)

/-- A format that stores six values wakes their machine, whatever was in the bytes before. -/
theorem tryFormats_hit (hvs : scan (sixHex sep) s = vs) (hlen : vs.length = 6) (hmac : mac.length = 6) :
    tryFormats net s (sep :: seps) mac = doWol net vs := by
  have hall : overwrite mac 0 vs = vs := Cells.overwrite_of_le (by omega)
  rw [tryFormats, hvs, if_pos hlen, hall]

/-- After any other format the next one follows. -/
theorem tryFormats_miss (hsep : sep ∈ separators) (hlen : (scan (sixHex sep) s).length ≠ 6) (hmac : mac.length = 6) :
    ∃ m : List UInt8, m.length = 6 ∧ tryFormats net s (sep :: seps) mac = tryFormats net s seps m := by
  have hle := scan_length_le (sixHex sep) s
  rw [count_sixHex hsep] at hle
  refine ⟨overwrite mac 0 (scan (sixHex sep) s), ?_, by rw [tryFormats, if_neg hlen]⟩
  rw [Cells.overwrite_length (by omega), hmac]

/-- A text that one of the formats takes wakes some machine. -/
theorem tryFormats_scanned (hseps : ∀ d ∈ seps, d ∈ separators) (h : ∃ d ∈ seps, ∃ vs, Matches (sixHex d) s vs)
    (hmac : mac.length = 6) : ∃ vs, vs.length = 6 ∧ tryFormats net s seps mac = doWol net vs := by
  induction seps generalizing mac with
  | nil => exact absurd h (by simp)
  | cons sep seps ih =>
    have hsep := hseps sep List.mem_cons_self
    by_cases hlen : (scan (sixHex sep) s).length = 6
    · exact ⟨_, hlen, tryFormats_hit net seps rfl hlen hmac⟩
    · obtain ⟨m, hm, hnext⟩ := tryFormats_miss net seps hsep hlen hmac
      obtain ⟨d, hd, hvs⟩ := h
      have hd' : d ∈ seps := by
        rcases List.mem_cons.1 hd with rfl | hd
        · exact absurd ((scan_six_iff hsep).2 hvs) hlen
        · exact hd
      obtain ⟨vs, hsix, heq⟩ := ih (fun e he => hseps e (List.mem_cons_of_mem _ he)) ⟨d, hd', hvs⟩ hm
      exact ⟨vs, hsix, hnext.trans heq⟩

/-- A text that none of them takes wakes nobody. -/
theorem tryFormats_refused (hseps : ∀ d ∈ seps, d ∈ separators) (h : ¬ ∃ d ∈ seps, ∃ vs, Matches (sixHex d) s vs)
    (hmac : mac.length = 6) : tryFormats net s seps mac = ⟨-1, []⟩ := by
  induction seps generalizing mac with
  | nil => rfl
  | cons sep seps ih =>
    have hsep := hseps sep List.mem_cons_self
    have hlen : (scan (sixHex sep) s).length ≠ 6 := fun hlen =>
      h ⟨sep, List.mem_cons_self, (scan_six_iff hsep).1 hlen⟩
    obtain ⟨m, hm, hnext⟩ := tryFormats_miss net seps hsep hlen hmac
    rw [hnext]
    exact ih (fun e he => hseps e (List.mem_cons_of_mem _ he))
      (fun ⟨d, hd, hvs⟩ => h ⟨d, List.mem_cons_of_mem _ hd, hvs⟩) hm

end Calls

/-! ## Addresses -/

theorem two_of_length {groups : List (List UInt8)} {n : ℕ} (h : groups.length = n + 2) :
    ∃ g g' r, groups = g :: g' :: r := by
  match groups, h with
  | g :: g' :: r, _ => exact ⟨g, g', r, rfl⟩

/-- A group is a number, with a separator or the end behind it. -/
theorem Group.number {g : List UInt8} (hg : Group g) (rest : List UInt8) (hhex : rest.head?.any isHex = false)
    (hmark : rest.head?.any isMark = false) : Number (g ++ rest) (UInt8.ofNat (value g)) rest := by
  have hne : g ≠ [] := by
    rintro rfl
    simp [Group] at hg
  have h := @Number.mk [] [] [] g rest false (by simp) (by simp) (by simp) hne hg.2 hhex fun _ _ => hmark
  exact h

theorem Group.head {g : List UInt8} (hg : Group g) (rest : List UInt8) : (g ++ rest).head?.any isHex = true := by
  cases g with
  | nil => simp [Group] at hg
  | cons c g => simpa using hg.2 c List.mem_cons_self

/-- `c` stands in a text where the format has `sep`. -/
def Joins (sep : Directive) (c : UInt8) : Prop :=
  isHex c = false ∧ isMark c = false ∧ ∀ {f : List Directive} {s vs : List UInt8}, s.head?.any isHex = true →
    Matches f s vs → Matches (sep :: f) (c :: s) vs

theorem joins_literal {c : UInt8} (hhex : isHex c = false) (hmark : isMark c = false) : Joins (.literal c) c :=
  ⟨hhex, hmark, fun _ h => .literal h⟩

theorem joins_space : Joins .space 32 := by
  refine ⟨rfl, rfl, fun {f s vs} hs h => ?_⟩
  cases s with
  | nil => simp at hs
  | cons d s =>
    have hd := (hex_plain (by simpa using hs : isHex d = true)).1
    have hws : ∀ c ∈ ([32] : List UInt8), CNum.isSpace c = true := List.forall_mem_singleton.2 rfl
    exact .space hws (by simpa using hd) h

/-- `n + 1` numbers with `sep` between them. -/
def numbers (sep : Directive) : ℕ → List Directive
  | 0 => [.hhx]
  | n + 1 => .hhx :: sep :: numbers sep n

/-- **Groups with the separator of the format between them are read as they are written.** -/
theorem groups_matches {sep : Directive} {c : UInt8} (hjoin : Joins sep c) {groups : List (List UInt8)} {n : ℕ}
    (hn : groups.length = n + 1) (hg : ∀ g ∈ groups, Group g) :
    Matches (numbers sep n) ([c].intercalate groups) (groups.map fun g => UInt8.ofNat (value g)) ∧
      ([c].intercalate groups).head?.any isHex = true := by
  induction n generalizing groups with
  | zero =>
    obtain ⟨g, rfl⟩ := List.length_eq_one_iff.1 hn
    have hgroup := hg g List.mem_cons_self
    have hnum := hgroup.number [] rfl rfl
    have hhead := hgroup.head []
    rw [List.append_nil] at hnum hhead
    rw [List.intercalate_singleton]
    exact ⟨.hhx hnum (.done []), hhead⟩
  | succ n ih =>
    obtain ⟨g, g', groups, rfl⟩ := two_of_length hn
    have hgroup := hg g List.mem_cons_self
    have hlen : (g' :: groups).length = n + 1 := by simpa using hn
    obtain ⟨hrest, hhead⟩ := ih hlen fun x hx => hg x (List.mem_cons_of_mem _ hx)
    obtain ⟨hhex, hmark, hjoins⟩ := hjoin
    rw [List.intercalate_cons_cons, List.append_assoc]
    refine ⟨.hhx (hgroup.number _ ?_ ?_) (hjoins hhead hrest), hgroup.head _⟩
    · exact hhex
    · exact hmark

/-- A format with another separator stores one value and stops. -/
theorem scan_other {g rest : List UInt8} {c d : UInt8} (hg : Group g) (hhex : isHex c = false) (hmark : isMark c = false)
    (hcd : c ≠ d) : (scan (sixHex (.literal d)) (g ++ c :: rest)).length ≠ 6 := by
  have hnum := (hg.number (c :: rest) hhex hmark).scanHex
  rw [sixHex, scan, hnum]
  simp [scan, hcd]

/-- **Every address is read right**: the format of its separator is the first that stores six values. -/
theorem wolStr_macText (net : Net) {s mac : List UInt8} (h : MacText s mac) :
    mac.length = 6 ∧ wolStr net s = doWol net mac := by
  obtain ⟨c, hc, groups, hsix, hg, rfl, rfl⟩ := h
  have hlen : (groups.map fun g => UInt8.ofNat (value g)).length = 6 := by rw [List.length_map, hsix]
  have hzero : (List.replicate 6 (0 : UInt8)).length = 6 := rfl
  refine ⟨hlen, ?_⟩
  have hother : ∀ d, isHex c = false → isMark c = false → c ≠ d →
      (scan (sixHex (.literal d)) ([c].intercalate groups)).length ≠ 6 := by
    intro d hhex hmark hcd
    obtain ⟨g, g', r, rfl⟩ := two_of_length hsix
    rw [List.intercalate_cons_cons, List.append_assoc]
    exact scan_other (hg g List.mem_cons_self) hhex hmark hcd
  have hcolon : Directive.literal 58 ∈ separators := by decide
  have hdash : Directive.literal 45 ∈ separators := by decide
  simp only [List.mem_cons, List.not_mem_nil, or_false] at hc
  rcases hc with rfl | rfl | rfl
  · exact tryFormats_hit net _ (groups_matches (joins_literal rfl rfl) hsix hg).1.scan hlen hzero
  · obtain ⟨m, hm, hnext⟩ := tryFormats_miss net [.literal 45, .space] hcolon (hother 58 rfl rfl (by decide)) hzero
    rw [wolStr, separators, hnext]
    exact tryFormats_hit net _ (groups_matches (joins_literal rfl rfl) hsix hg).1.scan hlen hm
  · obtain ⟨m, hm, hnext⟩ := tryFormats_miss net [.literal 45, .space] hcolon (hother 58 rfl rfl (by decide)) hzero
    obtain ⟨m', hm', hnext'⟩ := tryFormats_miss net [.space] hdash (hother 45 rfl rfl (by decide)) hm
    rw [wolStr, separators, hnext, hnext']
    exact tryFormats_hit net _ (groups_matches joins_space hsix hg).1.scan hlen hm'

theorem length_joined (c : UInt8) {groups : List (List UInt8)} {n : ℕ} (hn : groups.length = n + 1)
    (hg : ∀ g ∈ groups, Group g) : ([c].intercalate groups).length ≤ 3 * n + 2 := by
  induction n generalizing groups with
  | zero =>
    obtain ⟨g, rfl⟩ := List.length_eq_one_iff.1 hn
    have hlen := (hg g List.mem_cons_self).1
    rw [List.intercalate_singleton]
    omega
  | succ n ih =>
    obtain ⟨g, g', r, rfl⟩ := two_of_length hn
    have hlen := (hg g List.mem_cons_self).1
    have hrest := ih (by simpa using hn : (g' :: r).length = n + 1) fun x hx => hg x (List.mem_cons_of_mem _ hx)
    rw [List.intercalate_cons_cons, List.length_append, List.length_append, List.length_singleton]
    omega

/-- An address has 17 characters at most. -/
theorem MacText.length_le {s mac : List UInt8} (h : MacText s mac) : s.length ≤ 17 := by
  obtain ⟨c, -, groups, hsix, hg, rfl, -⟩ := h
  exact length_joined c hsix hg

/-- **When just the machines written are woken**: for an address when the network takes the packet, and for another
text when it does not or no format takes the text. -/
theorem wakes_exactly_iff (net : Net) (s : List UInt8) :
    WakesExactly net s ↔
      ((∃ mac, MacText s mac) ∧ net.Up) ∨ ((¬ ∃ mac, MacText s mac) ∧ (¬ net.Up ∨ ¬ Scanned s)) := by
  by_cases hs : ∃ mac, MacText s mac
  · have hiff : WakesExactly net s ↔ net.Up := by
      constructor
      · intro h
        obtain ⟨mac, hmac⟩ := hs
        obtain ⟨hsix, hcall⟩ := wolStr_macText net hmac
        by_contra hdown
        have hsent := h.address mac hmac
        rw [hcall, (doWol_eq hsix).2 hdown] at hsent
        exact absurd hsent (by simp)
      · intro hup
        refine ⟨fun mac hmac => ?_, fun hno => absurd hs hno⟩
        obtain ⟨hsix, hcall⟩ := wolStr_macText net hmac
        rw [hcall, (doWol_eq hsix).1 hup]
    rw [hiff, and_iff_right hs, or_iff_left fun h => h.1 hs]
  · have hiff : WakesExactly net s ↔ wolStr net s = ⟨-1, []⟩ :=
      ⟨fun h => h.other hs, fun h => ⟨fun mac hmac => absurd ⟨mac, hmac⟩ hs, fun _ => h⟩⟩
    have hcall : wolStr net s = ⟨-1, []⟩ ↔ ¬ net.Up ∨ ¬ Scanned s := by
      by_cases hscan : Scanned s
      · obtain ⟨vs, hsix, hvs⟩ :=
          tryFormats_scanned net separators (fun _ h => h) hscan (List.length_replicate (n := 6))
        have heq : wolStr net s = doWol net vs := hvs
        rw [heq, or_iff_left (not_not.2 hscan)]
        refine ⟨fun h hup => ?_, (doWol_eq hsix).2⟩
        rw [(doWol_eq hsix).1 hup] at h
        exact absurd h (by simp)
      · have heq : wolStr net s = ⟨-1, []⟩ :=
          tryFormats_refused net separators (fun _ h => h) hscan (List.length_replicate (n := 6))
        exact iff_of_true heq (Or.inr hscan)
    rw [hiff, hcall]
    exact ⟨fun h => Or.inr ⟨hs, h⟩, fun h => h.elim (fun h => absurd h.1 hs) And.right⟩

/-- Seven groups wake the machine of the first six. -/
theorem seven_groups_wake : ¬ WakesExactly ⟨1, 102⟩ (text "00:01:02:03:04:05:06") := by
  intro h
  have hno : ¬ ∃ mac, MacText (text "00:01:02:03:04:05:06") mac := fun ⟨_, hmac⟩ => absurd hmac.length_le (by decide)
  exact absurd (h.other hno) (by decide +kernel)

example : (wolStr ⟨1, 102⟩ (text "0 1a 2 3 4 05")).sent = [magicPacket [0, 26, 2, 3, 4, 5]] := by decide +kernel

end W601.Wol
