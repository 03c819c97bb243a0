import W601.Lib.CMem
import W601.Lib.Printf

/-!
# JSON texts of cJSON (`cJSON.c`)

Printing of flat objects without white space, and parsing. A number is kept as the characters it is made of. Where the
parser would read behind the end of the text (a text that ends within an escape) there is no result.

* `parseString_print`: a printed string is read back.
* `parse_print`: a printed object is read back.
* `thin_printObject`: an output of a printed object given to `printf` as a format is the print of other strings.
-/

namespace W601.Json

open CMem Printf

/-! ## Printing -/

/-- The digits of `%x`. -/
def hexChar (n : ℕ) : UInt8 := if n < 10 then UInt8.ofNat (48 + n) else UInt8.ofNat (87 + n)

/-- What `print_string_ptr` makes of one character in its second loop. -/
def escape (c : UInt8) : List UInt8 :=
  if 31 < c ∧ c ≠ 34 ∧ c ≠ 92 then [c]
  else if c = 92 then [92, 92]
  else if c = 34 then [92, 34]
  else if c = 8 then [92, 98]
  else if c = 12 then [92, 102]
  else if c = 10 then [92, 110]
  else if c = 13 then [92, 114]
  else if c = 9 then [92, 116]
  -- `sprintf(ptr2,"u%04x",token)`
  else [92, 117, 48, 48, hexChar (c.toNat / 16), hexChar (c.toNat % 16)]

/-- `print_string_ptr`, which copies a string that has nothing to escape. -/
def printString (s : List UInt8) : List UInt8 :=
  if ∀ c ∈ s, ¬ ((0 < c ∧ c < 32) ∨ c = 34 ∨ c = 92) then 34 :: s ++ [34]
  else 34 :: s.flatMap escape ++ [34]

/-- The items that are put into an object. -/
inductive Item where
  /-- `cJSON_CreateString`. -/
  | string (s : List UInt8)
  /-- `cJSON_CreateNumber`, of a number that is an `int`. -/
  | number (n : ℕ)

/-- `print_value` of an item. -/
def Item.print : Item → List UInt8
  | string s => printString s
  | number n => text (toString n)

/-- The members of an object, with commas between them. -/
def printMembers : List (List UInt8 × Item) → List UInt8
  | [] => []
  | [m] => printString m.1 ++ 58 :: m.2.print
  | m :: ms => printString m.1 ++ 58 :: (m.2.print ++ 44 :: printMembers ms)

/-- `cJSON_PrintUnformatted` of an object. -/
def printObject (ms : List (List UInt8 × Item)) : List UInt8 := 123 :: printMembers ms ++ [125]

/-! ## Parsing -/

/-- What the parser makes. -/
inductive Value where
  | null
  | false
  | true
  | number (chars : List UInt8)
  | string (s : List UInt8)
  | array (l : List Value)
  | object (l : List (List UInt8 × Value))

/-- `skip`. -/
def skip (t : List UInt8) : List UInt8 := t.dropWhile (· ≤ 32)

/-- One digit of `parse_hex4`. -/
def hexDigit (c : UInt8) : Option ℕ :=
  if 48 ≤ c ∧ c ≤ 57 then some (c.toNat - 48)
  else if 65 ≤ c ∧ c ≤ 70 then some (10 + c.toNat - 65)
  else if 97 ≤ c ∧ c ≤ 102 then some (10 + c.toNat - 97)
  else none

/-- `parse_hex4`. -/
def parseHex4 (a b c d : UInt8) : ℕ :=
  (do
    let w ← hexDigit a
    let x ← hexDigit b
    let y ← hexDigit c
    let z ← hexDigit d
    return ((w * 16 + x) * 16 + y) * 16 + z).getD 0

/-- The transcoding of a code point to UTF-8. -/
def utf8 (uc : ℕ) : List UInt8 :=
  let low (uc : ℕ) : UInt8 := UInt8.ofNat ((uc ||| 0x80) &&& 0xBF)
  if uc < 0x80 then [UInt8.ofNat uc]
  else if uc < 0x800 then [UInt8.ofNat (uc >>> 6 ||| 0xC0), low uc]
  else if uc < 0x10000 then [UInt8.ofNat (uc >>> 12 ||| 0xE0), low (uc >>> 6), low uc]
  else [UInt8.ofNat (uc >>> 18 ||| 0xF0), low (uc >>> 12), low (uc >>> 6), low uc]

/-- The escapes of one letter. -/
def unescape (e : UInt8) : UInt8 :=
  if e = 98 then 8 else if e = 102 then 12 else if e = 110 then 10 else if e = 114 then 13 else if e = 116 then 9 else e

/-- What is written for a second half of a surrogate pair, and the text behind it. -/
def parseSurrogate (uc : ℕ) : List UInt8 → Option (List UInt8 × List UInt8)
  | [] => some ([], [])
  | b :: t =>
    if b ≠ 92 ∨ t.head? ≠ some 117 then some ([], b :: t)
    else
      match t with
      | _ :: a :: b :: c :: d :: t =>
        let uc2 := parseHex4 a b c d
        if uc2 < 0xDC00 ∨ 0xDFFF < uc2 then some ([], t)
        else some (utf8 (0x10000 + ((uc &&& 0x3FF) <<< 10 ||| (uc2 &&& 0x3FF))), t)
      | _ => none

/-- What is written for an escape with `u`, and the text behind it. -/
def parseUnicode : List UInt8 → Option (List UInt8 × List UInt8)
  | a :: b :: c :: d :: t =>
    let uc := parseHex4 a b c d
    -- not a character: nothing is written
    if (0xDC00 ≤ uc ∧ uc ≤ 0xDFFF) ∨ uc = 0 then some ([], t)
    else if 0xD800 ≤ uc ∧ uc ≤ 0xDBFF then parseSurrogate uc t
    else some (utf8 uc, t)
  | _ => none

/-- What is written for the text behind a backslash, and the text behind the escape. -/
def parseEscape : List UInt8 → Option (List UInt8 × List UInt8)
  | [] => none
  | e :: t => if e = 117 then parseUnicode t else some ([unescape e], t)

/-- The loop of `parse_string`, behind the opening quote: the string and the text behind the closing quote. The text
may end instead. -/
def parseChars : ℕ → List UInt8 → Option (List UInt8 × List UInt8)
  | _, [] => some ([], [])
  | 0, _ :: _ => none
  | n + 1, c :: t =>
    if c = 34 then some ([], t)
    else if c ≠ 92 then (parseChars n t).map fun p => (c :: p.1, p.2)
    else (parseEscape t).bind fun u => (parseChars n u.2).map fun p => (u.1 ++ p.1, p.2)

/-- `parse_string`; the loop goes round once for a character at most. -/
def parseString : List UInt8 → Option (List UInt8 × List UInt8)
  | [] => none
  | c :: t => if c = 34 then parseChars t.length t else none

/-- An optional character. -/
def optChar (p : UInt8 → Bool) : List UInt8 → List UInt8 × List UInt8
  | [] => ([], [])
  | c :: t => if p c then ([c], t) else ([], c :: t)

/-- A digit. -/
def isDigit (c : UInt8) : Bool := 48 ≤ c && c ≤ 57

/-- `parse_number`: the characters of the number, and the text behind it. -/
def parseNumber (t : List UInt8) : List UInt8 × List UInt8 :=
  let (sign, t) := optChar (· = 45) t
  let (zero, t) := optChar (· = 48) t
  let (int, t) := if t.head?.any isDigit && t.head? ≠ some 48 then t.span isDigit else ([], t)
  let (frac, t) :=
    if t.head? = some 46 ∧ t.tail.head?.any isDigit then (46 :: (t.tail.span isDigit).1, (t.tail.span isDigit).2)
    else ([], t)
  let (e, t) := optChar (fun c => c = 101 || c = 69) t
  if e = [] then (sign ++ zero ++ int ++ frac, t)
  else
    let (esign, t) := optChar (fun c => c = 43 || c = 45) t
    (sign ++ zero ++ int ++ frac ++ e ++ esign ++ (t.span isDigit).1, (t.span isDigit).2)

/-- The character that must come next. -/
def expect (c : UInt8) : List UInt8 → Option (List UInt8)
  | [] => none
  | d :: t => if d = c then some t else none

/-- The loop of `parse_array`, with the function that parses a value. -/
def parseElements (value : List UInt8 → Option (Value × List UInt8)) : ℕ → List UInt8 → Option (List Value × List UInt8)
  | 0, _ => none
  | n + 1, t => do
    let (v, t) ← value (skip t)
    match expect 44 (skip t) with
    | some t => (parseElements value n t).map fun p => (v :: p.1, p.2)
    | none => (expect 93 (skip t)).map fun t => ([v], t)

/-- The loop of `parse_object`. -/
def parseMembers (value : List UInt8 → Option (Value × List UInt8)) :
    ℕ → List UInt8 → Option (List (List UInt8 × Value) × List UInt8)
  | 0, _ => none
  | n + 1, t => do
    let (name, t) ← parseString (skip t)
    let t ← expect 58 (skip t)
    let (v, t) ← value (skip t)
    match expect 44 (skip t) with
    | some t => (parseMembers value n t).map fun p => ((name, v) :: p.1, p.2)
    | none => (expect 125 (skip t)).map fun t => ([(name, v)], t)

/-- `parse_value`, for texts of a nesting below the fuel. The loops go round once for a character at most. -/
def parseValue : ℕ → List UInt8 → Option (Value × List UInt8)
  | 0, _ => none
  | n + 1, t =>
    if (text "null").isPrefixOf t then some (.null, t.drop 4)
    else if (text "false").isPrefixOf t then some (.false, t.drop 5)
    else if (text "true").isPrefixOf t then some (.true, t.drop 4)
    else
      match t with
      | [] => none
      | c :: u =>
        if c = 34 then (parseString t).map fun p => (.string p.1, p.2)
        else if c = 45 ∨ isDigit c then some (.number (parseNumber t).1, (parseNumber t).2)
        else if c = 91 then
          match expect 93 (skip u) with
          | some u => some (.array [], u)
          | none => (parseElements (parseValue n) u.length (skip u)).map fun p => (.array p.1, p.2)
        else if c = 123 then
          match expect 125 (skip u) with
          | some u => some (.object [], u)
          | none => (parseMembers (parseValue n) u.length (skip u)).map fun p => (.object p.1, p.2)
        else none

/-- `cJSON_Parse`, which does not look at what is behind the value. -/
def cJSONParse (t : List UInt8) : Option Value := (parseValue (t.length + 1) (skip t)).map (·.1)

/-! ## Strings are read back -/

theorem printString_eq {s : List UInt8} (h0 : 0 ∉ s) : printString s = 34 :: s.flatMap escape ++ [34] := by
  unfold printString
  split_ifs with h
  · have hself : s.flatMap escape = s := by
      conv_rhs => rw [← List.flatMap_singleton' s]
      apply List.flatMap_congr
      intro c hc
      have hne : c ≠ 0 := fun he => h0 (he ▸ hc)
      have hc := h c hc
      push Not at hc
      have h31 : 31 < c := by
        by_contra hle
        have hpos : 0 < c := by
          rw [UInt8.lt_iff_toNat_lt]
          have : c.toNat ≠ 0 := fun he => hne (UInt8.toNat_inj.1 he)
          exact Nat.pos_of_ne_zero this
        have h32 := hc.1 hpos
        rw [UInt8.lt_iff_toNat_lt] at hle
        rw [UInt8.lt_iff_toNat_lt] at h32
        have e1 : (31 : UInt8).toNat = 31 := rfl
        have e2 : (32 : UInt8).toNat = 32 := rfl
        omega
      rw [escape, if_pos ⟨h31, hc.2⟩]
    rw [hself]
  · rfl

theorem hexDigit_hexChar {n : ℕ} (h : n < 16) : hexDigit (hexChar n) = some n := by
  revert n
  decide

theorem parseHex4_byte {n : ℕ} (h : n < 256) : parseHex4 48 48 (hexChar (n / 16)) (hexChar (n % 16)) = n := by
  unfold parseHex4
  rw [hexDigit_hexChar (by omega), hexDigit_hexChar (by omega)]
  show ((0 * 16 + 0) * 16 + n / 16) * 16 + n % 16 = n
  omega

/-- **One character is read back.** -/
theorem parseChars_escape {c : UInt8} (h0 : c ≠ 0) (n : ℕ) (t : List UInt8) :
    parseChars (n + 1) (escape c ++ t) = (parseChars n t).map fun p => (c :: p.1, p.2) := by
  unfold escape
  split_ifs with hplain hb hq h1 h2 h3 h4 h5
  · rw [List.singleton_append, parseChars, if_neg hplain.2.1, if_pos hplain.2.2]
  · subst hb; rfl
  · subst hq; rfl
  · subst h1; rfl
  · subst h2; rfl
  · subst h3; rfl
  · subst h4; rfl
  · subst h5; rfl
  · -- a control character
    have hlt : c.toNat < 32 := by
      by_contra hge
      refine hplain ⟨?_, hq, hb⟩
      rw [UInt8.lt_iff_toNat_lt]
      have e1 : (31 : UInt8).toNat = 31 := rfl
      omega
    have hne : c.toNat ≠ 0 := fun he => h0 (UInt8.toNat_inj.1 he)
    have hhex := parseHex4_byte (n := c.toNat) (by omega)
    have hutf : utf8 c.toNat = [c] := by
      unfold utf8
      rw [if_pos (by omega), UInt8.ofNat_toNat]
    have hescape : parseEscape (117 :: 48 :: 48 :: hexChar (c.toNat / 16) :: hexChar (c.toNat % 16) :: t) =
        some ([c], t) := by
      rw [parseEscape, if_pos rfl, parseUnicode, hhex, if_neg (by omega), if_neg (by omega), hutf]
    simp only [List.cons_append, List.nil_append, parseChars]
    rw [if_neg (by decide), if_neg (by decide), hescape]
    rfl

/-- **A string is read back** up to its closing quote. -/
theorem parseChars_flatMap {s : List UInt8} (h0 : 0 ∉ s) (t : List UInt8) : ∀ {n : ℕ}, s.length < n →
    parseChars n (s.flatMap escape ++ 34 :: t) = some (s, t) := by
  induction s with
  | nil =>
    intro n hn
    obtain ⟨n, rfl⟩ := Nat.exists_eq_succ_of_ne_zero (Nat.ne_of_gt hn)
    rfl
  | cons c s ih =>
    intro n hn
    rw [List.mem_cons, not_or] at h0
    rw [List.length_cons] at hn
    obtain ⟨n, rfl⟩ := Nat.exists_eq_succ_of_ne_zero (show n ≠ 0 by omega)
    rw [List.flatMap_cons, List.append_assoc, parseChars_escape (Ne.symm h0.1), ih h0.2 (by omega)]
    rfl

theorem escape_length (c : UInt8) : 1 ≤ (escape c).length ∧ (escape c).length ≤ 6 := by
  unfold escape
  split_ifs <;> simp

theorem flatMap_escape_length (s : List UInt8) :
    s.length ≤ (s.flatMap escape).length ∧ (s.flatMap escape).length ≤ 6 * s.length := by
  induction s with
  | nil => exact ⟨le_rfl, le_rfl⟩
  | cons c s ih =>
    have := escape_length c
    rw [List.flatMap_cons, List.length_append, List.length_cons]
    omega

theorem printString_append {s : List UInt8} (h0 : 0 ∉ s) (t : List UInt8) :
    printString s ++ t = 34 :: (s.flatMap escape ++ 34 :: t) := by
  rw [printString_eq h0]
  simp

theorem parseString_print {s : List UInt8} (h0 : 0 ∉ s) (t : List UInt8) :
    parseString (printString s ++ t) = some (s, t) := by
  rw [printString_append h0, parseString, if_pos rfl, parseChars_flatMap h0]
  have := (flatMap_escape_length s).1
  rw [List.length_append, List.length_cons]
  omega

/-! ## Objects are read back -/

/-- What the parser makes of an item. -/
def Item.val : Item → Value
  | string s => .string s
  | number n => .number (text (toString n))

theorem skip_cons {c : UInt8} (h : ¬ c ≤ 32) (t : List UInt8) : skip (c :: t) = c :: t := by
  unfold skip
  rw [List.dropWhile_cons_of_neg (by simpa using h)]

theorem skip_printString {s : List UInt8} (h0 : 0 ∉ s) (t : List UInt8) :
    skip (printString s ++ t) = printString s ++ t := by
  rw [printString_append h0, skip_cons (by decide)]

/-- The item is read back where a comma or the end of the object is behind it. -/
def Reads (value : List UInt8 → Option (Value × List UInt8)) (i : Item) : Prop :=
  ∀ c t, c = 44 ∨ c = 125 → value (skip (i.print ++ c :: t)) = some (i.val, c :: t)

/-- **The members are read back.** -/
theorem parseMembers_print {value : List UInt8 → Option (Value × List UInt8)} (t : List UInt8) :
    ∀ (ms : List (List UInt8 × Item)) (n : ℕ), ms ≠ [] → ms.length ≤ n → (∀ m ∈ ms, 0 ∉ m.1) →
      (∀ m ∈ ms, Reads value m.2) →
      parseMembers value n (printMembers ms ++ 125 :: t) = some (ms.map fun m => (m.1, m.2.val), t) := by
  intro ms
  induction ms with
  | nil => intro n hne; exact absurd rfl hne
  | cons m ms ih =>
    intro n _ hn h0 hv
    rw [List.length_cons] at hn
    obtain ⟨n, rfl⟩ := Nat.exists_eq_succ_of_ne_zero (show n ≠ 0 by omega)
    have h0m := h0 m List.mem_cons_self
    have hvm := hv m List.mem_cons_self
    have hcolon : ∀ u : List UInt8, expect 58 (skip (58 :: u)) = some u := fun u => by
      rw [skip_cons (by decide), expect, if_pos rfl]
    cases ms with
    | nil =>
      have htext : printMembers [m] ++ 125 :: t = printString m.1 ++ (58 :: (m.2.print ++ 125 :: t)) := by
        simp [printMembers]
      rw [htext, parseMembers, skip_printString h0m, parseString_print h0m]
      simp only [Option.bind_eq_bind, Option.bind_some, hcolon, hvm 125 t (Or.inr rfl)]
      rw [skip_cons (by decide)]
      rfl
    | cons m' ms =>
      have htext : printMembers (m :: m' :: ms) ++ 125 :: t =
          printString m.1 ++ (58 :: (m.2.print ++ 44 :: (printMembers (m' :: ms) ++ 125 :: t))) := by
        simp [printMembers]
      have hrest := ih n (by simp) (by omega) (fun k hk => h0 k (List.mem_cons_of_mem _ hk))
        (fun k hk => hv k (List.mem_cons_of_mem _ hk))
      rw [htext, parseMembers, skip_printString h0m, parseString_print h0m]
      simp only [Option.bind_eq_bind, Option.bind_some, hcolon, hvm 44 _ (Or.inl rfl)]
      rw [skip_cons (by decide), expect, if_pos rfl]
      simp only [hrest]
      rfl

theorem reads_string {s : List UInt8} (h0 : 0 ∉ s) (n : ℕ) : Reads (parseValue (n + 1)) (.string s) := by
  intro c t _
  have hstart : ∀ (w u : List UInt8), w.head? ≠ some 34 → w ≠ [] → w.isPrefixOf (34 :: u) = false := by
    intro w u hw hne
    cases w with
    | nil => exact absurd rfl hne
    | cons a w =>
      have ha : a ≠ 34 := fun h => hw (by rw [h]; rfl)
      simp [List.isPrefixOf, ha]
  show parseValue (n + 1) (skip (printString s ++ c :: t)) = _
  have hparse := parseString_print h0 (c :: t)
  rw [skip_printString h0]
  rw [printString_append h0] at hparse ⊢
  rw [parseValue]
  simp only [hstart _ _ (show (text "null").head? ≠ some 34 by decide) (by decide),
    hstart _ _ (show (text "false").head? ≠ some 34 by decide) (by decide),
    hstart _ _ (show (text "true").head? ≠ some 34 by decide) (by decide), Bool.false_eq_true, if_false, if_true,
    hparse]
  rfl

/-- The number of a flag. -/
theorem reads_one (n : ℕ) : Reads (parseValue (n + 1)) (.number 1) := by
  intro c t hc
  rcases hc with rfl | rfl
  · rfl
  · rfl

theorem printMembers_length (ms : List (List UInt8 × Item)) : ms.length ≤ (printMembers ms).length := by
  induction ms with
  | nil => exact le_rfl
  | cons m ms ih =>
    cases ms with
    | nil => simp [printMembers]; omega
    | cons m' ms =>
      simp only [printMembers, List.length_append, List.length_cons] at ih ⊢
      omega

/-- **A printed object is read back.** -/
theorem parse_print {ms : List (List UInt8 × Item)} (hne : ms ≠ []) (h0 : ∀ m ∈ ms, 0 ∉ m.1)
    (hv : ∀ n, ∀ m ∈ ms, Reads (parseValue (n + 1)) m.2) :
    cJSONParse (printObject ms) = some (.object (ms.map fun m => (m.1, m.2.val))) := by
  -- the members begin with a quote
  obtain ⟨u, hu⟩ : ∃ u, printMembers ms = 34 :: u := by
    obtain ⟨m, ms', rfl⟩ := List.exists_cons_of_ne_nil hne
    have h0m := h0 m List.mem_cons_self
    cases ms' with
    | nil => exact ⟨_, printString_append h0m _⟩
    | cons m' ms' => exact ⟨_, printString_append h0m _⟩
  set body := printMembers ms ++ [125] with hbody
  have hskip : skip body = body := by
    rw [hbody, hu, List.cons_append, skip_cons (by decide)]
  have hexpect : expect 125 body = none := by
    rw [hbody, hu, List.cons_append, expect, if_neg (by decide)]
  have hlen : ms.length ≤ body.length := by
    have := printMembers_length ms
    rw [hbody, List.length_append]
    omega
  have hread : parseMembers (parseValue (body.length + 1)) body.length body =
      some (ms.map fun m => (m.1, m.2.val), []) := parseMembers_print [] ms body.length hne hlen h0 (hv body.length)
  have htext : printObject ms = 123 :: body := rfl
  unfold cJSONParse
  rw [htext, skip_cons (by decide), List.length_cons, parseValue, if_neg (by simp [text]), if_neg (by simp [text]),
    if_neg (by simp [text])]
  simp only [hskip, hexpect, hread]
  rfl

/-! ## A printed object as a format -/

/-- The items that can be printed: a string has no NUL, and there is no `%` in a number. -/
def Item.Printable : Item → Prop
  | string s => 0 ∉ s
  | number n => 37 ∉ text (toString n)

/-- The item with the string that `printf` may leave of it. -/
def Item.thin : Item → Item
  | string s => string (Printf.thin 37 s)
  | number n => number n

theorem escape_noMark {c : UInt8} (hc : c ≠ 37) : 37 ∉ escape c := by
  have hhex : ∀ n < 16, hexChar n ≠ 37 := by decide
  have hlt : c.toNat < 256 := c.toNat_lt
  have h1 := hhex (c.toNat / 16) (by omega)
  have h2 := hhex (c.toNat % 16) (by omega)
  unfold escape
  split_ifs <;> simp [Ne.symm hc, Ne.symm h1, Ne.symm h2]

theorem escaped_head {f t : List UInt8} (hf : f.head? ≠ some 37) (ht : t.head? ≠ some 37) :
    (f.flatMap escape ++ t).head? ≠ some 37 := by
  cases f with
  | nil => exact ht
  | cons c f =>
    have hc : c ≠ 37 := fun h => hf (by rw [h]; rfl)
    have hnot := escape_noMark hc
    obtain ⟨a, u, hu⟩ := List.exists_cons_of_length_pos (escape_length c).1
    rw [List.flatMap_cons, hu]
    rw [hu, List.mem_cons, not_or] at hnot
    intro h
    exact hnot.1 (Option.some.inj h).symm

/-- **Escaping and printing go together**: no escape touches a `%`. -/
theorem thin_flatMap (s : List UInt8) {t : List UInt8} (ht : t.head? ≠ some 37) :
    Printf.thin 37 (s.flatMap escape ++ t) = (Printf.thin 37 s).flatMap escape ++ Printf.thin 37 t := by
  have hmark : escape 37 = [37] := rfl
  refine text_induction 37 (P := fun s => Printf.thin 37 (s.flatMap escape ++ t) =
    (Printf.thin 37 s).flatMap escape ++ Printf.thin 37 t) ?_ ?_ ?_ ?_ s
  · rfl
  · intro c f hc ih
    rw [thin_cons hc, List.flatMap_cons, List.append_assoc, thin_append (escape_noMark hc), ih, List.flatMap_cons,
      List.append_assoc]
  · intro f ih
    rw [thin_pair, List.flatMap_cons, List.flatMap_cons, List.flatMap_cons, hmark]
    simp only [List.cons_append, List.nil_append]
    rw [thin_pair, ih]
  · intro f hf ih
    rw [thin_single hf, List.flatMap_cons, hmark]
    simp only [List.cons_append, List.nil_append]
    rw [thin_single (escaped_head hf ht), ih]

theorem thin_nulFree {s : List UInt8} (h0 : 0 ∉ s) : 0 ∉ Printf.thin 37 s :=
  fun h => h0 (thin_subset s h)

theorem thin_printString {s : List UInt8} (h0 : 0 ∉ s) (t : List UInt8) :
    Printf.thin 37 (printString s ++ t) = printString (Printf.thin 37 s) ++ Printf.thin 37 t := by
  rw [printString_append h0, thin_cons (by decide), thin_flatMap s (by simp), thin_cons (by decide),
    printString_append (thin_nulFree h0)]

theorem thin_print {i : Item} (h : i.Printable) (t : List UInt8) :
    Printf.thin 37 (i.print ++ t) = i.thin.print ++ Printf.thin 37 t := by
  cases i with
  | string s => exact thin_printString h t
  | number n => exact thin_append h t

/-- **What `printf` may leave of an object is the print of an object.** -/
theorem thin_printObject (ms : List (List UInt8 × Item)) (h0 : ∀ m ∈ ms, 0 ∉ m.1) (hp : ∀ m ∈ ms, 37 ∉ m.1)
    (hv : ∀ m ∈ ms, m.2.Printable) :
    Printf.thin 37 (printObject ms) = printObject (ms.map fun m => (m.1, m.2.thin)) := by
  have hname : ∀ m ∈ ms, ∀ t, Printf.thin 37 (printString m.1 ++ t) = printString m.1 ++ Printf.thin 37 t := by
    intro m hm t
    rw [thin_printString (h0 m hm), thin_self (hp m hm)]
  have hmembers : ∀ t, Printf.thin 37 (printMembers ms ++ t) =
      printMembers (ms.map fun m => (m.1, m.2.thin)) ++ Printf.thin 37 t := by
    intro t
    clear h0 hp
    induction ms with
    | nil => rfl
    | cons m ms ih =>
      have hm := hname m List.mem_cons_self
      have hvm := hv m List.mem_cons_self
      have ih := ih (fun k hk => hv k (List.mem_cons_of_mem _ hk)) (fun k hk => hname k (List.mem_cons_of_mem _ hk))
      cases ms with
      | nil =>
        simp only [printMembers, List.map_cons, List.map_nil, List.append_assoc, List.cons_append]
        rw [hm, thin_cons (by decide), thin_print hvm]
      | cons m' ms =>
        simp only [printMembers, List.map_cons, List.append_assoc, List.cons_append] at ih ⊢
        rw [hm, thin_cons (by decide), thin_print hvm, thin_cons (by decide), ih]
  unfold printObject
  rw [List.cons_append, thin_cons (by decide), hmembers]
  rfl

theorem printString_noMark {s : List UInt8} (h0 : 0 ∉ s) (hs : 37 ∉ s) : 37 ∉ printString s := by
  rw [printString_eq h0]
  intro h
  simp only [List.cons_append, List.mem_cons, List.mem_append, List.mem_flatMap, List.mem_nil_iff, or_false] at h
  rcases h with h | ⟨c, hc, h⟩ | h
  · exact absurd h (by decide)
  · exact escape_noMark (fun he => hs (he ▸ hc)) h
  · exact absurd h (by decide)

/-- There is no `%` in the print of an object without one. -/
theorem printObject_noMark {ms : List (List UInt8 × Item)} (hname : ∀ m ∈ ms, 37 ∉ printString m.1)
    (hv : ∀ m ∈ ms, 37 ∉ m.2.print) : 37 ∉ printObject ms := by
  have hmembers : 37 ∉ printMembers ms := by
    induction ms with
    | nil => exact List.not_mem_nil
    | cons m ms ih =>
      have ih := ih (fun k hk => hname k (List.mem_cons_of_mem _ hk)) (fun k hk => hv k (List.mem_cons_of_mem _ hk))
      have h1 := hname m List.mem_cons_self
      have h2 := hv m List.mem_cons_self
      cases ms with
      | nil => simp [printMembers, h1, h2]
      | cons m' ms => simp [printMembers, h1, h2] at ih ⊢; exact ih
  simp [printObject, hmembers]

/-! ## The length of a printed object -/

theorem printString_length {s : List UInt8} (h0 : 0 ∉ s) : (printString s).length ≤ 6 * s.length + 2 := by
  have := (flatMap_escape_length s).2
  rw [printString_eq h0]
  simp only [List.cons_append, List.length_cons, List.length_append, List.length_nil]
  omega

/-- The length of an object by its values: a colon and a comma for each member, the braces, and names of `k`
characters. -/
theorem printObject_length_le {ms : List (List UInt8 × Item)} {k : ℕ} (hname : ∀ m ∈ ms, (printString m.1).length ≤ k) :
    (printObject ms).length ≤ (k + 2) * ms.length + (ms.map fun m => m.2.print.length).sum + 2 := by
  have hmembers : (printMembers ms).length ≤ (k + 2) * ms.length + (ms.map fun m => m.2.print.length).sum := by
    induction ms with
    | nil => exact Nat.zero_le _
    | cons m ms ih =>
      have h1 := hname m List.mem_cons_self
      have h2 := ih fun q hq => hname q (List.mem_cons_of_mem _ hq)
      rw [List.map_cons, List.sum_cons, List.length_cons, Nat.mul_succ]
      cases ms with
      | nil =>
        simp only [printMembers, List.length_append, List.length_cons, List.length_nil, List.map_nil, List.sum_nil]
        omega
      | cons m' ms =>
        rw [printMembers, List.length_append, List.length_cons, List.length_append, List.length_cons]
        · omega
        · simp
  simp only [printObject, List.length_append, List.length_cons, List.length_nil]
  omega

end W601.Json
