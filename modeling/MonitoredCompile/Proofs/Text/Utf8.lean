/-
MonitoredCompile/Proofs/Text/Utf8.lean

Reading bytes as UTF-8 text undoes writing it, and reads nothing else
(`decode_eq_ok_iff`).  Both sides are brought to the number of a character: the bytes
after the first hold six of its bits each (`tail`), the first byte holds the rest and
tells how many follow (`lead`).  A character that the reading machine has begun may
become each number that agrees with what has been read and with the range of the next
byte (`Begun.Becomes`), and every byte fixes six bits more (`continues_iff`).
-/
import Mathlib.Algebra.Ring.Nat
import Mathlib.Tactic.SplitIfs
import MonitoredCompile.Text.Utf8

namespace MonitoredCompile.Utf8

/-! ### Writing -/

theorem encode_append (s t : String) : encode (s ++ t) = encode s ++ encode t := by
  rw [encode, String.toList_append, List.flatMap_append]
  rfl

/-- A line ends with its end. -/
theorem getLast?_encode_line (line : String) : (encode (line ++ "\n")).getLast? = some 0x0A := by
  rw [encode_append, List.getLast?_append]
  rfl

/-! ### The bytes of a number -/

/-- The last `n` bytes of a number's spelling, with six of its bits each. -/
def tail : Nat → Nat → Bytes
  | 0, _ => []
  | n + 1, v => UInt8.ofNat (0x80 + v / 64 ^ n % 64) :: tail n v

/-- What tells in the first byte that `n` bytes follow. -/
def mark : Nat → Nat
  | 0 => 0
  | 1 => 0xC0
  | 2 => 0xE0
  | _ + 3 => 0xF0

/-- The first byte of a spelling in which `n` bytes follow. -/
def lead (n v : Nat) : UInt8 := UInt8.ofNat (mark n + v / 64 ^ n)

/-- The numbers of characters by the count of bytes after the first. -/
inductive Sized : Nat → Nat → Prop
  | one {v} : v < 0x80 → Sized 0 v
  | two {v} : 0x80 ≤ v → v < 0x800 → Sized 1 v
  | three {v} : 0x800 ≤ v → v < 0x10000 → v < 0xD800 ∨ 0xDFFF < v → Sized 2 v
  | four {v} : 0x10000 ≤ v → v < 0x110000 → Sized 3 v

theorem length_tail (n v : Nat) : (tail n v).length = n := by
  induction n with
  | zero => rfl
  | succ n ih => rw [tail, List.length_cons, ih]

theorem exists_sized_iff (v : Nat) : (∃ n, Sized n v) ↔ v.isValidChar := by
  constructor
  · rintro ⟨n, h | ⟨h, h'⟩ | ⟨h, h', h''⟩ | ⟨h, h'⟩⟩
    all_goals
      unfold Nat.isValidChar
      omega
  · intro h
    rcases Nat.lt_or_ge v 0x80 with h₁ | h₁
    · exact ⟨0, .one h₁⟩
    rcases Nat.lt_or_ge v 0x800 with h₂ | h₂
    · exact ⟨1, .two h₁ h₂⟩
    unfold Nat.isValidChar at h
    rcases Nat.lt_or_ge v 0x10000 with h₃ | h₃
    · exact ⟨2, .three h₂ h₃ (by omega)⟩
    · exact ⟨3, .four h₃ (by omega)⟩

theorem utf8EncodeChar_of_sized {n v : Nat} (h : Sized n v) :
    String.utf8EncodeChar (Char.ofNat v) = lead n v :: tail n v := by
  have hv : (Char.ofNat v).val.toNat = v := by
    rw [Char.ofNat, dif_pos ((exists_sized_iff v).mp ⟨n, h⟩)]
    rfl
  unfold String.utf8EncodeChar
  rw [hv]
  -- What is cut off the first byte's share of the number is zero.
  cases h with
  | one h =>
    rw [if_pos (by omega)]
    simp [lead, mark, tail]
  | two h h' =>
    have hlead : v / 64 % 0x20 = v / 64 := Nat.mod_eq_of_lt (by omega)
    rw [if_neg (by omega), if_pos (by omega)]
    simp [lead, mark, tail, hlead, Nat.add_comm]
  | three h h' =>
    have hlead : v / 4096 % 0x10 = v / 4096 := Nat.mod_eq_of_lt (by omega)
    rw [if_neg (by omega), if_neg (by omega), if_pos (by omega)]
    simp [lead, mark, tail, hlead, Nat.add_comm]
  | four h h' =>
    have hlead : v / 262144 % 0x08 = v / 262144 := Nat.mod_eq_of_lt (by omega)
    rw [if_neg (by omega), if_neg (by omega), if_neg (by omega)]
    simp [lead, mark, tail, hlead, Nat.add_comm]

theorem toNat_lead {n v : Nat} (h : Sized n v) : (lead n v).toNat = mark n + v / 64 ^ n := by
  refine UInt8.toNat_ofNat_of_lt' ?_
  cases h <;> simp only [mark, UInt8.size] <;> omega

/-! ### What has begun -/

/-- The number that has begun may turn out to be this one. -/
structure Begun.Becomes (c : Begun) (v : Nat) : Prop where
  bits : v / 64 ^ c.missing = c.value
  next : ∀ n, c.missing = n + 1 →
    c.low.toNat ≤ 0x80 + v / 64 ^ n % 64 ∧ 0x80 + v / 64 ^ n % 64 ≤ c.high.toNat

/-- The next byte has to be one that may follow another. -/
structure Begun.Ordinary (c : Begun) : Prop where
  low : 0x80 ≤ c.low.toNat
  high : c.high.toNat ≤ 0xBF

theorem Begun.extend_becomes_iff {c : Begun} (hc : c.Ordinary) {n v : Nat}
    (hmissing : c.missing = n + 1) {b : UInt8} :
    (c.low.toNat ≤ b.toNat ∧ b.toNat ≤ c.high.toNat) ∧ (c.extend b).Becomes v ↔
      c.Becomes v ∧ b = UInt8.ofNat (0x80 + v / 64 ^ n % 64) := by
  have hpow : v / 64 ^ (n + 1) = v / 64 ^ n / 64 := by rw [Nat.pow_succ, Nat.div_div_eq_div_mul]
  have hbits : (c.extend b).missing = n := by rw [Begun.extend, hmissing, Nat.add_sub_cancel]
  rw [← UInt8.toNat_inj, UInt8.toNat_ofNat']
  constructor
  · rintro ⟨⟨hlow, hhigh⟩, hext⟩
    have hvalue := hext.bits
    rw [hbits] at hvalue
    simp only [Begun.extend] at hvalue
    have hleast := hc.low
    have hmost := hc.high
    refine ⟨⟨?_, fun m hm => ?_⟩, ?_⟩
    · rw [hmissing, hpow]
      omega
    · obtain rfl : m = n := by omega
      omega
    · omega
  · rintro ⟨hbec, hb⟩
    have hvalue := hbec.bits
    have hnext := hbec.next n hmissing
    rw [hmissing, hpow] at hvalue
    refine ⟨by omega, ?_, fun m hm => ?_⟩
    · rw [hbits]
      simp only [Begun.extend]
      omega
    · have hlow : (c.extend b).low.toNat = 0x80 := rfl
      have hhigh : (c.extend b).high.toNat = 0xBF := rfl
      omega

/-! ### Leading bytes -/

/-- What a byte begins, by its number. -/
inductive Begins (b : Nat) (c : Begun) : Prop
  | one : b < 0x80 → c.missing = 0 → c.value = b →
      c.low.toNat = 0x80 → c.high.toNat = 0xBF → Begins b c
  | two : 0xC2 ≤ b → b < 0xE0 → c.missing = 1 → c.value = b - 0xC0 →
      c.low.toNat = 0x80 → c.high.toNat = 0xBF → Begins b c
  | three : 0xE0 ≤ b → b < 0xF0 → c.missing = 2 → c.value = b - 0xE0 →
      c.low.toNat = (if b = 0xE0 then 0xA0 else 0x80) →
      c.high.toNat = (if b = 0xED then 0x9F else 0xBF) → Begins b c
  | four : 0xF0 ≤ b → b < 0xF5 → c.missing = 3 → c.value = b - 0xF0 →
      c.low.toNat = (if b = 0xF0 then 0x90 else 0x80) →
      c.high.toNat = (if b = 0xF4 then 0x8F else 0xBF) → Begins b c

theorem begin?_spec (position : Nat) (b : UInt8) :
    match begin? position b with
    | none => 0x80 ≤ b.toNat ∧ b.toNat < 0xC2 ∨ 0xF5 ≤ b.toNat
    | some c => Begins b.toNat c := by
  unfold begin?
  simp only [UInt8.lt_iff_toNat_lt, ← UInt8.toNat_inj, UInt8.reduceToNat]
  split_ifs
  · exact .one (by omega) rfl rfl rfl rfl
  · exact .inl (by omega)
  · exact .two (by omega) (by omega) rfl rfl rfl rfl
  · exact .three (by omega) (by omega) rfl rfl (by simp [*]) (by simp [*])
  · exact .three (by omega) (by omega) rfl rfl (by simp [*]) (by simp [*])
  · exact .three (by omega) (by omega) rfl rfl (by simp [*]) (by simp [*])
  · exact .four (by omega) (by omega) rfl rfl (by simp [*]) (by simp [*])
  · exact .four (by omega) (by omega) rfl rfl (by simp [*]) (if_neg (by omega)).symm
  · exact .four (by omega) (by omega) rfl rfl (by simp [*]) (by simp [*])
  · exact .inr (by omega)

theorem begins_of_eq_some {position : Nat} {b : UInt8} {c : Begun}
    (h : begin? position b = some c) : Begins b.toNat c := by
  have hspec := begin?_spec position b
  rwa [h] at hspec

theorem Begins.ordinary {b : Nat} {c : Begun} (h : Begins b c) : c.Ordinary := by
  cases h with
  | one _ _ _ hlow hhigh | two _ _ _ _ hlow hhigh =>
    exact ⟨Nat.le_of_eq hlow.symm, Nat.le_of_eq hhigh⟩
  | three _ _ _ _ hlow hhigh | four _ _ _ _ hlow hhigh =>
    refine ⟨?_, ?_⟩
    · rw [hlow]
      split_ifs <;> decide
    · rw [hhigh]
      split_ifs <;> decide

theorem Begins.becomes_iff {n v : Nat} {b : UInt8} {c : Begun} (h : Begins b.toNat c) :
    c.missing = n ∧ c.Becomes v ↔ Sized n v ∧ b = lead n v := by
  constructor
  · rintro ⟨rfl, hbits, hnext⟩
    have hsized : Sized c.missing v := by
      cases h with
      | one hb hm hv hlow hhigh =>
        rw [hm, hv] at hbits
        rw [hm]
        exact .one (by omega)
      | two hb hb' hm hv hlow hhigh =>
        rw [hm, hv] at hbits
        rw [hm]
        exact .two (by omega) (by omega)
      | three hb hb' hm hv hlow hhigh =>
        have hrange := hnext 1 hm
        rw [hm, hv] at hbits
        rw [hlow, hhigh] at hrange
        rw [hm]
        split_ifs at hrange <;> exact .three (by omega) (by omega) (by omega)
      | four hb hb' hm hv hlow hhigh =>
        have hrange := hnext 2 hm
        rw [hm, hv] at hbits
        rw [hlow, hhigh] at hrange
        rw [hm]
        split_ifs at hrange <;> exact .four (by omega) (by omega)
    refine ⟨hsized, UInt8.toNat_inj.mp ?_⟩
    rw [toNat_lead hsized, hbits]
    cases h with
    | one hb hm hv | two hb _ hm hv | three hb _ hm hv | four hb _ hm hv =>
      rw [hm, hv, mark]
      omega
  · rintro ⟨hsized, hb⟩
    have hlead := toNat_lead hsized
    rw [← hb] at hlead
    -- The ranges of the leading bytes are apart.
    cases hsized with
    | one hv =>
      rw [mark] at hlead
      cases h with
      | one _ hm hvalue => exact ⟨hm, by rw [hm, hvalue]; omega, fun k hk => by omega⟩
      | _ => omega
    | two hv hv' =>
      rw [mark] at hlead
      cases h with
      | two _ _ hm hvalue hlow hhigh =>
        exact ⟨hm, by rw [hm, hvalue]; omega, fun k hk => by omega⟩
      | _ => omega
    | three hv hv' hv'' =>
      rw [mark] at hlead
      cases h with
      | three _ _ hm hvalue hlow hhigh =>
        refine ⟨hm, by rw [hm, hvalue]; omega, fun k hk => ?_⟩
        obtain rfl : k = 1 := by omega
        rw [hlow, hhigh]
        split_ifs <;> omega
      | _ => omega
    | four hv hv' =>
      rw [mark] at hlead
      cases h with
      | four _ _ hm hvalue hlow hhigh =>
        refine ⟨hm, by rw [hm, hvalue]; omega, fun k hk => ?_⟩
        obtain rfl : k = 2 := by omega
        rw [hlow, hhigh]
        split_ifs <;> omega
      | _ => omega

theorem exists_begin?_lead (position : Nat) {n v : Nat} (h : Sized n v) :
    ∃ c, begin? position (lead n v) = some c := by
  have hspec := begin?_spec position (lead n v)
  have hlead := toNat_lead h
  cases hbegin : begin? position (lead n v) with
  | some c => exact ⟨c, rfl⟩
  | none =>
    rw [hbegin] at hspec
    dsimp only at hspec
    cases h <;> rw [mark] at hlead <;> omega

/-! ### The machine -/

theorem absorb_some_eq_ok_iff {position : Nat} {c c' : Begun} {b : UInt8} :
    absorb position (some c) b = .ok c' ↔
      (c.low.toNat ≤ b.toNat ∧ b.toNat ≤ c.high.toNat) ∧ c' = c.extend b := by
  rw [absorb, ← UInt8.le_iff_toNat_le, ← UInt8.le_iff_toNat_le]
  by_cases h : c.low ≤ b ∧ b ≤ c.high
  · rw [if_pos h]
    exact ⟨fun hok => ⟨h, (Except.ok.inj hok).symm⟩, fun hok => hok.2 ▸ rfl⟩
  · rw [if_neg h]
    exact ⟨(nomatch ·), fun hok => absurd hok.1 h⟩

theorem absorb_none_eq_ok_iff {position : Nat} {c : Begun} {b : UInt8} :
    absorb position none b = .ok c ↔ begin? position b = some c := by
  rw [absorb]
  cases begin? position b <;> simp

/-- How a text goes on after a character that is complete, or is not. -/
def Continues (position : Nat) (c : Begun) (bytes : Bytes) (text : List Char) : Prop :=
  if c.missing = 0 then
    ∃ more, text = Char.ofNat c.value :: more ∧ decodeFrom position none bytes = .ok more
  else decodeFrom position (some c) bytes = .ok text

theorem decodeFrom_cons_eq_ok_iff {position : Nat} {current : Option Begun} {b : UInt8}
    {rest : Bytes} {text : List Char} :
    decodeFrom position current (b :: rest) = .ok text ↔
      ∃ c, absorb position current b = .ok c ∧ Continues (position + 1) c rest text := by
  rw [decodeFrom]
  rcases absorb position current b with fault | c
  · simp
  · by_cases hmissing : c.missing = 0
    · rcases hdecode : decodeFrom (position + 1) none rest with fault | more
      · simp [Continues, hmissing, hdecode]
      · simp [Continues, hmissing, hdecode, eq_comm]
    · simp [Continues, hmissing]

/-- A character that has begun is completed by the last bytes of its number. -/
theorem continues_iff {c : Begun} (hc : c.Ordinary) {position : Nat} {bytes : Bytes}
    {text : List Char} :
    Continues position c bytes text ↔ ∃ v rest more, c.Becomes v ∧
      bytes = tail c.missing v ++ rest ∧ text = Char.ofNat v :: more ∧
      decodeFrom (position + c.missing) none rest = .ok more := by
  obtain ⟨n, hn⟩ : ∃ n, c.missing = n := ⟨_, rfl⟩
  induction n generalizing c position bytes with
  | zero =>
    have hbits {v : Nat} (h : c.Becomes v) : v = c.value := by simpa [hn] using h.bits
    rw [Continues, if_pos hn, hn]
    constructor
    · rintro ⟨more, rfl, hmore⟩
      refine ⟨c.value, bytes, more, ⟨by simp [hn], fun m hm => ?_⟩, rfl, rfl, hmore⟩
      rw [hn] at hm
      cases hm
    · rintro ⟨v, rest, more, hv, rfl, rfl, hmore⟩
      exact ⟨more, by rw [hbits hv], hmore⟩
  | succ n ih =>
    have hextend (b : UInt8) : (c.extend b).missing = n := by
      rw [Begun.extend, hn, Nat.add_sub_cancel]
    have hordinary (b : UInt8) : (c.extend b).Ordinary := ⟨Nat.le_refl _, Nat.le_refl _⟩
    rw [Continues, if_neg (by omega), hn]
    constructor
    · intro hdecode
      cases bytes with
      | nil => cases hdecode
      | cons b bytes =>
        obtain ⟨_, habsorb, hrest⟩ := decodeFrom_cons_eq_ok_iff.mp hdecode
        obtain ⟨hb, rfl⟩ := absorb_some_eq_ok_iff.mp habsorb
        obtain ⟨v, rest, more, hv, rfl, rfl, hmore⟩ := (ih (hordinary b) (hextend b)).mp hrest
        obtain ⟨hv', rfl⟩ := (Begun.extend_becomes_iff hc hn).mp ⟨hb, hv⟩
        refine ⟨v, rest, more, hv', ?_, rfl, ?_⟩
        · rw [hextend, tail, List.cons_append]
        · rwa [hextend, Nat.add_assoc, Nat.add_comm 1] at hmore
    · rintro ⟨v, rest, more, hv, rfl, rfl, hmore⟩
      obtain ⟨hb, hv'⟩ := (Begun.extend_becomes_iff hc hn).mpr ⟨hv, rfl⟩
      rw [tail, List.cons_append, decodeFrom_cons_eq_ok_iff]
      refine ⟨_, absorb_some_eq_ok_iff.mpr ⟨hb, rfl⟩, (ih (hordinary _) (hextend _)).mpr
        ⟨v, rest, more, hv', by rw [hextend], rfl, ?_⟩⟩
      rwa [hextend, Nat.add_assoc, Nat.add_comm 1]

/-! ### Reading -/

/-- The machine reads a character if the bytes start with its spelling. -/
theorem decodeFrom_eq_ok_cons_iff {position : Nat} {bytes : Bytes} {c : Char} {text : List Char} :
    decodeFrom position none bytes = .ok (c :: text) ↔
      ∃ rest, bytes = String.utf8EncodeChar c ++ rest ∧
        decodeFrom (position + (String.utf8EncodeChar c).length) none rest = .ok text := by
  have hlength {n v : Nat} (h : Sized n v) :
      (String.utf8EncodeChar (Char.ofNat v)).length = 1 + n := by
    rw [utf8EncodeChar_of_sized h, List.length_cons, length_tail, Nat.add_comm]
  constructor
  · intro hdecode
    cases bytes with
    | nil => cases hdecode
    | cons b bytes =>
      obtain ⟨begun, habsorb, hrest⟩ := decodeFrom_cons_eq_ok_iff.mp hdecode
      have hbegins := begins_of_eq_some (absorb_none_eq_ok_iff.mp habsorb)
      obtain ⟨v, rest, more, hv, rfl, htext, hmore⟩ := (continues_iff hbegins.ordinary).mp hrest
      obtain ⟨hsized, hlead⟩ := hbegins.becomes_iff.mp ⟨rfl, hv⟩
      cases htext
      refine ⟨rest, ?_, ?_⟩
      · rw [utf8EncodeChar_of_sized hsized, ← hlead, List.cons_append]
      · rwa [hlength hsized, ← Nat.add_assoc]
  · rintro ⟨rest, rfl, hmore⟩
    obtain ⟨n, hsized⟩ := (exists_sized_iff c.toNat).mpr c.valid
    have hchar : Char.ofNat c.toNat = c := Char.ofNat_toNat c
    rw [← hchar, hlength hsized, ← Nat.add_assoc] at hmore
    rw [← hchar, utf8EncodeChar_of_sized hsized, List.cons_append, decodeFrom_cons_eq_ok_iff]
    obtain ⟨begun, hbegin⟩ := exists_begin?_lead position hsized
    have hbegins := begins_of_eq_some hbegin
    obtain ⟨hmissing, hbecomes⟩ := hbegins.becomes_iff.mpr ⟨hsized, rfl⟩
    refine ⟨begun, absorb_none_eq_ok_iff.mpr hbegin, (continues_iff hbegins.ordinary).mpr
      ⟨c.toNat, rest, text, hbecomes, by rw [hmissing], rfl, by rwa [hmissing]⟩⟩

theorem decodeFrom_eq_ok_nil_iff {position : Nat} {bytes : Bytes} :
    decodeFrom position none bytes = .ok [] ↔ bytes = [] := by
  refine ⟨fun hdecode => ?_, fun h => h ▸ rfl⟩
  cases bytes with
  | nil => rfl
  | cons b bytes =>
    obtain ⟨begun, habsorb, hrest⟩ := decodeFrom_cons_eq_ok_iff.mp hdecode
    have hbegins := begins_of_eq_some (absorb_none_eq_ok_iff.mp habsorb)
    obtain ⟨v, rest, more, -, -, htext, -⟩ := (continues_iff hbegins.ordinary).mp hrest
    cases htext

theorem decodeFrom_eq_ok_iff {position : Nat} {bytes : Bytes} {text : List Char} :
    decodeFrom position none bytes = .ok text ↔ bytes = text.flatMap String.utf8EncodeChar := by
  induction text generalizing position bytes with
  | nil => exact decodeFrom_eq_ok_nil_iff
  | cons c text ih =>
    simp only [decodeFrom_eq_ok_cons_iff, ih]
    refine ⟨?_, fun hbytes => ⟨_, hbytes, rfl⟩⟩
    rintro ⟨rest, rfl, rfl⟩
    rfl

/-- **Reading is the inverse of writing**: bytes are read as a text if and only if it is
written with them. -/
theorem decode_eq_ok_iff {bytes : Bytes} {text : String} :
    decode bytes = .ok text ↔ bytes = encode text := by
  rw [decode, encode, ← decodeFrom_eq_ok_iff]
  cases decodeFrom 0 none bytes with
  | error fault => exact ⟨(by cases ·), (by cases ·)⟩
  | ok chars =>
    refine ⟨fun h => ?_, fun h => ?_⟩
    · cases h
      rw [String.toList_ofList]
    · cases h
      exact congrArg Except.ok String.ofList_toList

end MonitoredCompile.Utf8
