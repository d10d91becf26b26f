import Mathlib
import Pulpitum.Support.Text

/-!
# Support — Radix

Numbers read from a text in a radix, with a bound and an optional plus sign.

* `fromStrRadix_of_isDigit`: decimal digits are read as the number they denote, if it is in range.
* `fromStrRadix_pair`, `fromStrRadix_eq_none`: the pairs of characters that are read as one byte,
  and the byte they are the hexadecimal text of.
-/

namespace Radix
open Text

/-- The value of a digit or a letter. -/
def digitValue (c : Char) : Option ℕ :=
  if '0' ≤ c ∧ c ≤ '9' then some (c.toNat - 48)
  else if 'a' ≤ c ∧ c ≤ 'z' then some (c.toNat - 87)
  else if 'A' ≤ c ∧ c ≤ 'Z' then some (c.toNat - 55)
  else none

/-- The value of a digit of the radix. -/
def toDigit (radix : ℕ) (c : Char) : Option ℕ := (digitValue c).filter (· < radix)

/-- The value of the digits, if it is in range. -/
def digitsValue (radix bound : ℕ) (digits : List Char) : Option (Fin bound) := do
  let values ← digits.mapM (toDigit radix)
  let n := values.foldl (fun n d => radix * n + d) 0
  if h : n < bound then some ⟨n, h⟩ else none

/-- The number of a text: one plus sign may stand before the digits. -/
def fromStrRadix (radix bound : ℕ) : List Char → Option (Fin bound)
  | [] | ['+'] | ['-'] => none
  | '+' :: digits => digitsValue radix bound digits
  | digits => digitsValue radix bound digits

/-- Without a sign the whole text is digits. -/
theorem fromStrRadix_of_unsigned (radix bound : ℕ) {c : Char} {digits : List Char} (hplus : c ≠ '+')
    (hminus : c ≠ '-') :
    fromStrRadix radix bound (c :: digits) = digitsValue radix bound (c :: digits) := by
  unfold fromStrRadix
  split
  case h_1 heq => cases heq
  case h_2 heq => exact absurd (List.cons.inj heq).1 hplus
  case h_3 heq => exact absurd (List.cons.inj heq).1 hminus
  case h_4 heq => exact absurd (List.cons.inj heq).1 hplus
  case h_5 => rfl

/-! ### Decimal digits -/

theorem toDigit_of_isDigit {c : Char} (h : c.isDigit) : toDigit 10 c = some (c.toNat - 48) := by
  have hc : '0' ≤ c ∧ c ≤ '9' := by
    rw [Char.isDigit, Bool.and_eq_true, decide_eq_true_iff, decide_eq_true_iff] at h
    exact h
  have hle : c.toNat ≤ 57 := hc.2
  have hlt : c.toNat - 48 < 10 := by omega
  simp [toDigit, digitValue, hc, hlt]

theorem foldl_toDigit {digits : List Char} (h : ∀ c ∈ digits, c.isDigit) :
    ∃ values, digits.mapM (toDigit 10) = some values ∧
      ∀ n, values.foldl (fun n d => 10 * n + d) n = Nat.ofDigitChars 10 digits n := by
  induction digits with
  | nil => exact ⟨[], rfl, fun _ => rfl⟩
  | cons c digits ih =>
      rw [List.forall_mem_cons] at h
      obtain ⟨values, hvalues, hfold⟩ := ih h.2
      refine ⟨(c.toNat - 48) :: values, ?_, fun n => ?_⟩
      · rw [List.mapM_cons, toDigit_of_isDigit h.1, hvalues]
        rfl
      · rw [List.foldl_cons, hfold, Nat.ofDigitChars_cons]
        rfl

/-- **Decimal digits are read as the number they denote**, if it is in range. -/
theorem fromStrRadix_of_isDigit (bound : ℕ) {digits : List Char} (hne : digits ≠ [])
    (h : ∀ c ∈ digits, c.isDigit) :
    (fromStrRadix 10 bound digits).map Fin.val =
      if Nat.ofDigitChars 10 digits 0 < bound then some (Nat.ofDigitChars 10 digits 0)
      else none := by
  obtain ⟨values, hvalues, hfold⟩ := foldl_toDigit h
  have hradix : fromStrRadix 10 bound digits = digitsValue 10 bound digits := by
    obtain ⟨c, digits, rfl⟩ := List.exists_cons_of_ne_nil hne
    have hc : c.isDigit := h c (List.mem_cons_self ..)
    refine fromStrRadix_of_unsigned 10 bound ?_ ?_
    · rintro rfl
      cases hc
    · rintro rfl
      cases hc
  rw [hradix, digitsValue, hvalues]
  simp only [Option.bind_eq_bind, Option.bind_some, hfold]
  split <;> rfl

/-! ### Hexadecimal digits -/

/-- The hexadecimal digits, in both cases. -/
def hexCharacters : List Char :=
  ['0', '1', '2', '3', '4', '5', '6', '7', '8', '9', 'a', 'b', 'c', 'd', 'e', 'f',
    'A', 'B', 'C', 'D', 'E', 'F']

/-- A range of characters lies in a list if its codes do. -/
theorem mem_of_mem_range {l : List Char} {a b : Char}
    (h : ∀ n ∈ List.range' a.toNat (b.toNat + 1 - a.toNat), Char.ofNat n ∈ l) {c : Char}
    (ha : a.toNat ≤ c.toNat) (hb : c.toNat ≤ b.toNat) : c ∈ l := by
  have hmem := h c.toNat (List.mem_range'_1.mpr ⟨ha, by omega⟩)
  rwa [Char.ofNat_toNat] at hmem

/-- A digit has the value that it is the digit of. -/
theorem toDigit_of_mem {c : Char} (h : c ∈ hexCharacters) :
    ∃ n : Fin 16, toDigit 16 c = some n ∧ hexDigit n = c.toLower := by
  unfold hexCharacters at h
  fin_cases h <;> decide

theorem toDigit_of_notMem {c : Char} (h : c ∉ hexCharacters) : toDigit 16 c = none := by
  refine Option.eq_none_iff_forall_ne_some.mpr fun n hn => h ?_
  obtain ⟨hvalue, hlt⟩ := Option.filter_eq_some_iff.mp hn
  have hlt : n < 16 := by simpa using hlt
  unfold digitValue at hvalue
  split at hvalue
  case isTrue hc => exact mem_of_mem_range (a := '0') (b := '9') (by decide) hc.1 hc.2
  split at hvalue
  case isTrue hc =>
    cases hvalue
    have hle : c.toNat ≤ 102 := by omega
    exact mem_of_mem_range (a := 'a') (b := 'f') (by decide) hc.1 hle
  split at hvalue
  case isTrue hc =>
    cases hvalue
    have hle : c.toNat ≤ 70 := by omega
    exact mem_of_mem_range (a := 'A') (b := 'F') (by decide) hc.1 hle
  case isFalse => cases hvalue

theorem utf8Size_of_mem {c : Char} (h : c ∈ hexCharacters) : c.utf8Size = 1 := by
  unfold hexCharacters at h
  fin_cases h <;> decide

theorem hexDigit_mem : ∀ n, hexDigit n ∈ hexCharacters := by decide

/-- Two characters that are read as one byte: the first one may be a plus sign. -/
def BytePair (a b : Char) : Prop := (a = '+' ∨ a ∈ hexCharacters) ∧ b ∈ hexCharacters

theorem digitsValue_pair {a b : Char} {m n : Fin 16} (ha : toDigit 16 a = some m)
    (hb : toDigit 16 b = some n) :
    ∃ byte, digitsValue 16 256 [a, b] = some byte ∧ hexByte byte = [hexDigit m, hexDigit n] := by
  have hlt : 16 * m.val + n.val < 256 := by omega
  refine ⟨⟨16 * m.val + n.val, hlt⟩, ?_, ?_⟩
  · simp [digitsValue, ha, hb, hlt]
  · have h₁ : (16 * m.val + n.val) / 16 = m.val := by omega
    have h₂ : (16 * m.val + n.val) % 16 = n.val := by omega
    simp only [hexByte, h₁, h₂]

theorem fromStrRadix_of_ne {a b : Char} (h : a ≠ '+') :
    fromStrRadix 16 256 [a, b] = digitsValue 16 256 [a, b] := by
  by_cases hminus : a = '-'
  · subst hminus
    rfl
  · exact fromStrRadix_of_unsigned 16 256 h hminus

theorem fromStrRadix_pair {a b : Char} (h : BytePair a b) :
    ∃ byte, fromStrRadix 16 256 [a, b] = some byte ∧
      (a ≠ '+' → hexByte byte = [a.toLower, b.toLower]) := by
  obtain ⟨ha, hb⟩ := h
  obtain ⟨n, hn, hlow⟩ := toDigit_of_mem hb
  rcases ha with rfl | ha
  · refine ⟨⟨n, by omega⟩, ?_, fun h => absurd rfl h⟩
    simp [fromStrRadix, digitsValue, hn, n.isLt.trans]
  · obtain ⟨m, hm, hlow'⟩ := toDigit_of_mem ha
    obtain ⟨byte, hbyte, heq⟩ := digitsValue_pair hm hn
    refine ⟨byte, ?_, fun _ => by rw [heq, hlow, hlow']⟩
    have hplus : a ≠ '+' := by
      rintro rfl
      exact absurd ha (by decide)
    rw [fromStrRadix_of_ne hplus, hbyte]

theorem fromStrRadix_eq_none {a b : Char} (h : ¬ BytePair a b) :
    fromStrRadix 16 256 [a, b] = none := by
  by_cases hplus : a = '+'
  · subst hplus
    have hb : toDigit 16 b = none := toDigit_of_notMem fun hb => h ⟨.inl rfl, hb⟩
    simp [fromStrRadix, digitsValue, hb]
  · have hnone : toDigit 16 a = none ∨ toDigit 16 b = none := by
      by_cases ha : a ∈ hexCharacters
      · exact .inr (toDigit_of_notMem fun hb => h ⟨.inr ha, hb⟩)
      · exact .inl (toDigit_of_notMem ha)
    rw [fromStrRadix_of_ne hplus]
    rcases hnone with ha | hb
    · simp [digitsValue, ha]
    · cases ha : toDigit 16 a <;> simp [digitsValue, ha, hb]

/-- A character that is not ASCII is no number. -/
theorem fromStrRadix_singleton {c : Char} (h : c.utf8Size = 2) :
    fromStrRadix 16 256 [c] = none := by
  have hc : toDigit 16 c = none := toDigit_of_notMem fun hmem => by
    rw [utf8Size_of_mem hmem] at h
    cases h
  have hplus : c ≠ '+' := by
    rintro rfl
    cases h
  have hminus : c ≠ '-' := by
    rintro rfl
    cases h
  rw [fromStrRadix_of_unsigned 16 256 hplus hminus]
  simp [digitsValue, hc]

end Radix
