import Mathlib

/-!
# Support — Text

Decimal and hexadecimal renderings, and what can be read back from a text built out of them.

* `zeroPadded_injective`, `signedPadded_injective`: a zero-padded number determines the number.
* `hexEncode_injective`: two hexadecimal digits a byte determine the bytes.
* `append_sep_inj`, `sep_append_inj`: a text cut at a separator that one side does not contain.
* `segments_of_collapse`: a text whose empty segments were dropped determines the other ones.
-/

namespace Text

/-- A byte. -/
abbrev Byte := Fin 256

instance neZeroByte : NeZero 256 := ⟨by decide⟩

/-- The bytes of a text. -/
def utf8 (s : String) : List Byte := s.toUTF8.data.toList.map UInt8.toFin

theorem utf8_injective : Function.Injective utf8 := by
  intro s t h
  have hfin : Function.Injective UInt8.toFin := fun a b e => UInt8.toFin_inj.mp e
  have hdata := Array.toList_inj.mp ((List.map_injective_iff.mpr hfin) h)
  exact String.toByteArray_inj.mp (ByteArray.ext hdata)

/-! ### Cutting a text at a separator -/

/-- The text before the first `c`, and the text after it. -/
theorem append_sep_inj {α : Type*} {c : α} :
    ∀ {x x' y y' : List α}, c ∉ x → c ∉ x' → x ++ c :: y = x' ++ c :: y' → x = x' ∧ y = y'
  | [], [], _, _, _, _, h => ⟨rfl, (List.cons.inj h).2⟩
  | [], b :: x', _, _, _, h', h => by
      obtain ⟨rfl, -⟩ := List.cons.inj h
      exact absurd (List.mem_cons_self ..) h'
  | a :: x, [], _, _, h, _, e => by
      obtain ⟨rfl, -⟩ := List.cons.inj e
      exact absurd (List.mem_cons_self ..) h
  | a :: x, b :: x', _, _, h, h', e => by
      obtain ⟨rfl, e'⟩ := List.cons.inj e
      obtain ⟨rfl, rfl⟩ := append_sep_inj (fun hm => h (List.mem_cons_of_mem _ hm))
        (fun hm => h' (List.mem_cons_of_mem _ hm)) e'
      exact ⟨rfl, rfl⟩

/-- The text before the last `c`, and the text after it. -/
theorem sep_append_inj {α : Type*} {c : α} {x x' y y' : List α} (h : c ∉ y) (h' : c ∉ y')
    (e : x ++ c :: y = x' ++ c :: y') : x = x' ∧ y = y' := by
  have e' : y.reverse ++ c :: x.reverse = y'.reverse ++ c :: x'.reverse := by
    simpa using congrArg List.reverse e
  obtain ⟨h₁, h₂⟩ := append_sep_inj (by simpa using h) (by simpa using h') e'
  exact ⟨List.reverse_injective h₂, List.reverse_injective h₁⟩

/-! ### Segments -/

section Segments

variable {α : Type*} [DecidableEq α] {c : α} {x y : List α}

/-- The parts of a text between the separators that are not empty. -/
def segments (c : α) (x : List α) : List (List α) := (x.splitOn c).filter (· ≠ [])

/-- The text with one separator between its segments. -/
def collapse (c : α) (x : List α) : List α := [c].intercalate (segments c x)

theorem segments_append (c : α) (x y : List α) :
    segments c (x ++ c :: y) = segments c x ++ segments c y := by
  rw [segments, List.splitOn_append_cons_self, List.filter_append, segments, segments]

theorem segments_of_notMem (h : c ∉ x) : segments c x = [x].filter (· ≠ []) := by
  rw [segments, List.splitOn_eq_singleton h]

theorem segments_singleton (h : c ∉ x) (hx : x ≠ []) : segments c x = [x] := by
  rw [segments_of_notMem h]
  simp [hx]

theorem notMem_of_mem_splitOn {c : α} : ∀ {x : List α}, ∀ s ∈ x.splitOn c, c ∉ s := by
  intro x
  induction h : x.length using Nat.strong_induction_on generalizing x with
  | _ n ih =>
      intro s hs
      by_cases hc : c ∈ x
      · obtain ⟨y, z, rfl⟩ := List.append_of_mem hc
        subst h
        rw [List.splitOn_append_cons_self] at hs
        rcases List.mem_append.mp hs with hs | hs
        · exact ih y.length (by simp) rfl s hs
        · exact ih z.length (by simp; omega) rfl s hs
      · rw [List.splitOn_eq_singleton hc, List.mem_singleton] at hs
        rwa [hs]

/-- The segments are read back from the collapsed text. -/
theorem segments_of_collapse (hx : segments c x ≠ []) (hy : segments c y ≠ [])
    (h : collapse c x = collapse c y) : segments c x = segments c y := by
  have back : ∀ z : List α, segments c z ≠ [] → (collapse c z).splitOn c = segments c z := by
    intro z hz
    refine List.splitOn_intercalate c (fun s hs => ?_) hz
    exact notMem_of_mem_splitOn s (List.mem_of_mem_filter hs)
  rw [← back x hx, ← back y hy, h]

end Segments

/-! ### Decimal numbers -/

/-- The decimal digits of `n`, with zeros before them up to width `w`. -/
def paddedDigits (w n : ℕ) : List Char :=
  List.replicate (w - (Nat.toDigits 10 n).length) '0' ++ Nat.toDigits 10 n

theorem paddedDigits_injective (w : ℕ) : Function.Injective (paddedDigits w) := by
  intro m n h
  have read : ∀ k, Nat.ofDigitChars 10 (paddedDigits w k) 0 = k := fun k => by
    simp [paddedDigits, Nat.ofDigitChars_append, Nat.ofDigitChars_replicate_zero,
      Nat.ofDigitChars_ten_toDigits]
  rw [← read m, h, read n]

theorem isDigit_of_mem_paddedDigits {w n : ℕ} {c : Char} (h : c ∈ paddedDigits w n) :
    c.isDigit = true := by
  rcases List.mem_append.mp h with h | h
  · rw [List.eq_of_mem_replicate h]; rfl
  · exact Nat.isDigit_of_mem_toDigits (by omega) (by omega) h

/-- `{:0w}` of a natural number. -/
def zeroPadded (w n : ℕ) : String := String.ofList (paddedDigits w n)

theorem zeroPadded_injective (w : ℕ) : Function.Injective (zeroPadded w) := fun _ _ h =>
  paddedDigits_injective w (String.ofList_injective h)

/-- `{:0w}` of an integer: the sign counts for the width and stands before the zeros. -/
def signedPadded (w : ℕ) (z : ℤ) : String :=
  if z < 0 then "-" ++ zeroPadded (w - 1) z.natAbs else zeroPadded w z.natAbs

theorem toList_zeroPadded (w n : ℕ) : (zeroPadded w n).toList = paddedDigits w n := by
  simp [zeroPadded]

theorem signedPadded_injective (w : ℕ) : Function.Injective (signedPadded w) := by
  intro a b h
  have sign : ∀ m n, "-" ++ zeroPadded (w - 1) m ≠ zeroPadded w n := by
    intro m n e
    have hm : '-' ∈ paddedDigits w n := by
      rw [← toList_zeroPadded, ← e]; simp
    exact absurd (isDigit_of_mem_paddedDigits hm) (by decide)
  unfold signedPadded at h
  split at h <;> split at h
  · have : a.natAbs = b.natAbs := by
      refine paddedDigits_injective (w - 1) ?_
      have := congrArg String.toList h
      simpa [toList_zeroPadded] using this
    omega
  · exact absurd h (sign _ _)
  · exact absurd h.symm (sign _ _)
  · have := zeroPadded_injective w h
    omega

theorem mem_signedPadded {w : ℕ} {z : ℤ} {c : Char} (h : c ∈ (signedPadded w z).toList) :
    c = '-' ∨ c.isDigit = true := by
  unfold signedPadded at h
  split at h
  · rw [String.toList_append, toList_zeroPadded] at h
    exact (List.mem_append.mp h).imp (by simp) isDigit_of_mem_paddedDigits
  · rw [toList_zeroPadded] at h
    exact .inr (isDigit_of_mem_paddedDigits h)

/-- The decimal text of a natural number has only digits. -/
theorem isDigit_of_mem_toString {n : ℕ} {c : Char} (h : c ∈ (toString n).toList) :
    c.isDigit = true := by
  have h : c ∈ Nat.toDigits 10 n := by simpa using h
  exact Nat.isDigit_of_mem_toDigits (by omega) (by omega) h

/-! ### Hexadecimal bytes -/

/-- A lower-case hexadecimal digit. -/
def hexDigit (n : Fin 16) : Char :=
  ['0', '1', '2', '3', '4', '5', '6', '7', '8', '9', 'a', 'b', 'c', 'd', 'e', 'f'].get n

theorem hexDigit_injective : Function.Injective hexDigit := by decide

/-- The two digits of a byte, high digit first. -/
def hexByte (b : Byte) : List Char :=
  [hexDigit ⟨b / 16, by omega⟩, hexDigit ⟨b % 16, by omega⟩]

theorem hexByte_injective : Function.Injective hexByte := by
  intro a b h
  simp only [hexByte, List.cons.injEq, and_true] at h
  have h₁ := Fin.val_eq_of_eq (hexDigit_injective h.1)
  have h₂ := Fin.val_eq_of_eq (hexDigit_injective h.2)
  simp only at h₁ h₂
  exact Fin.ext (by omega)

/-- The digits of a byte string. -/
def hexDigits : List Byte → List Char
  | [] => []
  | b :: bs => hexByte b ++ hexDigits bs

/-- `{byte:02x}` for each byte. -/
def hexEncode (bs : List Byte) : String := String.ofList (hexDigits bs)

theorem hexDigits_injective : Function.Injective hexDigits
  | [], [], _ => rfl
  | [], b :: bs, h => by simp [hexDigits, hexByte] at h
  | a :: as, [], h => by simp [hexDigits, hexByte] at h
  | a :: as, b :: bs, h => by
      obtain ⟨h₁, h₂⟩ := List.append_inj h rfl
      rw [hexByte_injective h₁, hexDigits_injective h₂]

theorem hexEncode_injective : Function.Injective hexEncode := fun _ _ h =>
  hexDigits_injective (String.ofList_injective h)

theorem toList_hexEncode (bs : List Byte) : (hexEncode bs).toList = hexDigits bs := by
  simp [hexEncode]

theorem length_hexDigits : ∀ bs : List Byte, (hexDigits bs).length = 2 * bs.length
  | [] => rfl
  | _ :: bs => by
      simp only [hexDigits, List.length_append, length_hexDigits bs, hexByte, List.length_cons,
        List.length_nil]
      omega

theorem mem_hexDigits {c : Char} : ∀ {bs : List Byte}, c ∈ hexDigits bs → ∃ n, c = hexDigit n
  | b :: bs, h => by
      rcases List.mem_append.mp h with h | h
      · rcases List.mem_cons.mp h with rfl | h
        · exact ⟨_, rfl⟩
        · exact ⟨_, List.mem_singleton.mp h⟩
      · exact mem_hexDigits h

/-- A hexadecimal text contains no `/`. -/
theorem slash_notMem_hexDigits (bs : List Byte) : '/' ∉ hexDigits bs := by
  intro h
  obtain ⟨n, hn⟩ := mem_hexDigits h
  exact absurd hn (by revert n; decide)

end Text
