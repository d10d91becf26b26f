import Mathlib
import Pulpitum.Support.Text

/-!
# Support — UTF-8

Offsets into a text count bytes, and a text can only be cut between two characters.

* `cut_eq_some_iff`: **a cut succeeds at the boundaries of characters only.**
* `slice_add`: slices of what follows a beginning of the text.
* `length_utf8`: the bytes that the offsets count.
* `fromUtf8_eq_some_iff`: bytes are read as the one text they are the bytes of.
-/

namespace Utf8
open String (utf8Len)

/-- The text before a byte offset and the text after it, if the offset is a boundary. -/
def cut : ℕ → List Char → Option (List Char × List Char)
  | 0, l => some ([], l)
  | _ + 1, [] => none
  | n + 1, c :: l =>
      if c.utf8Size ≤ n + 1 then (cut (n + 1 - c.utf8Size) l).map fun p => (c :: p.1, p.2) else none

/-- The text between two byte offsets, if they are boundaries. -/
def slice (i j : ℕ) (l : List Char) : Option (List Char) := do
  let (_, l) ← cut i l
  let (m, _) ← cut (j - i) l
  return m

/-- A beginning of the text is passed over. -/
theorem cut_add (p l : List Char) (n : ℕ) :
    cut (utf8Len p + n) (p ++ l) = (cut n l).map fun q => (p ++ q.1, q.2) := by
  induction p with
  | nil => simp
  | cons c p ih =>
      obtain ⟨m, hm⟩ : ∃ m, c.utf8Size = m + 1 := Nat.exists_eq_succ_of_ne_zero c.utf8Size_pos.ne'
      have hlen : utf8Len (c :: p) + n = utf8Len p + n + m + 1 := by
        rw [String.utf8Len_cons, hm]
        omega
      have hrest : utf8Len p + n + m + 1 - c.utf8Size = utf8Len p + n := by omega
      rw [hlen, List.cons_append, cut, if_pos (by omega), hrest, ih, Option.map_map]
      rfl

theorem cut_eq_some_iff {n : ℕ} {l a b : List Char} :
    cut n l = some (a, b) ↔ l = a ++ b ∧ utf8Len a = n := by
  constructor
  · induction l generalizing n a with
    | nil =>
        intro h
        cases n with
        | zero => cases h; exact ⟨rfl, rfl⟩
        | succ n => cases h
    | cons c l ih =>
        intro h
        cases n with
        | zero => cases h; exact ⟨rfl, rfl⟩
        | succ n =>
            rw [cut] at h
            split at h
            case isFalse => cases h
            case isTrue hc =>
              obtain ⟨⟨a', b'⟩, hcut, hp⟩ := Option.map_eq_some_iff.mp h
              cases hp
              obtain ⟨rfl, ha⟩ := ih hcut
              refine ⟨rfl, ?_⟩
              rw [String.utf8Len_cons, ha]
              omega
  · rintro ⟨rfl, rfl⟩
    have h := cut_add a b 0
    rw [cut] at h
    simpa using h

/-- Slices of what follows a beginning of the text. -/
theorem slice_add (p l : List Char) (i j : ℕ) :
    slice (utf8Len p + i) (utf8Len p + j) (p ++ l) = slice i j l := by
  have hsub : utf8Len p + j - (utf8Len p + i) = j - i := by omega
  rw [slice, cut_add, hsub, slice]
  cases cut i l <;> rfl

/-- A text is as long as its bytes are many. -/
theorem length_utf8 (s : String) : (Text.utf8 s).length = utf8Len s.toList := by
  rw [Text.utf8, List.length_map, ← String.utf8ByteSize_ofList, String.ofList_toList]
  rfl

/-! ### Reading bytes as a text -/

/-- The text with these bytes, if they are valid. -/
def fromUtf8 (l : List Text.Byte) : Option String :=
  String.fromUTF8? ⟨(l.map UInt8.ofFin).toArray⟩

theorem fromUtf8_eq_some_iff {l : List Text.Byte} {s : String} :
    fromUtf8 l = some s ↔ l = Text.utf8 s := by
  have hbytes : l = Text.utf8 s ↔ (⟨(l.map UInt8.ofFin).toArray⟩ : ByteArray) = s.toByteArray := by
    constructor
    · rintro rfl
      refine ByteArray.ext (Array.toList_inj.mp ?_)
      simp [Text.utf8, Function.comp_def, String.toUTF8]
    · intro h
      have hl : l.map UInt8.ofFin = s.toByteArray.data.toList := congrArg (·.data.toList) h
      rw [Text.utf8, String.toUTF8, ← hl, List.map_map]
      exact (List.map_id' l).symm
  rw [hbytes, fromUtf8, String.fromUTF8?]
  constructor
  · intro h
    split at h
    · exact congrArg String.toByteArray (Option.some.inj h)
    · cases h
  · intro h
    rw [dif_pos (h ▸ s.isValidUTF8)]
    exact congrArg some (String.toByteArray_inj.mp h)

@[simp]
theorem fromUtf8_utf8 (s : String) : fromUtf8 (Text.utf8 s) = some s :=
  fromUtf8_eq_some_iff.mpr rfl

end Utf8
