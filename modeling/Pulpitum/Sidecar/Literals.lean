import Mathlib
import Pulpitum.Support.Fallible
import Pulpitum.Support.Text
import Pulpitum.Support.Radix
import Pulpitum.Support.Utf8
import Pulpitum.Domain.Model
import Pulpitum.Sidecar.Statements

/-!
# Sidecar — Literals

The literals of an INSERT.  A value that begins with `\x` is hexadecimal: it is sliced by byte
offsets, and each slice goes to the general number parser, which takes a plus sign.

* `parseInsert`: the record of an INSERT whose values are literals.
* `hexadecimal_eq_ok_iff`, `hexadecimal_eq_panicked_iff`: what the loop over the slices does.
* `byteaLiteral_exact_iff`: **hexadecimal values are decoded exactly** if no plus sign is taken for
  a digit and no slice ends inside a character.
-/

namespace Pulpitum
namespace Sidecar
open Fallible Text Radix
open String (utf8Len)

/-! ### Reading literals -/

/-- `string_literal`. -/
def stringLiteral : Expr → Except Stop String
  | .value value =>
      match value.intoString with
      | some text => .ok text
      | none => .error (queryError "INSERT values must be string literals")
  | _ => .error (queryError "INSERT values must be string literals")

/-- `timestamp_literal`; `parseRfc3339` is `DateTime::parse_from_rfc3339`, in UTC. -/
def timestampLiteral (parseRfc3339 : String → Option DateTime) : Expr → Except Stop DateTime
  | .typedString (.timestamp _ .tz) value | .typedString (.timestamp _ .withTimeZone) value =>
      match value.intoString with
      | some text =>
          match parseRfc3339 text with
          | some timestamp => .ok timestamp
          | none => .error (queryError "INSERT timestamp must be an RFC 3339 value")
      | none => .error (queryError "INSERT timestamp must be a TIMESTAMPTZ literal")
  | _ => .error (queryError "INSERT timestamp must be a TIMESTAMPTZ literal")

/-- The byte of the slice at `index`, by `u8::from_str_radix(_, 16)`. -/
def hexPair (value : String) (index : ℕ) : Except Stop Byte :=
  match Utf8.slice index (index + 2) value.toList with
  | none => .error .panicked
  | some pair =>
      match fromStrRadix 16 256 pair with
      | some byte => .ok byte
      | none => .error (queryError "INSERT bytea hexadecimal value is invalid")

/-- The loop over the slices: from 0, in steps of 2, below the length. -/
def hexadecimal (value : String) : Except Stop (List Byte) :=
  (List.range' 0 (((utf8 value).length + 1) / 2) 2).mapM (hexPair value)

/-- What a hexadecimal value begins with. -/
def hexMarker : List Char := ['\\', 'x']

/-- `bytea_literal`. -/
def byteaLiteral (expression : Expr) : Except Stop (List Byte) := do
  let value ← stringLiteral expression
  match hexMarker.isPrefixOf? value.toList with
  | some value =>
      ensure (2 ∣ (utf8 (String.ofList value)).length)
        (queryError "INSERT bytea hexadecimal value is invalid")
      hexadecimal (String.ofList value)
  | none => return utf8 value

/-- A column of the row; it is there, since the columns were validated. -/
def column (values : Values) (name : String) : Except Stop Expr :=
  match values.lookup name with
  | some expression => .ok expression
  | none => .error .panicked

/-- The record of a row, by what reads the expressions of each type. -/
def readRecord (values : Values) (string : Expr → Except Stop String)
    (timestamp : Expr → Except Stop DateTime) (bytea : Expr → Except Stop (List Byte)) :
    Except Stop Record := do
  let partitionKey ← column values "channel_id" >>= string
  let eventTime ← column values "timestamp" >>= timestamp
  let sortKey ← column values "id" >>= string
  let value ← column values "value" >>= bytea
  return { partitionKey := utf8 partitionKey, eventTime, sortKey := utf8 sortKey, value }

/-- `parse_insert`. -/
def parseInsert (parse : SqlParser) (parseRfc3339 : String → Option DateTime)
    (statement expectedTable : String) : Except Stop Record := do
  let values ← parseInsertValues parse statement expectedTable
  readRecord values stringLiteral (timestampLiteral parseRfc3339) byteaLiteral

/-! ### Slices -/

/-- The first two bytes of the text end inside a character. -/
def SplitsCharacter : List Char → Prop
  | [] => False
  | [c] => 3 ≤ c.utf8Size
  | c :: d :: _ => 3 ≤ c.utf8Size ∨ c.utf8Size = 1 ∧ 2 ≤ d.utf8Size

/-- What is wrong with a hexadecimal value that is refused. -/
def invalid : Stop := queryError "INSERT bytea hexadecimal value is invalid"

theorem slice_pair {m l : List Char} (h : utf8Len m = 2) : Utf8.slice 0 2 (m ++ l) = some m := by
  have hcut : Utf8.cut 2 (m ++ l) = some (m, l) := Utf8.cut_eq_some_iff.mpr ⟨rfl, h⟩
  simp [Utf8.slice, Utf8.cut, hcut]

/-- A slice of two bytes is one character or two. -/
theorem slice_eq_none {l : List Char} (h : SplitsCharacter l) : Utf8.slice 0 2 l = none := by
  have hcut : Utf8.cut 2 l = none := by
    refine Option.eq_none_iff_forall_ne_some.mpr fun ⟨m, r⟩ hm => ?_
    obtain ⟨rfl, hlen⟩ := Utf8.cut_eq_some_iff.mp hm
    have hpos := Char.utf8Size_pos
    rcases m with _ | ⟨c, _ | ⟨d, m⟩⟩
    · cases hlen
    · have hc : c.utf8Size = 2 := by simpa using hlen
      rcases r with _ | ⟨d, r⟩ <;> simp [SplitsCharacter, hc] at h
    · have hc := hpos c
      have hd := hpos d
      simp only [String.utf8Len_cons] at hlen
      simp only [List.cons_append, SplitsCharacter] at h
      omega
  simp [Utf8.slice, Utf8.cut, hcut]

/-- The slices of an even number of bytes begin with nothing, two characters of one byte, one of
two bytes, or a split. -/
theorem slice_cases {l : List Char} (h : Even (utf8Len l)) :
    l = [] ∨ (∃ a b r, l = a :: b :: r ∧ a.utf8Size = 1 ∧ b.utf8Size = 1) ∨
      (∃ c r, l = c :: r ∧ c.utf8Size = 2) ∨ SplitsCharacter l := by
  rcases l with _ | ⟨c, _ | ⟨d, l⟩⟩
  · exact .inl rfl
  · have hc := c.utf8Size_pos
    obtain ⟨k, hk⟩ := h
    rw [String.utf8Len_cons, String.utf8Len_nil] at hk
    by_cases h2 : c.utf8Size = 2
    · exact .inr (.inr (.inl ⟨c, [], rfl, h2⟩))
    · exact .inr (.inr (.inr (show 3 ≤ c.utf8Size by omega)))
  · have hc := c.utf8Size_pos
    have hd := d.utf8Size_pos
    by_cases h2 : c.utf8Size = 2
    · exact .inr (.inr (.inl ⟨c, d :: l, rfl, h2⟩))
    by_cases h1 : c.utf8Size = 1 ∧ d.utf8Size = 1
    · exact .inr (.inl ⟨c, d, l, rfl, h1⟩)
    · refine .inr (.inr (.inr ?_))
      change 3 ≤ c.utf8Size ∨ c.utf8Size = 1 ∧ 2 ≤ d.utf8Size
      omega

theorem hexadecimal_ofList (l : List Char) :
    hexadecimal (String.ofList l) =
      (List.range' 0 ((utf8Len l + 1) / 2) 2).mapM (hexPair (String.ofList l)) := by
  rw [hexadecimal, Utf8.length_utf8, String.toList_ofList]

/-- The loop stops at its first slice. -/
theorem hexadecimal_of_error {c : Char} {l : List Char} {e : Stop}
    (h : hexPair (String.ofList (c :: l)) 0 = .error e) :
    hexadecimal (String.ofList (c :: l)) = .error e := by
  have hpos : 0 < (utf8Len (c :: l) + 1) / 2 := by
    have := c.utf8Size_pos
    rw [String.utf8Len_cons]
    omega
  obtain ⟨n, hn⟩ := Nat.exists_eq_succ_of_ne_zero hpos.ne'
  rw [hexadecimal_ofList, hn, List.range'_succ, List.mapM_cons, h]
  rfl

/-- The loop goes on with what follows the first slice. -/
theorem hexadecimal_cons_cons {a b : Char} (ha : a.utf8Size = 1) (hb : b.utf8Size = 1)
    (l : List Char) :
    hexadecimal (String.ofList (a :: b :: l)) = (do
      let byte ← hexPair (String.ofList (a :: b :: l)) 0
      let bytes ← hexadecimal (String.ofList l)
      return byte :: bytes) := by
  have hlen : utf8Len [a, b] = 2 := by simp [ha, hb]
  have hcount : (utf8Len (a :: b :: l) + 1) / 2 = (utf8Len l + 1) / 2 + 1 := by
    rw [String.utf8Len_cons, String.utf8Len_cons, ha, hb]
    omega
  have hrange : List.range' 2 ((utf8Len l + 1) / 2) 2 =
      (List.range' 0 ((utf8Len l + 1) / 2) 2).map (2 + ·) := by
    rw [List.map_add_range']
  have hshift : hexPair (String.ofList (a :: b :: l)) ∘ (2 + ·) = hexPair (String.ofList l) := by
    funext i
    have hslice := Utf8.slice_add [a, b] l i (i + 2)
    rw [hlen, ← Nat.add_assoc] at hslice
    rw [Function.comp_apply, hexPair, hexPair, String.toList_ofList, String.toList_ofList, ← hslice]
    rfl
  rw [hexadecimal_ofList, hcount, List.range'_succ, List.mapM_cons, hrange, List.mapM_map,
    hshift, hexadecimal_ofList]

theorem hexPair_zero {m l : List Char} (h : utf8Len m = 2) :
    hexPair (String.ofList (m ++ l)) 0 =
      match fromStrRadix 16 256 m with
      | some byte => .ok byte
      | none => .error invalid := by
  rw [hexPair, String.toList_ofList, slice_pair h]
  rfl

/-! ### The loop over the slices -/

/-- A text of pairs that the number parser takes. -/
inductive Pairs : List Char → Prop
  | nil : Pairs []
  | cons {a b : Char} {l : List Char} : BytePair a b → Pairs l → Pairs (a :: b :: l)

theorem utf8Size_of_bytePair {a b : Char} (h : BytePair a b) :
    a.utf8Size = 1 ∧ b.utf8Size = 1 := by
  obtain ⟨rfl | ha, hb⟩ := h
  · exact ⟨rfl, utf8Size_of_mem hb⟩
  · exact ⟨utf8Size_of_mem ha, utf8Size_of_mem hb⟩

/-- A pair that is taken gives one byte. -/
theorem hexadecimal_bytePair {a b : Char} (h : BytePair a b) :
    ∃ byte, (a ≠ '+' → hexByte byte = [a.toLower, b.toLower]) ∧
      ∀ l, hexadecimal (String.ofList (a :: b :: l)) =
        hexadecimal (String.ofList l) >>= fun bytes => .ok (byte :: bytes) := by
  obtain ⟨ha, hb⟩ := utf8Size_of_bytePair h
  obtain ⟨byte, hbyte, hdigits⟩ := fromStrRadix_pair h
  refine ⟨byte, hdigits, fun l => ?_⟩
  have hpair : hexPair (String.ofList (a :: b :: l)) 0 = .ok byte := by
    have hzero := hexPair_zero (m := [a, b]) (l := l) (by simp [ha, hb])
    rwa [hbyte] at hzero
  rw [hexadecimal_cons_cons ha hb, hpair]
  rfl

/-- The text is read to its end. -/
theorem Pairs.hexadecimal {l : List Char} (h : Pairs l) :
    ∃ bytes, hexadecimal (String.ofList l) = .ok bytes ∧
      ('+' ∉ l → hexDigits bytes = l.map Char.toLower) := by
  induction h with
  | nil => exact ⟨[], rfl, fun _ => rfl⟩
  | @cons a b l hpair _ ih =>
      obtain ⟨bytes, hbytes, hdigits⟩ := ih
      obtain ⟨byte, hbyte, hcons⟩ := hexadecimal_bytePair hpair
      refine ⟨byte :: bytes, by rw [hcons, hbytes]; rfl, fun hplus => ?_⟩
      simp only [List.mem_cons, not_or] at hplus
      rw [hexDigits, hbyte fun h => hplus.1 h.symm, hdigits hplus.2.2]
      rfl

/-- A slice that ends inside a character is reached. -/
theorem Pairs.hexadecimal_append {p r : List Char} (h : Pairs p) (hr : SplitsCharacter r) :
    Sidecar.hexadecimal (String.ofList (p ++ r)) = .error .panicked := by
  induction h with
  | nil =>
      cases r with
      | nil => exact hr.elim
      | cons c r =>
          refine hexadecimal_of_error ?_
          rw [hexPair, String.toList_ofList, slice_eq_none hr]
  | cons hpair _ ih =>
      obtain ⟨byte, -, hcons⟩ := hexadecimal_bytePair hpair
      rw [List.cons_append, List.cons_append, hcons, ih]
      rfl

/-- **Nothing else is read.** -/
theorem hexadecimal_cases {l : List Char} (h : Even (utf8Len l)) :
    Pairs l ∨ hexadecimal (String.ofList l) = .error invalid ∨
      ∃ p r, l = p ++ r ∧ Pairs p ∧ SplitsCharacter r := by
  induction hn : l.length using Nat.strong_induction_on generalizing l with
  | _ n ih =>
      rcases slice_cases h with rfl | ⟨a, b, r, rfl, ha, hb⟩ | ⟨c, r, rfl, hc⟩ | hsplit
      · exact .inl .nil
      · have hlen : utf8Len [a, b] = 2 := by simp [ha, hb]
        by_cases hpair : BytePair a b
        · have heven : Even (utf8Len r) := by
            rw [String.utf8Len_cons, String.utf8Len_cons, ha, hb, Nat.add_assoc] at h
            exact (Nat.even_add.mp h).mpr (by decide)
          rcases ih r.length (by simp [← hn]) heven rfl with hr | hr | ⟨p, s, rfl, hp, hs⟩
          · exact .inl (.cons hpair hr)
          · obtain ⟨byte, -, hcons⟩ := hexadecimal_bytePair hpair
            exact .inr (.inl (by rw [hcons, hr]; rfl))
          · exact .inr (.inr ⟨a :: b :: p, s, rfl, .cons hpair hp, hs⟩)
        · refine .inr (.inl (hexadecimal_of_error ?_))
          have hzero := hexPair_zero (l := r) hlen
          rwa [fromStrRadix_eq_none hpair] at hzero
      · refine .inr (.inl (hexadecimal_of_error ?_))
        have hzero := hexPair_zero (m := [c]) (l := r) (by simp [hc])
        rwa [fromStrRadix_singleton hc] at hzero
      · exact .inr (.inr ⟨[], l, rfl, .nil, hsplit⟩)

theorem hexadecimal_eq_ok_iff {l : List Char} (h : Even (utf8Len l)) :
    (∃ bytes, hexadecimal (String.ofList l) = .ok bytes) ↔ Pairs l := by
  constructor
  · rintro ⟨bytes, hok⟩
    rcases hexadecimal_cases h with hl | herror | ⟨p, r, rfl, hp, hr⟩
    · exact hl
    · cases hok.symm.trans herror
    · cases hok.symm.trans (hp.hexadecimal_append hr)
  · intro hl
    obtain ⟨bytes, hok, -⟩ := hl.hexadecimal
    exact ⟨bytes, hok⟩

theorem hexadecimal_eq_panicked_iff {l : List Char} (h : Even (utf8Len l)) :
    hexadecimal (String.ofList l) = .error .panicked ↔
      ∃ p r, l = p ++ r ∧ Pairs p ∧ SplitsCharacter r := by
  constructor
  · intro hpanic
    rcases hexadecimal_cases h with hl | herror | hsplit
    · obtain ⟨bytes, hok, -⟩ := hl.hexadecimal
      cases hpanic.symm.trans hok
    · cases hpanic.symm.trans herror
    · exact hsplit
  · rintro ⟨p, r, rfl, hp, hr⟩
    exact hp.hexadecimal_append hr

/-! ### The value of a row -/

/-- The literal of the value `text`. -/
def textLiteral (quoting text : String) : Expr := .value (.text quoting text)

theorem byteaLiteral_of_hexMarker {quoting text : String} {h : List Char}
    (htext : text.toList = hexMarker ++ h) :
    byteaLiteral (textLiteral quoting text) = (do
      ensure (2 ∣ utf8Len h) invalid
      hexadecimal (String.ofList h)) := by
  have hstrip : hexMarker.isPrefixOf? text.toList = some h :=
    List.isPrefixOf?_eq_some_iff_append_eq.mpr htext.symm
  have hlen := Utf8.length_utf8 (String.ofList h)
  rw [String.toList_ofList] at hlen
  simp only [byteaLiteral, textLiteral, stringLiteral, SqlValue.intoString, ok_bind, hstrip, hlen]
  rfl

theorem byteaLiteral_of_not_hexMarker (quoting : String) {text : String}
    (htext : ∀ h, text.toList ≠ hexMarker ++ h) :
    byteaLiteral (textLiteral quoting text) = .ok (utf8 text) := by
  have hstrip : hexMarker.isPrefixOf? text.toList = none := by
    refine Option.eq_none_iff_forall_ne_some.mpr fun h hh => htext h ?_
    exact (List.isPrefixOf?_eq_some_iff_append_eq.mp hh).symm
  simp only [byteaLiteral, textLiteral, stringLiteral, SqlValue.intoString, ok_bind, hstrip]
  rfl

/-- Pairs without a plus sign are hexadecimal digits. -/
theorem pairs_iff {l : List Char} :
    (Pairs l ∧ '+' ∉ l) ↔ Even l.length ∧ ∀ c ∈ l, c ∈ hexCharacters := by
  constructor
  · rintro ⟨hl, hplus⟩
    induction hl with
    | nil => exact ⟨by decide, fun c hc => absurd hc List.not_mem_nil⟩
    | @cons a b l hpair _ ih =>
        simp only [List.mem_cons, not_or] at hplus
        obtain ⟨heven, hall⟩ := ih hplus.2.2
        refine ⟨by simpa [Nat.even_add_one] using heven, ?_⟩
        rw [List.forall_mem_cons, List.forall_mem_cons]
        exact ⟨hpair.1.resolve_left fun h => hplus.1 h.symm, hpair.2, hall⟩
  · rintro ⟨heven, hall⟩
    refine ⟨?_, fun hplus => absurd (hall _ hplus) (by decide)⟩
    induction l using List.twoStepInduction with
    | nil => exact .nil
    | singleton c => exact absurd heven (by simp)
    | cons_cons a b l ih _ =>
        rw [List.forall_mem_cons, List.forall_mem_cons] at hall
        refine .cons ⟨.inr hall.1, hall.2.1⟩ (ih ?_ hall.2.2)
        simpa [Nat.even_add_one] using heven

theorem utf8Len_of_hexCharacters {l : List Char} (h : ∀ c ∈ l, c ∈ hexCharacters) :
    utf8Len l = l.length := by
  induction l with
  | nil => rfl
  | cons c l ih =>
      rw [List.forall_mem_cons] at h
      rw [String.utf8Len_cons, ih h.2, utf8Size_of_mem h.1, List.length_cons]

/-- How a value should be read: a value without the marker is its own bytes, and after the marker
stands the hexadecimal text of the bytes, in either case. -/
structure DecodesExactly (quoting text : String) : Prop where
  total : byteaLiteral (textLiteral quoting text) ≠ .error .panicked
  plain : (∀ h, text.toList ≠ hexMarker ++ h) →
    byteaLiteral (textLiteral quoting text) = .ok (utf8 text)
  accepts : ∀ h, text.toList = hexMarker ++ h →
    ((∃ bytes, byteaLiteral (textLiteral quoting text) = .ok bytes) ↔
      Even h.length ∧ ∀ c ∈ h, c ∈ hexCharacters)
  bytes : ∀ h, text.toList = hexMarker ++ h →
    ∀ bytes, byteaLiteral (textLiteral quoting text) = .ok bytes →
      hexDigits bytes = h.map Char.toLower

/-- If the text after the marker can be cut into slices of two bytes, then no slice after pairs that
are taken ends inside a character, and no pair has a plus sign if all are taken. -/
def Readable (h : List Char) : Prop :=
  Even (utf8Len h) →
    (∀ p r, h = p ++ r → Pairs p → ¬ SplitsCharacter r) ∧ (Pairs h → '+' ∉ h)

theorem byteaLiteral_of_odd (quoting : String) {text : String} {h : List Char}
    (htext : text.toList = hexMarker ++ h) (hodd : ¬ Even (utf8Len h)) :
    byteaLiteral (textLiteral quoting text) = .error invalid := by
  rw [byteaLiteral_of_hexMarker htext, ensure, if_neg fun hd => hodd (even_iff_two_dvd.mpr hd)]
  rfl

theorem byteaLiteral_of_even (quoting : String) {text : String} {h : List Char}
    (htext : text.toList = hexMarker ++ h) (heven : Even (utf8Len h)) :
    byteaLiteral (textLiteral quoting text) = hexadecimal (String.ofList h) := by
  rw [byteaLiteral_of_hexMarker htext]
  exact bind_of_ok (ensure_of heven.two_dvd) rfl

/-- What follows the marker is determined by the text. -/
theorem DecodesExactly.of_hexMarker {quoting text : String} {h : List Char}
    (htext : text.toList = hexMarker ++ h)
    (htotal : byteaLiteral (textLiteral quoting text) ≠ .error .panicked)
    (haccepts : (∃ bytes, byteaLiteral (textLiteral quoting text) = .ok bytes) ↔
      Even h.length ∧ ∀ c ∈ h, c ∈ hexCharacters)
    (hbytes : ∀ bytes, byteaLiteral (textLiteral quoting text) = .ok bytes →
      hexDigits bytes = h.map Char.toLower) :
    DecodesExactly quoting text where
  total := htotal
  plain hne := absurd htext (hne h)
  accepts h' htext' := by
    obtain rfl := List.append_cancel_left (htext'.symm.trans htext)
    exact haccepts
  bytes h' htext' := by
    obtain rfl := List.append_cancel_left (htext'.symm.trans htext)
    exact hbytes

theorem decodesExactly_of_readable {quoting text : String} {h : List Char}
    (htext : text.toList = hexMarker ++ h) (hread : Readable h) :
    DecodesExactly quoting text := by
  by_cases heven : Even (utf8Len h)
  · obtain ⟨hsplit, hplus⟩ := hread heven
    have hrun := byteaLiteral_of_even quoting htext heven
    have hpairs : (∃ bytes, byteaLiteral (textLiteral quoting text) = .ok bytes) ↔ Pairs h := by
      rw [hrun]
      exact hexadecimal_eq_ok_iff heven
    refine .of_hexMarker htext ?_ ?_ ?_
    · rw [hrun]
      intro hpanic
      obtain ⟨p, r, hpr, hp, hr⟩ := (hexadecimal_eq_panicked_iff heven).mp hpanic
      exact hsplit p r hpr hp hr
    · rw [hpairs, ← pairs_iff]
      exact ⟨fun hl => ⟨hl, hplus hl⟩, And.left⟩
    · intro bytes hok
      have hl := hpairs.mp ⟨bytes, hok⟩
      obtain ⟨bytes', hok', hdigits⟩ := hl.hexadecimal
      cases hok.symm.trans (hrun.trans hok')
      exact hdigits (hplus hl)
  · have herror := byteaLiteral_of_odd quoting htext heven
    refine .of_hexMarker htext ?_ ?_ ?_
    · rw [herror]
      exact fun h => nomatch h
    · rw [herror]
      refine ⟨fun ⟨_, hok⟩ => (nomatch hok), fun ⟨hlen, hall⟩ => absurd ?_ heven⟩
      rwa [utf8Len_of_hexCharacters hall]
    · intro bytes hok
      cases hok.symm.trans herror

/-- The hexadecimal text of the bytes is read back. -/
theorem byteaLiteral_hexEncode (quoting : String) (bytes : List Byte) :
    byteaLiteral (textLiteral quoting (String.ofList (hexMarker ++ hexDigits bytes))) =
      .ok bytes := by
  have hall : ∀ c ∈ hexDigits bytes, c ∈ hexCharacters := by
    intro c hc
    obtain ⟨n, rfl⟩ := mem_hexDigits hc
    exact hexDigit_mem n
  have heven : Even (hexDigits bytes).length := by
    rw [length_hexDigits]
    exact even_two_mul _
  have hlower : (hexDigits bytes).map Char.toLower = hexDigits bytes := by
    have hdigit : ∀ n, (hexDigit n).toLower = hexDigit n := by decide
    refine (List.map_congr_left fun c hc => ?_).trans (List.map_id _)
    obtain ⟨n, rfl⟩ := mem_hexDigits hc
    exact hdigit n
  have htext : (String.ofList (hexMarker ++ hexDigits bytes)).toList =
      hexMarker ++ hexDigits bytes := String.toList_ofList
  obtain ⟨hpairs, hplus⟩ := pairs_iff.mpr ⟨heven, hall⟩
  obtain ⟨bytes', hok, hdigits⟩ := hpairs.hexadecimal
  rw [byteaLiteral_of_even quoting htext (by rwa [utf8Len_of_hexCharacters hall]), hok,
    hexDigits_injective ((hdigits hplus).trans hlower)]

/-- **Hexadecimal values are decoded exactly** if no plus sign is taken for a digit and no slice
ends inside a character. -/
theorem byteaLiteral_exact_iff (quoting text : String) :
    DecodesExactly quoting text ↔ ∀ h, text.toList = hexMarker ++ h → Readable h := by
  constructor
  · intro hexact h htext heven
    have hrun := byteaLiteral_of_even quoting htext heven
    constructor
    · intro p r hpr hp hr
      exact hexact.total (hrun.trans ((hexadecimal_eq_panicked_iff heven).mpr ⟨p, r, hpr, hp, hr⟩))
    · intro hl
      obtain ⟨bytes, hok, -⟩ := hl.hexadecimal
      exact (pairs_iff.mpr ((hexact.accepts h htext).mp ⟨bytes, hrun.trans hok⟩)).2
  · intro hread
    by_cases hmarker : ∃ h, text.toList = hexMarker ++ h
    · obtain ⟨h, htext⟩ := hmarker
      exact decodesExactly_of_readable htext (hread h htext)
    · have hplain := not_exists.mp hmarker
      have hok := byteaLiteral_of_not_hexMarker quoting hplain
      refine ⟨?_, fun _ => hok, fun h htext => absurd htext (hplain h),
        fun h htext => absurd htext (hplain h)⟩
      rw [hok]
      exact fun h => nomatch h

/-- A plus sign is taken for a digit, and a slice ends inside a character of two bytes. -/
theorem not_decodesExactly_of_plus_of_split :
    (byteaLiteral (textLiteral "'" "\\x+f") = .ok [15] ∧ ¬ DecodesExactly "'" "\\x+f") ∧
      byteaLiteral (textLiteral "'" "\\x1é2") = .error .panicked ∧
      ¬ DecodesExactly "'" "\\x1é2" := by
  refine ⟨⟨rfl, fun h => ?_⟩, rfl, fun h => h.total rfl⟩
  have hdigits := ((h.accepts ['+', 'f'] rfl).mp ⟨[15], rfl⟩).2
  exact absurd (hdigits '+' (List.mem_cons_self ..)) (by decide)

end Sidecar
end Pulpitum
