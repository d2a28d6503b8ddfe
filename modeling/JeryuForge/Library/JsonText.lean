import JeryuForge.Library.Blocks
import JeryuForge.Library.OrdMap

/-!
# JSON as a text

Values, and what a program may rely on when it writes an object and reads it back.  The
reader and the writer are any that agree on flat objects of strings and integers; a small
compact pair shows that there are some.
-/

/-! ## Quoted strings -/

namespace Quoted

open List

def hexDigits : List Char :=
  "0123456789abcdef".toList

def hexDigit (value : Nat) : Char :=
  hexDigits.getD value '0'

def hexValue (digit : Char) : Option Nat :=
  hexDigits.findIdx? fun other => other = digit.toLower

theorem hexValue_hexDigit : ∀ value < 16, hexValue (hexDigit value) = some value := by
  decide

def shortEscapes : List (Char × Char) :=
  [('"', '"'), ('\\', '\\'), (Char.ofNat 8, 'b'), ('\t', 't'), ('\n', 'n'),
    (Char.ofNat 12, 'f'), ('\r', 'r')]

def escapeChar (char : Char) : List Char :=
  match shortEscapes.find? fun escape => escape.1 = char with
  | some escape => ['\\', escape.2]
  | none =>
    if char.toNat < 32 then
      ['\\', 'u', '0', '0', hexDigit (char.toNat / 16), hexDigit (char.toNat % 16)]
    else
      [char]

def escape (text : List Char) : List Char :=
  text.flatMap escapeChar

def quote (text : List Char) : List Char :=
  '"' :: escape text ++ ['"']

def ofHex (first second third fourth : Char) : Option Char := do
  let first ← hexValue first
  let second ← hexValue second
  let third ← hexValue third
  let fourth ← hexValue fourth
  let code := ((first * 16 + second) * 16 + third) * 16 + fourth
  if code.isValidChar then some (Char.ofNat code) else none

def unquote : List Char → Option (List Char × List Char)
  | [] => none
  | '"' :: rest => some ([], rest)
  | '\\' :: 'u' :: first :: second :: third :: fourth :: rest => do
      let char ← ofHex first second third fourth
      let (text, rest) ← unquote rest
      return (char :: text, rest)
  | '\\' :: letter :: rest => do
      let escape ← shortEscapes.find? fun escape => escape.2 = letter
      let (text, rest) ← unquote rest
      return (escape.1 :: text, rest)
  | char :: rest => do
      let (text, rest) ← unquote rest
      return (char :: text, rest)

theorem shortEscapes_find? : ∀ escape ∈ shortEscapes,
    escape.2 ≠ 'u' ∧ (shortEscapes.find? fun other => other.2 = escape.2) = some escape := by
  decide

theorem unquote_short {escape : Char × Char} (hescape : escape ∈ shortEscapes) (rest : List Char) :
    unquote ('\\' :: escape.2 :: rest) =
      (unquote rest).map fun answer => (escape.1 :: answer.1, answer.2) := by
  obtain ⟨hletter, hfind⟩ := shortEscapes_find? escape hescape
  rw [unquote.eq_def]
  split
  next heq =>
    cases heq
  next heq =>
    cases heq
  next heq =>
    injection heq with _ htail
    injection htail with hu _
    exact absurd hu hletter
  next heq =>
    injection heq with _ htail
    injection htail with hsame hrest
    subst hsame hrest
    rw [hfind]
    cases unquote rest with
    | none | some => rfl
  next hplain heq =>
    injection heq with hchar htail
    subst hchar
    exact absurd htail.symm (hplain _ _ rfl)

theorem ofHex_control {code : Nat} (hcode : code < 32) :
    ofHex '0' '0' (hexDigit (code / 16)) (hexDigit (code % 16)) = some (Char.ofNat code) := by
  have hzero : hexValue '0' = some 0 := by decide
  have hvalid : code.isValidChar := .inl (by omega)
  have hsum : ((0 * 16 + 0) * 16 + code / 16) * 16 + code % 16 = code := by omega
  unfold ofHex
  simp only [hzero, hexValue_hexDigit (code / 16) (by omega),
    hexValue_hexDigit (code % 16) (by omega), Option.bind_eq_bind, Option.bind_some, hsum,
    if_pos hvalid]

theorem unquote_plain {char : Char} (hquote : char ≠ '"') (hslash : char ≠ '\\')
    (rest : List Char) :
    unquote (char :: rest) =
      (unquote rest).map fun answer => (char :: answer.1, answer.2) := by
  rw [unquote.eq_def]
  split
  next heq =>
    cases heq
  next heq =>
    injection heq with hchar _
    exact absurd hchar hquote
  next heq =>
    injection heq with hchar _
    exact absurd hchar hslash
  next heq =>
    injection heq with hchar _
    exact absurd hchar hslash
  next heq =>
    injection heq with hchar hrest
    subst hchar hrest
    cases unquote rest with
    | none | some => rfl

theorem unquote_escapeChar (char : Char) (rest : List Char) :
    unquote (escapeChar char ++ rest) =
      (unquote rest).map fun answer => (char :: answer.1, answer.2) := by
  unfold escapeChar
  cases hfind : shortEscapes.find? fun escape => escape.1 = char with
  | some escape =>
    have hchar : escape.1 = char := by simpa using find?_some hfind
    rw [← hchar]
    exact unquote_short (mem_of_find?_eq_some hfind) rest
  | none =>
    have hnone := find?_eq_none.mp hfind
    have hquote : char ≠ '"' := fun heq => hnone ('"', '"') (by decide) (by simp [heq])
    have hslash : char ≠ '\\' := fun heq => hnone ('\\', '\\') (by decide) (by simp [heq])
    by_cases hcontrol : char.toNat < 32
    · have hhex := ofHex_control hcontrol
      rw [Char.ofNat_toNat] at hhex
      simp only [if_pos hcontrol, cons_append, nil_append]
      rw [unquote, hhex]
      cases unquote rest with
      | none | some => rfl
    · simp only [if_neg hcontrol, singleton_append]
      exact unquote_plain hquote hslash rest

theorem unquote_escape (text rest : List Char) :
    unquote (escape text ++ '"' :: rest) = some (text, rest) := by
  unfold escape
  induction text with
  | nil => rfl
  | cons char text ih =>
    rw [flatMap_cons, append_assoc, unquote_escapeChar, ih]
    rfl

theorem escapes_ascii : ∀ escape ∈ shortEscapes,
    32 ≤ escape.2.toNat ∧ escape.2.toNat < 127 := by
  decide

theorem hexDigit_ascii : ∀ value < 16,
    32 ≤ (hexDigit value).toNat ∧ (hexDigit value).toNat < 127 := by
  decide

theorem escapeChar_cases (char : Char) :
    (escapeChar char = [char] ∧ 32 ≤ char.toNat) ∨
      ∀ other ∈ escapeChar char, 32 ≤ other.toNat ∧ other.toNat < 127 := by
  unfold escapeChar
  cases hfind : shortEscapes.find? fun escape => escape.1 = char with
  | some escape =>
    refine .inr fun other hother => ?_
    simp only [mem_cons, not_mem_nil, or_false] at hother
    rcases hother with rfl | rfl
    · decide
    · exact escapes_ascii escape (mem_of_find?_eq_some hfind)
  | none =>
    by_cases hcontrol : char.toNat < 32
    · refine .inr fun other hother => ?_
      simp only [if_pos hcontrol, mem_cons, not_mem_nil, or_false] at hother
      rcases hother with rfl | rfl | rfl | rfl | rfl | rfl
      · decide
      · decide
      · decide
      · decide
      · exact hexDigit_ascii _ (by omega)
      · exact hexDigit_ascii _ (by omega)
    · exact .inl ⟨if_neg hcontrol, by omega⟩

theorem mem_quote {text : List Char} {char : Char} (hchar : char ∈ quote text) :
    32 ≤ char.toNat ∧ (char.toNat < 127 ∨ char ∈ text) := by
  simp only [quote, escape, cons_append, mem_cons, mem_append, mem_flatMap,
    not_mem_nil, or_false] at hchar
  rcases hchar with rfl | ⟨own, hmem, hown⟩ | rfl
  · exact ⟨by decide, .inl (by decide)⟩
  · rcases escapeChar_cases own with ⟨hself, hprints⟩ | hascii
    · rw [hself, mem_singleton] at hown
      subst hown
      exact ⟨hprints, .inr hmem⟩
    · exact ⟨(hascii char hown).1, .inl (hascii char hown).2⟩
  · exact ⟨by decide, .inl (by decide)⟩

theorem mem_quote_of_mem {text : List Char} {char : Char} (hchar : char ∈ text)
    (hcode : 127 ≤ char.toNat) : char ∈ quote text := by
  have hescape : char ∈ escapeChar char := by
    rcases escapeChar_cases char with ⟨hself, _⟩ | hascii
    · rw [hself]
      exact mem_cons_self
    · exfalso
      revert hascii
      unfold escapeChar
      cases hfind : shortEscapes.find? fun escape => escape.1 = char with
      | some escape =>
        have hself : escape.1 = char := by simpa using find?_some hfind
        have hshort : ∀ escape ∈ shortEscapes, escape.1.toNat < 127 := by decide
        have hsmall := hshort escape (mem_of_find?_eq_some hfind)
        rw [hself] at hsmall
        omega
      | none =>
        intro hascii
        have hsmall := hascii char (by simp [show ¬char.toNat < 32 by omega])
        omega
  have hmem : char ∈ escape text := mem_flatMap.mpr ⟨char, hchar, hescape⟩
  exact mem_cons_of_mem _ (mem_append_left _ hmem)

end Quoted

namespace Json

open List Quoted Nat

inductive Value where
  | null
  | bool (value : Bool)
  | int (value : Int)
  | float (value : Float)
  | string (text : List Char)
  | array (items : List Value)
  | object (fields : List (String × Value))

abbrev Fields := List (String × Value)

namespace Value

def get? (value : Value) (key : String) : Option Value :=
  match value with
  | .object fields => (fields.find? fun field => field.1 = key).map Prod.snd
  | _ => none

def asStr : Value → Option (List Char)
  | .string text => some text
  | _ => none

def asI64 : Value → Option Int64
  | .int value => if -2 ^ 63 ≤ value ∧ value < 2 ^ 63 then some (Int64.ofInt value) else none
  | _ => none

def asU64 : Value → Option UInt64
  | .int value =>
    if 0 ≤ value ∧ value < 2 ^ 64 then some (UInt64.ofNat value.toNat) else none
  | _ => none

def Scalar : Value → Prop
  | .string _ => True
  | .int value => -2 ^ 63 ≤ value ∧ value < 2 ^ 64
  | _ => False

end Value

structure Flat (fields : Fields) : Prop where
  nodup : (fields.map Prod.fst).Nodup
  scalar : ∀ field ∈ fields, field.2.Scalar

/-- A writer of objects and a reader of values.  An object that was written reads back
with the same value for every key; the order of its keys is left open. -/
structure Text where
  render : Fields → List UInt8
  parse : List UInt8 → Option Value
  parse_render : ∀ fields, Flat fields →
    ∃ value, parse (render fields) = some value ∧
      ∀ key, value.get? key = (Value.object fields).get? key

namespace Compact

def renderInt (value : Int) : List Char :=
  if value < 0 then '-' :: Nat.toDigits 10 value.natAbs else Nat.toDigits 10 value.natAbs

def readDigits (text : List Char) : Nat × List Char :=
  (Nat.ofDigitChars 10 (text.takeWhile Char.isDigit) 0, text.dropWhile Char.isDigit)

theorem isDigit_of_mem {number : Nat} {char : Char} (hmem : char ∈ Nat.toDigits 10 number) :
    char.isDigit = true :=
  isDigit_of_mem_toDigits (by decide) (by decide) hmem

theorem toDigits_eq_cons (number : Nat) :
    ∃ digit digits, Nat.toDigits 10 number = digit :: digits ∧ digit.isDigit = true := by
  obtain ⟨digit, digits, hdigits⟩ := exists_cons_of_ne_nil (@toDigits_ne_nil number 10)
  exact ⟨digit, digits, hdigits, isDigit_of_mem (hdigits ▸ mem_cons_self)⟩

theorem readDigits_toDigits {rest : List Char} (number : Nat)
    (hrest : ∀ char ∈ rest.head?, char.isDigit = false) :
    readDigits (Nat.toDigits 10 number ++ rest) = (number, rest) := by
  obtain ⟨htake, hdrop⟩ := span_append (fun _ hmem => isDigit_of_mem hmem) hrest
  rw [readDigits, htake, hdrop, ofDigitChars_ten_toDigits]

end Compact

theorem get?_eq_some_iff {fields : Fields} (hnodup : (fields.map Prod.fst).Nodup) {key : String}
    {value : Value} : (Value.object fields).get? key = some value ↔ (key, value) ∈ fields :=
  OrdMap.find?_key_eq_some_iff hnodup

theorem get?_of_perm {fields others : Fields} (hperm : others.Perm fields)
    (hnodup : (fields.map Prod.fst).Nodup) (key : String) :
    (Value.object others).get? key = (Value.object fields).get? key := by
  refine Option.ext fun value => ?_
  rw [get?_eq_some_iff hnodup, get?_eq_some_iff ((hperm.map Prod.fst).nodup_iff.mpr hnodup)]
  exact hperm.mem_iff

end Json
