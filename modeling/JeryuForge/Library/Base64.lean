import Mathlib

/-!
# Padded base64

The standard encoding: the alphabet with plus and slash, filled up with equality signs to whole
groups of four characters.  It is the encoding for URLs with two characters exchanged and the
padding behind it.
-/

-- What is decided of the characters of a list is decided along the list, whatever is imported.
attribute [instance (high)] List.decidableBAll List.decidableBEx

namespace Base64Url

open Option

def alphabet : List Char :=
  "ABCDEFGHIJKLMNOPQRSTUVWXYZabcdefghijklmnopqrstuvwxyz0123456789-_".toList

def symbol (value : Nat) : Char :=
  alphabet.getD value 'A'

def value (char : Char) : Option Nat :=
  alphabet.findIdx? fun other => other = char

/-- Three bytes are four characters; one or two bytes at the end are two or three. -/
def encode : List UInt8 → List Char
  | [] => []
  | [first] => [symbol (first.toNat / 4), symbol (first.toNat % 4 * 16)]
  | [first, second] =>
    [symbol (first.toNat / 4), symbol (first.toNat % 4 * 16 + second.toNat / 16),
      symbol (second.toNat % 16 * 4)]
  | first :: second :: third :: rest =>
    symbol (first.toNat / 4) :: symbol (first.toNat % 4 * 16 + second.toNat / 16) ::
      symbol (second.toNat % 16 * 4 + third.toNat / 64) :: symbol (third.toNat % 64) ::
        encode rest

def decode : List Char → Option (List UInt8)
  | [] => some []
  | [_] => none
  | [first, second] => do
      let first ← value first
      let second ← value second
      if second % 16 = 0 then some [(first * 4 + second / 16).toUInt8] else none
  | [first, second, third] => do
      let first ← value first
      let second ← value second
      let third ← value third
      if third % 4 = 0 then
        some [(first * 4 + second / 16).toUInt8, (second % 16 * 16 + third / 4).toUInt8]
      else
        none
  | first :: second :: third :: fourth :: rest => do
      let first ← value first
      let second ← value second
      let third ← value third
      let fourth ← value fourth
      let rest ← decode rest
      return (first * 4 + second / 16).toUInt8 :: (second % 16 * 16 + third / 4).toUInt8 ::
        (third % 4 * 64 + fourth).toUInt8 :: rest

theorem value_symbol : ∀ number < 64, value (symbol number) = some number := by
  decide

theorem toUInt8_eq (byte : UInt8) {number : Nat} (hnumber : number = byte.toNat) :
    number.toUInt8 = byte := by
  rw [hnumber]
  exact UInt8.ofNat_toNat

theorem decode_encode (bytes : List UInt8) : decode (encode bytes) = some bytes := by
  induction bytes using encode.induct with
  | case1 => rfl
  | case2 first =>
    have hfirst := first.toNat_lt
    simp only [encode, decode, value_symbol (first.toNat / 4) (by omega),
      value_symbol (first.toNat % 4 * 16) (by omega), bind_eq_bind, bind_some]
    rw [if_pos (by omega), toUInt8_eq first (by omega)]
  | case3 first second =>
    have hfirst := first.toNat_lt
    have hsecond := second.toNat_lt
    simp only [encode, decode, value_symbol (first.toNat / 4) (by omega),
      value_symbol (first.toNat % 4 * 16 + second.toNat / 16) (by omega),
      value_symbol (second.toNat % 16 * 4) (by omega), bind_eq_bind, bind_some]
    rw [if_pos (by omega), toUInt8_eq first (by omega), toUInt8_eq second (by omega)]
  | case4 first second third rest ih =>
    have hfirst := first.toNat_lt
    have hsecond := second.toNat_lt
    have hthird := third.toNat_lt
    simp only [encode, decode, value_symbol (first.toNat / 4) (by omega),
      value_symbol (first.toNat % 4 * 16 + second.toNat / 16) (by omega),
      value_symbol (second.toNat % 16 * 4 + third.toNat / 64) (by omega),
      value_symbol (third.toNat % 64) (by omega), bind_eq_bind, bind_some, ih]
    rw [toUInt8_eq first (by omega), toUInt8_eq second (by omega), toUInt8_eq third (by omega)]
    rfl

theorem symbol_mem (number : Nat) : symbol number ∈ alphabet := by
  unfold symbol
  rw [List.getD_eq_getElem?_getD]
  cases hfound : alphabet[number]? with
  | none => decide
  | some char => exact List.mem_of_getElem? hfound

theorem mem_alphabet_of_mem_encode {bytes : List UInt8} :
    ∀ char ∈ encode bytes, char ∈ alphabet := by
  induction bytes using encode.induct with
  | case1 => simp [encode]
  | case2 | case3 => simp [encode, symbol_mem]
  | case4 first second third rest ih => simpa [encode, symbol_mem] using ih

theorem dot_notMem_encode (bytes : List UInt8) : '.' ∉ encode bytes :=
  fun hdot => absurd (mem_alphabet_of_mem_encode '.' hdot) (by decide)

end Base64Url

namespace Base64

open List

def toStandard (char : Char) : Char :=
  if char = '-' then '+' else if char = '_' then '/' else char

def ofStandard (char : Char) : Char :=
  if char = '+' then '-' else if char = '/' then '_' else char

def alphabet : List Char :=
  Base64Url.alphabet.map toStandard

def padding (length : Nat) : List Char :=
  List.replicate ((4 - length % 4) % 4) '='

def encode (bytes : List UInt8) : List Char :=
  (Base64Url.encode bytes).map toStandard ++ padding (Base64Url.encode bytes).length

def decode (text : List Char) : Option (List UInt8) :=
  let body := text.takeWhile fun char => char ≠ '='
  if body.any (fun char => char = '-' || char = '_') then none
  else if text.drop body.length = padding body.length then
    Base64Url.decode (body.map ofStandard)
  else
    none

theorem toStandard_of_mem : ∀ char ∈ Base64Url.alphabet,
    toStandard char ≠ '=' ∧ toStandard char ≠ '-' ∧ toStandard char ≠ '_' ∧
      ofStandard (toStandard char) = char := by
  decide

theorem takeWhile_encode (bytes : List UInt8) :
    (encode bytes).takeWhile (fun char => char ≠ '=') =
      (Base64Url.encode bytes).map toStandard := by
  have hbody : ∀ char ∈ (Base64Url.encode bytes).map toStandard, decide (char ≠ '=') = true := by
    intro char hchar
    obtain ⟨own, hown, rfl⟩ := mem_map.mp hchar
    exact decide_eq_true (toStandard_of_mem own (Base64Url.mem_alphabet_of_mem_encode own hown)).1
  have hpadding : ∀ length, (padding length).takeWhile (fun char => char ≠ '=') = [] := by
    intro length
    unfold padding
    cases (4 - length % 4) % 4 <;> simp [replicate_succ]
  rw [encode, takeWhile_append_of_pos hbody, hpadding, append_nil]

theorem decode_encode (bytes : List UInt8) : decode (encode bytes) = some bytes := by
  have hplain : ((Base64Url.encode bytes).map toStandard).any
      (fun char => char = '-' || char = '_') = false := by
    rw [any_eq_false]
    intro char hchar
    obtain ⟨own, hown, rfl⟩ := mem_map.mp hchar
    obtain ⟨-, hminus, hline, -⟩ :=
      toStandard_of_mem own (Base64Url.mem_alphabet_of_mem_encode own hown)
    simp [hminus, hline]
  have hback :
      ((Base64Url.encode bytes).map toStandard).map ofStandard = Base64Url.encode bytes := by
    rw [map_map]
    refine (map_congr_left fun char hchar => ?_).trans (map_id _)
    exact (toStandard_of_mem char (Base64Url.mem_alphabet_of_mem_encode char hchar)).2.2.2
  unfold decode
  simp only [takeWhile_encode, hplain]
  rw [if_neg (by decide), encode, drop_left, length_map, if_pos rfl, hback, Base64Url.decode_encode]

theorem length_urlEncode (bytes : List UInt8) :
    (Base64Url.encode bytes).length = (4 * bytes.length + 2) / 3 := by
  induction bytes using Base64Url.encode.induct with
  | case1 => rfl
  | case2 | case3 => simp [Base64Url.encode]
  | case4 first second third rest ih =>
    simp only [Base64Url.encode, length_cons, ih]
    omega

theorem length_encode (bytes : List UInt8) :
    (encode bytes).length = 4 * ((bytes.length + 2) / 3) := by
  rw [encode, padding, length_append, length_map, length_replicate, length_urlEncode]
  omega

theorem mem_encode {bytes : List UInt8} {char : Char} (hchar : char ∈ encode bytes) :
    char = '=' ∨ char ∈ alphabet := by
  rcases mem_append.mp hchar with hbody | hpadding
  · obtain ⟨own, hown, rfl⟩ := mem_map.mp hbody
    exact .inr (mem_map_of_mem (Base64Url.mem_alphabet_of_mem_encode own hown))
  · exact .inl (eq_of_mem_replicate hpadding)

end Base64
