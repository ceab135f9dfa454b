import Mathlib.Data.List.Basic

/-! The standard library's `encoding/hex`. Encoding writes two lower-case digits for each
byte, decoding reads digits of either case and refuses anything else. -/

namespace Hex

def digit (n : Nat) : Char :=
  if n < 10 then Char.ofNat ('0'.toNat + n) else Char.ofNat ('a'.toNat + (n - 10))

def fromHexChar (c : Char) : Option Nat :=
  if '0' ≤ c ∧ c ≤ '9' then some (c.toNat - '0'.toNat)
  else if 'a' ≤ c ∧ c ≤ 'f' then some (c.toNat - 'a'.toNat + 10)
  else if 'A' ≤ c ∧ c ≤ 'F' then some (c.toNat - 'A'.toNat + 10)
  else none

def encodeChars : List UInt8 → List Char
  | [] => []
  | b :: bs => digit (b.toNat / 16) :: digit (b.toNat % 16) :: encodeChars bs

def encodeToString (bs : List UInt8) : String := String.ofList (encodeChars bs)

def decodeChars : List Char → Option (List UInt8)
  | [] => some []
  | [_] => none
  | hi :: lo :: cs => do
    let h ← fromHexChar hi
    let l ← fromHexChar lo
    let bs ← decodeChars cs
    return UInt8.ofNat (h * 16 + l) :: bs

/-- `none` is the error of an odd length or an invalid digit. -/
def decodeString (s : String) : Option (List UInt8) := decodeChars s.toList

theorem fromHexChar_digit (n : Nat) (hn : n < 16) : fromHexChar (digit n) = some n := by
  have h : ∀ k : Fin 16, fromHexChar (digit k) = some k.val := by decide
  exact h ⟨n, hn⟩

theorem decodeChars_encodeChars (bs : List UInt8) : decodeChars (encodeChars bs) = some bs := by
  induction bs with
  | nil => rfl
  | cons b bs ih =>
    have hb : b.toNat < 256 := b.toNat_lt
    have hhi := fromHexChar_digit (b.toNat / 16) (by omega)
    have hlo := fromHexChar_digit (b.toNat % 16) (by omega)
    have hbyte : b.toNat / 16 * 16 + b.toNat % 16 = b.toNat := by omega
    simp only [encodeChars, decodeChars, hhi, hlo, ih, hbyte, UInt8.ofNat_toNat, bind, Option.bind,
      pure]

/-- **Round trip.** -/
theorem decodeString_encodeToString (bs : List UInt8) :
    decodeString (encodeToString bs) = some bs := by
  rw [decodeString, encodeToString, String.toList_ofList]
  exact decodeChars_encodeChars bs

theorem encodeToString_injective {bs cs : List UInt8}
    (h : encodeToString bs = encodeToString cs) : bs = cs := by
  have hb := decodeString_encodeToString bs
  rw [h, decodeString_encodeToString] at hb
  exact (Option.some.inj hb).symm

end Hex
