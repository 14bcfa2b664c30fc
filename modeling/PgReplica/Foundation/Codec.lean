import Mathlib.Data.Nat.Digits.Defs
import Mathlib.Logic.Encodable.Basic
import Mathlib.Logic.Equiv.List

/-! # Encodings that can be read back -/

namespace PgReplica.Foundation

universe u

/-- A serializer and its parser, which reads back what the serializer wrote. -/
structure Codec (σ : Type u) where
  encode : σ → List UInt8
  decode : List UInt8 → Except String σ
  decode_encode : ∀ s, decode (encode s) = .ok s

namespace Codec

variable {σ : Type u}

/-- The base-256 digits of a number. -/
def numeral (n : Nat) : List UInt8 :=
  (Nat.digits 256 n).map UInt8.ofNat

def ofNumeral (bytes : List UInt8) : Nat :=
  Nat.ofDigits 256 (bytes.map UInt8.toNat)

theorem ofNumeral_numeral (n : Nat) : ofNumeral (numeral n) = n := by
  have hdigits : (Nat.digits 256 n).map (UInt8.toNat ∘ UInt8.ofNat) = Nat.digits 256 n := by
    conv_rhs => rw [← List.map_id (Nat.digits 256 n)]
    refine List.map_congr_left fun digit hdigit => ?_
    have hlt : digit < 256 := Nat.digits_lt_base (by decide) hdigit
    simp [Nat.mod_eq_of_lt hlt]
  rw [ofNumeral, numeral, List.map_map, hdigits, Nat.ofDigits_digits]

/-- The codec of a type whose values have numbers. -/
def ofEncodable [Encodable σ] : Codec σ where
  encode s := numeral (Encodable.encode s)
  decode bytes :=
    match Encodable.decode (ofNumeral bytes) with
    | some s => .ok s
    | none => .error "no value"
  decode_encode s := by
    rw [ofNumeral_numeral, Encodable.encodek]

end Codec

instance encodableChar : Encodable Char :=
  Encodable.ofLeftInverse Char.toNat Char.ofNat Char.ofNat_toNat

instance encodableString : Encodable String :=
  Encodable.ofLeftInverse String.toList String.ofList fun _ => String.ofList_toList

/-- A map is read back from its entries. -/
theorem ofList_toList {β : Type u} (map : Std.ExtTreeMap Nat β) :
    Std.ExtTreeMap.ofList map.toList compare = map := by
  ext key : 1
  cases hlookup : map[key]? with
  | none =>
      refine Std.ExtTreeMap.getElem?_ofList_of_contains_eq_false ?_
      simpa [Std.ExtTreeMap.mem_toList_iff_getElem?_eq_some] using hlookup
  | some value =>
      exact Std.ExtTreeMap.getElem?_ofList_of_mem Std.ReflCmp.compare_self
        Std.ExtTreeMap.distinct_keys_toList
        (Std.ExtTreeMap.mem_toList_iff_getElem?_eq_some.mpr hlookup)

instance encodableMap {β : Type u} [Encodable β] : Encodable (Std.ExtTreeMap Nat β) :=
  Encodable.ofLeftInverse Std.ExtTreeMap.toList (Std.ExtTreeMap.ofList · compare) ofList_toList

end PgReplica.Foundation
