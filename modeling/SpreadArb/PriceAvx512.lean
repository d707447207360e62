import SpreadArb.ExchangeParser
import SpreadArb.Numeric.Lanes

namespace SpreadArb
open Numeric Lanes

/-- `s.as_bytes()`. -/
def asBytes (cs : List Char) : List UInt8 := cs.flatMap String.utf8EncodeChar

/-- One turn of the vector loop, with sixteen bytes or more to go: the number with their digits, or
nothing if the loop is left. The other half of the register is zero. -/
def vectorDigits (bytes : List UInt8) (result : Nat) : Option Nat :=
  let zeroVec : Register 32 := set1 48
  let nineVec : Register 32 := set1 57
  let dotVec : Register 32 := set1 46
  let data : Register 32 := load ((bytes.take 16 ++ List.replicate 16 0).map UInt8.toBitVec)
  let dotBits := movemask (cmpeq data dotVec)
  if dotBits ≠ 0 then none
  else
    let geZero := cmpgt data (sub zeroVec (set1 1))
    let leNine := cmpgt (add nineVec (set1 1)) data
    let validMask := movemask (and geZero leNine)
    if validMask ≠ BitVec.allOnes 32 then none
    else
      let digits := sub data zeroVec
      some (((List.finRange 32).take 16).foldl (fun result j =>
        result * 10 + (digits j).toNat) result)

/-- The vector loop, a turn for each sixteen bytes: the bytes it leaves, and the number so far. -/
def vectorLoop : Nat → List UInt8 → Nat → List UInt8 × Nat
  | 0, bytes, result => (bytes,result)
  | turns+1, bytes, result =>
    match vectorDigits bytes result with
    | some result => vectorLoop turns (bytes.drop 16) result
    | none => (bytes,result)

/-- The scalar loop over the remaining bytes. -/
def scanBytes : List UInt8 → Nat → Nat → Bool → PriceScan
  | [], result, decimalPlaces, _ => .value (result / 10 ^ decimalPlaces)
  | byte :: bytes, result, decimalPlaces, foundDecimal =>
    if byte = 46 then
      if foundDecimal then .fallback else scanBytes bytes result decimalPlaces true
    else if byte ≥ 48 && byte ≤ 57 then
      scanBytes bytes (result * 10 + (byte - 48).toNat)
        (if foundDecimal then decimalPlaces+1 else decimalPlaces) foundDecimal
    else .invalid

/-- `parse_price_avx512`. -/
def parsePriceAvx512 (cs : List Char) : Option F64 :=
  let bytes := asBytes cs
  if bytes.length = 0 || bytes.length > 32 then parsePriceFast cs
  else if bytes.length < 8 || cs.contains 'e' || cs.contains 'E' then parsePriceFast cs
  else
    let isNegative := bytes.head? = some 45
    let digits := if isNegative then bytes.drop 1 else bytes
    let (rest,result) := vectorLoop (digits.length / 16) digits 0
    match scanBytes rest result 0 false with
    | .value q => some (.fin (if isNegative then -q else q))
    | .fallback => parsePriceFast cs
    | .invalid => none

/-- `parse_price_simd` with the vector unit. -/
def parsePriceVector (s : String) : Option F64 :=
  if s = "" then none else parsePriceAvx512 s.toList

end SpreadArb
