import SpreadArb.Numeric.F64
import SpreadArb.Numeric.Fixed
import SpreadArb.OrderBackends

namespace SpreadArb
open Numeric

namespace BybitDemoClient

/-- `format!("{:.8}", x)`, without the zeros and the point at its end. -/
def trimmedText (x : ℚ) : List Char := trimmed (Numeral.formatted 8 x).text

/-- The "qty" of a placement. -/
def qtyStr (qtyStep size : ℚ) : List Char := trimmedText (roundedQty qtyStep size)

def roundedPrice (price : ℚ) : ℚ := Grid.nearest (price * 10 ^ 8) / 10 ^ 8

/-- The "price" of a placement. -/
def priceStr (price : ℚ) : List Char := trimmedText (roundedPrice price)

end BybitDemoClient

namespace BinanceDemoClient

/-- `round_quantity`, with a power of ten that is correctly rounded. -/
def roundQuantity (quantity : F64) (precision : Nat) : F64 :=
  let multiplier : F64 := .round (10 ^ precision)
  (quantity * multiplier).floor / multiplier

/-- How much follows the first point of a text. -/
def lengthAfterPoint (cs : List Char) : Nat :=
  match cs.dropWhile (· ≠ '.') with
  | _ :: ds => ds.length
  | [] => 0

/-- The decimal places of a tick: those of its ten places that remain without the zeros at the
end. -/
def decimals (tickSize : ℚ) : Nat :=
  lengthAfterPoint ((Numeral.formatted 10 tickSize).text.rdropWhile (· = '0'))

/-- `round_price_to_tick`. `display` is the shortest text of a double. -/
def roundPriceToTick (display : ℚ → List Char) (price tickSize : ℚ) : List Char :=
  if tickSize ≤ 0 then display price
  else (Numeral.formatted (decimals tickSize) (Grid.roundTo tickSize price)).text

/-- The price that `place_order` keeps in the order: what the text says. -/
def placedPrice (display : ℚ → List Char) (price tickSize : ℚ) : F64 :=
  (F64.parse (roundPriceToTick display price tickSize)).getD (.fin price)

end BinanceDemoClient

end SpreadArb
