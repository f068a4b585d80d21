import Mathlib.Data.List.Basic

/-! The check of ISINs (`auction.rs` of the extensions). -/

namespace Xbbg.Auction

def isAsciiUppercase (byte : ℕ) : Bool := 65 ≤ byte && byte ≤ 90

def isAsciiDigit (byte : ℕ) : Bool := 48 ≤ byte && byte ≤ 57

/-- The digits of a byte from the right: a letter has two. -/
def isinDigits (byte : ℕ) : List ℕ :=
  if isAsciiDigit byte then [byte - 48] else [(byte - 65 + 10) % 10, (byte - 65 + 10) / 10]

/-- Add a digit to the sum; every second one is doubled. -/
def addDigit (acc : ℕ × Bool) (digit : ℕ) : ℕ × Bool :=
  let value := digit * if acc.2 then 2 else 1
  (acc.1 + (value / 10 + value % 10), !acc.2)

def asBytes (text : String) : List ℕ := text.toUTF8.data.toList.map UInt8.toNat

def isValidIsin (isin : String) : Bool :=
  let bytes := asBytes isin
  bytes.length = 12 && (bytes.take 2).all isAsciiUppercase &&
    ((bytes.drop 2).take 9).all (fun byte => isAsciiUppercase byte || isAsciiDigit byte) &&
    (bytes.drop 11).all isAsciiDigit &&
    ((bytes.reverse.flatMap isinDigits).foldl addDigit (0, false)).1 % 10 = 0

end Xbbg.Auction
