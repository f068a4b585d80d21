import Xbbg.Library.Words
import Xbbg.Model.Auction

/-! Canonical names of columns (`utils.rs` and `historical.rs` of the recipes). -/

namespace Xbbg.Names

open List Library Auction

def canonicalName (name : String) : String :=
  let text := name.toList.map fun ch => if ch.isAlphanum then ch.toLower else '_'
  String.ofList (['_'].intercalate (words (· == '_') text))

def toAsciiLowercase (byte : ℕ) : ℕ := if isAsciiUppercase byte then byte + 32 else byte

def partMatches (part want : String) : Bool :=
  (asBytes part).length = (asBytes want).length &&
    ((asBytes part).zip (asBytes want)).all fun pair => toAsciiLowercase pair.1 = pair.2

/-- The loop over the parts of the value and of the canonical name. -/
def partsMatch : List (List Char) → List (List Char) → Bool
  | part :: parts, want :: expected =>
    if partMatches (String.ofList part) (String.ofList want) then partsMatch parts expected
    else false
  | [], [] => true
  | _, _ => false

def canonicalNameMatches (value canonical : String) : Bool :=
  let parts := words (fun ch => !ch.isAlphanum) value.toList
  if canonical = "" then parts.isEmpty else partsMatch parts (canonical.toList.splitOn '_')

end Xbbg.Names
