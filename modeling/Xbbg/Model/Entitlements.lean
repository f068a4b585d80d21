import Mathlib.Algebra.Ring.Rat
import Mathlib.Data.List.ReduceOption
import Xbbg.Library.Maps

/-! Delayed-data and entitlement status of securities, from `entitlements.rs` of the recipes. The
maps of the reference data response are inputs. -/

namespace Xbbg.Entitlements

open Library

structure DelayedMeta where
  delayed : Bool
  delayMinutes : Option ℕ
  deriving DecidableEq, Repr

structure DelayStatusRow where
  ticker : String
  delayed : Option Bool
  delayMinutes : Option ℕ
  exchangeDelay : Option String
  exchCode : Option String
  realtimeEids : List (Option ℤ)
  delayedEid : Option ℤ
  realtimeEntitled : Option Bool := none
  delayedEntitled : Option Bool := none
  error : Option String
  deriving DecidableEq, Repr

def realtimeEidFields : List String := ["FEED_EID1", "FEED_EID2", "FEED_EID3", "FEED_EID4"]

def delayedEidField : String := "FEED_DELAYED_EID1"

/-- How texts are read as numbers; a float by its value, if it is finite. -/
structure Numbers where
  trim : String → String
  parseI64 : String → Option ℤ
  parseF64 : String → Option ℚ

/-- A whole float from one to `i64::MAX as f64`, which is `2 ^ 63`; the cast saturates. -/
def wholeEid (eid : ℚ) : Option ℤ :=
  if eid.den = 1 ∧ 1 ≤ eid ∧ eid ≤ 2 ^ 63 then some (min eid.num (2 ^ 63 - 1)) else none

def parseEid (n : Numbers) (value : String) : Option ℤ :=
  ((n.parseI64 (n.trim value)).or ((n.parseF64 (n.trim value)).bind wholeEid)).filter (0 < ·)

def delayStatusRow (n : Numbers) (values : Map String (Map String String))
    (status : Map String DelayedMeta) (errors : Map String String) (ticker : String) :
    DelayStatusRow :=
  let text := fun field => (values.lookup ticker).bind fun fields => fields.lookup field
  let eid := fun field => (text field).bind (parseEid n)
  { ticker
    delayed := (status.lookup ticker).map DelayedMeta.delayed
    delayMinutes := (status.lookup ticker).bind DelayedMeta.delayMinutes
    exchangeDelay := text "EXCHANGE_DELAY"
    exchCode := text "EXCH_CODE"
    realtimeEids := realtimeEidFields.map eid
    delayedEid := eid delayedEidField
    error := errors.lookup ticker }

/-- The feed slots of a row that hold an EID. -/
def DelayStatusRow.eids (row : DelayStatusRow) : List ℤ :=
  (row.realtimeEids ++ [row.delayedEid]).reduceOption

/-- `i32::try_from`. -/
def toI32 (eid : ℤ) : Option ℤ := if -2 ^ 31 ≤ eid ∧ eid < 2 ^ 31 then some eid else none

/-- Unique feed EIDs across all rows, for one identity check. -/
def identityEids (rows : List DelayStatusRow) : List ℤ :=
  ((rows.flatMap DelayStatusRow.eids).filterMap toI32).eraseDups

structure EntitlementCheck where
  entitled : Bool
  failedEids : List ℤ
  deriving DecidableEq, Repr

/-- Nothing listed as failed means that the identity is not authorized at all. -/
def EntitlementCheck.deniedAll (check : EntitlementCheck) : Bool :=
  !check.entitled && check.failedEids.isEmpty

def entitled (failedEids : List ℤ) (deniedAll : Bool) (eid : ℤ) : Bool :=
  !deniedAll && !failedEids.contains eid

def applyIdentityCheck (rows : List DelayStatusRow) (failedEids : List ℤ) (deniedAll : Bool) :
    List DelayStatusRow :=
  rows.map fun row => { row with
    realtimeEntitled :=
      if row.realtimeEids.reduceOption = [] then row.realtimeEntitled
      else some (row.realtimeEids.reduceOption.all (entitled failedEids deniedAll))
    delayedEntitled := row.delayedEid.map (entitled failedEids deniedAll) }

/-- The rows of `recipe_delay_status`, where the service answers the check of the given EIDs. -/
def delayStatus {ε : Type*} (n : Numbers) (tickers : List String)
    (values : Map String (Map String String)) (status : Map String DelayedMeta)
    (errors : Map String String) (checkIdentity : Bool)
    (checkEntitlements : List ℤ → Except ε EntitlementCheck) : Except ε (List DelayStatusRow) :=
  let rows := tickers.eraseDups.map (delayStatusRow n values status errors)
  if checkIdentity ∧ identityEids rows ≠ [] then
    (checkEntitlements (identityEids rows)).map fun check =>
      applyIdentityCheck rows check.failedEids check.deniedAll
  else .ok rows

end Xbbg.Entitlements
