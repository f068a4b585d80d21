import Xbbg.Library.Words
import Xbbg.Model.Types

/-! Tickers of generic futures and of credit default indices, from `xbbg-ext/src/utils/ticker.rs`,
`xbbg-ext/src/resolvers/cdx.rs` and `xbbg-ext/src/resolvers/futures.rs`. -/

namespace Xbbg.Tickers

open Library

/-- `char::is_whitespace`, the Unicode property `White_Space`. -/
def isWhitespace (c : Char) : Bool :=
  (0x9 ≤ c.toNat && c.toNat ≤ 0xD) || c.toNat = 0x20 || c.toNat = 0x85 || c.toNat = 0xA0 ||
    c.toNat = 0x1680 || (0x2000 ≤ c.toNat && c.toNat ≤ 0x200A) || c.toNat = 0x2028 ||
    c.toNat = 0x2029 || c.toNat = 0x202F || c.toNat = 0x205F || c.toNat = 0x3000

def splitWhitespace (s : String) : List String :=
  (words isWhitespace s.toList).map String.ofList

/-- `slice::join` with a blank. -/
def join (parts : List String) : String :=
  String.ofList ([' '].intercalate (parts.map String.toList))

/-- `str::parse::<u32>`. -/
def parseU32 (s : List Char) : Option ℕ := parseUnsigned 4294967296 s

/-! ### Generic futures -/

structure TickerParts where
  fore : String
  index : ℕ
  asset : String
  exchange : Option String
  deriving DecidableEq, Repr

/-- Split a base ticker at its last digit; what follows the digit is not looked at. -/
def parsePrefixIndex (base : String) : Except ExtError (String × ℕ) :=
  match base.toList.reverse.dropWhile fun c => !c.isDigit with
  | [] => .error (.invalidTicker base)
  | digit :: before =>
    match parseU32 [digit] with
    | none => .error (.invalidTicker base)
    | some index =>
      if before.isEmpty then .error (.invalidTicker base)
      else .ok (String.ofList before.reverse, index)

def parseTickerParts (ticker : String) : Except ExtError TickerParts :=
  let parts := splitWhitespace ticker
  match parts.getLast? with
  | none => .error (.invalidTicker ticker)
  | some asset =>
    if asset = "Index" || asset = "Curncy" || asset = "Comdty" || asset = "Corp" then
      if parts.length < 2 then .error (.invalidTicker ticker)
      else do
        let (fore, index) ← parsePrefixIndex (join parts.dropLast)
        return ⟨fore, index, asset, none⟩
    else if asset = "Equity" then
      match parts with
      | base :: next :: rest =>
        if parts.length < 3 then .error (.invalidTicker ticker)
        else do
          let (fore, index) ← parsePrefixIndex base
          return ⟨fore, index, asset, some (join (next :: rest).dropLast)⟩
      | _ => .error (.invalidTicker ticker)
    else .error (.invalidTicker ticker)

/-- Position of the contract, counted from zero. -/
def contractIndex (genTicker : String) : Except ExtError ℕ := do
  let parts ← parseTickerParts genTicker
  return parts.index - 1

/-- The ticker of another position of the same root, from `xbbg-recipes/src/futures.rs`. -/
def withGenericIndex (genTicker : String) (index : ℕ) : Except ExtError String := do
  let parts ← parseTickerParts genTicker
  if parts.asset = "Equity" then
    return parts.fore ++ toString index ++ " " ++ parts.exchange.getD "US" ++ " " ++ parts.asset
  else return parts.fore ++ toString index ++ " " ++ parts.asset

/-! ### Credit default indices -/

/-- A ticker as it is written; a version that is not written is unresolved. -/
structure ParsedCdxInfo where
  index : String
  series : String
  version : Option ℕ
  tenor : String
  asset : String
  isGeneric : Bool
  seriesNum : Option ℕ
  deriving DecidableEq, Repr

/-- A series token: `GEN`, or `S` with the number of the series. -/
def seriesToken (part : String) : Option (Option ℕ) :=
  if part = "GEN" then some none
  else
    match part.toList with
    | 'S' :: digits => (parseU32 digits).map some
    | _ => none

/-- The version token behind the series, if there is one, and how many parts it takes. -/
def versionToken (ticker : String) : Option String → Except ExtError (Option ℕ × ℕ)
  | none => .ok (none, 0)
  | some token =>
    match token.toList with
    | 'V' :: digits =>
      match parseU32 digits with
      | some (version + 1) => .ok (some (version + 1), 1)
      | _ => .error (.invalidTicker ticker)
    | _ => .ok (none, 0)

def parseCdxTicker (ticker : String) : Except ExtError ParsedCdxInfo :=
  let parts := splitWhitespace ticker
  if parts.length < 5 then .error (.invalidTicker ticker)
  else
    match parts.span fun part => (seriesToken part).isNone with
    | (_, []) => .error (.invalidTicker ticker)
    | (before, token :: rest) =>
      if seriesToken token = some (some 0) then .error (.invalidTicker ticker)
      else do
        let (version, skipped) ← versionToken ticker rest.head?
        match rest.drop skipped with
        | [tenor, asset] =>
          return {
            index := join before
            series := token
            version := version
            tenor := tenor
            asset := asset
            isGeneric := token = "GEN"
            seriesNum := (seriesToken token).join }
        | _ => .error (.invalidTicker ticker)

def buildCdxAlias (info : ParsedCdxInfo) : String :=
  match info.version with
  | some version =>
    info.index ++ " " ++ info.series ++ " V" ++ toString version ++ " " ++ info.tenor ++ " " ++
      info.asset
  | none => info.index ++ " " ++ info.series ++ " " ++ info.tenor ++ " " ++ info.asset

def previousSeriesTicker (ticker : String) : Except ExtError (Option String) := do
  let info ← parseCdxTicker ticker
  if info.isGeneric then return none
  else
    match info.seriesNum with
    | some n =>
      if 1 < n then
        return some (buildCdxAlias { info with
          series := "S" ++ toString (n - 1)
          seriesNum := some (n - 1)
          version := none })
      else return none
    | none => return none

def genToSpecific (genTicker : String) (series : ℕ) : Except ExtError String := do
  let info ← parseCdxTicker genTicker
  if !info.isGeneric then throw (.specificTicker genTicker)
  else if series = 0 then throw (.invalidInput "CDX series must be positive")
  else
    return buildCdxAlias { info with
      series := "S" ++ toString series
      seriesNum := some series
      version := none
      isGeneric := false }

/-- A contract with its series and version, both positive. -/
structure ResolvedCdxInfo where
  index : String
  series : ℕ
  version : ℕ
  tenor : String
  asset : String
  seriesPos : 0 < series
  versionPos : 0 < version

def ResolvedCdxInfo.resolve (parsed : ParsedCdxInfo) (series version : ℕ) :
    Except ExtError ResolvedCdxInfo :=
  if hseries : 0 < series then
    if hversion : 0 < version then
      if !parsed.isGeneric && parsed.seriesNum != some series then
        .error (.invalidInput ("resolved CDX series S" ++ toString series ++
          " conflicts with parsed " ++ parsed.series))
      else if parsed.version.any fun written => written != version then
        .error (.invalidInput ("resolved CDX version V" ++ toString version ++
          " conflicts with parsed ticker"))
      else .ok ⟨parsed.index, series, version, parsed.tenor, parsed.asset, hseries, hversion⟩
    else .error (.invalidInput "CDX version must be positive")
  else .error (.invalidInput "CDX series must be positive")

def buildResolvedCdxTickerWithOptions (info : ResolvedCdxInfo) (versionless : Bool) : String :=
  if versionless then
    info.index ++ " S" ++ toString info.series ++ " " ++ info.tenor ++ " " ++ info.asset
  else
    info.index ++ " S" ++ toString info.series ++ " V" ++ toString info.version ++ " " ++
      info.tenor ++ " " ++ info.asset

end Xbbg.Tickers
