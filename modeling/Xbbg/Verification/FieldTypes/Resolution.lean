import Xbbg.Model.FieldTypes

/-! # The decoder uses the types that the hierarchy chooses

The decoder looks requested names up as they are written, in a map that only has them where neither
they nor their upper-case forms were there before. -/

namespace Xbbg.FieldTypes

open List Library

variable {toUppercase : String → String} {cache : Map String FieldInfo}
  {manualOverrides : Option (Map String String)} {fields : List String} {defaultType : String}

/-- A field in another spelling than upper case is overridden in this spelling, or its upper-case
form is neither overridden nor requested before it. -/
def Spelled (toUppercase : String → String) (manualOverrides : Option (Map String String))
    (fields : List String) (field : String) : Prop :=
  toUppercase field = field ∨ field ∈ manualOverrides.getD ∅ ∨
    toUppercase field ∉ manualOverrides.getD ∅ ∧ toUppercase field ∉ fields.takeWhile (· ≠ field)

theorem lookup_resolveTypes (field : String) :
    (resolveTypes toUppercase cache manualOverrides fields defaultType).lookup field =
      if field ∈ fields then some (((overrideType toUppercase manualOverrides field).or
        (cachedType toUppercase cache field)).getD defaultType) else none := by
  induction fields using reverseRecOn with
  | nil => rfl
  | append_singleton fields last ih =>
    rw [resolveTypes, foldl_append]
    change (AList.insert last _ (resolveTypes _ _ _ fields defaultType)).lookup field = _
    rw [Map.lookup_insert_if, ih]
    by_cases h : field = last <;> simp [h]

variable {result : Map String String} {name : String}

theorem lookup_resolveCached (field : String) :
    (resolveCached toUppercase cache result field).lookup name =
      (result.lookup name).or (if name = field ∧ toUppercase name ∉ result then
        cachedType toUppercase cache name else none) := by
  have hlookup : name ∈ result ∨ result.lookup name = none := by
    rw [AList.lookup_eq_none]
    exact em _
  unfold resolveCached
  split
  · rename_i hskip
    by_cases hname : name = field
    · subst hname
      rcases hlookup with hthere | hnone
      · obtain ⟨own, hown⟩ := Option.isSome_iff_exists.mp (AList.lookup_isSome.mpr hthere)
        simp [hown]
      · have hupper := hskip.resolve_left (AList.lookup_eq_none.mp hnone)
        simp [hnone, hupper]
    · simp [hname]
  · rename_i hnew
    obtain ⟨hfield, hupper⟩ := not_or.mp hnew
    by_cases hname : name = field
    · subst hname
      cases hcached : cachedType toUppercase cache name with
      | none => simp
      | some arrowType => simp [AList.lookup_eq_none.mpr hfield, hupper]
    · cases hcached : cachedType toUppercase cache field with
      | none => simp [hname]
      | some arrowType => simp [hname, AList.lookup_insert_ne hname]

/-- The loop gives a field its cached type, unless its upper-case form is there or comes before
it. -/
theorem lookup_foldl_resolveCached (hidem : toUppercase (toUppercase name) = toUppercase name) :
    (fields.foldl (resolveCached toUppercase cache) result).lookup name =
      (result.lookup name).or (if name ∈ fields ∧ toUppercase name ∉ result ∧
        (toUppercase name = name ∨ toUppercase name ∉ fields.takeWhile (· ≠ name)) then
          cachedType toUppercase cache name else none) := by
  have hsame : cachedType toUppercase cache (toUppercase name) =
      cachedType toUppercase cache name := by
    rw [cachedType, cachedType, hidem]
  induction fields generalizing result with
  | nil => simp
  | cons field rest ih =>
    have hupper : toUppercase name ∈ resolveCached toUppercase cache result field ↔
        toUppercase name ∈ result ∨
          toUppercase name = field ∧ (cachedType toUppercase cache name).isSome := by
      rw [← AList.lookup_isSome, lookup_resolveCached, hidem, hsame, Option.isSome_or,
        Bool.or_eq_true, AList.lookup_isSome]
      grind
    rw [foldl_cons, ih, lookup_resolveCached, takeWhile_cons]
    -- without a cached type nothing is added
    cases hcached : cachedType toUppercase cache name with
    | none => simp
    | some arrowType =>
      rw [hcached] at hupper
      by_cases hname : name = field <;> grind

/-- The decoder's type of a requested field that has an override or is cached is the one
`resolve_types` chooses, where overrides win, exactly if the field is spelled this way. -/
theorem resolveCachedTypes_agrees_iff {field arrowType : String} (defaultType : String)
    (hidem : toUppercase (toUppercase field) = toUppercase field) (hmem : field ∈ fields)
    (htype : (overrideType toUppercase manualOverrides field).or
      (cachedType toUppercase cache field) = some arrowType) :
    ((resolveCachedTypes toUppercase cache manualOverrides fields).lookup field = some arrowType ∧
      (resolveTypes toUppercase cache manualOverrides fields defaultType).lookup field =
        some arrowType) ↔ Spelled toUppercase manualOverrides fields field := by
  have hchosen : (resolveTypes toUppercase cache manualOverrides fields defaultType).lookup field =
      some arrowType := by
    rw [lookup_resolveTypes, if_pos hmem, htype]
    rfl
  have hover : overrideType toUppercase manualOverrides field =
      ((manualOverrides.getD ∅).lookup field).or
        ((manualOverrides.getD ∅).lookup (toUppercase field)) := by
    cases manualOverrides <;> rfl
  rw [hover] at htype
  rw [resolveCachedTypes, Spelled]
  generalize manualOverrides.getD ∅ = overrides at htype ⊢
  refine (and_iff_left hchosen).trans ?_
  rw [lookup_foldl_resolveCached hidem]
  by_cases hown : field ∈ overrides
  · obtain ⟨own, howntype⟩ := Option.isSome_iff_exists.mp (AList.lookup_isSome.mpr hown)
    simpa [howntype, hown] using htype
  · rw [AList.lookup_eq_none.mpr hown, Option.none_or] at htype ⊢
    by_cases hupper : toUppercase field ∈ overrides
    · have hother : toUppercase field ≠ field := fun heq => hown (heq ▸ hupper)
      simp [hother, hown, hupper]
    · rw [AList.lookup_eq_none.mpr hupper, Option.none_or] at htype
      simp [htype, hmem, hown, hupper, or_iff_not_imp_left]

def asciiUpper (name : String) : String := String.ofList (name.toList.map Char.toUpper)

/-- One field has an override in its own spelling, another one is cached and requested in upper case
after it. -/
theorem resolveCachedTypes_agrees_cached :
    (resolveCachedTypes asciiUpper (AList.singleton "VOLUME" ⟨"int64"⟩)
      (some (AList.singleton "px_last" "float64")) ["px_last", "volume", "VOLUME"]).lookup
        "volume" = some "int64" := by
  have hidem : asciiUpper (asciiUpper "volume") = asciiUpper "volume" := by decide
  have hmem : "volume" ∈ ["px_last", "volume", "VOLUME"] := by decide
  have htype : (overrideType asciiUpper (some (AList.singleton "px_last" "float64"))
      "volume").or (cachedType asciiUpper (AList.singleton "VOLUME" ⟨"int64"⟩) "volume") =
      some "int64" := by decide
  have hspelled : Spelled asciiUpper (some (AList.singleton "px_last" "float64"))
      ["px_last", "volume", "VOLUME"] "volume" := by
    unfold Spelled
    decide
  exact ((resolveCachedTypes_agrees_iff "string" hidem hmem htype).mpr hspelled).1

/-- The override for the upper-case name does not reach the decoder of the name as it was
requested. -/
theorem resolveCachedTypes_misses_override :
    (resolveTypes asciiUpper ∅ (some (AList.singleton "PX_LAST" "float64")) ["px_last"]
      "string").lookup "px_last" = some "float64" ∧
    (resolveCachedTypes asciiUpper ∅ (some (AList.singleton "PX_LAST" "float64"))
      ["px_last"]).lookup "px_last" = none := by
  decide

end Xbbg.FieldTypes
