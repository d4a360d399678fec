import FaultTolerance.Proofs.Wire.Records
import FaultTolerance.Proofs.Wire.RoundTrip

/-! What a document changes in the settings. A document is accepted just if it has no other keys than
the settings have and spells each value right (`Settings.fits`). What it is read as are the default
settings with the given keys replaced, section by section (`Settings.parse_overrides`): a section that is
left out, an empty one and one that repeats defaults are all the default section. A section may also be
an array, which gives the keys by their places. -/
namespace FaultTolerance
open Wire
set_option autoImplicit false

theorem Wire.Shape.spells_string : Shape.string.Spells Data.text? .string := by
  intro d n
  cases d with
  | string s =>
    rw [read, readString, Except.ok.injEq, Data.text?, eq_comm]
    simp only [Option.some.injEq, exists_eq_left']
  | _ =>
    constructor
    · intro h
      cases h
    · rintro ⟨_, ha, _⟩
      cases ha

/-! ## Values -/

namespace Scope

def spelled? : Data → Option Scope := Data.choice? [sourcesOnly, sourcesAndDependencies] text

theorem spells : shape.Spells spelled? toData := by
  have hall : ∀ s, s ∈ [sourcesOnly, sourcesAndDependencies] := by
    intro s
    cases s <;> decide
  have htext : Function.Injective text := by
    intro s s'
    cases s <;> cases s' <;> decide
  exact Shape.spells_choice hall htext

theorem spelled?_toData (s : Scope) : spelled? s.toData = some s := by
  cases s <;> rfl

end Scope

namespace DocumentFormat

def spelled? : Data → Option DocumentFormat := Data.choice? [plainText, markdown] text

theorem spells : shape.Spells spelled? toData := by
  have hall : ∀ f, f ∈ [plainText, markdown] := by
    intro f
    cases f <;> decide
  have htext : Function.Injective text := by
    intro f f'
    cases f <;> cases f' <;> decide
  exact Shape.spells_choice hall htext

theorem spelled?_toData (f : DocumentFormat) : spelled? f.toData = some f := by
  cases f <;> rfl

end DocumentFormat

/-! ## Sections -/

namespace PropertySettings

def keys : List String := ["scope"]

/-- Whether data can stand for the section. -/
def fits (d : Data) : Bool := d.isKeyedBy keys && d.allows keys "scope" Scope.spelled?

/-- The section with the keys that data gives replaced. -/
def override (s : PropertySettings) (d : Data) : PropertySettings where
  scope := d.valueOr keys "scope" Scope.spelled? s.scope

def spelled? (d : Data) : Option PropertySettings := if fits d then some (override {} d) else none

theorem spells : shape.Spells spelled? toData := by
  intro d n
  rw [shape, Shape.read_strict_eq_ok_iff (by decide) (by decide)]
  simp only [Shape.fieldReaders, List.map_cons, List.map_nil, List.forall₂_cons_left_iff,
    List.forall₂_nil_left_iff, FieldReader.fills_iff Scope.spells, spelled?, fits, override, keys,
    toData, Bool.and_eq_true, Option.ite_none_right_eq_some, Option.some.injEq, and_assoc,
    exists_and_left, exists_eq_left, exists_eq_left']

theorem override_of_repeats {s : PropertySettings} {d : Data} (h : d.Repeats keys s.toData) :
    s.override d = s := by
  have hscope : d.valueOr keys "scope" Scope.spelled? s.scope = s.scope :=
    Data.valueOr_of_repeats h (by decide) (Scope.spelled?_toData s.scope)
  rw [override, hscope]

end PropertySettings

namespace DiagnosticSettings

def keys : List String := ["enabled", "fallback_signature", "document_format"]

def fits (d : Data) : Bool :=
  d.isKeyedBy keys && (d.allows keys "enabled" Data.flag? &&
    (d.allows keys "fallback_signature" Data.flag? &&
      d.allows keys "document_format" DocumentFormat.spelled?))

def override (s : DiagnosticSettings) (d : Data) : DiagnosticSettings where
  enabled := d.valueOr keys "enabled" Data.flag? s.enabled
  fallbackSignature := d.valueOr keys "fallback_signature" Data.flag? s.fallbackSignature
  documentFormat := d.valueOr keys "document_format" DocumentFormat.spelled? s.documentFormat

def spelled? (d : Data) : Option DiagnosticSettings := if fits d then some (override {} d) else none

theorem spells : shape.Spells spelled? toData := by
  intro d n
  rw [shape, Shape.read_strict_eq_ok_iff (by decide) (by decide)]
  simp only [Shape.fieldReaders, List.map_cons, List.map_nil, List.forall₂_cons_left_iff,
    List.forall₂_nil_left_iff, FieldReader.fills_iff Shape.spells_boolean,
    FieldReader.fills_iff DocumentFormat.spells, spelled?, fits, override, keys,
    toData, Bool.and_eq_true, Option.ite_none_right_eq_some, Option.some.injEq, and_assoc,
    exists_and_left, exists_eq_left, exists_eq_left']

theorem override_of_repeats {s : DiagnosticSettings} {d : Data} (h : d.Repeats keys s.toData) :
    s.override d = s := by
  have henabled : d.valueOr keys "enabled" Data.flag? s.enabled = s.enabled :=
    Data.valueOr_of_repeats h (by decide) rfl
  have hsignature :
      d.valueOr keys "fallback_signature" Data.flag? s.fallbackSignature = s.fallbackSignature :=
    Data.valueOr_of_repeats h (by decide) rfl
  have hformat :
      d.valueOr keys "document_format" DocumentFormat.spelled? s.documentFormat = s.documentFormat :=
    Data.valueOr_of_repeats h (by decide) (DocumentFormat.spelled?_toData s.documentFormat)
  rw [override, henabled, hsignature, hformat]

end DiagnosticSettings

namespace LoggingSettings

def keys : List String := ["level", "json"]

def fits (d : Data) : Bool :=
  d.isKeyedBy keys && (d.allows keys "level" Data.text? && d.allows keys "json" Data.flag?)

def override (s : LoggingSettings) (d : Data) : LoggingSettings where
  level := d.valueOr keys "level" Data.text? s.level
  json := d.valueOr keys "json" Data.flag? s.json

def spelled? (d : Data) : Option LoggingSettings := if fits d then some (override {} d) else none

theorem spells : shape.Spells spelled? toData := by
  intro d n
  rw [shape, Shape.read_strict_eq_ok_iff (by decide) (by decide)]
  simp only [Shape.fieldReaders, List.map_cons, List.map_nil, List.forall₂_cons_left_iff,
    List.forall₂_nil_left_iff, FieldReader.fills_iff Shape.spells_string,
    FieldReader.fills_iff Shape.spells_boolean, spelled?, fits, override, keys, toData,
    Bool.and_eq_true, Option.ite_none_right_eq_some, Option.some.injEq, and_assoc, exists_and_left,
    exists_eq_left, exists_eq_left']

theorem override_of_repeats {s : LoggingSettings} {d : Data} (h : d.Repeats keys s.toData) :
    s.override d = s := by
  have hlevel : d.valueOr keys "level" Data.text? s.level = s.level :=
    Data.valueOr_of_repeats h (by decide) rfl
  have hjson : d.valueOr keys "json" Data.flag? s.json = s.json :=
    Data.valueOr_of_repeats h (by decide) rfl
  rw [override, hlevel, hjson]

end LoggingSettings

/-! ## Documents -/

namespace Settings

def keys : List String := ["properties", "diagnostics", "logging"]

/-- Whether data can stand for the settings: it has no other keys than there are sections, and each
section that it gives has no other keys than the section has, and no value of the wrong kind. -/
def fits (d : Data) : Bool :=
  d.isKeyedBy keys && ((d.given? keys "properties").all PropertySettings.fits &&
    ((d.given? keys "diagnostics").all DiagnosticSettings.fits &&
      (d.given? keys "logging").all LoggingSettings.fits))

/-- The settings with the keys that data gives replaced. -/
def override (s : Settings) (d : Data) : Settings where
  properties := (d.given? keys "properties").elim s.properties s.properties.override
  diagnostics := (d.given? keys "diagnostics").elim s.diagnostics s.diagnostics.override
  logging := (d.given? keys "logging").elim s.logging s.logging.override

theorem ofData_toData (s : Settings) : ofData s.toData = s := by
  obtain ⟨⟨scope⟩, ⟨enabled, fallbackSignature, documentFormat⟩, ⟨level, json⟩⟩ := s
  cases scope <;> cases documentFormat <;> rfl

/-- A section that is given and fits replaces the default section. -/
theorem override_eq {d : Data} (h : fits d) : override {} d =
    { properties := d.valueOr keys "properties" PropertySettings.spelled? {}
      diagnostics := d.valueOr keys "diagnostics" DiagnosticSettings.spelled? {}
      logging := d.valueOr keys "logging" LoggingSettings.spelled? {} } := by
  simp only [fits, Bool.and_eq_true] at h
  obtain ⟨-, hproperties, hdiagnostics, hlogging⟩ := h
  have hp : d.valueOr keys "properties" PropertySettings.spelled? {} = _ :=
    Data.valueOr_ite hproperties
  have hd : d.valueOr keys "diagnostics" DiagnosticSettings.spelled? {} = _ :=
    Data.valueOr_ite hdiagnostics
  have hl : d.valueOr keys "logging" LoggingSettings.spelled? {} = _ := Data.valueOr_ite hlogging
  rw [hp, hd, hl]
  rfl

theorem fits_eq (d : Data) : fits d =
    (d.isKeyedBy keys && (d.allows keys "properties" PropertySettings.spelled? &&
      (d.allows keys "diagnostics" DiagnosticSettings.spelled? &&
        d.allows keys "logging" LoggingSettings.spelled?))) := by
  have hproperties : d.allows keys "properties" PropertySettings.spelled? =
      (d.given? keys "properties").all PropertySettings.fits := Data.allows_ite
  have hdiagnostics : d.allows keys "diagnostics" DiagnosticSettings.spelled? =
      (d.given? keys "diagnostics").all DiagnosticSettings.fits := Data.allows_ite
  have hlogging : d.allows keys "logging" LoggingSettings.spelled? =
      (d.given? keys "logging").all LoggingSettings.fits := Data.allows_ite
  rw [hproperties, hdiagnostics, hlogging, fits]

theorem read_eq_ok_iff {d : Data} {s : Settings} :
    read .toml d = .ok s ↔ fits d ∧ s = override {} d := by
  have hshape : ∀ n, shape.read .toml d = .ok n ↔ fits d ∧ n = (override {} d).toData := by
    intro n
    rw [and_congr_right fun h => by rw [override_eq h]]
    rw [shape, Shape.read_strict_eq_ok_iff (by decide) (by decide)]
    simp only [Shape.fieldReaders, List.map_cons, List.map_nil, List.forall₂_cons_left_iff,
      List.forall₂_nil_left_iff, FieldReader.fills_iff PropertySettings.spells,
      FieldReader.fills_iff DiagnosticSettings.spells, FieldReader.fills_iff LoggingSettings.spells,
      fits_eq, keys, toData, Bool.and_eq_true, and_assoc, exists_and_left, exists_eq_left]
  rw [read, map_eq_ok_iff]
  constructor
  · rintro ⟨n, hn, rfl⟩
    obtain ⟨hfits, rfl⟩ := (hshape n).mp hn
    exact ⟨hfits, ofData_toData _⟩
  · rintro ⟨hfits, rfl⟩
    exact ⟨_, (hshape _).mpr ⟨hfits, rfl⟩, ofData_toData _⟩

/-! ### Unknown keys -/

/-- Whether data is a table with a key that is no section, or gives for a section a table with a key
that is none of the section's. -/
def hasUnknownKey (d : Data) : Bool :=
  d.hasOtherKey keys || ((d.given? keys "properties").any (Data.hasOtherKey PropertySettings.keys) ||
    ((d.given? keys "diagnostics").any (Data.hasOtherKey DiagnosticSettings.keys) ||
      (d.given? keys "logging").any (Data.hasOtherKey LoggingSettings.keys)))

theorem not_all_of_any {fits : Data → Bool} {keys : List String} {e : Option Data}
    (hkeyed : ∀ e, fits e → e.isKeyedBy keys) (h : e.any (Data.hasOtherKey keys)) :
    ¬ e.all fits := by
  cases e with
  | none => cases h
  | some e =>
    intro hfits
    have hnot := Data.isKeyedBy_eq_false_of_hasOtherKey h
    rw [hkeyed e hfits] at hnot
    cases hnot

theorem not_fits_of_hasUnknownKey {d : Data} (h : hasUnknownKey d) : ¬ fits d := by
  intro hfits
  simp only [fits, Bool.and_eq_true] at hfits
  obtain ⟨hkeyed, hproperties, hdiagnostics, hlogging⟩ := hfits
  simp only [hasUnknownKey, Bool.or_eq_true] at h
  rcases h with h | h | h | h
  · have hnot := Data.isKeyedBy_eq_false_of_hasOtherKey h
    rw [hkeyed] at hnot
    cases hnot
  · exact not_all_of_any (fun _ he => (Bool.and_eq_true_iff.mp he).1) h hproperties
  · exact not_all_of_any (fun _ he => (Bool.and_eq_true_iff.mp he).1) h hdiagnostics
  · exact not_all_of_any (fun _ he => (Bool.and_eq_true_iff.mp he).1) h hlogging

/-! ### Reading -/

theorem elim_of_repeats {σ : Type} {keys : List String} {a : σ} {written : Data} {replaced : Data → σ}
    {e : Option Data} (hreplaced : ∀ d, d.Repeats keys written → replaced d = a)
    (h : ∀ d, e = some d → d.Repeats keys written) : e.elim a replaced = a := by
  cases e with
  | none => rfl
  | some d => exact hreplaced d (h d rfl)

theorem parse_eq_ok_iff {text : String} {s : Settings} : parse text = .ok s ↔
    ∃ d, Toml.data? text.toList = some d ∧ fits d ∧ s = override {} d := by
  rw [parse, Toml.decode]
  cases Toml.data? text.toList with
  | none =>
    constructor
    · intro h
      cases h
    · rintro ⟨_, hd, _⟩
      cases hd
  | some d =>
    simp only [read_eq_ok_iff, Option.some.injEq, exists_eq_left']

theorem parse_eq_ok_iff_of_data? {text : String} {d : Data} (hd : Toml.data? text.toList = some d)
    {s : Settings} : parse text = .ok s ↔ fits d ∧ s = override {} d := by
  simp only [parse_eq_ok_iff, hd, Option.some.injEq, exists_eq_left']

/-- A document is accepted just if it fits, and is read as the default settings with the keys that it
gives replaced. A document with an unknown key is rejected, whatever else is in it. A section that is
left out changes nothing, nor does one that repeats what is there. What documents say in other sections
has no part in a section. -/
theorem parse_overrides (text : String) :
    (∀ s, parse text = .ok s ↔
      ∃ d, Toml.data? text.toList = some d ∧ fits d ∧ s = override {} d) ∧
    ∀ d, Toml.data? text.toList = some d →
      (∃ entries, d = .map entries) ∧
      (hasUnknownKey d → ∃ fault, parse text = .error fault) ∧
      (∀ s : Settings,
        ((∀ e, d.given? keys "properties" = some e →
            e.Repeats PropertySettings.keys s.properties.toData) →
          (s.override d).properties = s.properties) ∧
        ((∀ e, d.given? keys "diagnostics" = some e →
            e.Repeats DiagnosticSettings.keys s.diagnostics.toData) →
          (s.override d).diagnostics = s.diagnostics) ∧
        ((∀ e, d.given? keys "logging" = some e →
            e.Repeats LoggingSettings.keys s.logging.toData) →
          (s.override d).logging = s.logging)) ∧
      ∀ text' d' s s', Toml.data? text'.toList = some d' → parse text = .ok s →
        parse text' = .ok s' →
          (d.given? keys "properties" = d'.given? keys "properties" →
            s.properties = s'.properties) ∧
          (d.given? keys "diagnostics" = d'.given? keys "diagnostics" →
            s.diagnostics = s'.diagnostics) ∧
          (d.given? keys "logging" = d'.given? keys "logging" → s.logging = s'.logging) := by
  refine ⟨fun _ => parse_eq_ok_iff, fun d hd => ⟨?table, ?unknown, fun s => ?repeated, ?apart⟩⟩
  case table =>
    obtain ⟨p, -, rfl⟩ := Option.map_eq_some_iff.mp hd
    exact ⟨_, rfl⟩
  case unknown =>
    intro hunknown
    cases hread : parse text with
    | error fault => exact ⟨fault, rfl⟩
    | ok s =>
      have hfits := ((parse_eq_ok_iff_of_data? hd).mp hread).1
      exact absurd hfits (not_fits_of_hasUnknownKey hunknown)
  case repeated =>
    exact ⟨elim_of_repeats fun _ => PropertySettings.override_of_repeats,
      elim_of_repeats fun _ => DiagnosticSettings.override_of_repeats,
      elim_of_repeats fun _ => LoggingSettings.override_of_repeats⟩
  case apart =>
    intro text' d' s s' hd' hs hs'
    obtain ⟨-, rfl⟩ := (parse_eq_ok_iff_of_data? hd).mp hs
    obtain ⟨-, rfl⟩ := (parse_eq_ok_iff_of_data? hd').mp hs'
    simp only [override]
    exact ⟨fun h => by rw [h], fun h => by rw [h], fun h => by rw [h]⟩

/-- A document with a section of each kind: an array, a table with a default and a name that is a key,
and a table under a header. -/
def mixedText : String :=
  "properties = [\"sources-only\"]\n\n[diagnostics]\nenabled = true\n" ++
    "document_format.plaintext = \x7b\x7d\n\n[logging]\njson = true # for the collector\n"

/-- The keys that it gives are replaced. With a key that no section has it would be rejected. -/
theorem parse_overrides_mixed :
    let expected : Settings :=
      { properties := { scope := .sourcesOnly }
        diagnostics := { documentFormat := .plainText }
        logging := { json := true } }
    parse mixedText = .ok expected ∧
      ∃ fault, parse (mixedText ++ "verbose = true\n") = .error fault := by
  intro expected
  have hmixed : (Toml.data? mixedText.toList).map (fun d => (fits d, override {} d)) =
      some (true, expected) := by
    decide +kernel
  have hmore : (Toml.data? (mixedText ++ "verbose = true\n").toList).map hasUnknownKey =
      some true := by
    decide +kernel
  obtain ⟨d, hd, hvalues⟩ := Option.map_eq_some_iff.mp hmixed
  obtain ⟨hfits, hoverride⟩ := Prod.mk.inj hvalues
  obtain ⟨d', hd', hunknown⟩ := Option.map_eq_some_iff.mp hmore
  obtain ⟨haccepted, -⟩ := parse_overrides mixedText
  obtain ⟨-, hdata⟩ := parse_overrides (mixedText ++ "verbose = true\n")
  exact ⟨(haccepted expected).mpr ⟨d, hd, hfits, hoverride.symm⟩, (hdata d' hd').2.1 hunknown⟩

end Settings
end FaultTolerance
