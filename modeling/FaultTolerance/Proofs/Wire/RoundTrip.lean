import FaultTolerance.Wire.Metadata
import FaultTolerance.Wire.Settings
import FaultTolerance.Proofs.Wire.Normal

/-! What is written is read back.

For each type `standsFor` says that the written form of a value is read as that value, for any format
and for any order of the entries, where numbers fit into 32 bits. What was read does fit
(`fits_of_isNormal`), so writing it and reading it again changes nothing any more. `written_read_back`
puts the types together. -/
namespace FaultTolerance
open Wire
set_option autoImplicit false

namespace Wire

/-! ## Values of any type -/

/-- `d` is read as `v`, in whatever order the entries of its maps come. -/
def StandsFor {α : Type} (fmt : Format) (shape : Shape) (ofData : Data → α) (d : Data) (v : α) :
    Prop :=
  ∃ n, ReadsAs (shape.read fmt) d n ∧ ofData n = v

/-- What is written of a value that fits is read as that value, and so is what is written of any
value that was read. The entries of maps may come in any order. -/
def RoundTrips {α : Type} (fits : α → Prop) (read : Data → Except Fault α) (toData : α → Data) :
    Prop :=
  (∀ v, fits v → ∀ d, d.Reordered (toData v) → read d = .ok v) ∧
    ∀ d v, read d = .ok v → ∀ d', d'.Reordered (toData v) → read d' = .ok v

section
variable {α : Type} {fmt : Format} {shape : Shape} {ofData : Data → α} {toData : α → Data}

theorem standsFor_record {name : String} {strict : Bool}
    {fields : List (String × Shape × Option Data)} {entries values : List (String × Data)} {v : α}
    (hnames : (fields.map (·.1)).Nodup)
    (h : FieldReader.Writes (Shape.fieldReaders fmt fields) entries values)
    (hv : ofData (.record values) = v) :
    StandsFor fmt (.record name strict fields) ofData (.record entries) v :=
  ⟨_, readsAs_record hnames h, hv⟩

theorem readsAs_list_of_standsFor {vs : List α}
    (h : ∀ v ∈ vs, StandsFor fmt shape ofData (toData v) v) :
    ∃ ns, ReadsAs ((Shape.list shape).read fmt) (.sequence (vs.map toData)) (.sequence ns) ∧
      ns.map ofData = vs := by
  have hitems : ∃ ns, List.Forall₂ (ReadsAs (shape.read fmt)) (vs.map toData) ns ∧
      ns.map ofData = vs := by
    induction vs with
    | nil => exact ⟨[], .nil, rfl⟩
    | cons v vs ih =>
      obtain ⟨n, hn, hv⟩ := h v List.mem_cons_self
      obtain ⟨ns, hns, hvs⟩ := ih fun v hv => h v (.tail _ hv)
      exact ⟨n :: ns, .cons hn hns, by rw [List.map_cons, hv, hvs]⟩
  obtain ⟨ns, hns, hvs⟩ := hitems
  exact ⟨ns, readsAs_list hns, hvs⟩

theorem roundTrips_of_standsFor {fits : α → Prop} (hshape : shape.isWellFormed)
    (hwritten : ∀ v, fits v → StandsFor fmt shape ofData (toData v) v)
    (hfits : ∀ n, shape.isNormal n → fits (ofData n)) :
    RoundTrips fits (fun d => (shape.read fmt d).map ofData) toData := by
  have hback : ∀ v, fits v → ∀ d, d.Reordered (toData v) →
      (shape.read fmt d).map ofData = .ok v := by
    intro v hv d hd
    obtain ⟨n, hn, rfl⟩ := hwritten v hv
    rw [hn d hd]
    rfl
  refine ⟨hback, fun d v h => ?_⟩
  obtain ⟨n, hn, rfl⟩ := map_eq_ok_iff.mp h
  exact hback _ (hfits n (Shape.isNormal_of_read fmt shape hshape d n hn))

end

/-! ### Views of a record -/

theorem Data.lookup?_record (key : String) (values : List (String × Data)) :
    (record values).lookup? key = values.lookup key := by
  rw [record, lookup?]
  induction values with
  | nil => rfl
  | cons value values ih =>
    rw [List.map_cons, List.lookup_cons, List.lookup_cons, ih]
    rfl

def Data.text? : Data → Option String
  | .string s => some s
  | _ => none

@[simp] theorem Data.text?_ofText (t : Option String) : (ofText t).text? = t := by
  cases t <;> rfl

theorem Data.textAt?_eq_bind (d : Data) (key : String) :
    d.textAt? key = (d.lookup? key).bind text? := by
  unfold textAt?
  cases d.lookup? key with
  | none => rfl
  | some v => cases v <;> rfl

end Wire

/-! ## Metadata -/

namespace ItemMetadata

def Fits (i : ItemMetadata) : Prop := i.phase < 0x100000000

theorem standsFor (fmt : Format) {i : ItemMetadata} (h : i.Fits) :
    StandsFor fmt shape ofData i.toData i := by
  rw [toData]
  simp only [List.append_assoc, List.cons_append, List.nil_append]
  refine standsFor_record (by decide) (.field (readsAs_string i.name) <|
    .field (readsAs_string i.type) <| .text <| .text <| .text <| .text <| .text <| .text <|
    .field (readsAs_boolean i.required) <| .field (readsAs_word h) <|
    .field (readsAs_boolean i.binary) .nil) ?_
  simp [ofData, Data.textAt, Data.textAt?_eq_bind, Data.flagAt, Data.numberAt, Data.lookup?_record,
    List.lookup_cons]

theorem fits_of_isNormal {n : Data} (h : shape.isNormal n) : (ofData n).Fits := by
  have hphase : n.HasAt "phase" .word := hasAt_of_isNormal h rfl
  exact hphase.numberAt_lt

end ItemMetadata

namespace ValueHint

theorem standsFor (fmt : Format) (h : ValueHint) : StandsFor fmt shape ofData h.toData h := by
  rw [toData, List.append_assoc, ← List.append_nil (Data.textEntry "sourceType" _)]
  refine standsFor_record (by decide) (.field (readsAs_string h.value) <| .text <| .text .nil) ?_
  simp [ofData, Data.textAt, Data.textAt?_eq_bind, Data.lookup?_record, List.lookup_cons]

end ValueHint

namespace ItemHint

theorem standsFor (fmt : Format) (h : ItemHint) : StandsFor fmt shape ofData h.toData h := by
  obtain ⟨values, hread, hvalues⟩ :=
    readsAs_list_of_standsFor fun (v : ValueHint) (_ : v ∈ h.values) => v.standsFor fmt
  rw [toData]
  simp only [List.append_assoc, List.cons_append, List.nil_append]
  refine standsFor_record (by decide) (.field (readsAs_string h.name) <| .text <| .text <|
    .field (readsAs_boolean h.isEnum) <| .field (readsAs_boolean h.binary) <|
    .field hread .nil) ?_
  simp [ofData, Data.textAt, Data.textAt?_eq_bind, Data.flagAt, Data.itemsAt, Data.lookup?_record,
    List.lookup_cons, hvalues]

end ItemHint

namespace ProjectInfo

def Fits (i : ProjectInfo) : Prop := ∀ p ∈ i.properties, p.Fits

theorem standsFor (fmt : Format) {i : ProjectInfo} (h : i.Fits) :
    StandsFor fmt shape ofData i.toData i := by
  obtain ⟨properties, hreadProperties, hproperties⟩ :=
    readsAs_list_of_standsFor fun p hp => ItemMetadata.standsFor fmt (h p hp)
  obtain ⟨hints, hreadHints, hhints⟩ :=
    readsAs_list_of_standsFor fun (v : ItemHint) (_ : v ∈ i.hints) => v.standsFor fmt
  refine standsFor_record (by decide) (.text <| .field hreadProperties <|
    .field hreadHints .nil) ?_
  simp [ofData, Data.textAt?_eq_bind, Data.itemsAt, Data.lookup?_record, List.lookup_cons,
    hproperties, hhints]

theorem fits_of_isNormal {n : Data} (h : shape.isNormal n) : (ofData n).Fits := by
  have hproperties : n.HasAt "properties" (.list ItemMetadata.shape) := hasAt_of_isNormal h rfl
  intro p hp
  obtain ⟨d, hd, rfl⟩ := List.mem_map.mp hp
  exact ItemMetadata.fits_of_isNormal (hproperties.itemsAt d hd)

end ProjectInfo

/-! ## Diagnostics -/

namespace Text.Position

def Fits (p : Position) : Prop := p.line < 0x100000000 ∧ p.character < 0x100000000

theorem standsFor (fmt : Format) {p : Position} (h : p.Fits) :
    StandsFor fmt shape ofData p.toData p := by
  refine standsFor_record (by decide) (.field (readsAs_word h.1) <|
    .field (readsAs_word h.2) .nil) ?_
  simp [ofData, Data.numberAt, Data.lookup?_record, List.lookup_cons]

theorem fits_of_isNormal {n : Data} (h : shape.isNormal n) : (ofData n).Fits := by
  have hline : n.HasAt "line" .word := hasAt_of_isNormal h rfl
  have hcharacter : n.HasAt "character" .word := hasAt_of_isNormal h rfl
  exact ⟨hline.numberAt_lt, hcharacter.numberAt_lt⟩

end Text.Position

namespace Text.Range

def Fits (r : Range) : Prop := r.start.Fits ∧ r.stop.Fits

theorem standsFor (fmt : Format) {r : Range} (h : r.Fits) :
    StandsFor fmt shape ofData r.toData r := by
  obtain ⟨start, hreadStart, hstart⟩ := Position.standsFor fmt h.1
  obtain ⟨stop, hreadStop, hstop⟩ := Position.standsFor fmt h.2
  refine standsFor_record (by decide) (.field hreadStart <| .field hreadStop .nil) ?_
  simp [ofData, Data.recordAt, Data.lookup?_record, List.lookup_cons, hstart, hstop]

theorem fits_of_isNormal {n : Data} (h : shape.isNormal n) : (ofData n).Fits := by
  have hstart : n.HasAt "start" Position.shape := hasAt_of_isNormal h rfl
  have hstop : n.HasAt "end" Position.shape := hasAt_of_isNormal h rfl
  exact ⟨Position.fits_of_isNormal hstart.recordAt, Position.fits_of_isNormal hstop.recordAt⟩

end Text.Range

theorem Severity.standsFor (fmt : Format) (s : Severity) :
    StandsFor fmt shape ofData s.toData s :=
  ⟨_, readsAs_choice fmt (by cases s <;> decide), by cases s <;> rfl⟩

theorem DiagnosticCode.standsFor (fmt : Format) (c : DiagnosticCode) :
    StandsFor fmt shape ofData c.toData c :=
  ⟨_, readsAs_choice fmt (by cases c <;> decide), by cases c <;> rfl⟩

theorem DocumentFormat.standsFor (fmt : Format) (f : DocumentFormat) :
    StandsFor fmt shape ofData f.toData f :=
  ⟨_, readsAs_choice fmt (by cases f <;> decide), by cases f <;> rfl⟩

namespace Diagnostic

def Fits (d : Diagnostic) : Prop := d.range.Fits

theorem standsFor (fmt : Format) {d : Diagnostic} (h : d.Fits) :
    StandsFor fmt shape ofData d.toData d := by
  obtain ⟨range, hreadRange, hrange⟩ := Text.Range.standsFor fmt h
  obtain ⟨severity, hreadSeverity, hseverity⟩ := d.severity.standsFor fmt
  obtain ⟨code, hreadCode, hcode⟩ := d.code.standsFor fmt
  refine standsFor_record (by decide) (.field hreadRange <| .field (readsAs_string d.message) <|
    .field hreadSeverity <| .field (readsAs_string d.source) <| .field hreadCode .nil) ?_
  simp [ofData, Data.recordAt, Data.textAt, Data.lookup?_record, List.lookup_cons, hrange,
    hseverity, hcode]

theorem fits_of_isNormal {n : Data} (h : shape.isNormal n) : (ofData n).Fits := by
  have hrange : n.HasAt "range" Text.Range.shape := hasAt_of_isNormal h rfl
  exact Text.Range.fits_of_isNormal hrange.recordAt

end Diagnostic

/-! ## Settings -/

theorem Scope.standsFor (fmt : Format) (s : Scope) : StandsFor fmt shape ofData s.toData s :=
  ⟨_, readsAs_choice fmt (by cases s <;> decide), by cases s <;> rfl⟩

theorem PropertySettings.standsFor (fmt : Format) (s : PropertySettings) :
    StandsFor fmt shape ofData s.toData s := by
  obtain ⟨scope, hreadScope, hscope⟩ := s.scope.standsFor fmt
  refine standsFor_record (by decide) (.field hreadScope .nil) ?_
  simp [ofData, Data.recordAt, Data.lookup?_record, hscope]

theorem DiagnosticSettings.standsFor (fmt : Format) (s : DiagnosticSettings) :
    StandsFor fmt shape ofData s.toData s := by
  obtain ⟨format, hreadFormat, hformat⟩ := s.documentFormat.standsFor fmt
  refine standsFor_record (by decide) (.field (readsAs_boolean s.enabled) <|
    .field (readsAs_boolean s.fallbackSignature) <| .field hreadFormat .nil) ?_
  simp [ofData, Data.flagAt, Data.recordAt, Data.lookup?_record, List.lookup_cons, hformat]

theorem LoggingSettings.standsFor (fmt : Format) (s : LoggingSettings) :
    StandsFor fmt shape ofData s.toData s := by
  refine standsFor_record (by decide) (.field (readsAs_string s.level) <|
    .field (readsAs_boolean s.json) .nil) ?_
  simp [ofData, Data.textAt, Data.flagAt, Data.lookup?_record, List.lookup_cons]

theorem Settings.standsFor (fmt : Format) (s : Settings) :
    StandsFor fmt shape ofData s.toData s := by
  obtain ⟨properties, hreadProperties, hproperties⟩ := s.properties.standsFor fmt
  obtain ⟨diagnostics, hreadDiagnostics, hdiagnostics⟩ := s.diagnostics.standsFor fmt
  obtain ⟨logging, hreadLogging, hlogging⟩ := s.logging.standsFor fmt
  refine standsFor_record (by decide) (.field hreadProperties <| .field hreadDiagnostics <|
    .field hreadLogging .nil) ?_
  simp [ofData, Data.recordAt, Data.lookup?_record, List.lookup_cons, hproperties, hdiagnostics,
    hlogging]

/-! ## All written forms -/

theorem written_read_back (fmt : Format) :
    RoundTrips ItemMetadata.Fits (ItemMetadata.read fmt) ItemMetadata.toData ∧
      RoundTrips (fun _ => True) (ValueHint.read fmt) ValueHint.toData ∧
      RoundTrips (fun _ => True) (ItemHint.read fmt) ItemHint.toData ∧
      RoundTrips ProjectInfo.Fits (ProjectInfo.read fmt) ProjectInfo.toData ∧
      RoundTrips Diagnostic.Fits (Diagnostic.read fmt) Diagnostic.toData ∧
      RoundTrips (fun _ => True) (Settings.read fmt) Settings.toData := by
  refine ⟨?metadata, ?valueHint, ?itemHint, ?info, ?diagnostic, ?settings⟩
  case metadata =>
    exact roundTrips_of_standsFor (by decide) (fun _ h => ItemMetadata.standsFor fmt h)
      fun _ h => ItemMetadata.fits_of_isNormal h
  case valueHint =>
    exact roundTrips_of_standsFor (by decide) (fun h _ => h.standsFor fmt) fun _ _ => trivial
  case itemHint =>
    exact roundTrips_of_standsFor (by decide) (fun h _ => h.standsFor fmt) fun _ _ => trivial
  case info =>
    exact roundTrips_of_standsFor (by decide) (fun _ h => ProjectInfo.standsFor fmt h)
      fun _ h => ProjectInfo.fits_of_isNormal h
  case diagnostic =>
    exact roundTrips_of_standsFor (by decide) (fun _ h => Diagnostic.standsFor fmt h)
      fun _ h => Diagnostic.fits_of_isNormal h
  case settings =>
    exact roundTrips_of_standsFor (by decide) (fun s _ => s.standsFor fmt) fun _ _ => trivial

/-- The last phase there is comes back, and a hint with members that are null or left out is the same
hint when it is written and read again. -/
theorem written_read_back_units :
    let item : ItemMetadata := { name := "org.acme.A/Retry/delay", type := "long", phase := 4294967295 }
    let hint : ItemHint := { name := "ChronoUnit", isEnum := true, values := [{ value := "NANOS" }] }
    let found : Data := .record [
      ("values", .sequence [.record [("sourceType", .null), ("value", .string "NANOS")]]),
      ("description", .null), ("isEnum", .boolean true), ("name", .string "ChronoUnit")]
    (item.Fits ∧ ItemMetadata.read .json item.toData = .ok item) ∧
      ItemHint.read .json found = .ok hint ∧ ItemHint.read .json hint.toData = .ok hint := by
  intro item hint found
  have hitem : item.Fits := by
    show 4294967295 < 0x100000000
    decide
  have hfound : ItemHint.read .json found = .ok hint := rfl
  obtain ⟨hmetadata, -, hhint, -⟩ := written_read_back .json
  exact ⟨⟨hitem, hmetadata.1 item hitem _ (.refl _)⟩, hfound, hhint.2 found hint hfound _ (.refl _)⟩

end FaultTolerance
