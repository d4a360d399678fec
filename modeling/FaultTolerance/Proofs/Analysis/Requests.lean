import FaultTolerance.Analyzer
import Mathlib.Data.List.Sort
import Mathlib.Data.String.Basic

/-! A request for diagnostics, document by document. The loop over the documents is `gather`; it
fails where one of them fails (`gather_fails_iff`). Its entries are sorted by document (`Sorted`), and
which entries there are is said without the order of the request (`gather_eq_ok_iff`). Two requests are
compared document by document (`diagnostics_entrywise`). -/
namespace FaultTolerance.Analyzer
set_option autoImplicit false

/-! ## The loop over documents -/

section gather
variable {ε α : Type} (read : String → Except ε α)

/-- Reads documents one after the other and enters what each gives. -/
def gather (entries : List (String × α)) (uris : List String) : Except ε (List (String × α)) :=
  uris.foldlM (fun entries uri => do
    let found ← read uri
    return insertEntry uri found entries) entries

theorem gather_cons (entries : List (String × α)) (uri : String) (uris : List String) :
    gather read entries (uri :: uris) =
      (read uri).bind fun found => gather read (insertEntry uri found entries) uris := by
  unfold gather
  rw [List.foldlM_cons]
  cases read uri <;> rfl

theorem gather_congr {read read' : String → Except ε α} {uris : List String}
    (h : ∀ uri ∈ uris, read uri = read' uri) (entries : List (String × α)) :
    gather read entries uris = gather read' entries uris := by
  induction uris generalizing entries with
  | nil => rfl
  | cons uri uris ih =>
    rw [gather_cons, gather_cons, h uri List.mem_cons_self]
    congr 1
    funext found
    exact ih (fun u hu => h u (List.mem_cons_of_mem _ hu)) _

theorem gather_fails_iff (entries : List (String × α)) (uris : List String) :
    (∃ e, gather read entries uris = .error e) ↔ ∃ uri ∈ uris, ∃ e, read uri = .error e := by
  induction uris generalizing entries with
  | nil =>
    constructor
    · rintro ⟨e, he⟩
      cases he
    · rintro ⟨uri, huri, _⟩
      cases huri
  | cons uri uris ih =>
    rw [gather_cons]
    cases hr : read uri with
    | error e => exact ⟨fun _ => ⟨uri, List.mem_cons_self, e, hr⟩, fun _ => ⟨e, rfl⟩⟩
    | ok found =>
      refine (ih _).trans ⟨?_, ?_⟩
      · rintro ⟨u, hu, e, he⟩
        exact ⟨u, List.mem_cons_of_mem _ hu, e, he⟩
      · rintro ⟨u, hu, e, he⟩
        rcases List.mem_cons.mp hu with rfl | hu
        · rw [hr] at he
          cases he
        · exact ⟨u, hu, e, he⟩

end gather

/-! ## Sorted entries -/

def Sorted {α : Type} (entries : List (String × α)) : Prop :=
  entries.Pairwise fun a b => a.1 < b.1

section entries
variable {α : Type} {entries entries' : List (String × α)} {key : String} {value : α}

theorem Sorted.ext (h : Sorted entries) (h' : Sorted entries')
    (hsame : ∀ e, e ∈ entries ↔ e ∈ entries') : entries = entries' := by
  have hanti : Std.Antisymm fun a b : String × α => a.1 < b.1 :=
    ⟨fun a b hab hba => absurd hba (String.lt_asymm hab)⟩
  have hirrefl : Std.Irrefl fun a b : String × α => a.1 < b.1 := ⟨fun a => String.lt_irrefl a.1⟩
  exact List.Pairwise.eq_of_mem_iff h h' hsame

theorem mem_insertEntry (h : Sorted entries) {e : String × α} :
    e ∈ insertEntry key value entries ↔ e = (key, value) ∨ (e ∈ entries ∧ e.1 ≠ key) := by
  induction entries with
  | nil => simp [insertEntry]
  | cons entry entries ih =>
    obtain ⟨k, v⟩ := entry
    obtain ⟨hhead, htail⟩ := List.pairwise_cons.mp h
    unfold insertEntry
    -- The new entry comes in front of the first one, instead of it, or behind it.
    by_cases hlt : key < k
    · have hne : ∀ e ∈ (k, v) :: entries, e.1 ≠ key := by
        intro e he
        rcases List.mem_cons.mp he with rfl | he
        · exact (ne_of_lt hlt).symm
        · exact (ne_of_lt (String.lt_trans hlt (hhead e he))).symm
      rw [if_pos hlt, List.mem_cons]
      exact or_congr_right ⟨fun he => ⟨he, hne e he⟩, And.left⟩
    by_cases hkey : key = k
    · subst hkey
      have hne : e ∈ entries → e.1 ≠ key := fun he => (ne_of_lt (hhead e he)).symm
      rw [if_neg hlt, if_pos rfl, List.mem_cons, List.mem_cons]
      constructor
      · rintro (he | he)
        · exact .inl he
        · exact .inr ⟨.inr he, hne he⟩
      · rintro (he | ⟨rfl | he, hkey⟩)
        · exact .inl he
        · exact absurd rfl hkey
        · exact .inr he
    · have hne : (k, v).1 ≠ key := Ne.symm hkey
      rw [if_neg hlt, if_neg hkey, List.mem_cons, List.mem_cons, ih htail]
      constructor
      · rintro (rfl | he | ⟨he, hkey⟩)
        · exact .inr ⟨.inl rfl, hne⟩
        · exact .inl he
        · exact .inr ⟨.inr he, hkey⟩
      · rintro (he | ⟨he | he, hkey⟩)
        · exact .inr (.inl he)
        · exact .inl he
        · exact .inr (.inr ⟨he, hkey⟩)

theorem Sorted.insertEntry (h : Sorted entries) (key : String) (value : α) :
    Sorted (insertEntry key value entries) := by
  induction entries with
  | nil => simp [Analyzer.insertEntry, Sorted]
  | cons entry entries ih =>
    obtain ⟨k, v⟩ := entry
    obtain ⟨hhead, htail⟩ := List.pairwise_cons.mp h
    unfold Analyzer.insertEntry
    by_cases hlt : key < k
    · rw [if_pos hlt]
      refine List.pairwise_cons.mpr ⟨?_, h⟩
      intro e he
      rcases List.mem_cons.mp he with rfl | he
      · exact hlt
      · exact String.lt_trans hlt (hhead e he)
    by_cases hkey : key = k
    · subst hkey
      rw [if_neg hlt, if_pos rfl]
      exact List.pairwise_cons.mpr ⟨hhead, htail⟩
    · rw [if_neg hlt, if_neg hkey]
      refine List.pairwise_cons.mpr ⟨?_, ih htail⟩
      intro e he
      rcases (mem_insertEntry htail).mp he with rfl | ⟨he, _⟩
      · exact lt_of_le_of_ne (not_lt.mp hlt) (Ne.symm hkey)
      · exact hhead e he

end entries

/-! ## The answer of the loop -/

section gather
variable {ε α : Type} {read : String → Except ε α} {entries all : List (String × α)}
  {uris : List String}

theorem Sorted.gather (hsorted : Sorted entries) (h : gather read entries uris = .ok all) :
    Sorted all := by
  induction uris generalizing entries with
  | nil =>
    cases h
    exact hsorted
  | cons uri uris ih =>
    rw [gather_cons] at h
    cases hr : read uri with
    | error e =>
      rw [hr] at h
      cases h
    | ok found =>
      rw [hr] at h
      exact ih (hsorted.insertEntry uri found) h

/-- An entry for a document asked for is new, others stay. -/
theorem mem_gather (hsorted : Sorted entries) (h : gather read entries uris = .ok all)
    {e : String × α} :
    e ∈ all ↔ (e.1 ∈ uris ∧ read e.1 = .ok e.2) ∨ (e ∈ entries ∧ e.1 ∉ uris) := by
  -- A document read twice gives the same both times, so an entry that is replaced was the same.
  induction uris generalizing entries with
  | nil =>
    cases h
    simp
  | cons uri uris ih =>
    rw [gather_cons] at h
    cases hr : read uri with
    | error cause =>
      rw [hr] at h
      cases h
    | ok found =>
      rw [hr] at h
      rw [ih (hsorted.insertEntry uri found) h, mem_insertEntry hsorted]
      obtain ⟨u, value⟩ := e
      by_cases hu : u = uri
      · subst hu
        have hvalue : read u = .ok value ↔ value = found := by
          rw [hr, Except.ok.injEq]
          exact eq_comm
        by_cases hmem : u ∈ uris <;> simp [hvalue, hmem]
      · simp [hu]

/-- The loop answers when every document is read, and then with one entry for each of them. -/
theorem gather_eq_ok_iff :
    gather read [] uris = .ok all ↔ (∀ uri ∈ uris, ∃ found, read uri = .ok found) ∧ Sorted all ∧
      ∀ uri found, (uri, found) ∈ all ↔ uri ∈ uris ∧ read uri = .ok found := by
  have hnil : Sorted ([] : List (String × α)) := List.Pairwise.nil
  have hmem : ∀ {all' : List (String × α)}, gather read [] uris = .ok all' →
      ∀ uri found, (uri, found) ∈ all' ↔ uri ∈ uris ∧ read uri = .ok found := by
    intro all' h uri found
    rw [mem_gather hnil h]
    simp
  constructor
  · intro h
    refine ⟨?_, hnil.gather h, hmem h⟩
    intro uri huri
    cases hr : read uri with
    | ok found => exact ⟨found, rfl⟩
    | error e =>
      obtain ⟨e', he'⟩ := (gather_fails_iff read [] uris).mpr ⟨uri, huri, e, hr⟩
      rw [h] at he'
      cases he'
  · rintro ⟨hread, hsorted, hall⟩
    cases h : gather read [] uris with
    | error e =>
      obtain ⟨uri, huri, e', he'⟩ := (gather_fails_iff read [] uris).mp ⟨e, h⟩
      obtain ⟨found, hfound⟩ := hread uri huri
      rw [he'] at hfound
      cases hfound
    | ok all' =>
      have hsame : ∀ e, e ∈ all' ↔ e ∈ all := by
        rintro ⟨uri, found⟩
        rw [hmem h, hall]
      rw [(hnil.gather h).ext hsorted hsame]

end gather

/-! ## Two loops side by side -/

/-- Whether two results fail for the same reason, or are both there and related. -/
inductive Both {ε α β : Type} (R : α → β → Prop) : Except ε α → Except ε β → Prop
  | error (e : ε) : Both R (.error e) (.error e)
  | ok {a : α} {b : β} (h : R a b) : Both R (.ok a) (.ok b)

/-- Whether two answers have related entries for the same documents, in the same order. -/
def Entrywise {α β : Type} (R : String → α → β → Prop) :
    List (String × α) → List (String × β) → Prop :=
  List.Forall₂ fun e e' => e.1 = e'.1 ∧ R e.1 e.2 e'.2

section related
variable {ε ε' α β : Type} {R : String → α → β → Prop}

theorem Both.mapError {S : α → β → Prop} {x : Except ε α} {y : Except ε β} (h : Both S x y)
    (f : ε → ε') : Both S (x.mapError f) (y.mapError f) := by
  cases h with
  | error e => exact .error (f e)
  | ok h => exact .ok h

theorem Both.error_iff {S : α → β → Prop} {x : Except ε α} {y : Except ε β} (h : Both S x y)
    {e : ε} : x = .error e ↔ y = .error e := by
  cases h with
  | error e' => rw [Except.error.injEq, Except.error.injEq]
  | ok _ => exact ⟨nofun, nofun⟩

theorem both_map (f : α → β) (x : Except ε α) : Both (fun a b => f a = b) x (x.map f) := by
  cases x with
  | error e => exact .error e
  | ok a => exact .ok rfl

theorem Entrywise.eq_map {g : α → β} {entries : List (String × α)} {entries' : List (String × β)}
    (h : Entrywise (fun _ a b => g a = b) entries entries') :
    entries.map (Prod.map id g) = entries' := by
  induction h with
  | nil => rfl
  | cons h _ ih => rw [List.map_cons, ih, Prod.map, id, h.1, h.2]

theorem Both.eq_map {g : α → β} {x : Except ε (List (String × α))}
    {y : Except ε (List (String × β))} (h : Both (Entrywise fun _ a b => g a = b) x y) :
    y = x.map (List.map (Prod.map id g)) := by
  cases h with
  | error e => rfl
  | ok h => exact congrArg Except.ok h.eq_map.symm

theorem Entrywise.insertEntry {entries : List (String × α)} {entries' : List (String × β)}
    (h : Entrywise R entries entries') {key : String} {a : α} {b : β} (hab : R key a b) :
    Entrywise R (insertEntry key a entries) (insertEntry key b entries') := by
  induction h with
  | nil => exact .cons ⟨rfl, hab⟩ .nil
  | @cons e e' _ _ he hrest ih =>
    obtain ⟨k, v⟩ := e
    obtain ⟨_, v'⟩ := e'
    obtain ⟨rfl, hv⟩ := he
    unfold Analyzer.insertEntry
    by_cases hlt : key < k
    · rw [if_pos hlt, if_pos hlt]
      exact .cons ⟨rfl, hab⟩ (.cons ⟨rfl, hv⟩ hrest)
    by_cases hkey : key = k
    · rw [if_neg hlt, if_neg hlt, if_pos hkey, if_pos hkey]
      exact .cons ⟨rfl, hab⟩ hrest
    · rw [if_neg hlt, if_neg hlt, if_neg hkey, if_neg hkey]
      exact .cons ⟨rfl, hv⟩ ih

/-- Loops over the same documents, with what they read of each related, have related answers. -/
theorem gather_entrywise {read : String → Except ε α} {read' : String → Except ε β}
    {uris : List String} (h : ∀ uri ∈ uris, Both (R uri) (read uri) (read' uri))
    {entries : List (String × α)} {entries' : List (String × β)}
    (hentries : Entrywise R entries entries') :
    Both (Entrywise R) (gather read entries uris) (gather read' entries' uris) := by
  -- a document found again replaces its entry, so the induction is over all entries so far
  induction uris generalizing entries entries' with
  | nil => exact .ok hentries
  | cons uri uris ih =>
    obtain ⟨huri, hrest⟩ := List.forall_mem_cons.mp h
    rw [gather_cons, gather_cons]
    generalize read uri = found, read' uri = found' at huri ⊢
    cases huri with
    | error e => exact .error e
    | ok hfound => exact ih hrest (hentries.insertEntry hfound)

end related

/-! ## Requests -/

/-- The format of a request's messages. -/
def formatOf (settings : Settings) (format : Option DocumentFormat) : DocumentFormat :=
  format.getD settings.diagnostics.documentFormat

theorem diagnostics_eq_gather (settings : Settings) (model : Model) (uris : List String)
    (format : Option DocumentFormat) :
    diagnostics settings model uris format =
      (gather (documentDiagnostics settings.diagnostics (formatOf settings format) model) []
        uris).mapError .typeModelUnavailable := rfl

section mapError
variable {ε ε' α : Type} {f : ε → ε'} {x : Except ε α}

theorem mapError_eq_ok_iff {a : α} : x.mapError f = .ok a ↔ x = .ok a := by
  cases x <;> simp [Except.mapError]

theorem mapError_eq_error_iff {e' : ε'} : x.mapError f = .error e' ↔ ∃ e, x = .error e ∧ f e = e' := by
  cases x <;> simp [Except.mapError]

theorem mapError_fails_iff : (∃ e', x.mapError f = .error e') ↔ ∃ e, x = .error e := by
  simp only [mapError_eq_error_iff]
  exact ⟨fun ⟨_, e, he, _⟩ => ⟨e, he⟩, fun ⟨e, he⟩ => ⟨f e, e, he, rfl⟩⟩

end mapError

theorem documentDiagnostics_eq_error_iff {settings : DiagnosticSettings} {format : DocumentFormat}
    {model : Model} {uri : String} {cause : ModelError} :
    documentDiagnostics settings format model uri = .error cause ↔ settings.enabled = true ∧
      model.typesInDocument uri = .error cause ∧ ∀ u, cause ≠ .unknownDocument u := by
  unfold documentDiagnostics
  cases settings.enabled with
  | false => exact ⟨nofun, nofun⟩
  | true =>
    cases model.typesInDocument uri with
    | ok ids => exact ⟨nofun, nofun⟩
    | error e =>
      cases e with
      | unknownDocument u =>
        refine ⟨nofun, ?_⟩
        rintro ⟨_, he, hne⟩
        cases he
        exact absurd rfl (hne u)
      | projectNotLoaded | unknownType | unparsable =>
        constructor
        · intro he
          cases he
          exact ⟨rfl, rfl, nofun⟩
        · rintro ⟨_, he, _⟩
          cases he
          rfl

/-- A request fails where diagnostics are on and the types of one of its documents cannot be listed,
for another reason than that the document is unknown. -/
theorem diagnostics_fails_iff (settings : Settings) (model : Model) (uris : List String)
    (format : Option DocumentFormat) :
    (∃ e, diagnostics settings model uris format = .error e) ↔
      settings.diagnostics.enabled = true ∧ ∃ uri ∈ uris, ∃ cause,
        model.typesInDocument uri = .error cause ∧ ∀ u, cause ≠ .unknownDocument u := by
  rw [diagnostics_eq_gather, mapError_fails_iff, gather_fails_iff]
  simp only [documentDiagnostics_eq_error_iff]
  constructor
  · rintro ⟨uri, huri, cause, henabled, hcause⟩
    exact ⟨henabled, uri, huri, cause, hcause⟩
  · rintro ⟨henabled, uri, huri, cause, hcause⟩
    exact ⟨uri, huri, cause, henabled, hcause⟩

theorem diagnostics_congr {settings : Settings} {model model' : Model} {uris : List String}
    {format : Option DocumentFormat}
    (h : ∀ uri ∈ uris, documentDiagnostics settings.diagnostics (formatOf settings format) model uri =
      documentDiagnostics settings.diagnostics (formatOf settings format) model' uri) :
    diagnostics settings model uris format = diagnostics settings model' uris format := by
  rw [diagnostics_eq_gather, diagnostics_eq_gather, gather_congr h]

/-- Two requests for the same documents, with what is found in each related. -/
theorem diagnostics_entrywise {settings settings' : Settings} {model model' : Model}
    {uris : List String} {format format' : Option DocumentFormat}
    {R : String → List Diagnostic → List Diagnostic → Prop}
    (h : ∀ uri ∈ uris, Both (R uri)
      (documentDiagnostics settings.diagnostics (formatOf settings format) model uri)
      (documentDiagnostics settings'.diagnostics (formatOf settings' format') model' uri)) :
    Both (Entrywise R) (diagnostics settings model uris format)
      (diagnostics settings' model' uris format') := by
  rw [diagnostics_eq_gather, diagnostics_eq_gather]
  exact (gather_entrywise h .nil).mapError _

theorem documentDiagnostics_of_mem_diagnostics {settings : Settings} {model : Model}
    {uris : List String} {format : Option DocumentFormat} {entries : List (String × List Diagnostic)}
    (h : diagnostics settings model uris format = .ok entries) {uri : String}
    {found : List Diagnostic} (hmem : (uri, found) ∈ entries) :
    documentDiagnostics settings.diagnostics (formatOf settings format) model uri = .ok found := by
  rw [diagnostics_eq_gather, mapError_eq_ok_iff, gather_eq_ok_iff] at h
  obtain ⟨_, _, hall⟩ := h
  exact ((hall uri found).mp hmem).2

end FaultTolerance.Analyzer
