import FaultTolerance.Wire.Shape
import Mathlib.Data.List.Basic
import Mathlib.Data.List.Forall2
import Mathlib.Data.List.Nodup

/-! Reading data that was written entry by entry.

A reader goes through the entries of a map in the order of the text, and looks at the fields of the
record only afterwards. `Writes` says the same in the order of the fields: each has an entry, or is
left out and has a default. `readsAs_record` connects the two, for every order of the entries. -/
namespace FaultTolerance.Wire
set_option autoImplicit false

/-! ## Entries in another order -/

/-- Data up to the order in which the entries of its maps come. -/
inductive Data.Reordered : Data → Data → Prop
  | refl (d : Data) : Reordered d d
  | sequence {items items' : List Data} (h : List.Forall₂ Reordered items items') :
    Reordered (.sequence items) (.sequence items')
  | map {entries middle entries' : List (Option String × Data)} (order : entries.Perm middle)
    (keys : middle.map (·.1) = entries'.map (·.1))
    (values : List.Forall₂ Reordered (middle.map (·.2)) (entries'.map (·.2))) :
    Reordered (.map entries) (.map entries')

namespace Data.Reordered

theorem eq_string {d : Data} {s : String} (h : Reordered d (.string s)) : d = .string s := by
  cases h
  rfl

theorem eq_boolean {d : Data} {b : Bool} (h : Reordered d (.boolean b)) : d = .boolean b := by
  cases h
  rfl

theorem eq_integer {d : Data} {n : Int} (h : Reordered d (.integer n)) : d = .integer n := by
  cases h
  rfl

theorem sequence_inv {d : Data} {items : List Data} (h : Reordered d (.sequence items)) :
    ∃ items', d = .sequence items' ∧ List.Forall₂ Reordered items' items := by
  cases h with
  | refl => exact ⟨items, rfl, List.forall₂_same.mpr fun d _ => .refl d⟩
  | sequence h => exact ⟨_, rfl, h⟩

theorem mem_of_values {middle entries : List (Option String × Data)}
    (keys : middle.map (·.1) = entries.map (·.1))
    (values : List.Forall₂ Reordered (middle.map (·.2)) (entries.map (·.2)))
    {key : Option String} {d : Data} (h : (key, d) ∈ entries) :
    ∃ d', (key, d') ∈ middle ∧ Reordered d' d := by
  induction entries generalizing middle with
  | nil => nomatch h
  | cons e entries ih =>
    cases middle with
    | nil => simp at keys
    | cons e' middle =>
      simp only [List.map_cons, List.cons.injEq] at keys
      rw [List.map_cons, List.map_cons, List.forall₂_cons] at values
      rcases List.mem_cons.mp h with rfl | h
      · exact ⟨e'.2, List.mem_cons.mpr (.inl (Prod.ext keys.1.symm rfl)), values.1⟩
      · obtain ⟨d', hd', hr⟩ := ih keys.2 values.2 h
        exact ⟨d', List.mem_cons_of_mem _ hd', hr⟩

theorem map_inv {d : Data} {entries : List (Option String × Data)}
    (h : Reordered d (.map entries)) :
    ∃ entries', d = .map entries' ∧ (entries'.map (·.1)).Perm (entries.map (·.1)) ∧
      ∀ key d, (key, d) ∈ entries → ∃ d', (key, d') ∈ entries' ∧ Reordered d' d := by
  cases h with
  | refl => exact ⟨entries, rfl, .refl _, fun _ d hd => ⟨d, hd, .refl d⟩⟩
  | map order keys values =>
    refine ⟨_, rfl, keys ▸ order.map _, fun key d hd => ?_⟩
    obtain ⟨d', hd', hr⟩ := mem_of_values keys values hd
    exact ⟨d', order.mem_iff.mpr hd', hr⟩

end Data.Reordered

open Data (Reordered)

/-! ## What is read -/

/-- `d` is read as `n`, in whatever order the entries of its maps come. -/
def ReadsAs (reader : Reader) (d n : Data) : Prop := ∀ d', Reordered d' d → reader d' = .ok n

theorem readsAs_string (s : String) : ReadsAs Shape.readString (.string s) (.string s) := by
  intro d h
  rw [h.eq_string]
  rfl

theorem readsAs_boolean (b : Bool) : ReadsAs Shape.readBoolean (.boolean b) (.boolean b) := by
  intro d h
  rw [h.eq_boolean]
  rfl

theorem readsAs_word {n : Nat} (hn : n < 0x100000000) :
    ReadsAs Shape.readWord (.integer n) (.integer n) := by
  intro d h
  rw [h.eq_integer, Shape.readWord, if_pos ⟨by omega, by omega⟩]

theorem readsAs_choice (fmt : Format) {names : List String} {s : String} (hs : s ∈ names) :
    ReadsAs (Shape.readChoice fmt names) (.string s) (.string s) := by
  intro d h
  rw [h.eq_string, Shape.readChoice, if_pos (List.contains_iff_mem.mpr hs)]

theorem readsAs_optional_string (s : String) :
    ReadsAs (Shape.readOptional Shape.readString) (.string s) (.string s) := by
  intro d h
  rw [h.eq_string]
  rfl

theorem mapM_of_readsAs {reader : Reader} {items ns items' : List Data}
    (h : List.Forall₂ (ReadsAs reader) items ns) (h' : List.Forall₂ Reordered items' items) :
    items'.mapM reader = .ok ns := by
  induction h generalizing items' with
  | nil =>
    cases h'
    rfl
  | cons hd _ ih =>
    cases h' with
    | cons hd' hitems' =>
      rw [List.mapM_cons, hd _ hd', ih hitems']
      rfl

theorem readsAs_list {reader : Reader} {items ns : List Data}
    (h : List.Forall₂ (ReadsAs reader) items ns) :
    ReadsAs (Shape.readList reader) (.sequence items) (.sequence ns) := by
  intro d hd
  obtain ⟨items', rfl, hitems⟩ := hd.sequence_inv
  rw [Shape.readList, mapM_of_readsAs h hitems]
  rfl

/-! ## Records -/

namespace FieldReader

/-- `entries` are what is written of the fields, in their order, and `values` is what is read of
them: a field that has no entry is left at its default. -/
inductive Writes : List FieldReader → List (String × Data) → List (String × Data) → Prop
  | nil : Writes [] [] []
  | entry {field : FieldReader} {d n : Data} {fields : List FieldReader}
    {entries values : List (String × Data)} (h : ReadsAs field.read d n)
    (rest : Writes fields entries values) :
    Writes (field :: fields) ((field.name, d) :: entries) ((field.name, n) :: values)
  | omitted {field : FieldReader} {n : Data} {fields : List FieldReader}
    {entries values : List (String × Data)} (h : field.default? = some n)
    (rest : Writes fields entries values) :
    Writes (field :: fields) entries ((field.name, n) :: values)

variable {fields : List FieldReader} {entries values : List (String × Data)}

theorem Writes.keys_sublist (h : Writes fields entries values) :
    (entries.map (·.1)).Sublist (names fields) := by
  induction h with
  | nil => exact .refl _
  | entry _ _ ih => exact ih.cons_cons _
  | omitted _ _ ih => exact ih.cons _

theorem Writes.mem (h : Writes fields entries values) {key : String} {d : Data}
    (hd : (key, d) ∈ entries) : ∃ field ∈ fields, field.name = key ∧ ∃ n, ReadsAs field.read d n := by
  induction h with
  | nil => nomatch hd
  | @entry field d _ _ _ _ hread _ ih =>
    rcases List.mem_cons.mp hd with heq | hd
    · cases heq
      exact ⟨field, List.mem_cons_self, rfl, _, hread⟩
    · obtain ⟨f, hf, hread⟩ := ih hd
      exact ⟨f, List.mem_cons_of_mem _ hf, hread⟩
  | omitted _ _ ih =>
    obtain ⟨f, hf, hread⟩ := ih hd
    exact ⟨f, List.mem_cons_of_mem _ hf, hread⟩

/-- The values are complete once each entry was read and nothing stands for a field without one. -/
theorem Writes.complete (h : Writes fields entries values) (hnames : (names fields).Nodup)
    {out : List (String × Data)}
    (hread : ∀ field ∈ fields, ∀ d n, (field.name, d) ∈ entries → ReadsAs field.read d n →
      out.lookup field.name = some n)
    (hother : ∀ field ∈ fields, field.name ∉ entries.map (·.1) → out.lookup field.name = none) :
    complete out fields = .ok values := by
  induction h with
  | nil => rfl
  | @entry field d n fields entries values h _ ih =>
    obtain ⟨hnot, hnames⟩ := List.nodup_cons.mp hnames
    have hout : out.lookup field.name = some n :=
      hread field List.mem_cons_self d n List.mem_cons_self h
    have hrest : FieldReader.complete out fields = .ok values := by
      refine ih hnames (fun f hf d n hd => hread f (.tail _ hf) d n (.tail _ hd)) fun f hf hkey => ?_
      refine hother f (.tail _ hf) ?_
      rw [List.map_cons, List.mem_cons, not_or]
      exact ⟨fun heq => hnot (List.mem_map.mpr ⟨f, hf, heq⟩), hkey⟩
    rw [FieldReader.complete, hout, hrest]
    rfl
  | @omitted field n fields entries values h rest ih =>
    obtain ⟨hnot, hnames⟩ := List.nodup_cons.mp hnames
    have hout : out.lookup field.name = none :=
      hother field List.mem_cons_self fun hkey => hnot (rest.keys_sublist.subset hkey)
    have hrest : FieldReader.complete out fields = .ok values :=
      ih hnames (fun f hf => hread f (.tail _ hf)) fun f hf => hother f (.tail _ hf)
    rw [FieldReader.complete, hout, Option.orElse_none, h, hrest]
    rfl

/-! ### Reading the entries in turn -/

theorem find?_name (hnames : (names fields).Nodup) {f : FieldReader} (hf : f ∈ fields) :
    fields.find? (·.name == f.name) = some f := by
  cases hfind : fields.find? (·.name == f.name) with
  | none => exact absurd (beq_self_eq_true _) (List.find?_eq_none.mp hfind f hf)
  | some g =>
    have hname := List.find?_some hfind
    rw [List.inj_on_of_nodup_map hnames (List.mem_of_find?_eq_some hfind) hf (beq_iff_eq.mp hname)]

theorem readEntry_of_read {strict : Bool} (hnames : (names fields).Nodup) {f : FieldReader}
    (hf : f ∈ fields) {d n : Data} (hread : f.read d = .ok n)
    (hnew : values.lookup f.name = none) :
    readEntry strict fields values (some f.name, d) = .ok (values ++ [(f.name, n)]) := by
  simp only [readEntry, find?_name hnames hf, hnew, hread]
  rfl

theorem lookup_append_singleton (key k : String) (n : Data) :
    (values ++ [(k, n)]).lookup key = (values.lookup key).or (if key = k then some n else none) := by
  rw [List.lookup_append]
  congr 1
  by_cases h : key = k
  · rw [if_pos h, h]
    exact List.lookup_cons_self
  · rw [if_neg h, List.lookup_cons, beq_false_of_ne h]
    rfl

/-- What the fields hold after the entries were read onto `values`. Each entry is that of a field, and
no two are of the same. -/
theorem foldlM_readEntry {strict : Bool} (hnames : (names fields).Nodup)
    {es : List (Option String × Data)} (hkeys : (es.map (·.1)).Nodup)
    (hread : ∀ key d, (key, d) ∈ es → ∃ f ∈ fields, key = some f.name ∧ ∃ n, f.read d = .ok n)
    (hnew : ∀ key, some key ∈ es.map (·.1) → values.lookup key = none) :
    ∃ out, es.foldlM (readEntry strict fields) values = .ok out ∧
      (∀ f ∈ fields, ∀ d n, (some f.name, d) ∈ es → f.read d = .ok n →
        out.lookup f.name = some n) ∧
      ∀ key, some key ∉ es.map (·.1) → out.lookup key = values.lookup key := by
  -- By induction on the entries, over all that may have been read before them: each step appends one
  -- value, whose key is in none of the later entries.
  induction es generalizing values with
  | nil => exact ⟨values, rfl, by simp, by simp⟩
  | cons e es ih =>
    obtain ⟨key, d⟩ := e
    obtain ⟨hnot, hnodup⟩ := List.nodup_cons.mp hkeys
    obtain ⟨f, hf, rfl, n, hn⟩ := hread key d List.mem_cons_self
    have hnone : values.lookup f.name = none := hnew f.name List.mem_cons_self
    have hnew' : ∀ key, some key ∈ es.map (·.1) →
        (values ++ [(f.name, n)]).lookup key = none := by
      intro key h
      have hne : key ≠ f.name := fun heq => hnot (heq ▸ h)
      rw [lookup_append_singleton, hnew key (.tail _ h), if_neg hne]
      rfl
    obtain ⟨out, hout, hreads, hothers⟩ :=
      ih hnodup (fun key d h => hread key d (.tail _ h)) hnew'
    refine ⟨out, ?_, ?_, ?_⟩
    · rw [List.foldlM_cons, readEntry_of_read hnames hf hn hnone]
      exact hout
    · intro g hg d' n' hd' hn'
      rcases List.mem_cons.mp hd' with heq | hd'
      · obtain ⟨hname, rfl⟩ := Prod.mk.inj heq
        obtain rfl := List.inj_on_of_nodup_map hnames hg hf (Option.some.inj hname)
        obtain rfl : n' = n := by simpa [hn] using hn'.symm
        rw [hothers _ hnot, lookup_append_singleton, hnone, if_pos rfl]
        rfl
      · exact hreads g hg d' n' hd' hn'
    · intro key hkey
      rw [List.map_cons, List.mem_cons, not_or] at hkey
      have hne : key ≠ f.name := fun h => hkey.1 (congrArg some h)
      rw [hothers key hkey.2, lookup_append_singleton, if_neg hne, Option.or_none]

end FieldReader

open FieldReader in
theorem readsAs_readRecord (fmt : Format) (name : String) (strict : Bool)
    {fields : List FieldReader} {entries values : List (String × Data)}
    (h : Writes fields entries values) (hnames : (names fields).Nodup) :
    ReadsAs (Shape.readRecord fmt name strict fields) (.record entries) (.record values) := by
  intro d hd
  obtain ⟨es, rfl, hperm, hentries⟩ := hd.map_inv
  have hkeys : (es.map (·.1)).Perm ((entries.map (·.1)).map some) := by
    simpa [Function.comp_def] using hperm
  have hnodup : (es.map (·.1)).Nodup :=
    hkeys.nodup_iff.mpr ((h.keys_sublist.nodup hnames).map fun _ _ => Option.some.inj)
  -- An entry of the map is one that was written, with its own entries in some order.
  have hwritten : ∀ key d n, (key, d) ∈ entries → ∀ f : FieldReader, ReadsAs f.read d n →
      ∀ d', (some key, d') ∈ es → f.read d' = .ok n := by
    intro key d n hd f hread d' hd'
    obtain ⟨d'', hd'', hr⟩ := hentries (some key) d (List.mem_map_of_mem hd)
    obtain ⟨-, rfl⟩ := Prod.mk.inj (List.inj_on_of_nodup_map hnodup hd' hd'' rfl)
    exact hread d' hr
  have hread : ∀ key d', (key, d') ∈ es →
      ∃ f ∈ fields, key = some f.name ∧ ∃ n, f.read d' = .ok n := by
    intro key d' hd'
    obtain ⟨k, hk, rfl⟩ := List.mem_map.mp (hkeys.subset (List.mem_map_of_mem hd'))
    obtain ⟨⟨k, d⟩, hd, rfl⟩ := List.mem_map.mp hk
    obtain ⟨f, hf, rfl, n, hn⟩ := h.mem hd
    exact ⟨f, hf, rfl, n, hwritten _ d n hd f hn d' hd'⟩
  obtain ⟨out, hout, hreads, hothers⟩ :=
    @foldlM_readEntry fields [] strict hnames es hnodup hread fun _ _ => rfl
  have hcomplete : complete out fields = .ok values := by
    refine h.complete hnames (fun f hf d n hd hn => ?_) fun f hf hkey => ?_
    · obtain ⟨d', hd', hr⟩ := hentries (some f.name) d (List.mem_map_of_mem hd)
      exact hreads f hf d' n hd' (hn d' hr)
    · refine hothers f.name fun hmem => hkey ?_
      simpa using hkeys.subset hmem
  have hvalues : readEntries strict fields es = .ok values := by
    rw [readEntries, hout]
    exact hcomplete
  rw [Shape.readRecord, hvalues]
  rfl

/-! ### Records of a shape -/

theorem Shape.names_fieldReaders (fmt : Format) (fields : List (String × Shape × Option Data)) :
    FieldReader.names (Shape.fieldReaders fmt fields) = fields.map (·.1) := by
  induction fields with
  | nil => rfl
  | cons field fields ih =>
    obtain ⟨name, shape, default?⟩ := field
    exact congrArg (name :: ·) ih

/-- What is written of the fields of a record is read, in whatever order the entries come. -/
theorem readsAs_record {fmt : Format} {name : String} {strict : Bool}
    {fields : List (String × Shape × Option Data)} {entries values : List (String × Data)}
    (hnames : (fields.map (·.1)).Nodup)
    (h : FieldReader.Writes (Shape.fieldReaders fmt fields) entries values) :
    ReadsAs ((Shape.record name strict fields).read fmt) (.record entries) (.record values) :=
  readsAs_readRecord fmt name strict h (by rwa [Shape.names_fieldReaders])

/-- What is read of a text that may be missing. -/
def Data.ofText : Option String → Data
  | some s => .string s
  | none => .null

namespace FieldReader

variable {fmt : Format} {fields : List (String × Shape × Option Data)}
  {entries values : List (String × Data)}

theorem Writes.field {name : String} {shape : Shape} {default? : Option Data} {d n : Data}
    (h : ReadsAs (shape.read fmt) d n) (rest : Writes (Shape.fieldReaders fmt fields) entries values) :
    Writes (Shape.fieldReaders fmt ((name, shape, default?) :: fields)) ((name, d) :: entries)
      ((name, n) :: values) :=
  .entry h rest

theorem Writes.text {name : String} {t : Option String}
    (rest : Writes (Shape.fieldReaders fmt fields) entries values) :
    Writes (Shape.fieldReaders fmt ((name, .optional .string, some .null) :: fields))
      (Data.textEntry name t ++ entries) ((name, Data.ofText t) :: values) := by
  cases t with
  | none => exact .omitted rfl rest
  | some s => exact .entry (readsAs_optional_string s) rest

end FieldReader
end FaultTolerance.Wire
