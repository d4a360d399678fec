import FaultTolerance.Proofs.Wire.Normal

/-! Strict records, key by key. A strict record is read off a table whose keys are those of its fields,
each at most once, or off an array. Each field is what the data gives for it, or its default
(`read_strict_eq_ok_iff`): what is given for one field has no part in another. -/
namespace FaultTolerance.Wire
set_option autoImplicit false

namespace Data

/-- What data gives for a key: a table the value of the key, an array the element at the place that the
key has among `keys`. -/
def given? (keys : List String) (key : String) : Data → Option Data
  | .map entries => entries.lookup (some key)
  | .sequence items => items[keys.idxOf key]?
  | _ => none

/-- Whether data is a table with no other keys than `keys`, none of them twice, or an array. -/
def isKeyedBy (keys : List String) : Data → Bool
  | .map entries =>
    decide ((entries.map (·.1)).Nodup ∧ ∀ key ∈ entries.map (·.1), key ∈ keys.map some)
  | .sequence _ => true
  | _ => false

/-- Whether data is a table with a key that is none of `keys`. -/
def hasOtherKey (keys : List String) : Data → Bool
  | .map entries => entries.any fun e => decide (e.1 ∉ keys.map some)
  | _ => false

theorem isKeyedBy_eq_false_of_hasOtherKey {keys : List String} {d : Data} (h : d.hasOtherKey keys) :
    d.isKeyedBy keys = false := by
  cases d with
  | map entries =>
    obtain ⟨e, he, hother⟩ := List.any_eq_true.mp h
    exact decide_eq_false fun hkeyed =>
      of_decide_eq_true hother (hkeyed.2 e.1 (List.mem_map_of_mem he))
  | _ => cases h

end Data

theorem lookup_eq_some_of_mem {es : List (Option String × Data)} (hnodup : (es.map (·.1)).Nodup)
    {key : Option String} {d : Data} (h : (key, d) ∈ es) : es.lookup key = some d := by
  induction es with
  | nil => cases h
  | cons e es ih =>
    obtain ⟨key', d'⟩ := e
    obtain ⟨hnot, hnodup⟩ := List.nodup_cons.mp hnodup
    rcases List.mem_cons.mp h with heq | hmem
    · obtain ⟨rfl, rfl⟩ := Prod.mk.inj heq
      exact List.lookup_cons_self
    · have hne : key ≠ key' := by
        rintro rfl
        have hkey : key ∈ es.map (·.1) := List.mem_map_of_mem hmem
        exact hnot hkey
      rw [List.lookup_cons, beq_false_of_ne hne]
      exact ih hnodup hmem

theorem forall₂_congr_of_mem {α β : Type} {R S : α → β → Prop} {l : List α} {l' : List β}
    (h : ∀ a ∈ l, ∀ b, R a b ↔ S a b) : List.Forall₂ R l l' ↔ List.Forall₂ S l l' := by
  induction l generalizing l' with
  | nil => rw [List.forall₂_nil_left_iff, List.forall₂_nil_left_iff]
  | cons a l ih =>
    simp only [List.forall₂_cons_left_iff, h a List.mem_cons_self,
      ih fun a ha => h a (List.mem_cons_of_mem _ ha)]

theorem exists_of_mem_of_forall₂ {α β : Type} {R : α → β → Prop} {l : List α} {l' : List β}
    (h : List.Forall₂ R l l') {a : α} (ha : a ∈ l) : ∃ b, R a b := by
  induction h with
  | nil => cases ha
  | cons hab _ ih =>
    rcases List.mem_cons.mp ha with rfl | ha
    · exact ⟨_, hab⟩
    · exact ih ha

namespace FieldReader

/-- A value of a field: what is read off the data that is given for it, or its default. -/
def Fills (field : FieldReader) (given : Option Data) (value : String × Data) : Prop :=
  value.1 = field.name ∧
    match given with
    | some d => field.read d = .ok value.2
    | none => field.default? = some value.2

variable {fields : List FieldReader} {values out : List (String × Data)}

/-! ## Tables -/

theorem readEntry_strict_eq_ok {e : Option String × Data}
    (h : readEntry true fields values e = .ok out) :
    ∃ field ∈ fields, ∃ n, e.1 = some field.name ∧ field.read e.2 = .ok n ∧
      values.lookup field.name = none ∧ out = values ++ [(field.name, n)] := by
  obtain ⟨_ | key, d⟩ := e
  · cases h
  rw [readEntry] at h
  cases hfind : fields.find? (·.name == key) with
  | none =>
    simp only [hfind] at h
    cases h
  | some field =>
    simp only [hfind] at h
    have hfound := List.find?_some hfind
    have hname : field.name = key := beq_iff_eq.mp hfound
    split_ifs at h with hlookup
    obtain ⟨n, hn, rfl⟩ := map_eq_ok_iff.mp h
    refine ⟨field, List.mem_of_find?_eq_some hfind, n, congrArg some hname.symm, hn, ?_, ?_⟩
    · rw [hname]
      exact Option.not_isSome_iff_eq_none.mp hlookup
    · rw [hname]

/-- Entries that are read are those of distinct fields, of which none has a value yet. -/
theorem read_of_foldlM_strict {es : List (Option String × Data)}
    (h : es.foldlM (readEntry true fields) values = .ok out) :
    (es.map (·.1)).Nodup ∧
      (∀ key d, (key, d) ∈ es → ∃ f ∈ fields, key = some f.name ∧ ∃ n, f.read d = .ok n) ∧
      ∀ key, some key ∈ es.map (·.1) → values.lookup key = none := by
  induction es generalizing values with
  | nil =>
    refine ⟨List.nodup_nil, fun key d hmem => ?_, fun key hmem => ?_⟩
    · cases hmem
    · cases hmem
  | cons e es ih =>
    rw [List.foldlM_cons] at h
    obtain ⟨middle, he, hrest⟩ := bind_eq_ok_iff.mp h
    obtain ⟨field, hfield, n, hkey, hread, hnew, rfl⟩ := readEntry_strict_eq_ok he
    obtain ⟨hnodup, hreads, hlater⟩ := ih hrest
    -- The field has its value now, so the entries that follow are those of other fields.
    have hfresh : ∀ key, some key ∈ es.map (·.1) → key ≠ field.name ∧ values.lookup key = none := by
      intro key hmem
      have hnone := hlater key hmem
      rw [lookup_append_singleton, Option.or_eq_none_iff] at hnone
      exact ⟨fun heq => by simp [heq] at hnone, hnone.1⟩
    refine ⟨List.nodup_cons.mpr ⟨?_, hnodup⟩, ?_, ?_⟩
    · intro hmem
      exact (hfresh field.name (hkey ▸ hmem)).1 rfl
    · intro key d hmem
      rcases List.mem_cons.mp hmem with rfl | hmem
      · exact ⟨field, hfield, hkey, n, hread⟩
      · exact hreads key d hmem
    · intro key hmem
      rw [List.map_cons, hkey] at hmem
      rcases List.mem_cons.mp hmem with heq | hmem
      · rwa [Option.some.inj heq]
      · exact (hfresh key hmem).2

theorem complete_eq_ok_iff : complete out fields = .ok values ↔
    List.Forall₂ (fun field value => value.1 = field.name ∧
      ((out.lookup field.name).orElse fun _ => field.default?) = some value.2) fields values := by
  induction fields generalizing values with
  | nil =>
    rw [List.forall₂_nil_left_iff, complete, Except.ok.injEq, eq_comm]
  | cons field fields ih =>
    rw [List.forall₂_cons_left_iff, complete]
    split
    next d hd =>
      simp only [hd, map_eq_ok_iff, ih]
      constructor
      · rintro ⟨rest, hrest, rfl⟩
        exact ⟨_, _, ⟨rfl, rfl⟩, hrest, rfl⟩
      · rintro ⟨⟨name, d'⟩, rest, ⟨rfl, hd'⟩, hrest, rfl⟩
        obtain rfl := Option.some.inj hd'
        exact ⟨rest, hrest, rfl⟩
    next hnone =>
      simp only [hnone]
      constructor
      · intro h
        cases h
      · rintro ⟨_, _, ⟨_, hd⟩, _⟩
        cases hd

/-- Once the entries of a table are read, a field has a value just if the table gives one for it. -/
theorem completes_iff_fills {es : List (Option String × Data)} {field : FieldReader}
    {value : String × Data}
    (hread : ∀ d, (some field.name, d) ∈ es → ∃ n, field.read d = .ok n)
    (hreads : ∀ d n, (some field.name, d) ∈ es → field.read d = .ok n →
      out.lookup field.name = some n)
    (hother : some field.name ∉ es.map (·.1) → out.lookup field.name = none) :
    (value.1 = field.name ∧
        ((out.lookup field.name).orElse fun _ => field.default?) = some value.2) ↔
      field.Fills (es.lookup (some field.name)) value := by
  refine and_congr_right fun _ => ?_
  cases hlookup : es.lookup (some field.name) with
  | none =>
    have hnot : some field.name ∉ es.map (·.1) := by
      intro hmem
      obtain ⟨⟨key, d⟩, he, hkey⟩ := List.mem_map.mp hmem
      exact bne_iff_ne.mp (List.lookup_eq_none_iff.mp hlookup _ he) hkey.symm
    rw [hother hnot, Option.orElse_none]
  | some d =>
    obtain ⟨before, after, hes, -⟩ := List.lookup_eq_some_iff.mp hlookup
    have hmem : (some field.name, d) ∈ es := hes ▸ List.mem_append_right _ List.mem_cons_self
    obtain ⟨n, hn⟩ := hread d hmem
    rw [hreads d n hmem hn, Option.orElse_some]
    simp only [hn, Option.some.injEq, Except.ok.injEq]

theorem isKeyedBy_names_iff {es : List (Option String × Data)} :
    (Data.map es).isKeyedBy (names fields) ↔ (es.map (·.1)).Nodup ∧
      ∀ key d, (key, d) ∈ es → ∃ f ∈ fields, key = some f.name := by
  rw [Data.isKeyedBy, decide_eq_true_eq]
  refine and_congr_right fun _ => ⟨fun h key d hmem => ?_, fun h key hkey => ?_⟩
  · obtain ⟨name, hname, rfl⟩ := List.mem_map.mp (h key (List.mem_map_of_mem hmem))
    obtain ⟨f, hf, rfl⟩ := List.mem_map.mp hname
    exact ⟨f, hf, rfl⟩
  · obtain ⟨⟨_, d⟩, hmem, rfl⟩ := List.mem_map.mp hkey
    obtain ⟨f, hf, hname⟩ := h _ d hmem
    rw [hname]
    exact List.mem_map_of_mem (List.mem_map_of_mem hf)

/-- What the entries of a table are read as is completed to what the table gives for the fields. -/
theorem complete_eq_ok_iff_fills {es : List (Option String × Data)} (hnames : (names fields).Nodup)
    (hout : es.foldlM (readEntry true fields) [] = .ok out) :
    complete out fields = .ok values ↔ List.Forall₂ (fun field value =>
      field.Fills (es.lookup (some field.name)) value) fields values := by
  obtain ⟨hnodup, hread, -⟩ := read_of_foldlM_strict hout
  obtain ⟨out', hout', hreads, hothers⟩ :=
    @foldlM_readEntry fields [] true hnames es hnodup hread fun _ _ => rfl
  obtain rfl : out = out' := Except.ok.inj (hout.symm.trans hout')
  rw [complete_eq_ok_iff]
  refine forall₂_congr_of_mem fun field hfield value => completes_iff_fills ?_
    (hreads field hfield) (hothers field.name)
  intro d hmem
  obtain ⟨f, hf, hname, hn⟩ := hread _ d hmem
  rwa [List.inj_on_of_nodup_map hnames hfield hf (Option.some.inj hname)]

theorem readEntries_strict_eq_ok_iff {es : List (Option String × Data)}
    (hnames : (names fields).Nodup) :
    readEntries true fields es = .ok values ↔ (Data.map es).isKeyedBy (names fields) ∧
      List.Forall₂ (fun field value => field.Fills (es.lookup (some field.name)) value)
        fields values := by
  rw [isKeyedBy_names_iff]
  constructor
  · intro h
    obtain ⟨out, hout, hcomplete⟩ := bind_eq_ok_iff.mp h
    obtain ⟨hnodup, hread, -⟩ := read_of_foldlM_strict hout
    refine ⟨⟨hnodup, fun key d hmem => ?_⟩, (complete_eq_ok_iff_fills hnames hout).mp hcomplete⟩
    obtain ⟨f, hf, hname, -⟩ := hread key d hmem
    exact ⟨f, hf, hname⟩
  · rintro ⟨⟨hnodup, hknown⟩, hfills⟩
    have hread : ∀ key d, (key, d) ∈ es →
        ∃ f ∈ fields, key = some f.name ∧ ∃ n, f.read d = .ok n := by
      intro key d hmem
      obtain ⟨f, hf, rfl⟩ := hknown key d hmem
      obtain ⟨value, -, hvalue⟩ := exists_of_mem_of_forall₂ hfills hf
      rw [lookup_eq_some_of_mem hnodup hmem] at hvalue
      exact ⟨f, hf, rfl, _, hvalue⟩
    obtain ⟨out, hout, -⟩ :=
      @foldlM_readEntry fields [] true hnames es hnodup hread fun _ _ => rfl
    exact bind_eq_ok_iff.mpr ⟨out, hout, (complete_eq_ok_iff_fills hnames hout).mpr hfills⟩

/-! ## Arrays -/

theorem readElements_toml_eq_ok_iff {expected : String} {n : Nat} {items : List Data}
    (hnames : (names fields).Nodup) :
    readElements .toml expected n items fields = .ok values ↔
      List.Forall₂ (fun field value => field.Fills items[(names fields).idxOf field.name]? value)
        fields values := by
  induction fields generalizing n items values with
  | nil =>
    have hend : (items.isEmpty || Format.toml.allowsExtraElements) = true := Bool.or_true _
    rw [List.forall₂_nil_left_iff, readElements, if_pos hend, Except.ok.injEq, eq_comm]
  | cons field fields ih =>
    obtain ⟨hnot, hnames⟩ := List.nodup_cons.mp hnames
    -- The later fields are read off the later elements.
    have hlater : ∀ values', List.Forall₂ (fun f value =>
          f.Fills items[(names (field :: fields)).idxOf f.name]? value) fields values' ↔
        List.Forall₂ (fun f value =>
          f.Fills items.tail[(names fields).idxOf f.name]? value) fields values' := by
      intro values'
      refine forall₂_congr_of_mem fun f hf value => ?_
      have hne : field.name ≠ f.name := fun heq => hnot (List.mem_map.mpr ⟨f, hf, heq.symm⟩)
      have hidx : (names (field :: fields)).idxOf f.name = (names fields).idxOf f.name + 1 :=
        List.idxOf_cons_ne _ hne
      rw [hidx, List.getElem?_tail]
    have hfirst : (names (field :: fields)).idxOf field.name = 0 := List.idxOf_cons_self
    simp only [List.forall₂_cons_left_iff, hlater, hfirst]
    cases items with
    | nil =>
      rw [readElements]
      simp only [List.tail_nil, List.getElem?_nil]
      split
      next v hv =>
        simp only [map_eq_ok_iff, ih hnames, List.getElem?_nil]
        constructor
        · rintro ⟨rest, hrest, rfl⟩
          exact ⟨_, _, ⟨rfl, hv⟩, hrest, rfl⟩
        · rintro ⟨⟨name, v'⟩, rest, ⟨rfl, hv'⟩, hrest, rfl⟩
          obtain rfl : v = v' := Option.some.inj (hv.symm.trans hv')
          exact ⟨rest, hrest, rfl⟩
      next hnone =>
        constructor
        · intro h
          cases h
        · rintro ⟨_, _, ⟨_, hv⟩, _⟩
          cases hnone.symm.trans hv
    | cons d items =>
      rw [readElements]
      simp only [bind_eq_ok_iff, ih hnames, List.tail_cons, List.getElem?_cons_zero]
      constructor
      · rintro ⟨v, hv, rest, hrest, h⟩
        cases h
        exact ⟨_, _, ⟨rfl, hv⟩, hrest, rfl⟩
      · rintro ⟨⟨name, v⟩, rest, ⟨rfl, hv⟩, hrest, rfl⟩
        exact ⟨v, hv, rest, hrest, rfl⟩

end FieldReader

/-! ## Both -/

open FieldReader in
/-- What a strict record is read off, and what it is read as. -/
theorem readRecord_strict_eq_ok_iff {name : String} {fields : List FieldReader} {d n : Data}
    (hnames : (names fields).Nodup) (htimestamp : Shape.timestampKey ∉ names fields) :
    Shape.readRecord .toml name true fields d = .ok n ↔ d.isKeyedBy (names fields) ∧
      ∃ values, List.Forall₂ (fun field value =>
        field.Fills (d.given? (names fields) field.name) value) fields values ∧
          n = .record values := by
  have hmap : ∀ result : Except Fault (List (String × Data)),
      result.map Data.record = .ok n ↔ ∃ values, result = .ok values ∧ n = .record values := by
    intro result
    rw [map_eq_ok_iff]
    simp only [eq_comm]
  unfold Shape.readRecord
  split
  next entries =>
    simp only [hmap, readEntries_strict_eq_ok_iff hnames, Data.given?, and_assoc, exists_and_left]
  next items =>
    simp only [hmap, readElements_toml_eq_ok_iff hnames, Data.given?, Data.isKeyedBy, true_and]
  next =>
    have hunknown : ¬ (Data.map [(some Shape.timestampKey, .timestamp)]).isKeyedBy (names fields) := by
      simpa [Data.isKeyedBy] using htimestamp
    rw [hmap]
    constructor
    · rintro ⟨_, hread, _⟩
      exact absurd ((readEntries_strict_eq_ok_iff hnames).mp hread).1 hunknown
    · rintro ⟨hkeyed, _⟩
      cases hkeyed
  next hentries hitems _ =>
    have hkeyed : d.isKeyedBy (names fields) = false := by
      cases d with
      | map entries => exact absurd rfl (hentries entries)
      | sequence items => exact absurd rfl (hitems items)
      | _ => rfl
    rw [hkeyed]
    constructor
    · intro h
      cases h
    · rintro ⟨h, _⟩
      cases h

theorem Shape.read_strict_eq_ok_iff {name : String} {fields : List (String × Shape × Option Data)}
    {d n : Data} (hnames : (fields.map (·.1)).Nodup)
    (htimestamp : Shape.timestampKey ∉ fields.map (·.1)) :
    (Shape.record name true fields).read .toml d = .ok n ↔ d.isKeyedBy (fields.map (·.1)) ∧
      ∃ values, List.Forall₂ (fun field value =>
        field.Fills (d.given? (fields.map (·.1)) field.name) value)
          (Shape.fieldReaders .toml fields) values ∧ n = .record values := by
  rw [← Shape.names_fieldReaders .toml fields] at hnames htimestamp ⊢
  exact readRecord_strict_eq_ok_iff hnames htimestamp

/-! ## What data spells -/

/-- Whether a shape reads the data in which `spelled?` finds something, as that in its written form. -/
def Shape.Spells {α : Type} (shape : Shape) (spelled? : Data → Option α) (toData : α → Data) : Prop :=
  ∀ d n, shape.read .toml d = .ok n ↔ ∃ a, spelled? d = some a ∧ n = toData a

namespace Data

/-- Whether data gives nothing for a key, or something that is spelled right. -/
def allows {α : Type} (keys : List String) (key : String) (spelled? : Data → Option α) (d : Data) :
    Bool :=
  (d.given? keys key).all fun e => (spelled? e).isSome

/-- What data spells for a key, or `a` where it gives nothing for the key. -/
def valueOr {α : Type} (keys : List String) (key : String) (spelled? : Data → Option α) (a : α)
    (d : Data) : α :=
  ((d.given? keys key).bind spelled?).getD a

/-- Whether all that data gives for the keys is what `written` has there. -/
def Repeats (keys : List String) (d written : Data) : Prop :=
  ∀ key ∈ keys, ∀ e, d.given? keys key = some e → written.lookup? key = some e

theorem valueOr_of_repeats {α : Type} {keys : List String} {d written : Data}
    (h : d.Repeats keys written) {key : String} (hkey : key ∈ keys) {spelled? : Data → Option α}
    {a : α} (hwritten : (written.lookup? key).bind spelled? = some a) :
    d.valueOr keys key spelled? a = a := by
  unfold valueOr
  cases hgiven : d.given? keys key with
  | none => rfl
  | some e => rw [← h key hkey e hgiven, hwritten, Option.getD_some]

section
variable {α : Type} {keys : List String} {key : String} {fits : Data → Bool} {value : Data → α}
  {d : Data}

theorem allows_ite :
    d.allows keys key (fun e => if fits e then some (value e) else none) =
      (d.given? keys key).all fits := by
  have hsome : ∀ e, (if fits e then some (value e) else none).isSome = fits e := by
    intro e
    cases fits e <;> rfl
  simp only [allows, hsome]

theorem valueOr_ite (h : (d.given? keys key).all fits) {a : α} :
    d.valueOr keys key (fun e => if fits e then some (value e) else none) a =
      (d.given? keys key).elim a value := by
  unfold valueOr
  cases hgiven : d.given? keys key with
  | none => rfl
  | some e =>
    have he : fits e := by simpa [hgiven] using h
    simp only [Option.bind_some, if_pos he, Option.getD_some, Option.elim_some]

end

end Data

section
variable {α : Type} {shape : Shape} {spelled? : Data → Option α} {toData : α → Data}

/-- A field with a default is what is given for it, if this is spelled right, or the default. -/
theorem FieldReader.fills_iff (h : shape.Spells spelled? toData) {keys : List String} {name : String}
    {a : α} {d : Data} {value : String × Data} :
    Fills ⟨name, shape.read .toml, some (toData a)⟩ (d.given? keys name) value ↔
      d.allows keys name spelled? ∧ value = (name, toData (d.valueOr keys name spelled? a)) := by
  obtain ⟨key, v⟩ := value
  unfold Fills Data.allows Data.valueOr
  cases d.given? keys name with
  | none =>
    simp only [Option.some.injEq, Option.all_none, Option.bind_none, Option.getD_none, true_and,
      Prod.mk.injEq, eq_comm]
  | some e =>
    simp only [h e v, Option.all_some, Option.bind_some, Prod.mk.injEq, Option.isSome_iff_exists]
    constructor
    · rintro ⟨rfl, b, hb, rfl⟩
      exact ⟨⟨b, hb⟩, rfl, by rw [hb, Option.getD_some]⟩
    · rintro ⟨⟨b, hb⟩, rfl, rfl⟩
      exact ⟨rfl, b, hb, by rw [hb, Option.getD_some]⟩

end

/-! ### Flags, texts and names -/

namespace Data

def flag? : Data → Option Bool
  | .boolean b => some b
  | _ => none

/-- The name that data spells: as a string, or as the only key of a table with an empty table or an
empty array beside it. -/
def name? : Data → Option String
  | .string s => some s
  | .map [(some key, .map [])] => some key
  | .map [(some key, .sequence [])] => some key
  | _ => none

/-- The one of `all` whose text data spells. -/
def choice? {α : Type} (all : List α) (text : α → String) (d : Data) : Option α :=
  d.name?.bind fun name => all.find? (text · == name)

end Data

namespace Shape

theorem spells_boolean : Shape.boolean.Spells Data.flag? .boolean := by
  intro d n
  cases d with
  | boolean b =>
    rw [read, readBoolean, Except.ok.injEq, Data.flag?, eq_comm]
    simp only [Option.some.injEq, exists_eq_left']
  | _ =>
    constructor
    · intro h
      cases h
    · rintro ⟨_, ha, _⟩
      cases ha

theorem name?_entry {key name : String} {e : Data} {rest : List (Option String × Data)} :
    (Data.map ((some key, e) :: rest)).name? = some name ↔
      key = name ∧ rest = [] ∧ Format.toml.unitFault? e = none := by
  cases rest with
  | cons =>
    constructor
    · intro h
      unfold Data.name? at h
      split at h
      next heq => cases heq
      next heq => cases heq
      next heq => cases heq
      next => cases h
    · rintro ⟨_, hrest, _⟩
      cases hrest
  | nil =>
    have hname : (Data.map [(some key, e)]).name? =
        if Format.toml.unitFault? e = none then some key else none := by
      cases e with
      | map entries => cases entries <;> rfl
      | sequence items => cases items <;> rfl
      | _ => rfl
    rw [hname, Option.ite_none_right_eq_some, Option.some.injEq]
    exact ⟨fun ⟨he, hkey⟩ => ⟨hkey, rfl, he⟩, fun ⟨hkey, _, he⟩ => ⟨he, hkey⟩⟩

/-- Where data spells none of the names, it is right to read nothing. -/
theorem not_choice {names : List String} {d n : Data} {fault : Fault}
    (h : ∀ name, d.name? = some name → name ∉ names) :
    (.error fault : Except Fault Data) = .ok n ↔
      ∃ name, d.name? = some name ∧ name ∈ names ∧ n = .string name := by
  constructor
  · intro he
    cases he
  · rintro ⟨name, hname, hmem, _⟩
    exact absurd hmem (h name hname)

theorem readChoice_toml_eq_ok_iff {names : List String} {d n : Data} :
    readChoice .toml names d = .ok n ↔
      ∃ name, d.name? = some name ∧ name ∈ names ∧ n = .string name := by
  fun_cases readChoice .toml names d with
  | case1 s hs =>
    have hmem : s ∈ names := List.contains_iff_mem.mp hs
    simp only [Data.name?, Except.ok.injEq, Option.some.injEq, exists_eq_left', hmem, true_and]
    exact eq_comm
  | case6 key e rest _ hkey hunit hrest =>
    have hmem : key ∈ names := by simpa using hkey
    simp only [name?_entry, List.isEmpty_iff.mp hrest, hunit, and_true, Except.ok.injEq,
      exists_eq_left', hmem, true_and]
    exact eq_comm
  | case2 s hs =>
    refine not_choice fun name hname hmem => hs ?_
    rw [Option.some.inj hname]
    exact List.contains_iff_mem.mpr hmem
  | case3 key e rest hextra =>
    refine not_choice fun name hname _ => ?_
    rw [(name?_entry.mp hname).2.1] at hextra
    cases hextra
  | case4 key e rest _ hkey =>
    refine not_choice fun name hname hmem => ?_
    rw [← (name?_entry.mp hname).1] at hmem
    simp [hmem] at hkey
  | case5 key e rest _ _ fault hunit =>
    refine not_choice fun name hname _ => ?_
    cases hunit.symm.trans (name?_entry.mp hname).2.2
  | case7 key e rest _ _ _ hrest =>
    refine not_choice fun name hname _ => hrest ?_
    rw [(name?_entry.mp hname).2.1, List.isEmpty_nil]
  | case8 _ hstring hentry =>
    refine not_choice fun name hname _ => ?_
    unfold Data.name? at hname
    split at hname
    · exact hstring _ rfl
    · exact hentry _ _ _ rfl
    · exact hentry _ _ _ rfl
    · cases hname

theorem spells_choice {α : Type} {all : List α} {text : α → String} (hall : ∀ a, a ∈ all)
    (htext : Function.Injective text) :
    (Shape.choice (all.map text)).Spells (Data.choice? all text) fun a => .string (text a) := by
  intro d n
  rw [read, readChoice_toml_eq_ok_iff]
  simp only [Data.choice?, Option.bind_eq_some_iff]
  constructor
  · rintro ⟨name, hname, hmem, rfl⟩
    obtain ⟨a, -, rfl⟩ := List.mem_map.mp hmem
    refine ⟨a, ⟨text a, hname, ?_⟩, rfl⟩
    cases hfind : all.find? (text · == text a) with
    | none => exact absurd (beq_self_eq_true _) (List.find?_eq_none.mp hfind a (hall a))
    | some b =>
      have hfound := List.find?_some hfind
      rw [htext (beq_iff_eq.mp hfound)]
  · rintro ⟨a, ⟨name, hname, ha⟩, rfl⟩
    have hfound := List.find?_some ha
    obtain rfl : text a = name := beq_iff_eq.mp hfound
    exact ⟨_, hname, List.mem_map_of_mem (hall a), rfl⟩

end Shape
end FaultTolerance.Wire
