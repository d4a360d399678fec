import FaultTolerance.Proofs.Wire.Reading

/-! Reading makes normal forms.

`Shape.isNormal` says what data in the normal form of a shape looks like, and `Shape.isWellFormed` what
a shape must be like for that: no two fields of one name, and every default in normal form itself.
Whatever `Shape.read` accepts it turns into such data (`isNormal_of_read`), and so a field of what was
read is found where it is looked for (`hasAt_of_isNormal`). -/
namespace FaultTolerance.Wire
set_option autoImplicit false

namespace Shape

mutual

/-- Whether the shape turns some data into `d`. -/
def isNormal : Shape → Data → Bool
  | .string, .string _ => true
  | .boolean, .boolean _ => true
  | .word, .integer n => 0 ≤ n && n < 0x100000000
  | .optional _, .null => true
  | .optional shape, d => isNormal shape d
  | .list shape, .sequence items => items.all (isNormal shape)
  | .choice names, .string s => names.contains s
  | .record _ _ fields, .map entries => areNormal fields entries
  | _, _ => false

/-- Whether the entries are those of the fields, in their order. -/
def areNormal : List (String × Shape × Option Data) → List (Option String × Data) → Bool
  | [], [] => true
  | (name, shape, _) :: fields, (key, d) :: entries =>
    key == some name && isNormal shape d && areNormal fields entries
  | _, _ => false

end

mutual

/-- Whether the fields of each record have distinct names and defaults in normal form. -/
def isWellFormed : Shape → Bool
  | .string | .boolean | .word | .choice _ => true
  | .optional shape => isWellFormed shape
  | .list shape => isWellFormed shape
  | .record _ _ fields => decide (fields.map (·.1)).Nodup && areWellFormed fields

def areWellFormed : List (String × Shape × Option Data) → Bool
  | [] => true
  | (_, shape, default?) :: fields =>
    isWellFormed shape && default?.all (isNormal shape) && areWellFormed fields

end

end Shape

/-! ## What a record is read as -/

theorem bind_eq_ok_iff {ε α β : Type} {x : Except ε α} {f : α → Except ε β} {b : β} :
    x >>= f = .ok b ↔ ∃ a, x = .ok a ∧ f a = .ok b := by
  cases x <;> simp [bind, Except.bind]

theorem map_eq_ok_iff {ε α β : Type} {x : Except ε α} {f : α → β} {b : β} :
    x.map f = .ok b ↔ ∃ a, x = .ok a ∧ f a = b := by
  cases x <;> simp [Except.map]

namespace FieldReader

/-- A value of a field: something that it read, or its default. -/
def Gives (field : FieldReader) (value : String × Data) : Prop :=
  value.1 = field.name ∧ ((∃ d, field.read d = .ok value.2) ∨ field.default? = some value.2)

/-- Every value was read by the field of its name. -/
def AllRead (fields : List FieldReader) (values : List (String × Data)) : Prop :=
  ∀ value ∈ values, ∃ field, fields.find? (·.name == value.1) = some field ∧
    ∃ d, field.read d = .ok value.2

variable {fields : List FieldReader} {values out : List (String × Data)} {strict : Bool}

theorem allRead_readEntry {e : Option String × Data} (h : AllRead fields values)
    (hread : readEntry strict fields values e = .ok out) : AllRead fields out := by
  obtain ⟨_ | key, d⟩ := e
  · cases hread
  rw [readEntry] at hread
  cases hfind : fields.find? (·.name == key) with
  | none =>
    obtain rfl : values = out := by
      simp only [hfind] at hread
      split_ifs at hread
      simpa using hread
    exact h
  | some field =>
    obtain ⟨n, hn, rfl⟩ : ∃ n, field.read d = .ok n ∧ values ++ [(key, n)] = out := by
      simp only [hfind] at hread
      split_ifs at hread
      exact map_eq_ok_iff.mp hread
    intro value hvalue
    rcases List.mem_append.mp hvalue with hvalue | hvalue
    · exact h value hvalue
    · -- The value that this entry adds.
      obtain rfl := List.mem_singleton.mp hvalue
      exact ⟨field, hfind, d, hn⟩

theorem allRead_foldlM {es : List (Option String × Data)} (h : AllRead fields values)
    (hread : es.foldlM (readEntry strict fields) values = .ok out) : AllRead fields out := by
  induction es generalizing values with
  | nil =>
    cases hread
    exact h
  | cons e es ih =>
    rw [List.foldlM_cons] at hread
    obtain ⟨middle, he, hrest⟩ := bind_eq_ok_iff.mp hread
    exact ih (allRead_readEntry h he) hrest

theorem gives_of_complete {read : List (String × Data)}
    (hread : ∀ f ∈ fields, ∀ n, read.lookup f.name = some n → ∃ d, f.read d = .ok n)
    (h : complete read fields = .ok values) : List.Forall₂ Gives fields values := by
  induction fields generalizing values with
  | nil =>
    cases h
    exact .nil
  | cons field fields ih =>
    rw [complete] at h
    split at h
    next n hvalue =>
      obtain ⟨rest, hrest, rfl⟩ := map_eq_ok_iff.mp h
      refine .cons ⟨rfl, ?_⟩ (ih (fun f hf => hread f (.tail _ hf)) hrest)
      cases hlookup : read.lookup field.name with
      | none => exact .inr (by simpa [hlookup] using hvalue)
      | some n' =>
        obtain rfl : n' = n := by simpa [hlookup] using hvalue
        exact .inl (hread field List.mem_cons_self n' hlookup)
    next => cases h

theorem gives_of_readEntries {es : List (Option String × Data)} (hnames : (names fields).Nodup)
    (h : readEntries strict fields es = .ok values) : List.Forall₂ Gives fields values := by
  obtain ⟨read, hread, hcomplete⟩ := bind_eq_ok_iff.mp h
  have hall : AllRead fields read := allRead_foldlM (List.forall_mem_nil _) hread
  refine gives_of_complete (fun f hf n hn => ?_) hcomplete
  obtain ⟨before, after, rfl, -⟩ := List.lookup_eq_some_iff.mp hn
  obtain ⟨g, hg, hd⟩ := hall (f.name, n) (List.mem_append_right _ List.mem_cons_self)
  rw [find?_name hnames hf] at hg
  cases hg
  exact hd

theorem gives_of_readElements {fmt : Format} {expected : String} {n : Nat} {items : List Data}
    (h : readElements fmt expected n items fields = .ok values) :
    List.Forall₂ Gives fields values := by
  induction fields generalizing n items values with
  | nil =>
    rw [readElements] at h
    split_ifs at h
    cases h
    exact .nil
  | cons field fields ih =>
    cases items with
    | nil =>
      rw [readElements] at h
      split at h
      next d hdefault =>
        obtain ⟨rest, hrest, rfl⟩ := map_eq_ok_iff.mp h
        exact .cons ⟨rfl, .inr hdefault⟩ (ih hrest)
      next => cases h
    | cons d items =>
      rw [readElements] at h
      obtain ⟨n, hn, h⟩ := bind_eq_ok_iff.mp h
      obtain ⟨rest, hrest, h⟩ := bind_eq_ok_iff.mp h
      cases h
      exact .cons ⟨rfl, .inl ⟨d, hn⟩⟩ (ih hrest)

end FieldReader

open FieldReader in
theorem gives_of_readRecord {fmt : Format} {name : String} {strict : Bool}
    {fields : List FieldReader} {d n : Data} (hnames : (names fields).Nodup)
    (h : Shape.readRecord fmt name strict fields d = .ok n) :
    ∃ values, n = .record values ∧ List.Forall₂ Gives fields values := by
  unfold Shape.readRecord at h
  split at h
  · obtain ⟨values, hvalues, rfl⟩ := map_eq_ok_iff.mp h
    exact ⟨values, rfl, gives_of_readEntries hnames hvalues⟩
  · obtain ⟨values, hvalues, rfl⟩ := map_eq_ok_iff.mp h
    exact ⟨values, rfl, gives_of_readElements hvalues⟩
  · obtain ⟨values, hvalues, rfl⟩ := map_eq_ok_iff.mp h
    exact ⟨values, rfl, gives_of_readEntries hnames hvalues⟩
  · cases h

/-! ## Every shape -/

theorem mem_of_mapM {reader : Reader} {items ns : List Data} (h : items.mapM reader = .ok ns)
    {n : Data} (hn : n ∈ ns) : ∃ d, reader d = .ok n := by
  induction items generalizing ns with
  | nil =>
    cases h
    nomatch hn
  | cons d items ih =>
    rw [List.mapM_cons] at h
    obtain ⟨n', hn', h⟩ := bind_eq_ok_iff.mp h
    obtain ⟨rest, hrest, h⟩ := bind_eq_ok_iff.mp h
    cases h
    rcases List.mem_cons.mp hn with rfl | hn
    · exact ⟨d, hn'⟩
    · exact ih hrest hn

namespace Shape

theorem isNormal_of_readString {d n : Data} (h : readString d = .ok n) : isNormal .string n := by
  unfold readString at h
  split at h
  · cases h
    rfl
  · cases h

theorem isNormal_of_readBoolean {d n : Data} (h : readBoolean d = .ok n) :
    isNormal .boolean n := by
  unfold readBoolean at h
  split at h
  · cases h
    rfl
  · cases h

theorem isNormal_of_readWord {d n : Data} (h : readWord d = .ok n) : isNormal .word n := by
  unfold readWord at h
  split at h
  · split_ifs at h with hrange
    cases h
    simpa [isNormal] using hrange
  · cases h

theorem isNormal_of_readChoice {fmt : Format} {names : List String} {d n : Data}
    (h : readChoice fmt names d = .ok n) : isNormal (.choice names) n := by
  unfold readChoice at h
  split at h
  next s =>
    split_ifs at h with hs
    cases h
    exact hs
  next key d rest =>
    split at h
    · cases h
    · split at h
      · cases h
      next hkey =>
        have hmem : names.contains key := by simpa using hkey
        split at h
        · cases h
        · split_ifs at h
          cases h
          exact hmem
  next => cases h

theorem isNormal_optional {shape : Shape} {d : Data} (h : isNormal shape d) :
    isNormal (.optional shape) d := by
  cases d with
  | null => rfl
  | _ => simpa only [isNormal] using h

mutual

/-- What is read is in normal form. -/
theorem isNormal_of_read (fmt : Format) :
    ∀ shape : Shape, shape.isWellFormed → ∀ d n, shape.read fmt d = .ok n → shape.isNormal n
  | .string, _, _, _, h => isNormal_of_readString h
  | .boolean, _, _, _, h => isNormal_of_readBoolean h
  | .word, _, _, _, h => isNormal_of_readWord h
  | .choice _, _, _, _, h => isNormal_of_readChoice h
  | .optional shape, hshape, d, n, h => by
    rw [read] at h
    unfold readOptional at h
    split at h
    · cases h
      rfl
    · exact isNormal_optional (isNormal_of_read fmt shape hshape d n h)
  | .list shape, hshape, d, n, h => by
    rw [read] at h
    unfold readList at h
    split at h
    · obtain ⟨ns, hns, rfl⟩ := map_eq_ok_iff.mp h
      refine List.all_eq_true.mpr fun m hm => ?_
      obtain ⟨item, hitem⟩ := mem_of_mapM hns hm
      exact isNormal_of_read fmt shape hshape item m hitem
    · cases h
  | .record name strict fields, hshape, d, n, h => by
    rw [isWellFormed, Bool.and_eq_true, decide_eq_true_eq] at hshape
    rw [read] at h
    obtain ⟨values, rfl, hvalues⟩ :=
      gives_of_readRecord (by rw [names_fieldReaders]; exact hshape.1) h
    exact areNormal_of_gives fmt fields hshape.2 values hvalues

theorem areNormal_of_gives (fmt : Format) :
    ∀ fields, areWellFormed fields → ∀ values,
      List.Forall₂ FieldReader.Gives (fieldReaders fmt fields) values →
      areNormal fields (values.map fun (key, d) => (some key, d))
  | [], _, _, .nil => rfl
  | (name, shape, default?) :: fields, hfields, (_, v) :: values, .cons ⟨rfl, hv⟩ hvalues => by
    simp only [areWellFormed, Bool.and_eq_true] at hfields
    obtain ⟨⟨hshape, hdefault⟩, hfields⟩ := hfields
    have hnormal : isNormal shape v := by
      rcases hv with ⟨d, hd⟩ | hd
      · exact isNormal_of_read fmt shape hshape d v hd
      · obtain rfl : default? = some v := hd
        exact hdefault
    have hrest := areNormal_of_gives fmt fields hfields values hvalues
    simp [areNormal, hnormal, hrest]

end

/-! ## Looking up a field -/

theorem lookup_of_areNormal {fields : List (String × Shape × Option Data)}
    {entries : List (Option String × Data)} (h : areNormal fields entries) {key : String}
    {shape : Shape} {default? : Option Data} (hfield : fields.lookup key = some (shape, default?)) :
    ∃ v, entries.lookup (some key) = some v ∧ shape.isNormal v := by
  induction fields generalizing entries with
  | nil => nomatch hfield
  | cons field fields ih =>
    obtain ⟨name, s, d?⟩ := field
    cases entries with
    | nil => nomatch h
    | cons e entries =>
      obtain ⟨k, d⟩ := e
      simp only [areNormal, Bool.and_eq_true, beq_iff_eq] at h
      obtain ⟨⟨rfl, hd⟩, hrest⟩ := h
      by_cases hkey : key = name
      · subst hkey
        rw [List.lookup_cons_self] at hfield
        cases hfield
        exact ⟨d, List.lookup_cons_self, hd⟩
      · have hne : (some key == some name) = false := by simpa using hkey
        rw [List.lookup_cons, beq_false_of_ne hkey] at hfield
        rw [List.lookup_cons, hne]
        exact ih hrest hfield

end Shape

namespace Data

/-- Data with a value of the shape at the key. -/
def HasAt (d : Data) (key : String) (shape : Shape) : Prop :=
  ∃ v, d.lookup? key = some v ∧ shape.isNormal v

variable {d : Data} {key : String} {shape : Shape}

theorem HasAt.numberAt_lt (h : d.HasAt key .word) : d.numberAt key < 0x100000000 := by
  obtain ⟨v, hv, hn⟩ := h
  rw [numberAt, hv]
  cases v with
  | integer n =>
    simp only [Shape.isNormal, Bool.and_eq_true, decide_eq_true_eq] at hn
    show n.toNat < 0x100000000
    omega
  | _ => nomatch hn

theorem HasAt.recordAt (h : d.HasAt key shape) : shape.isNormal (d.recordAt key) := by
  obtain ⟨v, hv, hn⟩ := h
  rw [Data.recordAt, hv]
  exact hn

theorem HasAt.itemsAt (h : d.HasAt key (.list shape)) :
    ∀ item ∈ d.itemsAt key, shape.isNormal item := by
  obtain ⟨v, hv, hn⟩ := h
  rw [Data.itemsAt, hv]
  cases v with
  | sequence items => exact List.all_eq_true.mp hn
  | _ => nomatch hn

end Data

theorem hasAt_of_isNormal {name : String} {strict : Bool}
    {fields : List (String × Shape × Option Data)} {d : Data}
    (h : (Shape.record name strict fields).isNormal d) {key : String} {shape : Shape}
    {default? : Option Data} (hfield : fields.lookup key = some (shape, default?)) :
    d.HasAt key shape := by
  cases d with
  | map entries => exact Shape.lookup_of_areNormal h hfield
  | _ => nomatch h

end FaultTolerance.Wire
