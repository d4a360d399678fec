import FaultTolerance.Proofs.Naming.Erasure

/-! Descriptors by the grammar of the Java virtual machine, as trees that are written without separators.
No two trees are written alike, with whatever behind them (`FieldType.chars_append_inj`,
`MethodType.chars_injective`), and a descriptor is the writing of the tree that has the method's erased
types for names; so it tells just these (`descriptor_decodable`). -/
namespace FaultTolerance.Java.Descriptor
open Naming Fallback
set_option autoImplicit false

/-! ## The grammar -/

inductive Primitive where
  | boolean | byte | char | short | int | long | float | double
  deriving DecidableEq

namespace Primitive

def letter : Primitive → Char
  | boolean => 'Z'
  | byte => 'B'
  | char => 'C'
  | short => 'S'
  | int => 'I'
  | long => 'J'
  | float => 'F'
  | double => 'D'

def name : Primitive → String
  | boolean => "boolean"
  | byte => "byte"
  | char => "char"
  | short => "short"
  | int => "int"
  | long => "long"
  | float => "float"
  | double => "double"

theorem letter_injective {p q : Primitive} (h : p.letter = q.letter) : p = q := by
  cases p <;> cases q <;> first | rfl | exact absurd h (by decide)

theorem letter_ne (p : Primitive) : p.letter ≠ 'L' ∧ p.letter ≠ '[' ∧ p.letter ≠ ')' ∧ p.letter ≠ 'V' := by
  cases p <;> decide

theorem of_letter? {base : String} {c : Char} (h : letter? base = some c) (hvoid : base ≠ "void") :
    ∃ p : Primitive, p.letter = c ∧ p.name = base := by
  unfold letter? at h
  split at h
  · exact absurd rfl hvoid
  · exact ⟨boolean, Option.some.inj h, rfl⟩
  · exact ⟨byte, Option.some.inj h, rfl⟩
  · exact ⟨char, Option.some.inj h, rfl⟩
  · exact ⟨short, Option.some.inj h, rfl⟩
  · exact ⟨int, Option.some.inj h, rfl⟩
  · exact ⟨long, Option.some.inj h, rfl⟩
  · exact ⟨float, Option.some.inj h, rfl⟩
  · exact ⟨double, Option.some.inj h, rfl⟩
  · cases h

end Primitive

/-- The segments of a binary class name, none of which has a character that the grammar gives a meaning. -/
structure ClassName where
  segments : List (List Char)
  ne_nil : segments ≠ []
  unqualified : ∀ s ∈ segments, s ≠ [] ∧ ∀ c ∈ s, c ≠ '.' ∧ c ≠ ';' ∧ c ≠ '[' ∧ c ≠ '/'

inductive FieldType where
  | primitive (p : Primitive)
  | object (name : ClassName)
  | array (component : FieldType)

structure MethodType where
  parameters : List FieldType
  /-- Nothing where the method is `void`. -/
  result : Option FieldType

def FieldType.chars : FieldType → List Char
  | primitive p => [p.letter]
  | object name => 'L' :: (['/'].intercalate name.segments ++ [';'])
  | array component => '[' :: component.chars

def MethodType.resultChars : Option FieldType → List Char
  | none => ['V']
  | some t => t.chars

def MethodType.chars (t : MethodType) : List Char :=
  '(' :: (t.parameters.flatMap FieldType.chars ++ ')' :: resultChars t.result)

/-- The type as a source would name it. -/
def FieldType.name : FieldType → List Char
  | primitive p => p.name.toList
  | object name => ['.'].intercalate name.segments
  | array component => component.name ++ ['[', ']']

def MethodType.resultName : Option FieldType → List Char
  | none => "void".toList
  | some t => t.name

/-! ## Reading a descriptor back -/

theorem notMem_intercalate {c : Char} {sep : List Char} {parts : List (List Char)} (hsep : c ∉ sep)
    (h : ∀ part ∈ parts, c ∉ part) : c ∉ sep.intercalate parts := by
  induction parts with
  | nil => simp
  | cons part parts ih =>
    obtain ⟨hpart, hparts⟩ := List.forall_mem_cons.mp h
    cases parts with
    | nil => simpa using hpart
    | cons next parts =>
      rw [List.intercalate_cons_cons, List.mem_append, List.mem_append]
      rintro ((hmem | hmem) | hmem)
      · exact hpart hmem
      · exact hsep hmem
      · exact ih hparts hmem

namespace ClassName

theorem ext_segments {a b : ClassName} (h : a.segments = b.segments) : a = b := by
  cases a
  cases b
  cases h
  rfl

theorem semicolon_notMem (name : ClassName) : ';' ∉ ['/'].intercalate name.segments :=
  notMem_intercalate (by decide) fun s hs hmem => (((name.unqualified s hs).2 _ hmem).2.1) rfl

theorem joined_injective {a b : ClassName}
    (h : ['/'].intercalate a.segments = ['/'].intercalate b.segments) : a = b := by
  have hslash : ∀ name : ClassName, ∀ s ∈ name.segments, '/' ∉ s :=
    fun name s hs hmem => ((name.unqualified s hs).2 _ hmem).2.2.2 rfl
  have ha := List.splitOn_intercalate '/' (hslash a) a.ne_nil
  have hb := List.splitOn_intercalate '/' (hslash b) b.ne_nil
  rw [h, hb] at ha
  exact ext_segments ha.symm

end ClassName

namespace FieldType
variable {t t' : FieldType} {rest rest' : List Char}

theorem chars_append_inj (h : t.chars ++ rest = t'.chars ++ rest') : t = t' ∧ rest = rest' := by
  -- the first character tells which production is read, and the end of each is in what follows
  induction t generalizing t' with
  | primitive p =>
    have hp := p.letter_ne
    cases t' with
    | primitive q =>
      obtain ⟨hletter, hrest⟩ := List.cons_eq_cons.mp h
      exact ⟨congrArg primitive (Primitive.letter_injective hletter), hrest⟩
    | object name => exact absurd (List.cons_eq_cons.mp h).1 hp.1
    | array component => exact absurd (List.cons_eq_cons.mp h).1 hp.2.1
  | object name =>
    cases t' with
    | primitive q => exact absurd (List.cons_eq_cons.mp h).1.symm q.letter_ne.1
    | object name' =>
      simp only [chars, List.cons_append, List.append_assoc, List.nil_append] at h
      obtain ⟨hname, hrest⟩ := append_cons_inj name.semicolon_notMem name'.semicolon_notMem
        (List.cons_eq_cons.mp h).2
      exact ⟨congrArg object (ClassName.joined_injective hname), hrest⟩
    | array component => exact absurd (List.cons_eq_cons.mp h).1 (by decide)
  | array component ih =>
    cases t' with
    | primitive q => exact absurd (List.cons_eq_cons.mp h).1.symm q.letter_ne.2.1
    | object name => exact absurd (List.cons_eq_cons.mp h).1 (by decide)
    | array component' =>
      obtain ⟨hcomponent, hrest⟩ := ih (List.cons_eq_cons.mp h).2
      exact ⟨congrArg array hcomponent, hrest⟩

theorem chars_append_ne_paren (t : FieldType) (rest rest' : List Char) :
    t.chars ++ rest ≠ ')' :: rest' := by
  intro h
  cases t with
  | primitive p => exact p.letter_ne.2.2.1 (List.cons_eq_cons.mp h).1
  | object name => exact absurd (List.cons_eq_cons.mp h).1 (by decide)
  | array component => exact absurd (List.cons_eq_cons.mp h).1 (by decide)

theorem chars_ne_void (t : FieldType) : t.chars ≠ ['V'] := by
  intro h
  cases t with
  | primitive p => exact p.letter_ne.2.2.2 (List.cons_eq_cons.mp h).1
  | object name => exact absurd (List.cons_eq_cons.mp h).1 (by decide)
  | array component => exact absurd (List.cons_eq_cons.mp h).1 (by decide)

theorem flatMap_chars_inj {ts ts' : List FieldType}
    (h : ts.flatMap chars ++ ')' :: rest = ts'.flatMap chars ++ ')' :: rest') : ts = ts' ∧ rest = rest' := by
  induction ts generalizing ts' with
  | nil =>
    cases ts' with
    | nil => exact ⟨rfl, (List.cons_eq_cons.mp h).2⟩
    | cons t' ts' =>
      rw [List.flatMap_cons, List.append_assoc] at h
      exact absurd h.symm (t'.chars_append_ne_paren _ _)
  | cons t ts ih =>
    rw [List.flatMap_cons, List.append_assoc] at h
    cases ts' with
    | nil => exact absurd h (t.chars_append_ne_paren _ _)
    | cons t' ts' =>
      rw [List.flatMap_cons, List.append_assoc] at h
      obtain ⟨rfl, htail⟩ := chars_append_inj h
      obtain ⟨rfl, hrest⟩ := ih htail
      exact ⟨rfl, hrest⟩

end FieldType

theorem MethodType.resultChars_injective {r r' : Option FieldType} (h : resultChars r = resultChars r') :
    r = r' := by
  cases r with
  | none =>
    cases r' with
    | none => rfl
    | some t' => exact absurd h.symm t'.chars_ne_void
  | some t =>
    cases r' with
    | none => exact absurd h t.chars_ne_void
    | some t' =>
      have hchars : t.chars ++ [] = t'.chars ++ [] := congrArg (· ++ []) h
      rw [(FieldType.chars_append_inj hchars).1]

theorem MethodType.chars_injective {t t' : MethodType} (h : t.chars = t'.chars) : t = t' := by
  obtain ⟨parameters, result⟩ := t
  obtain ⟨parameters', result'⟩ := t'
  obtain ⟨hparameters, hresult⟩ := FieldType.flatMap_chars_inj (List.cons_eq_cons.mp h).2
  obtain rfl : parameters = parameters' := hparameters
  obtain rfl : result = result' := resultChars_injective hresult
  rfl

/-! ## The tree of a descriptor -/

/-- Whether a text is a name of segments that are separated by points. -/
def IsQualified (base : List Char) : Prop :=
  ∃ segments : List (List Char), segments ≠ [] ∧ base = ['.'].intercalate segments ∧
    ∀ s ∈ segments, s ≠ [] ∧ ∀ c ∈ s, c ≠ '.' ∧ c ≠ ';' ∧ c ≠ '/' ∧ c ≠ '[' ∧ c ≠ ']'

theorem isQualified_iff {base : List Char} :
    IsQualified base ↔ ∀ s ∈ base.splitOn '.', s ≠ [] ∧
      ∀ c ∈ s, c ≠ '.' ∧ c ≠ ';' ∧ c ≠ '/' ∧ c ≠ '[' ∧ c ≠ ']' := by
  constructor
  · rintro ⟨segments, hne, rfl, hsegments⟩
    have hdots : ∀ s ∈ segments, '.' ∉ s := fun s hs hmem => ((hsegments s hs).2 _ hmem).1 rfl
    rwa [List.splitOn_intercalate '.' hdots hne]
  · intro h
    exact ⟨base.splitOn '.', List.splitOn_ne_nil _ _, (List.intercalate_splitOn '.').symm, h⟩

instance (base : List Char) : Decidable (IsQualified base) :=
  decidable_of_iff ((base.splitOn '.').all fun s => s ≠ [] ∧
      s.all fun c => c ≠ '.' ∧ c ≠ ';' ∧ c ≠ '/' ∧ c ≠ '[' ∧ c ≠ ']') <| by
    simp [isQualified_iff]

/-- Whether a type erases to the name of a primitive or a class, with dimensions behind it. -/
def IsValueType (type : String) : Prop :=
  ∃ base n, IsQualified base ∧ base ≠ "void".toList ∧ eraseChars type.toList = base ++ dimensions n

/-- A method with types that a descriptor can name. -/
structure Describable (m : Method) : Prop where
  parameterTypes : ∀ type ∈ m.parameterTypes, IsValueType type
  returnType : IsValueType m.returnType ∨ erase m.returnType = "void"

theorem map_intercalate_slash {segments : List (List Char)} (h : ∀ s ∈ segments, '.' ∉ s) :
    (['.'].intercalate segments).map (fun c => if c = '.' then '/' else c) =
      ['/'].intercalate segments := by
  induction segments with
  | nil => rfl
  | cons s segments ih =>
    obtain ⟨hs, hsegments⟩ := List.forall_mem_cons.mp h
    have hkept : s.map (fun c => if c = '.' then '/' else c) = s := by
      conv_rhs => rw [← List.map_id s]
      refine List.map_congr_left fun c hc => ?_
      have hne : c ≠ '.' := by
        rintro rfl
        exact hs hc
      rw [if_neg hne, id]
    cases segments with
    | nil => simpa using hkept
    | cons next segments =>
      rw [List.intercalate_cons_cons, List.intercalate_cons_cons, List.map_append, List.map_append,
        hkept, ih hsegments]
      rfl

theorem exists_base {base : List Char} (h : IsQualified base) (hvoid : base ≠ "void".toList) :
    ∃ t : FieldType, t.chars = ofBase base ∧ t.name = base := by
  unfold ofBase
  split
  · rename_i c hletter
    have hname : String.ofList base ≠ "void" := by
      intro hname
      exact hvoid (by rw [← hname, String.toList_ofList])
    obtain ⟨p, rfl, hp⟩ := Primitive.of_letter? hletter hname
    refine ⟨.primitive p, rfl, ?_⟩
    rw [FieldType.name, hp, String.toList_ofList]
  · obtain ⟨segments, hne, rfl, hsegments⟩ := h
    have hdots : ∀ s ∈ segments, '.' ∉ s := fun s hs hmem => ((hsegments s hs).2 _ hmem).1 rfl
    refine ⟨.object ⟨segments, hne, ?_⟩, ?_, rfl⟩
    · intro s hs
      refine ⟨(hsegments s hs).1, fun c hc => ?_⟩
      obtain ⟨hdot, hsemicolon, hslash, hopen, -⟩ := (hsegments s hs).2 c hc
      exact ⟨hdot, hsemicolon, hopen, hslash⟩
    · rw [map_intercalate_slash hdots]
      rfl

theorem dimensions_add (n k : Nat) : dimensions (n + k) = dimensions n ++ dimensions k := by
  induction n with
  | zero => rw [Nat.zero_add, dimensions, List.nil_append]
  | succ n ih => rw [Nat.succ_add, dimensions, dimensions, ih, List.cons_append, List.cons_append]

theorem dimensions_succ (n : Nat) : dimensions (n + 1) = dimensions n ++ ['[', ']'] := dimensions_add n 1

theorem exists_array (t : FieldType) (n : Nat) :
    ∃ a : FieldType, a.chars = List.replicate n '[' ++ t.chars ∧ a.name = t.name ++ dimensions n := by
  induction n with
  | zero => exact ⟨t, rfl, (List.append_nil _).symm⟩
  | succ n ih =>
    obtain ⟨a, hchars, hname⟩ := ih
    refine ⟨.array a, ?_, ?_⟩
    · rw [FieldType.chars, hchars]
      rfl
    · rw [FieldType.name, hname, dimensions_succ, List.append_assoc]

theorem exists_fieldType {type : String} (h : IsValueType type) :
    ∃ t : FieldType, t.chars = ofTypeChars type.toList ∧ t.name = eraseChars type.toList := by
  obtain ⟨base, n, hbase, hvoid, herased⟩ := h
  have hopen : '[' ∉ base := by
    obtain ⟨segments, -, rfl, hsegments⟩ := hbase
    exact notMem_intercalate (by decide) fun s hs hmem => ((hsegments s hs).2 _ hmem).2.2.2.1 rfl
  obtain ⟨t, hchars, hname⟩ := exists_base hbase hvoid
  obtain ⟨a, hachars, haname⟩ := exists_array t n
  refine ⟨a, ?_, ?_⟩
  · rw [ofTypeChars, herased,
      splitDimensions_append (fun hdims => hopen (hdims.subset List.mem_cons_self)), hachars, hchars]
  · rw [haname, hname, herased]

theorem exists_parameters {types : List String} (h : ∀ type ∈ types, IsValueType type) :
    ∃ ts : List FieldType, ts.flatMap FieldType.chars = types.flatMap (fun p => ofTypeChars p.toList) ∧
      ts.map FieldType.name = types.map fun p => eraseChars p.toList := by
  induction types with
  | nil => exact ⟨[], rfl, rfl⟩
  | cons type types ih =>
    obtain ⟨htype, htypes⟩ := List.forall_mem_cons.mp h
    obtain ⟨t, hchars, hname⟩ := exists_fieldType htype
    obtain ⟨ts, hall, hnames⟩ := ih htypes
    refine ⟨t :: ts, ?_, ?_⟩
    · rw [List.flatMap_cons, List.flatMap_cons, hchars, hall]
    · rw [List.map_cons, List.map_cons, hname, hnames]

theorem exists_result {type : String} (h : IsValueType type ∨ erase type = "void") :
    ∃ r : Option FieldType, MethodType.resultChars r = ofTypeChars type.toList ∧
      MethodType.resultName r = eraseChars type.toList := by
  rcases h with h | h
  · obtain ⟨t, hchars, hname⟩ := exists_fieldType h
    exact ⟨some t, hchars, hname⟩
  · have herased : eraseChars type.toList = "void".toList := by
      rw [← h, erase, String.toList_ofList]
    refine ⟨none, ?_, herased.symm⟩
    rw [ofTypeChars, herased]
    decide

section
variable {m m' : Method}

/-- The tree that a descriptor is written from, with the erased types for names. -/
def IsTreeOf (t : MethodType) (m : Method) : Prop :=
  t.chars = m.typesDescriptor.toList ∧
    t.parameters.map FieldType.name = m.parameterTypes.map (fun p => (erase p).toList) ∧
    MethodType.resultName t.result = (erase m.returnType).toList

theorem exists_tree (hm : Describable m) : ∃ t, IsTreeOf t m := by
  obtain ⟨parameters, hparameters, hnames⟩ := exists_parameters hm.parameterTypes
  obtain ⟨result, hresult, hname⟩ := exists_result hm.returnType
  refine ⟨⟨parameters, result⟩, ?_, ?_, ?_⟩
  · rw [Method.typesDescriptor, ofMethod, String.toList_ofList, MethodType.chars, hparameters, hresult]
    rfl
  · simpa only [erase, String.toList_ofList] using hnames
  · simpa only [erase, String.toList_ofList] using hname

theorem erased_eq_of_descriptor_eq (hm : Describable m) (hm' : Describable m')
    (h : m.typesDescriptor = m'.typesDescriptor) :
    m.parameterTypes.map erase = m'.parameterTypes.map erase ∧
      erase m.returnType = erase m'.returnType := by
  obtain ⟨t, hchars, hnames, hname⟩ := exists_tree hm
  obtain ⟨t', hchars', hnames', hname'⟩ := exists_tree hm'
  obtain rfl : t = t' := MethodType.chars_injective (by rw [hchars, hchars', h])
  constructor
  · have hlists := hnames.symm.trans hnames'
    refine List.map_injective_iff.mpr (fun _ _ => String.toList_inj.mp) ?_
    rw [List.map_map, List.map_map]
    exact hlists
  · exact String.toList_inj.mp (hname.symm.trans hname')

theorem sameErasure_of_map_eq (hparameters : m.parameterTypes.map erase = m'.parameterTypes.map erase)
    (hreturn : erase m.returnType = erase m'.returnType) : SameErasure m m' where
  returnType := hreturn
  parameterTypes := by
    rwa [← List.forall₂_eq_eq_eq, List.forall₂_map_left_iff, List.forall₂_map_right_iff] at hparameters

end

/-- A descriptor that comes from types is read by the grammar in one way only, and what is read are the
erased parameter types and the erased return type. So methods have one descriptor just where these are the
same, and overloads that differ in them have different signatures, unless a host states other
descriptors. -/
theorem descriptor_decodable (m : Method) (hm : Describable m) :
    (∃ t, IsTreeOf t m ∧ ∀ t' : MethodType, t'.chars = m.typesDescriptor.toList → t' = t) ∧
    ∀ m' : Method, Describable m' →
      (m.typesDescriptor = m'.typesDescriptor ↔
        m.parameterTypes.map erase = m'.parameterTypes.map erase ∧
          erase m.returnType = erase m'.returnType) ∧
      (m.descriptor = m.typesDescriptor → m'.descriptor = m'.typesDescriptor → m.name = m'.name →
        ¬(m.parameterTypes.map erase = m'.parameterTypes.map erase ∧
          erase m.returnType = erase m'.returnType) →
        m.signature ≠ m'.signature) := by
  constructor
  · obtain ⟨t, ht⟩ := exists_tree hm
    exact ⟨t, ht, fun t' ht' => MethodType.chars_injective (ht'.trans ht.1.symm)⟩
  · intro m' hm'
    refine ⟨⟨erased_eq_of_descriptor_eq hm hm', ?_⟩, ?_⟩
    · rintro ⟨hparameters, hreturn⟩
      exact (sameErasure_of_map_eq hparameters hreturn).typesDescriptor
    · intro hown hown' hname hdiffer hsignature
      rw [Method.signature, Method.signature, hname, String.append_right_inj, hown, hown'] at hsignature
      exact hdiffer (erased_eq_of_descriptor_eq hm hm' hsignature)

def query : Method where
  name := "query"
  returnType := "java.util.concurrent.CompletionStage<java.lang.String>"
  parameterTypes := ["java.lang.String", "long", "int..."]

def queryAll : Method where
  name := "query"
  returnType := "void"
  parameterTypes := ["java.lang.String[]", "long [ ] [ ]"]

theorem describable_query : Describable query where
  parameterTypes := by
    simp only [query, List.forall_mem_cons]
    exact ⟨⟨"java.lang.String".toList, 0, by decide, by decide, by decide⟩,
      ⟨"long".toList, 0, by decide, by decide, by decide⟩,
      ⟨"int".toList, 1, by decide, by decide, by decide⟩, fun _ h => nomatch h⟩
  returnType := .inl
    ⟨"java.util.concurrent.CompletionStage".toList, 0, by decide, by decide, by decide⟩

theorem describable_queryAll : Describable queryAll where
  parameterTypes := by
    simp only [queryAll, List.forall_mem_cons]
    exact ⟨⟨"java.lang.String".toList, 1, by decide, by decide, by decide⟩,
      ⟨"long".toList, 2, by decide, by decide, by decide⟩, fun _ h => nomatch h⟩
  returnType := .inr (by decide)

theorem descriptor_decodable_query :
    query.descriptor =
      "(Ljava/lang/String;J[I)Ljava/util/concurrent/CompletionStage;" ∧
    (∃ t, IsTreeOf t query) ∧ query.descriptor ≠ queryAll.descriptor ∧
    query.signature ≠ queryAll.signature := by
  obtain ⟨⟨t, ht, -⟩, htold⟩ := descriptor_decodable query describable_query
  obtain ⟨hdescriptor, hsignature⟩ := htold queryAll describable_queryAll
  have hdiffer : ¬(query.parameterTypes.map erase = queryAll.parameterTypes.map erase ∧
      erase query.returnType = erase queryAll.returnType) := by decide
  exact ⟨by decide, ⟨t, ht⟩, fun h => hdiffer (hdescriptor.mp h), hsignature rfl rfl rfl hdiffer⟩

end FaultTolerance.Java.Descriptor
