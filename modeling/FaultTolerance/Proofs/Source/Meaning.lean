import FaultTolerance.Proofs.Source.Outline
import FaultTolerance.Proofs.Source.Annotations

/-! From types back to declarations. All types of a source have its origin (`origin_of_mem_toTypes`),
their annotations are those that the outline holds (`annotation_of_mem_typesOfAll`,
`exists_type_of_mem_outline`), and a member whose value is a string was written as one string token
(`argument_of_member?`). -/
namespace FaultTolerance.Java

/-- The annotations on a type and on its members. -/
def JavaType.allAnnotations (t : JavaType) : List Annotation :=
  t.annotations ++ (t.methods.flatMap (·.annotations) ++ t.fields.flatMap (·.annotations))

namespace Source
open Text
set_option autoImplicit false
namespace Setting

/-! ## Types -/

mutual

theorem origin_of_mem_typesOf {s : Setting} {outer : String} {separator : Char}
    {typeVariables : List String} {t : TypeSyntax} {T : JavaType}
    (h : T ∈ s.typesOf outer separator typeVariables t) : T.origin = s.origin := by
  cases t with
  | mk kind annotations name typeParameters methods fields nested =>
    rw [typesOf] at h
    rcases List.mem_cons.mp h with rfl | h
    · rfl
    · exact origin_of_mem_typesOfAll h

theorem origin_of_mem_typesOfAll {s : Setting} {outer : String} {separator : Char}
    {typeVariables : List String} {ts : List TypeSyntax} {T : JavaType}
    (h : T ∈ s.typesOfAll outer separator typeVariables ts) : T.origin = s.origin := by
  cases ts with
  | nil => cases h
  | cons t ts =>
    rw [typesOfAll] at h
    rcases List.mem_append.mp h with h | h
    · exact origin_of_mem_typesOf h
    · exact origin_of_mem_typesOfAll h

end

theorem annotation_of_mem_members {s : Setting} {typeVariables : List String}
    {methods : List MethodSyntax} {fields : List FieldSyntax} {a : Annotation}
    (h : a ∈ (methods.map (s.method typeVariables)).flatMap (·.annotations) ++
      (fields.flatMap (s.fields typeVariables)).flatMap (·.annotations)) :
    ∃ x ∈ methods.flatMap (·.annotations) ++ fields.flatMap (·.annotations), a = s.annotation x := by
  rcases List.mem_append.mp h with h | h
  · rw [List.flatMap_map] at h
    obtain ⟨m, hm, ha⟩ := List.mem_flatMap.mp h
    obtain ⟨x, hx, rfl⟩ := List.mem_map.mp ha
    exact ⟨x, List.mem_append_left _ (List.mem_flatMap.mpr ⟨m, hm, hx⟩), rfl⟩
  · obtain ⟨field, hfield, ha⟩ := List.mem_flatMap.mp h
    obtain ⟨f, hf, hname⟩ := List.mem_flatMap.mp hfield
    obtain ⟨name, _, rfl⟩ := List.mem_map.mp hname
    obtain ⟨x, hx, rfl⟩ := List.mem_map.mp ha
    exact ⟨x, List.mem_append_right _ (List.mem_flatMap.mpr ⟨f, hf, hx⟩), rfl⟩

mutual

theorem annotation_of_mem_typesOf {s : Setting} {outer : String} {separator : Char}
    {typeVariables : List String} {t : TypeSyntax} {T : JavaType} {a : Annotation}
    (h : T ∈ s.typesOf outer separator typeVariables t) (ha : a ∈ T.allAnnotations) :
    ∃ x ∈ t.allAnnotations, a = s.annotation x := by
  cases t with
  | mk kind annotations name typeParameters methods fields nested =>
    rw [typesOf] at h
    rw [TypeSyntax.allAnnotations]
    rcases List.mem_cons.mp h with rfl | h
    · rcases List.mem_append.mp ha with ha | ha
      · obtain ⟨x, hx, rfl⟩ := List.mem_map.mp ha
        exact ⟨x, List.mem_append_left _ hx, rfl⟩
      · obtain ⟨x, hx, rfl⟩ := annotation_of_mem_members ha
        exact ⟨x, List.mem_append_right _ (List.mem_append_left _ hx), rfl⟩
    · obtain ⟨x, hx, rfl⟩ := annotation_of_mem_typesOfAll h ha
      exact ⟨x, List.mem_append_right _ (List.mem_append_right _ hx), rfl⟩

theorem annotation_of_mem_typesOfAll {s : Setting} {outer : String} {separator : Char}
    {typeVariables : List String} {ts : List TypeSyntax} {T : JavaType} {a : Annotation}
    (h : T ∈ s.typesOfAll outer separator typeVariables ts) (ha : a ∈ T.allAnnotations) :
    ∃ x ∈ allAnnotationsOf ts, a = s.annotation x := by
  cases ts with
  | nil => cases h
  | cons t ts =>
    rw [typesOfAll] at h
    rw [allAnnotationsOf]
    rcases List.mem_append.mp h with h | h
    · obtain ⟨x, hx, rfl⟩ := annotation_of_mem_typesOf h ha
      exact ⟨x, List.mem_append_left _ hx, rfl⟩
    · obtain ⟨x, hx, rfl⟩ := annotation_of_mem_typesOfAll h ha
      exact ⟨x, List.mem_append_right _ hx, rfl⟩

end

theorem annotation_mem_members {s : Setting} {typeVariables : List String}
    {methods : List MethodSyntax} {fields : List FieldSyntax} {x : AnnotationSyntax}
    (hnames : ∀ f ∈ fields, f.names ≠ [])
    (h : x ∈ methods.flatMap (·.annotations) ++ fields.flatMap (·.annotations)) :
    s.annotation x ∈ (methods.map (s.method typeVariables)).flatMap (·.annotations) ++
      (fields.flatMap (s.fields typeVariables)).flatMap (·.annotations) := by
  rcases List.mem_append.mp h with h | h
  · obtain ⟨m, hm, hx⟩ := List.mem_flatMap.mp h
    refine List.mem_append_left _ (List.mem_flatMap.mpr ⟨_, List.mem_map_of_mem hm, ?_⟩)
    exact List.mem_map_of_mem hx
  · obtain ⟨f, hf, hx⟩ := List.mem_flatMap.mp h
    obtain ⟨name, hname⟩ := List.exists_mem_of_ne_nil f.names (hnames f hf)
    have hfield : _ ∈ s.fields typeVariables f := List.mem_map_of_mem hname
    have hfields := List.mem_flatMap.mpr ⟨f, hf, hfield⟩
    refine List.mem_append_right _ (List.mem_flatMap.mpr ⟨_, hfields, ?_⟩)
    exact List.mem_map_of_mem hx

mutual

theorem exists_type_of_mem_allAnnotations {s : Setting} {outer : String} {separator : Char}
    {typeVariables : List String} {t : TypeSyntax} {x : AnnotationSyntax}
    (hnames : ∀ f ∈ t.allFields, f.names ≠ []) (h : x ∈ t.allAnnotations) :
    ∃ T ∈ s.typesOf outer separator typeVariables t, s.annotation x ∈ T.allAnnotations := by
  cases t with
  | mk kind annotations name typeParameters methods fields nested =>
    rw [TypeSyntax.allFields, List.forall_mem_append] at hnames
    rw [typesOf]
    rcases List.mem_append.mp h with h | h
    · exact ⟨_, List.mem_cons_self, List.mem_append_left _ (List.mem_map_of_mem h)⟩
    · rcases List.mem_append.mp h with h | h
      · exact ⟨_, List.mem_cons_self,
          List.mem_append_right _ (annotation_mem_members hnames.1 h)⟩
      · obtain ⟨T, hT, ha⟩ := exists_type_of_mem_allAnnotationsOf hnames.2 h
        exact ⟨T, List.mem_cons_of_mem _ hT, ha⟩

theorem exists_type_of_mem_allAnnotationsOf {s : Setting} {outer : String} {separator : Char}
    {typeVariables : List String} {ts : List TypeSyntax} {x : AnnotationSyntax}
    (hnames : ∀ f ∈ allFieldsOf ts, f.names ≠ []) (h : x ∈ allAnnotationsOf ts) :
    ∃ T ∈ s.typesOfAll outer separator typeVariables ts, s.annotation x ∈ T.allAnnotations := by
  cases ts with
  | nil => cases h
  | cons t ts =>
    rw [allFieldsOf, List.forall_mem_append] at hnames
    rw [typesOfAll]
    rcases List.mem_append.mp h with h | h
    · obtain ⟨T, hT, ha⟩ := exists_type_of_mem_allAnnotations hnames.1 h
      exact ⟨T, List.mem_append_left _ hT, ha⟩
    · obtain ⟨T, hT, ha⟩ := exists_type_of_mem_allAnnotationsOf hnames.2 h
      exact ⟨T, List.mem_append_right _ hT, ha⟩

end

/-! ## Members of annotations -/

theorem formOfTree_eq_string {tree : Tree} {t : Token} (h : formOfTree tree = .string t) :
    tree = .leaf t ∧ t.kind = .string := by
  unfold formOfTree at h
  split at h
  · rename_i u
    split at h
    · rename_i hkind
      cases h
      exact ⟨rfl, hkind⟩
    · cases h
    · cases h
    · split_ifs at h
    · cases h
  · cases h

theorem formOfChain_ne_string {ts : List Tree} {t : Token} : formOfChain ts ≠ .string t := by
  unfold formOfChain
  split
  · split_ifs <;> exact nofun
  · exact nofun

theorem formOf_eq_string {ts : List Tree} {t : Token} (h : formOf ts = .string t) :
    ts = [.leaf t] ∧ t.kind = .string := by
  revert h
  fun_cases formOf ts with
  | case1 tree =>
    intro h
    obtain ⟨rfl, hkind⟩ := formOfTree_eq_string h
    exact ⟨rfl, hkind⟩
  | case3 => exact fun h => absurd h formOfChain_ne_string
  | case2 | case4 => exact nofun

theorem value_eq_string {s : Setting} {v : ValueSyntax} {text : String}
    (h : s.value v = .string text) :
    ∃ t : Token, v = .expression [.leaf t] ∧ t.kind = .string ∧
      text = .ofList (unquoted t.text.toList) := by
  cases v with
  | array group items =>
    rw [value] at h
    cases h
  | expression ts =>
    rw [value, expression] at h
    cases hform : formOf ts with
    | string t =>
      obtain ⟨rfl, hkind⟩ := formOf_eq_string hform
      rw [hform] at h
      exact ⟨t, rfl, hkind, (Value.string.inj h).symm⟩
    | _ =>
      rw [hform] at h
      cases h

theorem member?_eq_map_argument? (s : Setting) (a : AnnotationSyntax) (name : String) :
    (s.annotation a).member? name = (a.argument? name).map s.member := by
  unfold Annotation.member? AnnotationSyntax.argument? annotation
  rw [List.find?_map]
  rfl

theorem name_of_argument? {a : AnnotationSyntax} {name : String} {x : ArgumentSyntax}
    (h : a.argument? name = some x) : x.name = name := by
  unfold AnnotationSyntax.argument? at h
  have hfound := List.find?_some h
  exact beq_iff_eq.mp hfound

/-- A member with a string value is written as its name, an equals sign and the string, unless its
name may be left out. -/
theorem argument_of_member? {s : Setting} {a : AnnotationSyntax} {name text : String}
    {member : Member} (hname : name ≠ "value") (h : (s.annotation a).member? name = some member)
    (hvalue : member.value = .string text) :
    ∃ key t : Token, a.argument? name = some ⟨some key, .expression [.leaf t]⟩ ∧ key.text = name ∧
      t.kind = .string ∧ text = .ofList (unquoted t.text.toList) ∧
      member.range = some (s.table.range t.start t.stop) := by
  rw [member?_eq_map_argument?] at h
  obtain ⟨⟨key, value⟩, harg, rfl⟩ := Option.map_eq_some_iff.mp h
  obtain ⟨t, rfl, hkind, htext⟩ := value_eq_string hvalue
  have hargname := name_of_argument? harg
  cases key with
  | none => exact absurd hargname.symm hname
  | some key => exact ⟨key, t, harg, hargname, hkind, htext, rfl⟩

end Setting

/-! ## Sources -/

/-- Every annotation of a source's outline is one of the source's types or of their members. -/
theorem exists_type_of_mem_outline {cs text : List Char} {origin : Origin} {known : List String}
    {x : AnnotationSyntax} (h : x ∈ (Outline.ofSource cs).allAnnotations) :
    ∃ T ∈ (Outline.ofSource cs).toTypes text origin known,
      Setting.annotation ⟨.ofOutline known (.ofSource cs), .ofText text, origin⟩ x ∈
        T.allAnnotations := by
  refine Setting.exists_type_of_mem_allAnnotationsOf ?_ h
  intro f hf
  exact names_ne_nil_of_mem_membersWithin (List.mem_append_right _ hf)

theorem origin_of_mem_toTypes {o : Outline} {cs : List Char} {origin : Origin}
    {known : List String} {T : JavaType} (h : T ∈ o.toTypes cs origin known) : T.origin = origin :=
  Setting.origin_of_mem_typesOfAll h

end Source
end FaultTolerance.Java
