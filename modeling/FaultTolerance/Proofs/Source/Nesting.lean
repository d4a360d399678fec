import FaultTolerance.Proofs.Source.Outline

/-! Where the types of a source stand. `Declares ts path t` says that `t` is one of the types `ts` or
stands inside one of them, `path` being the types around it. The names that a source declares are those
of these types (`mem_namesOfAll`), and the types it gives are their meanings (`mem_typesOfAll`). -/
namespace FaultTolerance.Java.Source
set_option autoImplicit false

namespace TypeSyntax

/-- The name as declared. -/
def simple : TypeSyntax → String
  | .mk _ _ name _ _ _ _ => name.text

/-- The names of the type parameters. -/
def parameters : TypeSyntax → List String
  | .mk _ _ _ typeParameters _ _ _ => typeParameters

def nested : TypeSyntax → List TypeSyntax
  | .mk _ _ _ _ _ _ nested => nested

end TypeSyntax

/-! ## Places -/

/-- Some types hold `t` at any depth. The types around it come along, the outermost first. -/
inductive Declares : List TypeSyntax → List TypeSyntax → TypeSyntax → Prop where
  | here {ts : List TypeSyntax} {t : TypeSyntax} (h : t ∈ ts) : Declares ts [] t
  | inside {ts path : List TypeSyntax} {u t : TypeSyntax} (h : u ∈ ts)
      (hin : Declares u.nested path t) : Declares ts (u :: path) t

theorem Declares.cons {ts path : List TypeSyntax} {t : TypeSyntax} (h : Declares ts path t)
    (u : TypeSyntax) : Declares (u :: ts) path t := by
  cases h with
  | here h => exact .here (List.mem_cons_of_mem u h)
  | inside h hin => exact .inside (List.mem_cons_of_mem u h) hin

/-- What stands among some types is the first of them, or stands inside it, or among the others. -/
theorem exists_declares_cons {P : List TypeSyntax → TypeSyntax → Prop} {t : TypeSyntax}
    {ts : List TypeSyntax} :
    (∃ path u, Declares (t :: ts) path u ∧ P path u) ↔
      (P [] t ∨ ∃ path u, Declares t.nested path u ∧ P (t :: path) u) ∨
        ∃ path u, Declares ts path u ∧ P path u := by
  constructor
  · rintro ⟨path, u, hdecl, hP⟩
    cases hdecl with
    | here h =>
      rcases List.mem_cons.mp h with rfl | h
      · exact .inl (.inl hP)
      · exact .inr ⟨[], u, .here h, hP⟩
    | inside h hin =>
      rcases List.mem_cons.mp h with rfl | h
      · exact .inl (.inr ⟨_, u, hin, hP⟩)
      · exact .inr ⟨_, u, .inside h hin, hP⟩
  · rintro ((hP | ⟨path, u, hin, hP⟩) | ⟨path, u, hdecl, hP⟩)
    · exact ⟨[], t, .here List.mem_cons_self, hP⟩
    · exact ⟨t :: path, u, .inside List.mem_cons_self hin, hP⟩
    · exact ⟨path, u, hdecl.cons t, hP⟩

theorem not_declares_nil {path : List TypeSyntax} {t : TypeSyntax} : ¬ Declares [] path t := by
  intro h
  cases h <;> contradiction

theorem qualify_ne_empty (outer : String) (separator : Char) {name : String} (hname : name ≠ "") :
    qualify outer separator name ≠ "" := by
  unfold qualify
  split
  · exact hname
  · intro h
    exact hname (String.append_eq_empty_iff.mp h).2

/-- The name that a type has inside `outer`, with a dollar sign between a type and one nested in it. -/
def qualifiedName (outer : String) (separator : Char) : List TypeSyntax → TypeSyntax → String
  | [], t => qualify outer separator t.simple
  | u :: path, t => qualifiedName (qualify outer separator u.simple) '$' path t

/-! ## Declared names -/

mutual

theorem mem_names {q n outer : String} {separator : Char} (t : TypeSyntax) :
    (q, n) ∈ t.names outer separator ↔
      (q = qualify outer separator t.simple ∧ n = t.simple) ∨
        ∃ path u, Declares t.nested path u ∧
          q = qualifiedName (qualify outer separator t.simple) '$' path u ∧ n = u.simple := by
  cases t with
  | mk kind annotations name typeParameters methods fields nested =>
    rw [TypeSyntax.names, List.mem_append, List.mem_singleton, mem_namesOfAll nested, Prod.mk.injEq]
    exact or_comm

theorem mem_namesOfAll {q n outer : String} {separator : Char} (ts : List TypeSyntax) :
    (q, n) ∈ namesOfAll outer separator ts ↔
      ∃ path t, Declares ts path t ∧ q = qualifiedName outer separator path t ∧ n = t.simple := by
  cases ts with
  | nil =>
    rw [namesOfAll]
    exact ⟨nofun, fun ⟨_, _, hdecl, _⟩ => absurd hdecl not_declares_nil⟩
  | cons t ts =>
    rw [namesOfAll, List.mem_append, mem_names t, mem_namesOfAll ts, exists_declares_cons]
    rfl

end

theorem mem_simpleNames {n outer : String} {separator : Char} {ts : List TypeSyntax} :
    n ∈ (namesOfAll outer separator ts).map Prod.snd ↔ ∃ path t, Declares ts path t ∧ t.simple = n := by
  constructor
  · intro h
    obtain ⟨⟨q, _⟩, hmem, rfl⟩ := List.mem_map.mp h
    obtain ⟨path, t, hdecl, _, hn⟩ := (mem_namesOfAll ts).mp hmem
    exact ⟨path, t, hdecl, hn.symm⟩
  · rintro ⟨path, t, hdecl, rfl⟩
    exact List.mem_map.mpr ⟨_, (mem_namesOfAll ts).mpr ⟨path, t, hdecl, rfl, rfl⟩, rfl⟩

/-! ## Meanings -/

namespace Setting

/-- The meaning of a type that stands inside `outer` with the types `path` around it. It sees their
type parameters and those in `typeVariables`. -/
def typeAt (s : Setting) (outer : String) (separator : Char) (typeVariables : List String)
    (path : List TypeSyntax) : TypeSyntax → JavaType
  | .mk kind annotations name typeParameters methods fields nested =>
    let typeVariables := typeVariables ++ (path.flatMap TypeSyntax.parameters ++ typeParameters)
    { name := qualifiedName outer separator path
        (.mk kind annotations name typeParameters methods fields nested)
      kind
      origin := s.origin
      annotations := annotations.map s.annotation
      methods := methods.map (s.method typeVariables)
      fields := fields.flatMap (s.fields typeVariables) }

theorem name_typeAt (s : Setting) (outer : String) (separator : Char) (typeVariables : List String)
    (path : List TypeSyntax) (t : TypeSyntax) :
    (s.typeAt outer separator typeVariables path t).name = qualifiedName outer separator path t := by
  cases t
  rfl

theorem typeAt_cons (s : Setting) (outer : String) (separator : Char) (typeVariables : List String)
    (u : TypeSyntax) (path : List TypeSyntax) (t : TypeSyntax) :
    s.typeAt outer separator typeVariables (u :: path) t =
      s.typeAt (qualify outer separator u.simple) '$' (typeVariables ++ u.parameters) path t := by
  cases t
  simp only [typeAt, qualifiedName, List.flatMap_cons, List.append_assoc]

theorem typesOf_eq_cons (s : Setting) (outer : String) (separator : Char)
    (typeVariables : List String) (t : TypeSyntax) :
    s.typesOf outer separator typeVariables t =
      s.typeAt outer separator typeVariables [] t ::
        s.typesOfAll (qualify outer separator t.simple) '$' (typeVariables ++ t.parameters)
          t.nested := by
  cases t
  rw [typesOf]
  rfl

mutual

theorem mem_typesOf {s : Setting} {outer : String} {separator : Char}
    {typeVariables : List String} {T : JavaType} (t : TypeSyntax) :
    T ∈ s.typesOf outer separator typeVariables t ↔
      T = s.typeAt outer separator typeVariables [] t ∨
        ∃ path u, Declares t.nested path u ∧
          T = s.typeAt outer separator typeVariables (t :: path) u := by
  cases t with
  | mk kind annotations name typeParameters methods fields nested =>
    rw [typesOf_eq_cons, List.mem_cons]
    simp only [typeAt_cons]
    exact or_congr Iff.rfl (mem_typesOfAll nested)

theorem mem_typesOfAll {s : Setting} {outer : String} {separator : Char}
    {typeVariables : List String} {T : JavaType} (ts : List TypeSyntax) :
    T ∈ s.typesOfAll outer separator typeVariables ts ↔
      ∃ path t, Declares ts path t ∧ T = s.typeAt outer separator typeVariables path t := by
  cases ts with
  | nil =>
    rw [typesOfAll]
    exact ⟨nofun, fun ⟨_, _, hdecl, _⟩ => absurd hdecl not_declares_nil⟩
  | cons t ts =>
    rw [typesOfAll, List.mem_append, mem_typesOf t, mem_typesOfAll ts, exists_declares_cons]

end
end Setting
end FaultTolerance.Java.Source
