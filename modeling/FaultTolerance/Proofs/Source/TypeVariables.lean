import FaultTolerance.Proofs.Source.ElementTypes
import FaultTolerance.Proofs.Source.Nesting
import FaultTolerance.Proofs.Source.Uses

/-! Type variables. A type that is written as a variable in scope is `Object` with the dimensions it is
written with, before any table is asked (`NameScope.resolveType_of_mem`). `RenamedAt` is the renaming of one
variable in all that its declaration covers; it changes no meaning (`Setting.typesOfAll_renamed`). -/
namespace FaultTolerance.Java.Source
open Source.Tree Text Naming Descriptor
set_option autoImplicit false

/-! ## Types as written -/

namespace TypeSyntax

def methods : TypeSyntax → List MethodSyntax
  | .mk _ _ _ _ methods _ _ => methods

def fields : TypeSyntax → List FieldSyntax
  | .mk _ _ _ _ _ fields _ => fields

end TypeSyntax

/-- The type of a parameter as it is read, with the dimensions that stand apart from it. -/
def ParameterSyntax.typeText : ParameterSyntax → String
  | .fixed type n => Token.textOf type ++ .ofList (dimensions n)
  | .variable comment type => comment.getD (Token.textOf type) ++ "[]"

theorem Setting.parameterType_eq (s : Setting) (typeVariables : List String) (p : ParameterSyntax) :
    s.parameterType typeVariables p = s.names.resolveType typeVariables p.typeText := by
  cases p <;> rfl

/-- A word with dimensions, whatever white space stands between them, spells its text. -/
theorem spells_squares {w : Token} (hw : IsBareWord w) {n : Nat} {dims : List Tree}
    (hdims : AreSquares n dims) (k : Nat) :
    Spells (Token.textOf (w :: tokensOf dims) ++ .ofList (dimensions k)) w.text (n + k) := by
  rw [Spells, String.toList_append, String.toList_ofList, eraseChars,
    hdims.erasesTo.eraseArguments_textOf_dimensions hw, List.append_assoc, ← dimensions_add,
    varargsToArray_dimensions hw.endsInWord, hw.endsInWord.splitDimensions_append]

instance (written name : String) (n : Nat) : Decidable (Spells written name n) :=
  inferInstanceAs (Decidable (_ = _))

theorem not_spells {written name : String}
    (h : (splitDimensions (eraseChars written.toList)).1 ≠ name.toList) (n : Nat) :
    ¬ Spells written name n :=
  fun hspells => h (congrArg Prod.fst hspells)

theorem exists_spells (written : String) : ∃ name n, Spells written name n := by
  refine ⟨.ofList (splitDimensions (eraseChars written.toList)).1,
    (splitDimensions (eraseChars written.toList)).2, ?_⟩
  rw [Spells, String.toList_ofList]

theorem Spells.of_erase_eq {written written' name : String} {n : Nat} (h : Spells written name n)
    (herase : erase written = erase written') : Spells written' name n := by
  rw [Spells, ← eraseChars_eq_of_erase_eq herase]
  exact h

/-! ## Variables in scope -/

namespace NameScope
variable {s : NameScope} {typeVariables typeVariables' : List String} {written written' name : String}
  {n : Nat}

theorem resolveType_of_mem (hmem : name ∈ typeVariables) (h : Spells written name n) :
    s.resolveType typeVariables written = "java.lang.Object" ++ .ofList (dimensions n) := by
  have hcontains : typeVariables.contains name = true := List.contains_iff_mem.mpr hmem
  rw [resolveType, h]
  simp only [String.ofList_toList, hcontains, if_true]

/-- Scopes make a difference to a type only through the name that it is written with. -/
theorem resolveType_congr_variables (h : Spells written name n) (h' : Spells written' name n)
    (hmem : name ∈ typeVariables ↔ name ∈ typeVariables') :
    s.resolveType typeVariables written = s.resolveType typeVariables' written' := by
  by_cases hvariable : name ∈ typeVariables
  · rw [resolveType_of_mem hvariable h, resolveType_of_mem (hmem.mp hvariable) h']
  · rw [s.resolveType_of_spells hvariable h, s.resolveType_of_spells (mt hmem.mpr hvariable) h']

end NameScope

section
variable {s : Setting} {typeVariables : List String} {v : String} {n : Nat}

theorem Setting.returnType_of_mem {m : MethodSyntax} (hv : v ∈ typeVariables ++ m.typeParameters)
    (h : Spells (Token.textOf m.type) v n) :
    (s.method typeVariables m).returnType = "java.lang.Object" ++ .ofList (dimensions n) :=
  NameScope.resolveType_of_mem hv h

theorem Setting.parameterTypes_of_mem {m : MethodSyntax} (hv : v ∈ typeVariables ++ m.typeParameters)
    {i : Nat} {p : ParameterSyntax} (hp : m.parameters[i]? = some p) (h : Spells p.typeText v n) :
    (s.method typeVariables m).parameterTypes[i]? =
      some ("java.lang.Object" ++ .ofList (dimensions n)) := by
  rw [method, List.getElem?_map, hp, Option.map_some, parameterType_eq,
    NameScope.resolveType_of_mem hv h]

theorem Setting.fields_of_mem {f : FieldSyntax} (hv : v ∈ typeVariables)
    (h : Spells (Token.textOf f.type) v n) :
    ∀ x ∈ s.fields typeVariables f, x.type = "java.lang.Object" ++ .ofList (dimensions n) := by
  intro x hx
  obtain ⟨name, _, rfl⟩ := List.mem_map.mp hx
  exact NameScope.resolveType_of_mem hv h

end

/-! ## Renaming -/

section
variable (old new : String)

/-- A type as written before and after the renaming of a variable: the variable itself with dimensions, or
another type, which changes at most in its type arguments. The new name is none that is in use. -/
inductive TextRenamed : String → String → Prop where
  | variable {written written' : String} {n : Nat} (h : Spells written old n)
      (h' : Spells written' new n) : TextRenamed written written'
  | other {written written' : String} (h : erase written = erase written')
      (hold : ∀ n, ¬ Spells written old n) (hnew : ∀ n, ¬ Spells written new n) :
      TextRenamed written written'

/-- The types of a method in the scope of a renamed variable. -/
structure MethodRenamed (m m' : MethodSyntax) : Prop where
  annotations : m'.annotations = m.annotations
  name : m'.name = m.name
  type : TextRenamed old new (Token.textOf m.type) (Token.textOf m'.type)
  parameters : List.Forall₂ (fun p p' => TextRenamed old new p.typeText p'.typeText) m.parameters
    m'.parameters

structure FieldRenamed (f f' : FieldSyntax) : Prop where
  annotations : f'.annotations = f.annotations
  names : f'.names = f.names
  type : TextRenamed old new (Token.textOf f.type) (Token.textOf f'.type)

/-- No type of a method is written as `name`. -/
structure MethodAvoids (name : String) (m : MethodSyntax) : Prop where
  type : ∀ n, ¬ Spells (Token.textOf m.type) name n
  parameters : ∀ p ∈ m.parameters, ∀ n, ¬ Spells p.typeText name n

/-- No method or field in a type, at any depth, has a type that is written as `name`. -/
inductive Avoids (name : String) : TypeSyntax → Prop where
  | mk {kind : Kind} {annotations : List AnnotationSyntax} {token : Token}
      {typeParameters : List String} {methods : List MethodSyntax} {fields : List FieldSyntax}
      {nested : List TypeSyntax} (hmethods : ∀ m ∈ methods, MethodAvoids name m)
      (hfields : ∀ f ∈ fields, ∀ n, ¬ Spells (Token.textOf f.type) name n)
      (hnested : ∀ t ∈ nested, Avoids name t) :
      Avoids name (.mk kind annotations token typeParameters methods fields nested)

/-- A method inside a type that declares the variable. One that declares a variable of its own with the
same name is left as it is. -/
inductive MethodRenamedIn : MethodSyntax → MethodSyntax → Prop where
  | inside {m m' : MethodSyntax} (hparameters : m'.typeParameters = m.typeParameters)
      (hold : old ∉ m.typeParameters) (h : MethodRenamed old new m m') : MethodRenamedIn m m'
  | shadowed {m : MethodSyntax} (hold : old ∈ m.typeParameters) (hnew : MethodAvoids new m) :
      MethodRenamedIn m m

/-- A type nested in one that declares the variable. -/
inductive RenamedIn : TypeSyntax → TypeSyntax → Prop where
  | inside {kind : Kind} {annotations : List AnnotationSyntax} {name : Token}
      {typeParameters : List String} {methods methods' : List MethodSyntax}
      {fields fields' : List FieldSyntax} {nested nested' : List TypeSyntax}
      (hold : old ∉ typeParameters) (hmethods : List.Forall₂ (MethodRenamedIn old new) methods methods')
      (hfields : List.Forall₂ (FieldRenamed old new) fields fields')
      (hnested : List.Forall₂ RenamedIn nested nested') :
      RenamedIn (.mk kind annotations name typeParameters methods fields nested)
        (.mk kind annotations name typeParameters methods' fields' nested')
  | shadowed {t : TypeSyntax} (hold : old ∈ t.parameters) (hnew : Avoids new t) : RenamedIn t t

/-- Some types before and after the renaming of a variable that one of them declares, or a method of one,
or a type or a method nested in one. -/
inductive RenamedAt : List TypeSyntax → List TypeSyntax → Prop where
  | type {kind : Kind} {annotations : List AnnotationSyntax} {name : Token} {front back : List String}
      {methods methods' : List MethodSyntax} {fields fields' : List FieldSyntax}
      {nested nested' ts us : List TypeSyntax}
      (hmethods : List.Forall₂ (MethodRenamedIn old new) methods methods')
      (hfields : List.Forall₂ (FieldRenamed old new) fields fields')
      (hnested : List.Forall₂ (RenamedIn old new) nested nested') :
      RenamedAt
        (ts ++ .mk kind annotations name (front ++ old :: back) methods fields nested :: us)
        (ts ++ .mk kind annotations name (front ++ new :: back) methods' fields' nested' :: us)
  | method {kind : Kind} {annotations : List AnnotationSyntax} {name : Token}
      {typeParameters front back : List String} {methods methods' : List MethodSyntax}
      {m m' : MethodSyntax} {fields : List FieldSyntax} {nested ts us : List TypeSyntax}
      (hold : m.typeParameters = front ++ old :: back)
      (hnew : m'.typeParameters = front ++ new :: back) (h : MethodRenamed old new m m') :
      RenamedAt
        (ts ++ .mk kind annotations name typeParameters (methods ++ m :: methods') fields nested :: us)
        (ts ++ .mk kind annotations name typeParameters (methods ++ m' :: methods') fields nested :: us)
  | nested {kind : Kind} {annotations : List AnnotationSyntax} {name : Token}
      {typeParameters : List String} {methods : List MethodSyntax} {fields : List FieldSyntax}
      {nested nested' ts us : List TypeSyntax} (h : RenamedAt nested nested') :
      RenamedAt (ts ++ .mk kind annotations name typeParameters methods fields nested :: us)
        (ts ++ .mk kind annotations name typeParameters methods fields nested' :: us)

/-! ## The meaning of renamed types -/

/-- The variables in scope before and after a renaming. -/
structure Swapped (typeVariables typeVariables' : List String) : Prop where
  old_mem : old ∈ typeVariables
  new_mem : new ∈ typeVariables'
  others : ∀ v, v ≠ old → v ≠ new → (v ∈ typeVariables ↔ v ∈ typeVariables')

end

section
variable {old new : String} {s : Setting} {typeVariables typeVariables' : List String}

theorem Swapped.append (h : Swapped old new typeVariables typeVariables') (more : List String) :
    Swapped old new (typeVariables ++ more) (typeVariables' ++ more) where
  old_mem := List.mem_append_left more h.old_mem
  new_mem := List.mem_append_left more h.new_mem
  others v hold hnew := by
    rw [List.mem_append, List.mem_append, h.others v hold hnew]

theorem swapped_declared (typeVariables front back : List String) :
    Swapped old new (typeVariables ++ (front ++ old :: back)) (typeVariables ++ (front ++ new :: back)) where
  old_mem := by simp
  new_mem := by simp
  others v hold hnew := by simp [hold, hnew]

/-- Where a variable of the old name is declared once more, only the new name tells the scopes apart. -/
theorem Swapped.shadowed (h : Swapped old new typeVariables typeVariables') {more : List String}
    (hold : old ∈ more) {v : String} (hv : v ≠ new) :
    v ∈ typeVariables ++ more ↔ v ∈ typeVariables' ++ more := by
  by_cases heq : v = old
  · -- Both scopes have the old name now, and it means the inner variable.
    subst heq
    exact iff_of_true (List.mem_append_right _ hold) (List.mem_append_right _ hold)
  · rw [List.mem_append, List.mem_append, h.others v heq hv]

theorem resolveType_renamed {names : NameScope} {written written' : String}
    (h : TextRenamed old new written written') (hscope : Swapped old new typeVariables typeVariables') :
    names.resolveType typeVariables' written' = names.resolveType typeVariables written := by
  cases h with
  | «variable» h h' =>
    rw [NameScope.resolveType_of_mem hscope.old_mem h, NameScope.resolveType_of_mem hscope.new_mem h']
  | other h hold hnew =>
    obtain ⟨name, n, hspells⟩ := exists_spells written
    have hne : name ≠ old ∧ name ≠ new :=
      ⟨fun heq => hold n (heq ▸ hspells), fun heq => hnew n (heq ▸ hspells)⟩
    exact (NameScope.resolveType_congr_variables hspells (hspells.of_erase_eq h)
      (hscope.others name hne.1 hne.2)).symm

theorem resolveType_avoids {names : NameScope} {written : String} (h : ∀ n, ¬ Spells written new n)
    (hscope : ∀ v, v ≠ new → (v ∈ typeVariables ↔ v ∈ typeVariables')) :
    names.resolveType typeVariables' written = names.resolveType typeVariables written := by
  obtain ⟨name, n, hspells⟩ := exists_spells written
  have hne : name ≠ new := fun heq => h n (heq ▸ hspells)
  exact (NameScope.resolveType_congr_variables hspells hspells (hscope name hne)).symm

theorem map_eq_map_of_forall₂ {α β γ : Type} {R : α → β → Prop} {f : α → γ} {g : β → γ} {xs : List α}
    {ys : List β} (h : List.Forall₂ R xs ys) (heq : ∀ x y, R x y → g y = f x) : ys.map g = xs.map f := by
  have hmapped : List.Forall₂ (· = ·) (xs.map f) (ys.map g) :=
    List.rel_map (fun x y hxy => Eq.symm (heq x y hxy)) h
  rw [List.forall₂_eq_eq_eq] at hmapped
  exact Eq.symm hmapped

theorem append_scope (hscope : ∀ v, v ≠ new → (v ∈ typeVariables ↔ v ∈ typeVariables'))
    (more : List String) :
    ∀ v, v ≠ new → (v ∈ typeVariables ++ more ↔ v ∈ typeVariables' ++ more) := by
  intro v hv
  rw [List.mem_append, List.mem_append, hscope v hv]

namespace Setting

theorem method_renamed {m m' : MethodSyntax} (h : MethodRenamed old new m m')
    (hscope : Swapped old new (typeVariables ++ m.typeParameters)
      (typeVariables' ++ m'.typeParameters)) :
    s.method typeVariables' m' = s.method typeVariables m := by
  have hparameters : m'.parameters.map (s.parameterType (typeVariables' ++ m'.typeParameters)) =
      m.parameters.map (s.parameterType (typeVariables ++ m.typeParameters)) := by
    refine map_eq_map_of_forall₂ h.parameters fun p p' hp => ?_
    rw [parameterType_eq, parameterType_eq, resolveType_renamed hp hscope]
  simp only [method, h.name, h.annotations, resolveType_renamed h.type hscope, hparameters]

theorem method_avoids {m : MethodSyntax} (h : MethodAvoids new m)
    (hscope : ∀ v, v ≠ new →
      (v ∈ typeVariables ++ m.typeParameters ↔ v ∈ typeVariables' ++ m.typeParameters)) :
    s.method typeVariables' m = s.method typeVariables m := by
  have hparameters : m.parameters.map (s.parameterType (typeVariables' ++ m.typeParameters)) =
      m.parameters.map (s.parameterType (typeVariables ++ m.typeParameters)) := by
    refine List.map_congr_left fun p hp => ?_
    rw [parameterType_eq, parameterType_eq, resolveType_avoids (h.parameters p hp) hscope]
  simp only [method, resolveType_avoids h.type hscope, hparameters]

theorem method_renamedIn {m m' : MethodSyntax} (h : MethodRenamedIn old new m m')
    (hscope : Swapped old new typeVariables typeVariables') :
    s.method typeVariables' m' = s.method typeVariables m := by
  cases h with
  | inside hparameters _ h => exact method_renamed h (hparameters ▸ hscope.append _)
  | shadowed hold hnew => exact method_avoids hnew fun v hv => hscope.shadowed hold hv

theorem fields_renamed {f f' : FieldSyntax} (h : FieldRenamed old new f f')
    (hscope : Swapped old new typeVariables typeVariables') :
    s.fields typeVariables' f' = s.fields typeVariables f := by
  simp only [fields, h.names, h.annotations, resolveType_renamed h.type hscope]

theorem fields_avoids {f : FieldSyntax} (h : ∀ n, ¬ Spells (Token.textOf f.type) new n)
    (hscope : ∀ v, v ≠ new → (v ∈ typeVariables ↔ v ∈ typeVariables')) :
    s.fields typeVariables' f = s.fields typeVariables f := by
  simp only [fields, resolveType_avoids h hscope]

mutual

theorem typesOf_avoids {typeVariables typeVariables' : List String} {t : TypeSyntax} (h : Avoids new t)
    (hscope : ∀ v, v ≠ new →
      (v ∈ typeVariables ++ t.parameters ↔ v ∈ typeVariables' ++ t.parameters))
    (outer : String) (separator : Char) :
    s.typesOf outer separator typeVariables' t = s.typesOf outer separator typeVariables t := by
  cases h with
  | @mk kind annotations name typeParameters methods fields nested hmethods hfields hnested =>
    have hmethods' : methods.map (s.method (typeVariables' ++ typeParameters)) =
        methods.map (s.method (typeVariables ++ typeParameters)) :=
      List.map_congr_left fun m hm => method_avoids (hmethods m hm) (append_scope hscope _)
    have hfields' : fields.flatMap (s.fields (typeVariables' ++ typeParameters)) =
        fields.flatMap (s.fields (typeVariables ++ typeParameters)) := by
      have hall : fields.map (s.fields (typeVariables' ++ typeParameters)) =
          fields.map (s.fields (typeVariables ++ typeParameters)) :=
        List.map_congr_left fun f hf => fields_avoids (hfields f hf) hscope
      rw [List.flatMap_def, List.flatMap_def, hall]
    simp only [typesOf, hmethods', hfields']
    exact congrArg _ (typesOfAll_avoids hnested hscope _ _)

theorem typesOfAll_avoids {typeVariables typeVariables' : List String} {ts : List TypeSyntax}
    (h : ∀ t ∈ ts, Avoids new t)
    (hscope : ∀ v, v ≠ new → (v ∈ typeVariables ↔ v ∈ typeVariables')) (outer : String)
    (separator : Char) :
    s.typesOfAll outer separator typeVariables' ts = s.typesOfAll outer separator typeVariables ts := by
  cases ts with
  | nil => rfl
  | cons t ts =>
    obtain ⟨ht, hts⟩ := List.forall_mem_cons.mp h
    rw [typesOfAll, typesOfAll, typesOf_avoids ht (append_scope hscope _), typesOfAll_avoids hts hscope]

end

/-- A type whose members are renamed, given that the types nested in it mean what they did. -/
theorem typesOf_members {kind : Kind} {annotations : List AnnotationSyntax} {name : Token}
    {typeParameters typeParameters' : List String} {methods methods' : List MethodSyntax}
    {fields fields' : List FieldSyntax} {nested nested' : List TypeSyntax}
    (hscope : Swapped old new (typeVariables ++ typeParameters) (typeVariables' ++ typeParameters'))
    (hmethods : List.Forall₂ (MethodRenamedIn old new) methods methods')
    (hfields : List.Forall₂ (FieldRenamed old new) fields fields')
    (hnested : ∀ outer, s.typesOfAll outer '$' (typeVariables' ++ typeParameters') nested' =
      s.typesOfAll outer '$' (typeVariables ++ typeParameters) nested)
    (outer : String) (separator : Char) :
    s.typesOf outer separator typeVariables'
        (.mk kind annotations name typeParameters' methods' fields' nested') =
      s.typesOf outer separator typeVariables
        (.mk kind annotations name typeParameters methods fields nested) := by
  have hmethods' : methods'.map (s.method (typeVariables' ++ typeParameters')) =
      methods.map (s.method (typeVariables ++ typeParameters)) :=
    map_eq_map_of_forall₂ hmethods fun m m' hm => method_renamedIn hm hscope
  have hfields' : fields'.flatMap (s.fields (typeVariables' ++ typeParameters')) =
      fields.flatMap (s.fields (typeVariables ++ typeParameters)) := by
    rw [List.flatMap_def, List.flatMap_def,
      map_eq_map_of_forall₂ hfields fun f f' hf => fields_renamed hf hscope]
  simp only [typesOf, hmethods', hfields', hnested]

mutual

theorem typesOf_renamedIn {typeVariables typeVariables' : List String} {t t' : TypeSyntax}
    (h : RenamedIn old new t t') (hscope : Swapped old new typeVariables typeVariables')
    (outer : String) (separator : Char) :
    s.typesOf outer separator typeVariables' t' = s.typesOf outer separator typeVariables t := by
  cases h with
  | @inside kind annotations name typeParameters methods methods' fields fields' nested nested' _
      hmethods hfields hnested =>
    exact typesOf_members (hscope.append typeParameters) hmethods hfields
      (fun outer => typesOfAll_renamedIn hnested (hscope.append typeParameters) outer '$') outer separator
  | shadowed hold hnew => exact typesOf_avoids hnew (fun v hv => hscope.shadowed hold hv) outer separator

theorem typesOfAll_renamedIn {typeVariables typeVariables' : List String} {ts ts' : List TypeSyntax}
    (h : List.Forall₂ (RenamedIn old new) ts ts') (hscope : Swapped old new typeVariables typeVariables')
    (outer : String) (separator : Char) :
    s.typesOfAll outer separator typeVariables' ts' =
      s.typesOfAll outer separator typeVariables ts := by
  cases h with
  | nil => rfl
  | cons ht hts =>
    rw [typesOfAll, typesOfAll, typesOf_renamedIn ht hscope, typesOfAll_renamedIn hts hscope]

end

theorem typesOfAll_append (s : Setting) (outer : String) (separator : Char)
    (typeVariables : List String) (ts us : List TypeSyntax) :
    s.typesOfAll outer separator typeVariables (ts ++ us) =
      s.typesOfAll outer separator typeVariables ts ++ s.typesOfAll outer separator typeVariables us := by
  induction ts with
  | nil => rfl
  | cons t ts ih => rw [List.cons_append, typesOfAll, typesOfAll, ih, List.append_assoc]

theorem typesOfAll_around {outer : String} {separator : Char} {t t' : TypeSyntax}
    (h : s.typesOf outer separator typeVariables t' = s.typesOf outer separator typeVariables t)
    (ts us : List TypeSyntax) :
    s.typesOfAll outer separator typeVariables (ts ++ t' :: us) =
      s.typesOfAll outer separator typeVariables (ts ++ t :: us) := by
  rw [typesOfAll_append, typesOfAll_append, typesOfAll, typesOfAll, h]

/-- Renaming a type variable to a name that is not in use changes no meaning. -/
theorem typesOfAll_renamed {ts ts' : List TypeSyntax} (h : RenamedAt old new ts ts') (outer : String)
    (separator : Char) (typeVariables : List String) :
    s.typesOfAll outer separator typeVariables ts' = s.typesOfAll outer separator typeVariables ts := by
  -- Down to the declaration of the variable both have the same scope, from there on they are `Swapped`.
  induction h generalizing outer separator typeVariables with
  | @type kind annotations name front back methods methods' fields fields' nested nested' ts us hmethods
      hfields hnested =>
    have hscope : Swapped old new (typeVariables ++ (front ++ old :: back))
        (typeVariables ++ (front ++ new :: back)) := swapped_declared typeVariables front back
    exact typesOfAll_around (typesOf_members hscope hmethods hfields
      (fun outer => typesOfAll_renamedIn hnested hscope outer '$') outer separator) ts us
  | @method kind annotations name typeParameters front back methods methods' m m' fields nested ts us
      hold hnew h =>
    have hscope : Swapped old new (typeVariables ++ typeParameters ++ m.typeParameters)
        (typeVariables ++ typeParameters ++ m'.typeParameters) := by
      rw [hold, hnew]
      exact swapped_declared _ front back
    refine typesOfAll_around ?_ ts us
    simp only [typesOf, List.map_append, List.map_cons, method_renamed h hscope]
  | nested _ ih =>
    refine typesOfAll_around ?_ _ _
    simp only [typesOf, ih]

end Setting

/-! ## The names of renamed types -/

mutual

theorem names_renamedIn {t t' : TypeSyntax} (h : RenamedIn old new t t') (outer : String)
    (separator : Char) : t'.names outer separator = t.names outer separator := by
  cases h with
  | inside _ _ _ hnested => rw [TypeSyntax.names, TypeSyntax.names, namesOfAll_renamedIn hnested]
  | shadowed => rfl

theorem namesOfAll_renamedIn {ts ts' : List TypeSyntax} (h : List.Forall₂ (RenamedIn old new) ts ts')
    (outer : String) (separator : Char) :
    namesOfAll outer separator ts' = namesOfAll outer separator ts := by
  cases h with
  | nil => rfl
  | cons ht hts =>
    rw [namesOfAll, namesOfAll, names_renamedIn ht, namesOfAll_renamedIn hts]

end

theorem namesOfAll_append (outer : String) (separator : Char) (ts us : List TypeSyntax) :
    namesOfAll outer separator (ts ++ us) =
      namesOfAll outer separator ts ++ namesOfAll outer separator us := by
  induction ts with
  | nil => rfl
  | cons t ts ih => rw [List.cons_append, namesOfAll, namesOfAll, ih, List.append_assoc]

theorem namesOfAll_renamed {ts ts' : List TypeSyntax} (h : RenamedAt old new ts ts') (outer : String)
    (separator : Char) : namesOfAll outer separator ts' = namesOfAll outer separator ts := by
  induction h generalizing outer separator with
  | type _ _ hnested =>
    simp only [namesOfAll_append, namesOfAll, TypeSyntax.names, namesOfAll_renamedIn hnested]
  | method => simp only [namesOfAll_append, namesOfAll, TypeSyntax.names]
  | nested _ ih => simp only [namesOfAll_append, namesOfAll, TypeSyntax.names, ih]

end

theorem Outline.toTypes_renamed {old new : String} {o : Outline} {types : List TypeSyntax}
    (h : RenamedAt old new o.types types) (cs : List Char) (origin : Origin) (known : List String) :
    { o with types }.toTypes cs origin known = o.toTypes cs origin known := by
  have hdeclared : { o with types }.declaredNames = o.declaredNames :=
    namesOfAll_renamed h o.packagePrefix '.'
  have hnames : NameScope.ofOutline known { o with types } = .ofOutline known o := by
    rw [NameScope.ofOutline, hdeclared]
    rfl
  rw [toTypes, hnames]
  exact Setting.typesOfAll_renamed h o.packagePrefix '.' []

end FaultTolerance.Java.Source
