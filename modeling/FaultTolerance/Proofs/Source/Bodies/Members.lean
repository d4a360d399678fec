import FaultTolerance.Proofs.Source.Bodies.Heads

/-! Members in front of what follows them. A member has the same type, name and parameters whatever
stands in its body (`memberOf?_body`), and fields have the same names whatever their values are
(`memberOf?_value`, `laterNames_initializer`). -/
namespace FaultTolerance.Java.Source
open Source.Tree
set_option autoImplicit false

/-! ## Names of fields -/

theorem startsDeclarator_value {eq : Tree} (heq : eq.isSymbol "=") (ts ys : List Tree) :
    startsDeclarator (ts ++ eq :: ys) = startsDeclarator (ts ++ [eq]) := by
  induction ts with
  | nil => simp [startsDeclarator, heq]
  | cons t ts ih => simp [startsDeclarator, ih]

/-- The names behind an equals sign are those of what follows it. -/
theorem laterNames_value {eq : Tree} (heq : eq.isSymbol "=") (ts ys : List Tree) :
    laterNames (ts ++ eq :: ys) = laterNames (ts ++ [eq]) ++ laterNames ys := by
  have hcomma : eq.isSymbol "," = false := isSymbol_of_ne heq (by decide)
  induction ts with
  | nil => simp [laterNames, hcomma]
  | cons t ts ih =>
    have hhead : (ts ++ eq :: ys).head? = (ts ++ [eq]).head? := by cases ts <;> rfl
    rw [List.cons_append, List.cons_append, laterNames, laterNames, startsDeclarator_value heq, ih,
      hhead]
    split
    · rw [List.append_assoc]
    · rfl

theorem eq_of_isGroup {t : Tree} {bracket : Bracket} (h : t.isGroup bracket) :
    ∃ opening content closing, t = .group bracket opening content closing := by
  cases t with
  | group b opening content closing => exact ⟨opening, content, closing, by simp_all [isGroup]⟩
  | leaf => cases h
  | marked => cases h

theorem not_startsDeclarator_body {x : Tree} (hx : x.isGroup .curly) : startsDeclarator [x] = false := by
  obtain ⟨opening, content, closing, rfl⟩ := eq_of_isGroup hx
  rfl

theorem startsDeclarator_body {x x' : Tree} (hx : x.isGroup .curly) (hx' : x'.isGroup .curly)
    (ts : List Tree) : startsDeclarator (ts ++ [x]) = startsDeclarator (ts ++ [x']) := by
  induction ts with
  | nil => exact (not_startsDeclarator_body hx).trans (not_startsDeclarator_body hx').symm
  | cons t ts ih => rw [List.cons_append, List.cons_append, startsDeclarator, startsDeclarator, ih]

theorem isStop_of_body {x : Tree} (hx : x.isGroup .curly) : x.isStop := by
  rw [isStop, hx, Bool.true_or]

/-- No field has its name in a body. -/
theorem laterNames_body {x x' : Tree} (hx : x.isGroup .curly) (hx' : x'.isGroup .curly)
    (ts : List Tree) : laterNames (ts ++ [x]) = laterNames (ts ++ [x']) := by
  induction ts with
  | nil =>
    have hnone : ∀ {y : Tree}, y.isGroup .curly → laterNames [y] = [] := by
      intro y hy
      obtain ⟨opening, content, closing, rfl⟩ := eq_of_isGroup hy
      rfl
    exact (hnone hx).trans (hnone hx').symm
  | cons t ts ih =>
    have hhead : (ts ++ [x]).head?.bind Tree.word? = (ts ++ [x']).head?.bind Tree.word? := by
      cases ts with
      | nil =>
        simp [word?_of_isStop (isStop_of_body hx), word?_of_isStop (isStop_of_body hx')]
      | cons => rfl
    rw [List.cons_append, List.cons_append, laterNames, laterNames, startsDeclarator_body hx hx',
      hhead, ih]

/-! ## Initializers -/

/-- Whether the trees after a comma go on with type arguments: behind words, annotations, dimensions
and further commas comes something else, and no equals sign. -/
def staysInType : List Tree → Bool
  | [] => false
  | t :: ts =>
    !t.isSymbol "=" &&
      (!(t.word?.isSome || t.isDimension || t.isAnnotation || t.isSymbol ",") || staysInType ts)

/-- Whether some trees can be the value of a field: they hold no semicolon, and commas in type
arguments only. -/
def isInitializer : List Tree → Bool
  | [] => true
  | t :: ts => !t.isSymbol ";" && (!t.isSymbol "," || staysInType ts) && isInitializer ts

theorem no_semicolon_of_isInitializer {ts : List Tree} (h : isInitializer ts) :
    ∀ t ∈ ts, t.isSymbol ";" = false := by
  induction ts with
  | nil => exact nofun
  | cons t ts ih =>
    rw [isInitializer, Bool.and_eq_true, Bool.and_eq_true, Bool.not_eq_true'] at h
    exact List.forall_mem_cons.mpr ⟨h.1.1, ih h.2⟩

theorem startsDeclarator_of_staysInType {ts : List Tree} (h : staysInType ts) (ys : List Tree) :
    startsDeclarator (ts ++ ys) = false := by
  induction ts with
  | nil => cases h
  | cons t ts ih =>
    simp only [staysInType, Bool.and_eq_true, Bool.or_eq_true, Bool.not_eq_true'] at h
    obtain ⟨hvalue, hother | hrest⟩ := h
    · simp [startsDeclarator, hvalue, hother]
    · simp [startsDeclarator, hvalue, ih hrest]

theorem laterNames_initializer {ts : List Tree} (h : isInitializer ts) (ys : List Tree) :
    laterNames (ts ++ ys) = laterNames ys := by
  induction ts with
  | nil => rfl
  | cons t ts ih =>
    simp only [isInitializer, Bool.and_eq_true, Bool.or_eq_true, Bool.not_eq_true'] at h
    obtain ⟨⟨_, hcomma⟩, hrest⟩ := h
    have hno : (t.isSymbol "," && startsDeclarator (ts ++ ys)) = false := by
      rcases hcomma with hcomma | hstays
      · rw [hcomma, Bool.false_and]
      · rw [startsDeclarator_of_staysInType hstays, Bool.and_false]
    rw [List.cons_append, laterNames, hno, if_neg (by decide), ih hrest]

/-! ## Members -/

/-- The member that a type and what follows it declare. -/
def memberFrom (annotations : List AnnotationSyntax) (typeParameters : List String) :
    List Token × List Tree → Option MemberSyntax
  | ([], _) => none
  | (type, .leaf name :: .group .round _ content _ :: _) =>
    if name.isWord then
      some (.method ⟨annotations, typeParameters, type, name, parametersOf content⟩)
    else none
  | (type, .leaf name :: rest) =>
    if name.isWord then some (.field ⟨annotations, type, name :: laterNames rest⟩) else none
  | _ => none

theorem memberOf?_eq (annotations : List AnnotationSyntax) (ts : List Tree) :
    memberOf? annotations ts =
      memberFrom annotations (typeParametersOf ts).1
        (typeOf (skipAnnotations (typeParametersOf ts).2)) := rfl

section
variable {x x' : Tree} {ys ys' : List Tree}

theorem memberFrom_stop (hx : x.isStop) (annotations : List AnnotationSyntax)
    (typeParameters : List String) (type : List Token) :
    memberFrom annotations typeParameters (type, x :: ys) = none := by
  cases type with
  | nil => rfl
  | cons w type =>
    obtain ⟨opening, content, closing, rfl⟩ | ⟨token, rfl, hkind, _⟩ := eq_of_isStop hx
    · rfl
    · have hword := isWord_of_symbol hkind
      rcases ys with _ | ⟨_ | ⟨_ | _ | _⟩ | _, ys⟩ <;> simp [memberFrom, hword]

/-- Only the names behind a stop make a difference to a member. -/
theorem memberFrom_congr (hx : x.isStop) (hx' : x'.isStop)
    (hnames : ∀ ts, laterNames (ts ++ x :: ys) = laterNames (ts ++ x' :: ys'))
    (annotations : List AnnotationSyntax) (typeParameters : List String) (type : List Token)
    (rest : List Tree) :
    memberFrom annotations typeParameters (type, rest ++ x :: ys) =
      memberFrom annotations typeParameters (type, rest ++ x' :: ys') := by
  cases type with
  | nil => rfl
  | cons w type =>
    have hfield : ∀ {y : Tree} {zs : List Tree} (name : Token), y.isStop →
        memberFrom annotations typeParameters (w :: type, .leaf name :: y :: zs) =
          if name.isWord then
            some (.field ⟨annotations, w :: type, name :: laterNames ([] ++ y :: zs)⟩)
          else none := by
      intro y zs name hy
      obtain ⟨opening, content, closing, rfl⟩ | ⟨token, rfl, _⟩ := eq_of_isStop hy <;> rfl
    -- a stop is no parameter list, so a name right in front of it is a field's
    rcases rest with _ | ⟨name | _ | _, rest⟩
    case nil => exact (memberFrom_stop hx ..).trans (memberFrom_stop hx' ..).symm
    case cons.leaf =>
      rcases rest with _ | ⟨t, rest⟩
      · exact (hfield name hx).trans (hnames [] ▸ (hfield name hx').symm)
      · have hrest := hnames (t :: rest)
        rcases t with _ | ⟨_ | _ | _⟩ | _ <;>
          simp only [List.cons_append] at hrest <;> simp [memberFrom, hrest]
    all_goals rfl

theorem memberOf?_congr (hx : x.isStop) (hx' : x'.isStop)
    (hnames : ∀ ts, laterNames (ts ++ x :: ys) = laterNames (ts ++ x' :: ys'))
    (annotations : List AnnotationSyntax) {ts : List Tree} (h : anglesClosed 0 ts) :
    memberOf? annotations (ts ++ x :: ys) = memberOf? annotations (ts ++ x' :: ys') := by
  have hread : ∀ {y : Tree} {zs : List Tree}, y.isStop →
      memberOf? annotations (ts ++ y :: zs) = memberFrom annotations (typeParametersOf ts).1
        ((typeOf (skipAnnotations (typeParametersOf ts).2)).1,
          (typeOf (skipAnnotations (typeParametersOf ts).2)).2 ++ y :: zs) := by
    intro y zs hy
    obtain ⟨hparameters, hrest⟩ := typeParametersOf_append hy h zs
    rw [memberOf?_eq, hparameters, skipAnnotations_append hy,
      typeOf_append hy (anglesClosed_skipAnnotations hrest)]
  rw [hread hx, hread hx', memberFrom_congr hx hx' hnames]

end

theorem memberOf?_body {x x' : Tree} (hx : x.isGroup .curly) (hx' : x'.isGroup .curly)
    (annotations : List AnnotationSyntax) {ts : List Tree} (h : anglesClosed 0 ts) :
    memberOf? annotations (ts ++ [x]) = memberOf? annotations (ts ++ [x']) :=
  memberOf?_congr (isStop_of_body hx) (isStop_of_body hx') (laterNames_body hx hx') annotations h

theorem memberOf?_value {eq : Tree} {ys ys' : List Tree} (heq : eq.isSymbol "=")
    (hnames : laterNames ys = laterNames ys') (annotations : List AnnotationSyntax)
    {ts : List Tree} (h : anglesClosed 0 ts) :
    memberOf? annotations (ts ++ eq :: ys) = memberOf? annotations (ts ++ eq :: ys') := by
  have hstop : eq.isStop := isStop_of_symbol heq (by decide)
  refine memberOf?_congr hstop hstop (fun ts => ?_) annotations h
  rw [laterNames_value heq, laterNames_value heq ts ys', hnames]

end FaultTolerance.Java.Source
