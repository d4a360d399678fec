import FaultTolerance.Proofs.Source.Outline
import FaultTolerance.Proofs.Source.Trees

/-! Where the annotations of an outline are written. Every list that the outline is read from is a
part of the one it is split off, so an annotation of a declaration, and each argument in it, stands in
the source with its tokens side by side. -/
namespace FaultTolerance.Java.Source
set_option autoImplicit false

/-! ## Parts of lists -/

theorem infix_append_cons {α : Type} {l m : List α} (h : l <:+: m) (before : List α) (x : α) :
    l <:+: before ++ x :: m :=
  h.trans ((List.suffix_cons x m).trans (List.suffix_append before (x :: m))).isInfix

theorem infix_of_mem_splitParts {α : Type} {tree : α → Tree} {s : ListState} {part xs p : List α}
    (h : p ∈ splitParts tree s part xs) : p <:+: part.reverse ++ xs := by
  induction xs generalizing s part with
  | nil =>
    rw [splitParts] at h
    split at h
    · cases h
    · rw [List.mem_singleton.mp h, List.append_nil]
  | cons x xs ih =>
    rw [splitParts] at h
    split at h
    · rcases List.mem_cons.mp h with rfl | h
      · exact (List.prefix_append ..).isInfix
      · exact infix_append_cons (ih h) _ x
    · have hrest := ih h
      rwa [List.reverse_cons, List.append_assoc] at hrest

theorem infix_of_mem_listParts {p ts : List Tree} (h : p ∈ listParts ts) : p <:+: ts :=
  infix_of_mem_splitParts h

theorem infix_of_mem_splitDeclarations {inValue : Bool} {part ts d : List Tree}
    (h : d ∈ splitDeclarations inValue part ts) : d <:+: part.reverse ++ ts := by
  induction ts generalizing inValue part with
  | nil =>
    rw [splitDeclarations] at h
    split at h
    · cases h
    · rw [List.mem_singleton.mp h, List.append_nil]
  | cons t ts ih =>
    have hmore : (t :: part).reverse ++ ts = part.reverse ++ t :: ts := by
      rw [List.reverse_cons, List.append_assoc, List.singleton_append]
    rw [splitDeclarations] at h
    split at h
    · rcases List.mem_cons.mp h with rfl | h
      · exact (List.prefix_append ..).isInfix
      · exact infix_append_cons (ih h) _ t
    · split at h
      · rcases List.mem_cons.mp h with rfl | h
        · rw [← hmore]
          exact (List.prefix_append ..).isInfix
        · exact infix_append_cons (ih h) _ t
      · rw [← hmore]
        exact ih h

theorem infix_of_mem_declarationsOf {kind : Kind} {content d : List Tree}
    (h : d ∈ declarationsOf kind content) : d <:+: content := by
  unfold declarationsOf at h
  split at h
  · have hd : d <:+: (content.dropWhile (!·.isSymbol ";")).drop 1 :=
      infix_of_mem_splitDeclarations h
    exact hd.trans ((List.drop_suffix ..).trans (List.dropWhile_suffix _)).isInfix
  · exact infix_of_mem_splitDeclarations h

theorem isWord_of_isKeyword {t : Token} {w : String} (h : t.isKeyword w) : t.isWord := by
  rw [Token.isKeyword, Bool.and_eq_true] at h
  exact h.1

/-- The trees in front of what follows a type's name are tokens, the name among them, and none of them
is an angle bracket. -/
theorem exists_of_typeHead? {ts rest : List Tree} {kind : Kind} {name : Token}
    (h : typeHead? ts = some (kind, name, rest)) :
    ∃ front : List Token, ts = front.map Tree.leaf ++ rest ∧ 2 ≤ front.length ∧ name ∈ front ∧
      ∀ t ∈ front, t.isWord ∨ t.isSymbol "@" := by
  have hnamed : ∀ (a b : Token) (ts : List Tree) (k : Kind) (w : String), a.isKeyword w →
      (if b.isWord = true then some (k, b, ts) else none) = some (kind, name, rest) →
        ∃ front : List Token, .leaf a :: .leaf b :: ts = front.map Tree.leaf ++ rest ∧
          2 ≤ front.length ∧ name ∈ front ∧ ∀ t ∈ front, t.isWord ∨ t.isSymbol "@" := by
    intro a b ts k w ha hk
    split at hk
    · rename_i hb
      cases hk
      refine ⟨[a, name], rfl, le_refl 2, by simp, ?_⟩
      simp [isWord_of_isKeyword ha, hb]
    · cases hk
  revert h
  fun_cases typeHead? ts with
  | case1 => exact hnamed _ _ _ _ _ ‹_›
  | case2 => exact hnamed _ _ _ _ _ ‹_›
  | case3 => exact hnamed _ _ _ _ _ ‹_›
  | case4 => exact hnamed _ _ _ _ _ ‹_›
  | case7 a b _ _ _ _ hmark c ts hc =>
    rintro ⟨⟩
    obtain ⟨hat, hinterface⟩ := Bool.and_eq_true_iff.mp hmark
    refine ⟨[a, b, name], rfl, by simp, by simp, ?_⟩
    simp [isWord_of_isKeyword hinterface, hat, hc]
  | case5 | case6 | case8 | case9 | case10 | case11 =>
    intro h
    cases h

theorem suffix_of_typeHead? {ts rest : List Tree} {kind : Kind} {name : Token}
    (h : typeHead? ts = some (kind, name, rest)) : rest <:+ ts := by
  obtain ⟨front, rfl, _⟩ := exists_of_typeHead? h
  exact List.suffix_append _ rest

theorem name_mem_of_typeHead? {ts rest : List Tree} {kind : Kind} {name : Token}
    (h : typeHead? ts = some (kind, name, rest)) : name ∈ Tree.tokensOf ts := by
  obtain ⟨front, rfl, _, hname, _⟩ := exists_of_typeHead? h
  rw [Tree.tokensOf_append, Tree.tokensOf_leaves]
  exact List.mem_append_left _ hname

theorem tokensOf_infix_of_bodyOf? {ts content : List Tree} (h : bodyOf? ts = some content) :
    Tree.tokensOf content <:+: Tree.tokensOf ts := by
  obtain ⟨t, ht, hbody⟩ := List.exists_of_findSome?_eq_some h
  split at hbody
  · cases hbody
    rename_i opening closing
    have hgroup : Tree.tokensOf content <:+: (Tree.group .curly opening content closing).tokens :=
      ⟨[opening], closing.toList, rfl⟩
    exact hgroup.trans (Tree.tokens_infix_of_mem ht)
  · cases hbody

/-! ## Annotations -/

/-- Whether an annotation stands among some tokens. -/
def AnnotationSyntax.WrittenIn (a : AnnotationSyntax) (ts : List Token) : Prop :=
  ∃ t : Tree, annotationOf? t = some a ∧ t.tokens <:+: ts

theorem AnnotationSyntax.WrittenIn.mono {a : AnnotationSyntax} {ts ts' : List Token}
    (h : a.WrittenIn ts) (hts : ts <:+: ts') : a.WrittenIn ts' := by
  obtain ⟨t, ha, ht⟩ := h
  exact ⟨t, ha, ht.trans hts⟩

theorem suffix_modifiers (ts : List Tree) : (modifiers ts).2 <:+ ts := by
  fun_induction modifiers ts with
  | case1 a b c ts _ ih =>
    exact ih.trans (List.suffix_append [Tree.leaf a, Tree.leaf b, Tree.leaf c] ts)
  | case2 a b c ts _ _ ih => exact ih.trans (List.suffix_cons (Tree.leaf a) _)
  | case3 => exact List.suffix_refl _
  | case4 a ts _ _ ih => exact ih.trans (List.suffix_cons (Tree.leaf a) ts)
  | case5 => exact List.suffix_refl _
  | case6 mark name arguments ts as rest hrest ih =>
    rw [hrest] at ih
    exact ih.trans (List.suffix_cons (Tree.marked mark name arguments) ts)
  | case7 => exact List.suffix_refl _

theorem exists_of_mem_modifiers {ts : List Tree} {a : AnnotationSyntax}
    (h : a ∈ (modifiers ts).1) : ∃ t ∈ ts, annotationOf? t = some a := by
  fun_induction modifiers ts with
  | case1 x y z ts _ ih =>
    obtain ⟨t, ht, ha⟩ := ih h
    exact ⟨t, List.mem_append_right [Tree.leaf x, Tree.leaf y, Tree.leaf z] ht, ha⟩
  | case2 x y z ts _ _ ih =>
    obtain ⟨t, ht, ha⟩ := ih h
    exact ⟨t, List.mem_cons_of_mem _ ht, ha⟩
  | case3 => cases h
  | case4 x ts _ _ ih =>
    obtain ⟨t, ht, ha⟩ := ih h
    exact ⟨t, List.mem_cons_of_mem _ ht, ha⟩
  | case5 => cases h
  | case6 mark name arguments ts as rest hrest ih =>
    rw [hrest] at ih
    rcases List.mem_append.mp h with h | h
    · exact ⟨_, List.mem_cons_self, Option.mem_toList.mp h⟩
    · obtain ⟨t, ht, ha⟩ := ih h
      exact ⟨t, List.mem_cons_of_mem _ ht, ha⟩
  | case7 => cases h

theorem writtenIn_of_mem_modifiers {ts : List Tree} {a : AnnotationSyntax}
    (h : a ∈ (modifiers ts).1) : a.WrittenIn (Tree.tokensOf ts) := by
  obtain ⟨t, ht, ha⟩ := exists_of_mem_modifiers h
  exact ⟨t, ha, Tree.tokens_infix_of_mem ht⟩

/-! ## Declarations -/

mutual

/-- The annotations on a type, on its members and in the types nested in it. -/
def TypeSyntax.allAnnotations : TypeSyntax → List AnnotationSyntax
  | .mk _ annotations _ _ methods fields nested =>
    annotations ++ (methods.flatMap (·.annotations) ++ fields.flatMap (·.annotations) ++
      allAnnotationsOf nested)

def allAnnotationsOf : List TypeSyntax → List AnnotationSyntax
  | [] => []
  | t :: ts => t.allAnnotations ++ allAnnotationsOf ts

end

def Members.allAnnotations (m : Members) : List AnnotationSyntax :=
  m.methods.flatMap (·.annotations) ++ m.fields.flatMap (·.annotations) ++ allAnnotationsOf m.types

def Outline.allAnnotations (o : Outline) : List AnnotationSyntax := allAnnotationsOf o.types

theorem mem_allAnnotations_withType {t : TypeSyntax} {m : Members} {a : AnnotationSyntax} :
    a ∈ ({ m with types := t :: m.types } : Members).allAnnotations ↔
      a ∈ t.allAnnotations ∨ a ∈ m.allAnnotations := by
  simp only [Members.allAnnotations, allAnnotationsOf, List.mem_append]
  tauto

def MemberSyntax.annotations : MemberSyntax → List AnnotationSyntax
  | .method x => x.annotations
  | .field x => x.annotations

theorem annotations_of_memberOf? {annotations : List AnnotationSyntax} {ts : List Tree}
    {x : MemberSyntax} (h : memberOf? annotations ts = some x) : x.annotations = annotations := by
  revert h
  fun_cases memberOf? annotations ts with
  | case2 | case4 =>
    rintro ⟨⟩
    rfl
  | case1 | case3 | case5 | case6 => exact nofun

theorem mem_allAnnotations_add {annotations : List AnnotationSyntax} {ts : List Tree} {m : Members}
    {a : AnnotationSyntax} (h : a ∈ (m.add annotations ts).allAnnotations) :
    a ∈ annotations ∨ a ∈ m.allAnnotations := by
  unfold Members.add at h
  cases hx : memberOf? annotations ts with
  | none =>
    rw [hx] at h
    exact .inr h
  | some x =>
    rw [← annotations_of_memberOf? hx]
    cases x <;>
    · simp only [hx, Members.allAnnotations, List.flatMap_cons, List.mem_append] at h
      simp only [MemberSyntax.annotations, Members.allAnnotations, List.mem_append]
      tauto

/-- Puts what a declaration declares in front of what others do. The number bounds the nesting of types
in it. -/
def Members.declare (n : Nat) (declaration : List Tree) (m : Members) : Members :=
  match typeHead? (modifiers declaration).2 with
  | some (kind, name, ts) =>
    match bodyOf? ts with
    | some content =>
      let inner := membersWithin n (declarationsOf kind content)
      let type := .mk kind (modifiers declaration).1 name (typeParametersOf ts).1 inner.methods
        inner.fields inner.types
      { m with types := type :: m.types }
    | none => m
  | none => m.add (modifiers declaration).1 (modifiers declaration).2

theorem membersWithin_nil (n : Nat) : membersWithin n [] = ⟨[], [], []⟩ := by
  cases n <;> rfl

theorem membersWithin_succ (n : Nat) (declarations : List (List Tree)) :
    membersWithin (n + 1) declarations = declarations.foldr (Members.declare n) ⟨[], [], []⟩ := by
  rw [membersWithin]
  rfl

theorem membersWithin_cons (n : Nat) (d : List Tree) (declarations : List (List Tree)) :
    membersWithin (n + 1) (d :: declarations) =
      (membersWithin (n + 1) declarations).declare n d := by
  rw [membersWithin_succ, membersWithin_succ, List.foldr_cons]

/-- A declaration declares a type, whose name and body stand in it, or another member, or nothing. -/
theorem Members.declare_cases (n : Nat) (d : List Tree) (m : Members) :
    (∃ kind name content typeParameters, name ∈ Tree.tokensOf d ∧
      Tree.tokensOf content <:+: Tree.tokensOf d ∧
      let inner := membersWithin n (declarationsOf kind content)
      m.declare n d = { m with
        types := .mk kind (modifiers d).1 name typeParameters inner.methods inner.fields
          inner.types :: m.types }) ∨
    m.declare n d = m ∨ m.declare n d = m.add (modifiers d).1 (modifiers d).2 := by
  unfold Members.declare
  cases hhead : typeHead? (modifiers d).2 with
  | none => exact .inr (.inr rfl)
  | some head =>
    obtain ⟨kind, name, rest⟩ := head
    cases hbody : bodyOf? rest with
    | none => exact .inr (.inl (by simp only [hbody]))
    | some content =>
      have hmodified : Tree.tokensOf (modifiers d).2 <:+: Tree.tokensOf d :=
        Tree.tokensOf_infix (suffix_modifiers d).isInfix
      have hcontent : Tree.tokensOf content <:+: Tree.tokensOf d :=
        calc Tree.tokensOf content
            <:+: Tree.tokensOf rest := tokensOf_infix_of_bodyOf? hbody
          _ <:+: Tree.tokensOf (modifiers d).2 :=
            Tree.tokensOf_infix (suffix_of_typeHead? hhead).isInfix
          _ <:+: Tree.tokensOf d := hmodified
      refine .inl ⟨kind, name, content, (typeParametersOf rest).1,
        hmodified.subset (name_mem_of_typeHead? hhead), hcontent, ?_⟩
      simp only [hbody]

/-- An annotation among the members of a body belongs to the first declaration, to the body of the type
that this declares, or to a later declaration. -/
theorem mem_membersWithin_cons {n : Nat} {d : List Tree} {declarations : List (List Tree)}
    {a : AnnotationSyntax}
    (h : a ∈ (membersWithin (n + 1) (d :: declarations)).allAnnotations) :
    a ∈ (modifiers d).1 ∨
      (∃ kind content, Tree.tokensOf content <:+: Tree.tokensOf d ∧
        a ∈ (membersWithin n (declarationsOf kind content)).allAnnotations) ∨
      a ∈ (membersWithin (n + 1) declarations).allAnnotations := by
  rw [membersWithin_cons] at h
  rcases Members.declare_cases n d (membersWithin (n + 1) declarations) with
    ⟨kind, name, content, typeParameters, _, hcontent, hdeclare⟩ | hdeclare | hdeclare
  · rw [hdeclare] at h
    rcases mem_allAnnotations_withType.mp h with h | h
    · rcases List.mem_append.mp h with h | h
      · exact .inl h
      · exact .inr (.inl ⟨kind, content, hcontent, h⟩)
    · exact .inr (.inr h)
  · rw [hdeclare] at h
    exact .inr (.inr h)
  · rw [hdeclare] at h
    exact (mem_allAnnotations_add h).imp_right .inr

theorem writtenIn_of_mem_membersWithin {n : Nat} {declarations : List (List Tree)}
    {a : AnnotationSyntax} (h : a ∈ (membersWithin n declarations).allAnnotations) :
    ∃ d ∈ declarations, a.WrittenIn (Tree.tokensOf d) := by
  induction n generalizing declarations with
  | zero => cases h
  | succ n ihn =>
    induction declarations with
    | nil => cases h
    | cons d declarations ihd =>
      rcases mem_membersWithin_cons h with h | ⟨kind, content, hcontent, h⟩ | h
      · exact ⟨d, List.mem_cons_self, writtenIn_of_mem_modifiers h⟩
      · obtain ⟨d', hd', hw⟩ := ihn h
        have hpart := Tree.tokensOf_infix (infix_of_mem_declarationsOf hd')
        exact ⟨d, List.mem_cons_self, hw.mono (hpart.trans hcontent)⟩
      · obtain ⟨d', hd', hw⟩ := ihd h
        exact ⟨d', List.mem_cons_of_mem _ hd', hw⟩

/-- Every annotation of a source's outline stands in the source. -/
theorem writtenIn_of_mem_outline {cs : List Char} {a : AnnotationSyntax}
    (h : a ∈ (Outline.ofSource cs).allAnnotations) : a.WrittenIn (tokens cs) := by
  obtain ⟨d, hd, hw⟩ := writtenIn_of_mem_membersWithin (List.mem_append_right _ h)
  have hpart : d <:+: Tree.ofSource cs := infix_of_mem_splitDeclarations hd
  rw [← Tree.tokensOf_ofSource]
  exact hw.mono (Tree.tokensOf_infix hpart)

/-! ## Fields -/

mutual

/-- The field declarations in a type and in the types nested in it. -/
def TypeSyntax.allFields : TypeSyntax → List FieldSyntax
  | .mk _ _ _ _ _ fields nested => fields ++ allFieldsOf nested

def allFieldsOf : List TypeSyntax → List FieldSyntax
  | [] => []
  | t :: ts => t.allFields ++ allFieldsOf ts

end

def Members.allFields (m : Members) : List FieldSyntax := m.fields ++ allFieldsOf m.types

theorem mem_allFields_withType {t : TypeSyntax} {m : Members} {f : FieldSyntax} :
    f ∈ ({ m with types := t :: m.types } : Members).allFields ↔
      f ∈ t.allFields ∨ f ∈ m.allFields := by
  simp only [Members.allFields, allFieldsOf, List.mem_append]
  tauto

theorem names_ne_nil_of_memberOf? {annotations : List AnnotationSyntax} {ts : List Tree}
    {f : FieldSyntax} (h : memberOf? annotations ts = some (.field f)) : f.names ≠ [] := by
  revert h
  fun_cases memberOf? annotations ts with
  | case4 =>
    rintro ⟨⟩
    exact List.cons_ne_nil _ _
  | case1 | case2 | case3 | case5 | case6 =>
    intro h
    cases h

theorem mem_allFields_add {annotations : List AnnotationSyntax} {ts : List Tree} {m : Members}
    {f : FieldSyntax} (h : f ∈ (m.add annotations ts).allFields) :
    f.names ≠ [] ∨ f ∈ m.allFields := by
  unfold Members.add at h
  cases hx : memberOf? annotations ts with
  | none =>
    rw [hx] at h
    exact .inr h
  | some x =>
    rw [hx] at h
    cases x with
    | method x => exact .inr h
    | field x =>
      rcases List.mem_cons.mp h with rfl | h
      · exact .inl (names_ne_nil_of_memberOf? hx)
      · exact .inr h

/-- Every field declaration declares a field. -/
theorem names_ne_nil_of_mem_membersWithin {n : Nat} {declarations : List (List Tree)}
    {f : FieldSyntax} (h : f ∈ (membersWithin n declarations).allFields) : f.names ≠ [] := by
  induction n generalizing declarations with
  | zero => cases h
  | succ n ihn =>
    induction declarations with
    | nil => cases h
    | cons d declarations ihd =>
      rw [membersWithin_cons] at h
      rcases Members.declare_cases n d (membersWithin (n + 1) declarations) with
        ⟨kind, name, content, typeParameters, _, _, hdeclare⟩ | hdeclare | hdeclare
      · rw [hdeclare] at h
        rcases mem_allFields_withType.mp h with h | h
        · exact ihn h
        · exact ihd h
      · exact ihd (hdeclare ▸ h)
      · rw [hdeclare] at h
        rcases mem_allFields_add h with h | h
        · exact h
        · exact ihd h

/-! ## Arguments -/

def ArgumentSyntax.name (a : ArgumentSyntax) : String := (a.key.map Token.text).getD "value"

/-- The first argument of a name; one that is written without a name is called `value`. -/
def AnnotationSyntax.argument? (a : AnnotationSyntax) (name : String) : Option ArgumentSyntax :=
  a.arguments.find? (·.name == name)

theorem map_fst_withArrays (ts : List Tree) : (withArrays ts).map Prod.fst = ts := by
  induction ts with
  | nil => rfl
  | cons t ts ih => rw [withArrays, List.map_cons, ih]

theorem arrayOf?_ne_expression {t : Tree} {ts : List Tree} :
    arrayOf? t ≠ some (.expression ts) := by
  unfold arrayOf?
  split <;> exact nofun

theorem eq_of_valueOf {ts ts' : List Tree} (h : valueOf ts = .expression ts') : ts = ts' := by
  unfold valueOf valueOfPart at h
  split at h
  · rename_i t array hts
    cases ts with
    | nil => cases hts
    | cons t ts =>
      rw [withArrays] at hts
      obtain ⟨hpair, -⟩ := List.cons.inj hts
      exact absurd ((Prod.mk.inj hpair).2.trans (congrArg some h)) arrayOf?_ne_expression
  · rw [map_fst_withArrays] at h
    exact ValueSyntax.expression.inj h

theorem eq_of_argumentOf {part : List Tree} {key t : Token}
    (h : argumentOf part = ⟨some key, .expression [.leaf t]⟩) :
    ∃ eq : Token, part = [.leaf key, .leaf eq, .leaf t] ∧ key.isWord = true ∧
      eq.isSymbol "=" = true := by
  revert h
  fun_cases argumentOf part with
  | case1 key' eq ts hkey =>
    intro h
    obtain ⟨hname, hvalue⟩ := ArgumentSyntax.mk.inj h
    obtain rfl := Option.some.inj hname
    obtain rfl := eq_of_valueOf hvalue
    obtain ⟨hword, hsymbol⟩ := Bool.and_eq_true_iff.mp hkey
    cases eq with
    | leaf eq => exact ⟨eq, rfl, hword, hsymbol⟩
    | group | marked => cases hsymbol
  | case2 => exact nofun
  | case3 => exact nofun

/-- Every argument of an annotation is read from a part of what stands in its brackets. -/
theorem AnnotationSyntax.WrittenIn.exists_part {x : AnnotationSyntax} {ts : List Token}
    (h : x.WrittenIn ts) {a : ArgumentSyntax} (ha : a ∈ x.arguments) :
    ∃ part : List Tree, argumentOf part = a ∧ Tree.tokensOf part <:+: ts := by
  obtain ⟨tree, htree, hts⟩ := h
  unfold annotationOf? at htree
  split at htree
  · rename_i mark name arguments
    cases htree
    change a ∈ argumentsOf arguments at ha
    unfold argumentsOf at ha
    split at ha
    · rename_i bracket opening content closing
      obtain ⟨part, hpart, hargument⟩ := List.mem_map.mp ha
      have hcontent : Tree.tokensOf part <:+: Tree.tokensOf content :=
        Tree.tokensOf_infix (infix_of_mem_listParts (List.mem_of_mem_filter hpart))
      refine ⟨part, hargument, ?_⟩
      calc Tree.tokensOf part
          <:+: Tree.tokensOf content := hcontent
        _ <:+: (Tree.group bracket opening content closing).tokens :=
          ⟨[opening], closing.toList, rfl⟩
        _ <:+: (Tree.marked mark name (some (.group bracket opening content closing))).tokens :=
          (List.suffix_append (mark :: name) _).isInfix
        _ <:+: ts := hts
    · cases ha
  · cases htree

/-- A token that is the value of an argument stands behind the argument's name and an equals sign. -/
theorem AnnotationSyntax.WrittenIn.argument {a : AnnotationSyntax} {ts : List Token} {key t : Token}
    (h : a.WrittenIn ts) (harg : ⟨some key, .expression [.leaf t]⟩ ∈ a.arguments) :
    ∃ eq : Token, key.isWord = true ∧ eq.isSymbol "=" = true ∧ [key, eq, t] <:+: ts := by
  obtain ⟨part, hargument, hpart⟩ := h.exists_part harg
  obtain ⟨eq, rfl, hword, hsymbol⟩ := eq_of_argumentOf hargument
  exact ⟨eq, hword, hsymbol, hpart⟩

end FaultTolerance.Java.Source
