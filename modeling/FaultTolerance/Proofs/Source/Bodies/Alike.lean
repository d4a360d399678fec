import FaultTolerance.Proofs.Source.Bodies.Declarations

/-! Declarations that read alike. What a declaration adds to the members of a body does not depend on the
bound for the nesting (`Members.declare_depth`). Declarations with one head are `Alike` whatever their
bodies and values (`alike_of_member`), and types whose bodies hold declarations that are alike are alike
again (`alike_of_type`). -/
namespace FaultTolerance.Java.Source
open Source.Tree
set_option autoImplicit false

/-! ## The bound for the nesting -/

/-- The number of tokens of a declaration. -/
def size (declaration : List Tree) : Nat := (tokensOf declaration).length

theorem size_le_of_infix {d d' : List Tree} (h : d <:+: d') : size d ≤ size d' := by
  have htokens := tokensOf_infix h
  exact htokens.length_le

theorem size_declarationsOf {kind : Kind} {content d : List Tree}
    (h : d ∈ declarationsOf kind content) : size d ≤ size content :=
  size_le_of_infix (infix_of_mem_declarationsOf h)

theorem size_body {d rest content : List Tree} {kind : Kind} {name : Token}
    (hhead : typeHead? (modifiers d).2 = some (kind, name, rest))
    (hbody : bodyOf? rest = some content) : size content + 2 ≤ size d :=
  calc size content + 2
      ≤ (tokensOf rest).length + 2 :=
        Nat.add_le_add_right (tokensOf_infix_of_bodyOf? hbody).length_le 2
    _ ≤ (tokensOf (modifiers d).2).length := length_typeHead? hhead
    _ ≤ size d := size_le_of_infix (suffix_modifiers d).isInfix

theorem Members.declare_congr {n n' : Nat} {d : List Tree}
    (h : ∀ kind content, size content + 2 ≤ size d →
      membersWithin n (declarationsOf kind content) =
        membersWithin n' (declarationsOf kind content)) :
    declare n d = declare n' d := by
  funext m
  unfold declare
  cases hhead : typeHead? (modifiers d).2 with
  | none => rfl
  | some head =>
    obtain ⟨kind, name, rest⟩ := head
    cases hbody : bodyOf? rest with
    | none => simp only [hbody]
    | some content => simp only [hbody, h kind content (size_body hhead hbody)]

/-- Whatever bound the declarations stay below, their members are the same. -/
theorem membersWithin_depth {n n' : Nat} {declarations : List (List Tree)}
    (h : ∀ d ∈ declarations, size d < n) (h' : ∀ d ∈ declarations, size d < n') :
    membersWithin n declarations = membersWithin n' declarations := by
  -- A body has fewer tokens than the declaration around it, so the bound goes down with the nesting.
  induction n generalizing n' declarations with
  | zero =>
    obtain rfl : declarations = [] :=
      List.eq_nil_iff_forall_not_mem.mpr fun d hd => Nat.not_lt_zero _ (h d hd)
    rw [membersWithin_nil, membersWithin_nil]
  | succ n ih =>
    cases n' with
    | zero =>
      obtain rfl : declarations = [] :=
        List.eq_nil_iff_forall_not_mem.mpr fun d hd => Nat.not_lt_zero _ (h' d hd)
      rw [membersWithin_nil, membersWithin_nil]
    | succ n' =>
      rw [membersWithin_succ, membersWithin_succ]
      refine List.foldr_ext _ _ _ fun d hd m => congrFun (Members.declare_congr ?_) m
      intro kind content hsize
      have hbound := h d hd
      have hbound' := h' d hd
      refine ih (fun d' hd' => ?_) (fun d' hd' => ?_)
      · have := size_declarationsOf hd'
        omega
      · have := size_declarationsOf hd'
        omega

theorem Members.declare_depth {n n' : Nat} {d : List Tree} (h : size d ≤ n + 1)
    (h' : size d ≤ n' + 1) : declare n d = declare n' d := by
  refine declare_congr fun kind content hsize => membersWithin_depth ?_ ?_
  · intro d' hd'
    have := size_declarationsOf hd'
    omega
  · intro d' hd'
    have := size_declarationsOf hd'
    omega

/-! ## Declarations that read alike -/

/-- Two declarations that mean the same in a unit and in the body of a type. -/
structure Alike (d d' : List Tree) : Prop where
  package : packageOf? d = packageOf? d'
  imported : importOf? d = importOf? d'
  declare : ∀ {n n' : Nat}, size d ≤ n + 1 → size d' ≤ n' + 1 →
    Members.declare n d = Members.declare n' d'

theorem Alike.refl (d : List Tree) : Alike d d := ⟨rfl, rfl, Members.declare_depth⟩

theorem membersWithin_alike {n n' : Nat} {declarations declarations' : List (List Tree)}
    (h : List.Forall₂ Alike declarations declarations')
    (hn : ∀ d ∈ declarations, size d ≤ n ∧ 0 < n)
    (hn' : ∀ d ∈ declarations', size d ≤ n' ∧ 0 < n') :
    membersWithin n declarations = membersWithin n' declarations' := by
  have hfold : ∀ k k' : Nat, (∀ d ∈ declarations, size d ≤ k + 1) →
      (∀ d ∈ declarations', size d ≤ k' + 1) →
      declarations.foldr (Members.declare k) ⟨[], [], []⟩ =
        declarations'.foldr (Members.declare k') ⟨[], [], []⟩ := by
    clear hn hn'
    intro k k' hk hk'
    induction h with
    | nil => rfl
    | cons hd _ ih =>
      obtain ⟨hfirst, hrest⟩ := List.forall_mem_cons.mp hk
      obtain ⟨hfirst', hrest'⟩ := List.forall_mem_cons.mp hk'
      rw [List.foldr_cons, List.foldr_cons, hd.declare hfirst hfirst', ih hrest hrest']
  cases h with
  | nil => rw [membersWithin_nil, membersWithin_nil]
  | cons hd hds =>
    obtain ⟨k, rfl⟩ := Nat.exists_eq_add_one.mpr (hn _ List.mem_cons_self).2
    obtain ⟨k', rfl⟩ := Nat.exists_eq_add_one.mpr (hn' _ List.mem_cons_self).2
    rw [membersWithin_succ, membersWithin_succ]
    exact hfold k k' (fun d hd => (hn d hd).1) (fun d hd => (hn' d hd).1)

theorem findSome?_alike {ds ds' : List (List Tree)} (h : List.Forall₂ Alike ds ds') :
    ds.findSome? packageOf? = ds'.findSome? packageOf? := by
  induction h with
  | nil => rfl
  | cons hd _ ih => rw [List.findSome?_cons, List.findSome?_cons, hd.package, ih]

theorem filterMap_alike {ds ds' : List (List Tree)} (h : List.Forall₂ Alike ds ds') :
    ds.filterMap importOf? = ds'.filterMap importOf? := by
  induction h with
  | nil => rfl
  | cons hd _ ih => rw [List.filterMap_cons, List.filterMap_cons, hd.imported, ih]

section
variable {x x' : Tree} {ys ys' : List Tree} {head : List Tree}

/-- Declarations of a method, of fields or of nothing read alike when their heads and the members that
they declare are the same. -/
theorem alike_of_member (hx : x.isStop) (hx' : x'.isStop) (hhead : isHead false head)
    (hnone : typeHead? (modifiers head).2 = none)
    (hmember : ∀ annotations,
      memberOf? annotations ((modifiers head).2 ++ x :: ys) =
        memberOf? annotations ((modifiers head).2 ++ x' :: ys')) :
    Alike (head ++ x :: ys) (head ++ x' :: ys') := by
  have hdeclare : ∀ (n : Nat) (m : Members) {y : Tree} {zs : List Tree}, y.isStop →
      m.declare n (head ++ y :: zs) = m.add (modifiers head).1 ((modifiers head).2 ++ y :: zs) := by
    intro n m y zs hy
    rw [Members.declare, modifiers_append hy, typeHead?_append hy, hnone]
    rfl
  refine ⟨?_, ?_, ?_⟩
  · rw [packageOf?_head hx hhead, packageOf?_head hx' hhead]
  · rw [importOf?_head hx hhead, importOf?_head hx' hhead]
  · intro n n' _ _
    funext m
    rw [hdeclare n m hx, hdeclare n' m hx', Members.add, hmember]
    rfl

end

section
variable {opening opening' : Token} {content content' : List Tree} {closing closing' : Option Token}
  {head rest : List Tree} {kind : Kind} {name : Token}

theorem Members.declare_type (hhead : isHead false head) (hangles : anglesClosed 0 head)
    (htype : typeHead? (modifiers head).2 = some (kind, name, rest)) (n : Nat) (m : Members) :
    m.declare n (head ++ [.group .curly opening content closing]) =
      let inner := membersWithin n (declarationsOf kind content)
      let type := .mk kind (modifiers head).1 name (typeParametersOf rest).1 inner.methods
        inner.fields inner.types
      { m with types := type :: m.types } := by
  have hstop : (Tree.group .curly opening content closing).isStop := rfl
  have hrest : rest <:+ head := (suffix_of_typeHead? htype).trans (suffix_modifiers head)
  have hcurly : ∀ t ∈ rest, t.isGroup .curly = false := fun t ht =>
    (of_isHead hhead t (hrest.subset ht)).1
  have hparameters := (typeParametersOf_append hstop
    (anglesClosed_typeHead? htype (anglesClosed_modifiers hangles)) []).1
  simp only [Members.declare, modifiers_append hstop, typeHead?_append hstop, htype,
    Option.map_some, bodyOf?_append hcurly, hparameters]

theorem size_content (htype : typeHead? (modifiers head).2 = some (kind, name, rest)) :
    size content + 2 ≤ size (head ++ [.group .curly opening content closing]) := by
  have hhead : 2 ≤ size head :=
    calc 2 ≤ (tokensOf (modifiers head).2).length :=
          (Nat.le_add_left ..).trans (length_typeHead? htype)
      _ ≤ size head := size_le_of_infix (suffix_modifiers head).isInfix
  simp only [size, tokensOf_append, tokensOf_singleton, Tree.tokens, List.length_append,
    List.length_cons] at hhead ⊢
  omega

/-- Declarations of types with one head read alike when the declarations in their bodies do. -/
theorem alike_of_type (hhead : isHead false head) (hangles : anglesClosed 0 head)
    (htype : typeHead? (modifiers head).2 = some (kind, name, rest))
    (h : List.Forall₂ Alike (declarationsOf kind content) (declarationsOf kind content')) :
    Alike (head ++ [.group .curly opening content closing])
      (head ++ [.group .curly opening' content' closing']) := by
  refine ⟨?_, ?_, ?_⟩
  · rw [packageOf?_head rfl hhead, packageOf?_head rfl hhead]
  · rw [importOf?_head rfl hhead, importOf?_head rfl hhead]
  · intro n n' hn hn'
    funext m
    have hsize := (size_content htype).trans hn
    have hsize' := (size_content htype).trans hn'
    have hinner : membersWithin n (declarationsOf kind content) =
        membersWithin n' (declarationsOf kind content') := by
      refine membersWithin_alike h (fun d hd => ?_) (fun d hd => ?_)
      · have := size_declarationsOf hd
        omega
      · have := size_declarationsOf hd
        omega
    rw [Members.declare_type hhead hangles htype, Members.declare_type hhead hangles htype, hinner]

end
end FaultTolerance.Java.Source
