import FaultTolerance.Proofs.Source.Annotations
import FaultTolerance.Proofs.Source.Lexing
import FaultTolerance.Proofs.Source.Nesting

/-! The name of a type in an outline is a token of the source, wherever in the source the type is
declared. So it is never empty (`simple_ne_empty_of_declares`), and a name that is made of such names
tells by its separators how deep the type is nested. -/
namespace FaultTolerance.Java.Source
set_option autoImplicit false

/-! ## Names among tokens -/

def TypeSyntax.nameToken : TypeSyntax → Token
  | .mk _ _ name _ _ _ _ => name

theorem TypeSyntax.text_nameToken (t : TypeSyntax) : t.nameToken.text = t.simple := by
  cases t
  rfl

theorem types_add (annotations : List AnnotationSyntax) (ts : List Tree) (m : Members) :
    (m.add annotations ts).types = m.types := by
  unfold Members.add
  split <;> rfl

/-- A type among the members of a body is the one that the first declaration declares, or stands in the
body of that one, or among later declarations. -/
theorem declares_membersWithin_cons {n : Nat} {d : List Tree} {declarations : List (List Tree)}
    {t : TypeSyntax}
    (h : ∃ path, Declares (membersWithin (n + 1) (d :: declarations)).types path t) :
    t.nameToken ∈ Tree.tokensOf d ∨
      (∃ kind content, Tree.tokensOf content <:+: Tree.tokensOf d ∧
        ∃ path, Declares (membersWithin n (declarationsOf kind content)).types path t) ∨
      ∃ path, Declares (membersWithin (n + 1) declarations).types path t := by
  obtain ⟨path, h⟩ := h
  rw [membersWithin_cons] at h
  rcases Members.declare_cases n d (membersWithin (n + 1) declarations) with
    ⟨kind, name, content, typeParameters, hname, hcontent, hdeclare⟩ | hdeclare | hdeclare
  · rw [hdeclare] at h
    have hplace := (@exists_declares_cons (fun _ u => u = t) _ _).mp ⟨path, t, h, rfl⟩
    rcases hplace with (rfl | ⟨path', _, hin, rfl⟩) | ⟨path', _, hin, rfl⟩
    · exact .inl hname
    · exact .inr (.inl ⟨kind, content, hcontent, path', hin⟩)
    · exact .inr (.inr ⟨path', hin⟩)
  · rw [hdeclare] at h
    exact .inr (.inr ⟨path, h⟩)
  · rw [hdeclare, types_add] at h
    exact .inr (.inr ⟨path, h⟩)

theorem name_mem_of_declares_membersWithin {n : Nat} {declarations : List (List Tree)}
    {t : TypeSyntax} (h : ∃ path, Declares (membersWithin n declarations).types path t) :
    ∃ d ∈ declarations, t.nameToken ∈ Tree.tokensOf d := by
  -- The outer induction goes into bodies, the inner one along the declarations of one body.
  induction n generalizing declarations with
  | zero =>
    obtain ⟨path, h⟩ := h
    exact absurd h not_declares_nil
  | succ n ihn =>
    induction declarations with
    | nil =>
      obtain ⟨path, h⟩ := h
      exact absurd h not_declares_nil
    | cons d declarations ihd =>
      rcases declares_membersWithin_cons h with h | ⟨kind, content, hcontent, h⟩ | h
      · exact ⟨d, List.mem_cons_self, h⟩
      · obtain ⟨d', hd', hname⟩ := ihn h
        have hpart := Tree.tokensOf_infix (infix_of_mem_declarationsOf hd')
        exact ⟨d, List.mem_cons_self, (hpart.trans hcontent).subset hname⟩
      · obtain ⟨d', hd', hname⟩ := ihd h
        exact ⟨d', List.mem_cons_of_mem _ hd', hname⟩

/-! ## Types of a source -/

section source
variable {cs : List Char} {path : List TypeSyntax} {t : TypeSyntax}

theorem nameToken_mem_tokens (h : Declares (Outline.ofSource cs).types path t) :
    t.nameToken ∈ tokens cs := by
  obtain ⟨d, hd, hname⟩ := name_mem_of_declares_membersWithin ⟨path, h⟩
  have hpart : d <:+: Tree.ofSource cs := infix_of_mem_splitDeclarations hd
  rw [← Tree.tokensOf_ofSource]
  exact (Tree.tokensOf_infix hpart).subset hname

theorem simple_ne_empty_of_declares (h : Declares (Outline.ofSource cs).types path t) :
    t.simple ≠ "" := by
  rw [← t.text_nameToken]
  exact text_ne_empty_of_mem_tokens (nameToken_mem_tokens h)

/-- The types around a type are declared where it is. -/
theorem exists_declares_of_mem_path {ts : List TypeSyntax} (h : Declares ts path t)
    {u : TypeSyntax} (hu : u ∈ path) : ∃ path', Declares ts path' u := by
  induction h with
  | here => cases hu
  | inside hmem _ ih =>
    rcases List.mem_cons.mp hu with rfl | hu
    · exact ⟨[], .here hmem⟩
    · obtain ⟨path', hin⟩ := ih hu
      exact ⟨_, .inside hmem hin⟩

theorem simple_ne_empty_of_mem_path (h : Declares (Outline.ofSource cs).types path t) :
    ∀ u ∈ path, u.simple ≠ "" := by
  intro u hu
  obtain ⟨path', hin⟩ := exists_declares_of_mem_path h hu
  exact simple_ne_empty_of_declares hin

end source
end FaultTolerance.Java.Source
