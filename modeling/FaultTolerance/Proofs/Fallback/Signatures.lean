import FaultTolerance.Fallback

/-! When a method cannot stand in for another one: the check of signatures said position by
position. Types count as the same when their erasures have the same simple name. -/
namespace FaultTolerance.Fallback
open Java
set_option autoImplicit false

def Differ (a b : String) : Prop :=
  Naming.simpleName (Naming.erase a) ≠ Naming.simpleName (Naming.erase b)

/-- Whether `candidate` cannot stand in for `annotated`: it returns another type, or it has parameters
and they are not as many or not of the same types. -/
def Mismatch (annotated candidate : Method) : Prop :=
  Differ annotated.returnType candidate.returnType ∨
    (candidate.parameterTypes ≠ [] ∧
      (candidate.parameterTypes.length ≠ annotated.parameterTypes.length ∨
        ∃ (i : Nat) (a b : String), annotated.parameterTypes[i]? = some a ∧ candidate.parameterTypes[i]? = some b ∧
          Differ a b))

theorem sameErasedSimpleName_eq_false {a b : String} :
    Naming.sameErasedSimpleName a b = false ↔ Differ a b := by
  unfold Naming.sameErasedSimpleName Differ
  exact decide_eq_false_iff_not

theorem all_zip_eq_false {α β : Type} {l : List α} {l' : List β} {r : α → β → Bool} :
    (l.zip l').all (fun (a, b) => r a b) = false ↔
      ∃ (i : Nat) (a : α) (b : β), l[i]? = some a ∧ l'[i]? = some b ∧ r a b = false := by
  rw [List.all_eq_false]
  constructor
  · rintro ⟨⟨a, b⟩, hab, hr⟩
    obtain ⟨i, hi⟩ := List.mem_iff_getElem?.mp hab
    obtain ⟨ha, hb⟩ := List.getElem?_zip_eq_some.mp hi
    exact ⟨i, a, b, ha, hb, Bool.eq_false_iff.mpr hr⟩
  · rintro ⟨i, a, b, ha, hb, hr⟩
    have hab : (l.zip l')[i]? = some (a, b) := List.getElem?_zip_eq_some.mpr ⟨ha, hb⟩
    exact ⟨(a, b), List.mem_of_getElem? hab, Bool.eq_false_iff.mp hr⟩

theorem isCompatible_eq_false {annotated candidate : Method} :
    isCompatible annotated candidate = false ↔ Mismatch annotated candidate := by
  unfold isCompatible Mismatch
  rw [Bool.and_eq_false_iff, Bool.or_eq_false_iff, Bool.and_eq_false_iff,
    sameErasedSimpleName_eq_false, List.isEmpty_eq_false_iff, beq_eq_false_iff_ne, all_zip_eq_false]
  simp only [sameErasedSimpleName_eq_false]

end FaultTolerance.Fallback
