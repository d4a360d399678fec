import FaultTolerance.Proofs.Source.Annotations
import FaultTolerance.Proofs.Source.Bodies.Balanced
import Mathlib.Tactic.SplitIfs

/-! Heads of declarations, read in front of what follows them. A stop ends the modifiers, the type
parameters and the type of a declaration, so each of these is read from the head alone
(`modifiers_append`, `typeParametersOf_append`, `typeOf_append`). -/
namespace FaultTolerance.Java.Source
open Source.Tree
set_option autoImplicit false

/-! ## Stops -/

namespace Tree
variable {x : Tree}

theorem isSymbol_of_ne {t : Tree} {s s' : String} (h : t.isSymbol s) (hne : s ≠ s') :
    t.isSymbol s' = false := by
  cases t with
  | leaf t =>
    simp only [isSymbol, Token.isSymbol, Bool.and_eq_true, beq_iff_eq] at h ⊢
    simp [h.2, hne]
  | group => rfl
  | marked => rfl

theorem word?_of_isStop (hx : x.isStop) : x.word? = none := by
  obtain ⟨_, _, _, rfl⟩ | ⟨token, rfl, hkind, _⟩ := eq_of_isStop hx
  · rfl
  · rw [word?, isWord_of_symbol hkind]
    rfl

theorem isDimension_of_isStop (hx : x.isStop) : x.isDimension = false := by
  obtain ⟨_, _, _, rfl⟩ | ⟨token, rfl, _⟩ := eq_of_isStop hx <;> rfl

theorem isAnnotation_of_isStop (hx : x.isStop) : x.isAnnotation = false := by
  obtain ⟨_, _, _, rfl⟩ | ⟨token, rfl, _⟩ := eq_of_isStop hx <;> rfl

theorem isSymbol_of_isStop (hx : x.isStop) {s : String} (hs : s ∉ stops) :
    x.isSymbol s = false := by
  obtain ⟨_, _, _, rfl⟩ | ⟨token, rfl, _, htext⟩ := eq_of_isStop hx
  · rfl
  · exact isSymbol_of_mem_stops htext hs

theorem isKeyword_of_isStop (hx : x.isStop) (w : String) : x.isKeyword w = false := by
  obtain ⟨_, _, _, rfl⟩ | ⟨token, rfl, hkind, _⟩ := eq_of_isStop hx
  · rfl
  · simp [isKeyword, Token.isKeyword, hkind]

end Tree

section
variable {x : Tree} {ys : List Tree}

/-! ## Modifiers -/

/-- What follows `non-sealed`, whose first word is `a`. -/
def dropSealed? (a : Token) : List Tree → Option (List Tree)
  | .leaf b :: .leaf c :: ts =>
    if a.isKeyword "non" && b.isSymbol "-" && c.isKeyword "sealed" then some ts else none
  | _ => none

theorem length_dropSealed? {a : Token} {ts rest : List Tree} (h : dropSealed? a ts = some rest) :
    rest.length < ts.length := by
  unfold dropSealed? at h
  split at h
  · obtain ⟨_, hrest⟩ := Option.ite_none_right_eq_some.mp h
    rw [← Option.some.inj hrest, List.length_cons, List.length_cons]
    omega
  · cases h

theorem dropSealed?_append (hx : x.isStop) (a : Token) (ts : List Tree) :
    dropSealed? a (ts ++ x :: ys) = (dropSealed? a ts).map (· ++ x :: ys) := by
  have hminus := isSymbol_of_isStop hx (s := "-") (by decide)
  have hkeyword := isKeyword_of_isStop hx "sealed"
  rcases ts with _ | ⟨b | _ | _, _ | ⟨c | _ | _, ts⟩⟩
  case nil =>
    rcases x with _ | _ | _ <;> rcases ys with _ | ⟨_ | _ | _, ys⟩ <;>
      simp_all [dropSealed?, Tree.isSymbol]
  case cons.leaf.nil => rcases x with _ | _ | _ <;> simp_all [dropSealed?, Tree.isKeyword]
  case cons.leaf.cons.leaf =>
    simp only [List.cons_append, dropSealed?]
    split <;> rfl
  all_goals simp [dropSealed?]

theorem modifiers_leaf (a : Token) (ts : List Tree) :
    modifiers (.leaf a :: ts) =
      match dropSealed? a ts with
      | some rest => modifiers rest
      | none =>
        if modifierWords.any fun w => a.isKeyword w then modifiers ts else ([], .leaf a :: ts) := by
  rcases ts with _ | ⟨b | _ | _, _ | ⟨c | _ | _, ts⟩⟩
  case cons.leaf.cons.leaf =>
    rw [modifiers, dropSealed?]
    split <;> rfl
  all_goals simp [modifiers, dropSealed?]

theorem modifiers_stop (hx : x.isStop) : modifiers (x :: ys) = ([], x :: ys) := by
  have hkeyword := isKeyword_of_isStop hx
  cases x with
  | leaf token =>
    have hsealed : dropSealed? token ys = none := by
      have hnon : token.isKeyword "non" = false := hkeyword "non"
      unfold dropSealed?
      split
      · rw [hnon]
        rfl
      · rfl
    have hmodifier : (modifierWords.any fun w => token.isKeyword w) = false :=
      List.any_eq_false.mpr fun w _ => Bool.not_eq_true _ ▸ hkeyword w
    rw [modifiers_leaf, hsealed, hmodifier]
    rfl
  | group => simp [modifiers]
  | marked => cases hx

theorem modifiers_append (hx : x.isStop) (ts : List Tree) :
    modifiers (ts ++ x :: ys) = ((modifiers ts).1, (modifiers ts).2 ++ x :: ys) := by
  -- by the number of trees: `non-sealed` takes three of them at once
  match ts with
  | [] => exact modifiers_stop hx
  | .leaf a :: ts =>
    rw [List.cons_append, modifiers_leaf, modifiers_leaf, dropSealed?_append hx]
    cases hsealed : dropSealed? a ts with
    | some rest =>
      have := length_dropSealed? hsealed
      exact modifiers_append hx rest
    | none =>
      simp only [Option.map_none]
      split
      · exact modifiers_append hx ts
      · rfl
  | .group .. :: ts => simp [modifiers]
  | .marked mark name arguments :: ts => simp [modifiers, modifiers_append hx ts]
termination_by ts.length

theorem skipAnnotations_append (hx : x.isStop) (ts : List Tree) :
    skipAnnotations (ts ++ x :: ys) = skipAnnotations ts ++ x :: ys := by
  unfold skipAnnotations
  induction ts with
  | nil => rw [List.nil_append, List.dropWhile_cons_of_neg (by simp [isAnnotation_of_isStop hx])]; rfl
  | cons t ts ih =>
    rw [List.cons_append, List.dropWhile_cons, List.dropWhile_cons, ih]
    split <;> rfl

/-! ## Angle brackets -/

/-- Whether some trees close `depth` angle brackets, and every one that they open. -/
def anglesClosed : Nat → List Tree → Bool
  | depth, [] => depth == 0
  | depth, t :: ts =>
    if t.isSymbol "<" then anglesClosed (depth + 1) ts
    else if t.isSymbol ">" then depth != 0 && anglesClosed (depth - 1) ts
    else anglesClosed depth ts

theorem anglesClosed_cons_open {t : Tree} (h : t.isSymbol "<") (depth : Nat) (ts : List Tree) :
    anglesClosed depth (t :: ts) = anglesClosed (depth + 1) ts := by
  rw [anglesClosed, if_pos h]

theorem anglesClosed_cons_close {t : Tree} (h : t.isSymbol ">") (depth : Nat) (ts : List Tree) :
    anglesClosed (depth + 1) (t :: ts) = anglesClosed depth ts := by
  rw [anglesClosed, isSymbol_of_ne h (by decide : ">" ≠ "<"), if_neg (by decide), if_pos h]
  simp

theorem isSymbol_eq_false {t : Tree} (h : t.word?.isSome ∨ t.isDimension ∨ t.isAnnotation)
    (s : String) : t.isSymbol s = false := by
  cases t with
  | leaf t =>
    rcases h with h | h | h
    · have hword : t.isWord := by
        rw [Tree.word?] at h
        split at h
        · assumption
        · cases h
      have hkind : t.kind = .word := by simpa [Token.isWord] using hword
      simp [Tree.isSymbol, Token.isSymbol, hkind]
    · cases h
    · cases h
  | group => rfl
  | marked => rfl

theorem anglesClosed_cons_other {t : Tree} (h : t.isSymbol "<" = false)
    (h' : t.isSymbol ">" = false) (depth : Nat) (ts : List Tree) :
    anglesClosed depth (t :: ts) = anglesClosed depth ts := by
  rw [anglesClosed, h, h', if_neg (by decide), if_neg (by decide)]

theorem anglesClosed_cons_word {t : Token} (h : t.isWord) (depth : Nat) (ts : List Tree) :
    anglesClosed depth (.leaf t :: ts) = anglesClosed depth ts := by
  have hword : (Tree.leaf t).word?.isSome := by simp [Tree.word?, h]
  exact anglesClosed_cons_other (isSymbol_eq_false (.inl hword) "<")
    (isSymbol_eq_false (.inl hword) ">") depth ts

theorem anglesClosed_cons_marked (mark : Token) (name : List Token) (arguments : Option Tree)
    (depth : Nat) (ts : List Tree) :
    anglesClosed depth (.marked mark name arguments :: ts) = anglesClosed depth ts :=
  anglesClosed_cons_other rfl rfl depth ts

theorem splitAngles_append {depth : Nat} {ts : List Tree} (h : anglesClosed (depth + 1) ts)
    (zs : List Tree) :
    splitAngles depth (ts ++ zs) = ((splitAngles depth ts).1, (splitAngles depth ts).2 ++ zs) ∧
      anglesClosed 0 (splitAngles depth ts).2 := by
  induction ts generalizing depth with
  | nil => simp [anglesClosed] at h
  | cons t ts ih =>
    rw [List.cons_append]
    by_cases hclose : t.isSymbol ">"
    · rw [anglesClosed_cons_close hclose] at h
      cases depth with
      | zero => simpa [splitAngles, hclose] using h
      | succ depth =>
        obtain ⟨hsplit, hrest⟩ := ih h
        simp [splitAngles, hclose, hsplit, hrest]
    · rw [Bool.not_eq_true] at hclose
      by_cases hopen : t.isSymbol "<"
      · rw [anglesClosed_cons_open hopen] at h
        obtain ⟨hsplit, hrest⟩ := ih h
        simp [splitAngles, hclose, hopen, hsplit, hrest]
      · rw [Bool.not_eq_true] at hopen
        rw [anglesClosed_cons_other hopen hclose] at h
        obtain ⟨hsplit, hrest⟩ := ih h
        simp [splitAngles, hclose, hopen, hsplit, hrest]

theorem typeParametersOf_append (hx : x.isStop) {ts : List Tree} (h : anglesClosed 0 ts)
    (ys : List Tree) :
    typeParametersOf (ts ++ x :: ys) =
        ((typeParametersOf ts).1, (typeParametersOf ts).2 ++ x :: ys) ∧
      anglesClosed 0 (typeParametersOf ts).2 := by
  have hangle := isSymbol_of_isStop hx (s := "<") (by decide)
  rcases ts with _ | ⟨t | _ | _, ts⟩
  case nil => rcases x with _ | _ | _ <;> simp_all [typeParametersOf, Tree.isSymbol]
  case cons.leaf =>
    by_cases hopen : t.isSymbol "<"
    · rw [anglesClosed_cons_open (t := .leaf t) hopen] at h
      obtain ⟨hsplit, hrest⟩ := splitAngles_append h (x :: ys)
      simp [typeParametersOf, hopen, hsplit, hrest]
    · simp [typeParametersOf, hopen, h]
  all_goals simp [typeParametersOf, h]

theorem anglesClosed_skipAnnotations {ts : List Tree} (h : anglesClosed 0 ts) :
    anglesClosed 0 (skipAnnotations ts) := by
  unfold skipAnnotations
  induction ts with
  | nil => exact h
  | cons t ts ih =>
    rw [List.dropWhile_cons]
    split
    · rename_i hannotation
      cases t with
      | marked => exact ih h
      | leaf => cases hannotation
      | group => cases hannotation
    · exact h

theorem anglesClosed_modifiers {ts : List Tree} (h : anglesClosed 0 ts) :
    anglesClosed 0 (modifiers ts).2 := by
  have hkeyword : ∀ {a : Token}, (modifierWords.any fun w => a.isKeyword w) → a.isWord := by
    intro a ha
    obtain ⟨w, _, hw⟩ := List.any_eq_true.mp ha
    exact isWord_of_isKeyword hw
  fun_induction modifiers ts with
  | case1 a b c ts hsealed ih =>
    simp only [Bool.and_eq_true] at hsealed
    obtain ⟨⟨ha, hb⟩, hc⟩ := hsealed
    have hminus : (Tree.leaf b).isSymbol "-" := hb
    rw [anglesClosed_cons_word (isWord_of_isKeyword ha),
      anglesClosed_cons_other (isSymbol_of_ne hminus (by decide))
        (isSymbol_of_ne hminus (by decide)),
      anglesClosed_cons_word (isWord_of_isKeyword hc)] at h
    exact ih h
  | case2 a b c ts _ ha ih =>
    rw [anglesClosed_cons_word (hkeyword ha)] at h
    exact ih h
  | case4 a ts _ ha ih =>
    rw [anglesClosed_cons_word (hkeyword ha)] at h
    exact ih h
  | case6 mark name arguments ts as rest hrest ih =>
    rw [anglesClosed_cons_marked] at h
    rw [hrest] at ih
    exact ih h
  | case3 | case5 | case7 => exact h

/-! ## Types -/

/-- The number of angle brackets that a type still has to close. -/
def TypeState.depth : TypeState → Nat
  | .angles depth => depth + 1
  | _ => 0

theorem TypeState.next_append (hx : x.isStop) (s : TypeState) (t : Tree) (rest : List Tree) :
    s.next t (rest ++ x :: ys) = s.next t rest := by
  have hdimension : (skipAnnotations (rest ++ x :: ys)).head?.any Tree.isDimension =
      (skipAnnotations rest).head?.any Tree.isDimension := by
    rw [skipAnnotations_append hx]
    cases skipAnnotations rest with
    | nil => exact isDimension_of_isStop hx
    | cons u us => rfl
  unfold TypeState.next
  rw [hdimension]

theorem TypeState.next_stop (hx : x.isStop) {s : TypeState} (hs : s.depth = 0) :
    s.next x ys = none := by
  have hdot := isSymbol_of_isStop hx (s := ".") (by decide)
  have hangle := isSymbol_of_isStop hx (s := "<") (by decide)
  cases s <;> simp_all [TypeState.next, TypeState.depth, isDimension_of_isStop hx,
    isAnnotation_of_isStop hx, word?_of_isStop hx]

/-- Outside type arguments a tree that a type goes on with opens them or is no angle bracket. -/
theorem TypeState.next_outside {s s' : TypeState} {t : Tree} {rest : List Tree} (hs : s.depth = 0)
    (h : s.next t rest = some s') :
    t.isSymbol "<" ∧ s' = .angles 0 ∨
      s'.depth = 0 ∧ t.isSymbol "<" = false ∧ t.isSymbol ">" = false := by
  have hdot : t.isSymbol "." → t.isSymbol "<" = false ∧ t.isSymbol ">" = false :=
    fun hdot => ⟨isSymbol_of_ne hdot (by decide), isSymbol_of_ne hdot (by decide)⟩
  have hpart : t.word?.isSome ∨ t.isDimension ∨ t.isAnnotation →
      t.isSymbol "<" = false ∧ t.isSymbol ">" = false :=
    fun h => ⟨isSymbol_eq_false h "<", isSymbol_eq_false h ">"⟩
  cases s with
  | angles depth => cases hs
  | name =>
    simp only [TypeState.next] at h
    split_ifs at h with hword hannotation
    · exact .inr ⟨Option.some.inj h ▸ rfl, hpart (.inl hword)⟩
    · exact .inr ⟨Option.some.inj h ▸ rfl, hpart (.inr (.inr hannotation))⟩
  | afterName =>
    simp only [TypeState.next] at h
    split_ifs at h with hopen hname hdimension hannotation
    · exact .inl ⟨hopen, (Option.some.inj h).symm⟩
    · exact .inr ⟨Option.some.inj h ▸ rfl, hdot hname⟩
    · exact .inr ⟨Option.some.inj h ▸ rfl, hpart (.inr (.inl hdimension))⟩
    · exact .inr ⟨Option.some.inj h ▸ rfl, hpart (.inr (.inr (by simp_all)))⟩
  | dimensions =>
    simp only [TypeState.next] at h
    split_ifs at h with hdimension hannotation
    · exact .inr ⟨Option.some.inj h ▸ rfl, hpart (.inr (.inl hdimension))⟩
    · exact .inr ⟨Option.some.inj h ▸ rfl, hpart (.inr (.inr (by simp_all)))⟩

theorem anglesClosed_next {s s' : TypeState} {t : Tree} {ts rest : List Tree}
    (hnext : s.next t rest = some s') (h : anglesClosed s.depth (t :: ts)) :
    anglesClosed s'.depth ts := by
  cases s with
  | angles depth =>
    -- everything but an angle bracket goes on with the type arguments
    simp only [TypeState.next] at hnext
    split_ifs at hnext with hopen hclose
    · rw [anglesClosed_cons_open hopen] at h
      exact Option.some.inj hnext ▸ h
    · rw [TypeState.depth, anglesClosed_cons_close hclose] at h
      cases depth <;> exact Option.some.inj hnext ▸ h
    · rw [Bool.not_eq_true] at hopen hclose
      rw [anglesClosed_cons_other hopen hclose] at h
      exact Option.some.inj hnext ▸ h
  | _ =>
    obtain ⟨hopen, rfl⟩ | ⟨hdepth, hopen, hclose⟩ := TypeState.next_outside rfl hnext
    · rwa [anglesClosed_cons_open hopen] at h
    · rw [anglesClosed_cons_other hopen hclose] at h
      rwa [hdepth]

theorem typeRest_append (hx : x.isStop) {s : TypeState} {ts : List Tree}
    (h : anglesClosed s.depth ts) :
    typeRest s (ts ++ x :: ys) = ((typeRest s ts).1, (typeRest s ts).2 ++ x :: ys) := by
  -- the stop ends the type only outside type arguments, so the induction carries their depth
  induction ts generalizing s with
  | nil =>
    have hdepth : s.depth = 0 := by simpa [anglesClosed] using h
    simp only [List.nil_append, typeRest, TypeState.next_stop hx hdepth]
  | cons t ts ih =>
    rw [List.cons_append, typeRest, typeRest, TypeState.next_append hx]
    cases hnext : s.next t ts with
    | none => rfl
    | some s' => simp only [ih (anglesClosed_next hnext h)]

theorem typeOf_append (hx : x.isStop) {ts : List Tree} (h : anglesClosed 0 ts) :
    typeOf (ts ++ x :: ys) = ((typeOf ts).1, (typeOf ts).2 ++ x :: ys) := by
  have hword := word?_of_isStop hx
  rcases ts with _ | ⟨w | _ | _, ts⟩
  case nil => rcases x with _ | _ | _ <;> simp_all [typeOf, Tree.word?]
  case cons.leaf =>
    by_cases hw : w.isWord
    · have hrest : anglesClosed TypeState.afterName.depth ts := by
        rwa [anglesClosed_cons_word hw] at h
      simp [typeOf, hw, typeRest_append hx hrest]
    · simp [typeOf, hw]
  all_goals simp [typeOf]

end
end FaultTolerance.Java.Source
