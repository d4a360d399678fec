import Mathlib.Data.List.Basic
import Mathlib.Data.List.Nodup

/-! Lists of keyed elements in which the first element of a key stands for all of them.
`firstOfEach key` drops the others. It commutes with filters and maps that respect the key, and it
treats an appended list as if the keys of the first list were filtered out of it. -/
namespace FaultTolerance
set_option autoImplicit false

/-- The first element of each key, in the order of the list. -/
def firstOfEach {α κ : Type} [BEq κ] (key : α → κ) (l : List α) : List α :=
  l.eraseDupsBy fun a b => key a == key b

namespace FirstOfEach
variable {α β κ : Type} [BEq κ] (key : α → κ)

/-! ## Equations -/

theorem firstOfEach_nil : firstOfEach key [] = [] := rfl

theorem firstOfEach_cons_filter (a : α) (l : List α) :
    firstOfEach key (a :: l) = a :: firstOfEach key (l.filter fun b => key b != key a) := by
  unfold firstOfEach
  rw [List.eraseDupsBy_cons]
  congr 2
  apply List.filter_congr
  intro b _
  by_cases h : key b == key a <;> simp [h, bne]

variable [LawfulBEq κ]

theorem firstOfEach_filter (q : κ → Bool) (l : List α) :
    firstOfEach key (l.filter fun a => q (key a)) =
      (firstOfEach key l).filter fun a => q (key a) := by
  -- The recursion of `firstOfEach` is on a filtered tail, so the induction is on the length.
  induction hn : l.length using Nat.strongRecOn generalizing l with
  | ind n ih =>
    cases l with
    | nil => rfl
    | cons a l =>
      have hlt : (l.filter fun b => key b != key a).length < n := by
        have := List.length_filter_le (fun b => key b != key a) l
        rw [List.length_cons] at hn
        omega
      have htail := ih _ hlt (l.filter fun b => key b != key a) rfl
      rw [firstOfEach_cons_filter]
      by_cases hq : q (key a)
      · rw [List.filter_cons_of_pos (by exact hq), List.filter_cons_of_pos (by exact hq),
          firstOfEach_cons_filter, ← htail]
        simp only [List.filter_filter, Bool.and_comm]
      · rw [List.filter_cons_of_neg (by exact hq), List.filter_cons_of_neg (by exact hq), ← htail,
          List.filter_filter]
        congr 1
        apply List.filter_congr
        intro b _
        by_cases hb : q (key b)
        · have hne : key b ≠ key a := fun e => hq (e ▸ hb)
          simp [hb, hne]
        · simp [hb]

theorem firstOfEach_cons (a : α) (l : List α) :
    firstOfEach key (a :: l) = a :: (firstOfEach key l).filter fun b => key b != key a := by
  rw [firstOfEach_cons_filter, firstOfEach_filter key (fun k => k != key a)]

theorem firstOfEach_append (l l' : List α) :
    firstOfEach key (l ++ l') =
      firstOfEach key l ++ (firstOfEach key l').filter fun b => !(l.map key).contains (key b) := by
  induction l with
  | nil => simp [firstOfEach_nil]
  | cons a l ih =>
    rw [List.cons_append, firstOfEach_cons, ih, firstOfEach_cons, List.filter_append,
      List.filter_filter, List.cons_append]
    congr 2
    apply List.filter_congr
    intro b _
    rw [List.map_cons, List.contains_cons, Bool.not_or]
    rfl

/-! ## What is kept -/

theorem firstOfEach_sublist (l : List α) : (firstOfEach key l).Sublist l := by
  induction l with
  | nil => exact List.Sublist.refl _
  | cons a l ih =>
    rw [firstOfEach_cons]
    exact (List.filter_sublist.trans ih).cons_cons a

theorem mem_map_firstOfEach (l : List α) (k : κ) :
    k ∈ (firstOfEach key l).map key ↔ k ∈ l.map key := by
  induction l with
  | nil => rfl
  | cons a l ih =>
    rw [firstOfEach_cons, List.map_cons, List.map_cons, List.mem_cons, List.mem_cons, ← ih]
    by_cases h : k = key a
    · simp [h]
    · have hf : k ∈ ((firstOfEach key l).filter fun b => key b != key a).map key ↔
          k ∈ (firstOfEach key l).map key := by
        simp only [List.mem_map, List.mem_filter, bne_iff_ne]
        constructor
        · rintro ⟨b, ⟨hb, _⟩, rfl⟩
          exact ⟨b, hb, rfl⟩
        · rintro ⟨b, hb, rfl⟩
          exact ⟨b, ⟨hb, h⟩, rfl⟩
      rw [hf]

theorem any_firstOfEach (l : List α) (k : κ) :
    ((firstOfEach key l).any fun a => key a == k) = (l.map key).contains k := by
  rw [Bool.eq_iff_iff, List.any_eq_true, List.contains_iff_mem, ← mem_map_firstOfEach, List.mem_map]
  simp only [beq_iff_eq]

theorem nodup_map_firstOfEach (l : List α) : ((firstOfEach key l).map key).Nodup := by
  induction l with
  | nil => exact List.nodup_nil
  | cons a l ih =>
    rw [firstOfEach_cons, List.map_cons, List.nodup_cons]
    constructor
    · rintro h
      obtain ⟨b, hb, he⟩ := List.mem_map.mp h
      exact (bne_iff_ne.mp (List.mem_filter.mp hb).2) he
    · exact ih.sublist (List.filter_sublist.map key)

theorem find?_firstOfEach (l : List α) (k : κ) :
    (firstOfEach key l).find? (fun a => key a == k) = l.find? fun a => key a == k := by
  induction l with
  | nil => rfl
  | cons a l ih =>
    rw [firstOfEach_cons]
    by_cases h : key a == k
    · rw [List.find?_cons_of_pos (by exact h), List.find?_cons_of_pos (by exact h)]
    · rw [List.find?_cons_of_neg (by exact h), List.find?_cons_of_neg (by exact h), ← ih,
        List.find?_filter]
      congr 1
      funext b
      by_cases hb : key b == k
      · have hne : key b ≠ key a := fun e => h (e ▸ hb)
        simp [hb, hne]
      · simp [hb]

theorem firstOfEach_append_of_known (l l' : List α) (h : ∀ b ∈ l', key b ∈ l.map key) :
    firstOfEach key (l ++ l') = firstOfEach key l := by
  have hnone : ((firstOfEach key l').filter fun b => !(l.map key).contains (key b)) = [] := by
    rw [List.filter_eq_nil_iff]
    intro b hb
    have hk := h b ((firstOfEach_sublist key l').subset hb)
    simpa using hk
  rw [firstOfEach_append, hnone, List.append_nil]

theorem firstOfEach_append_of_fresh (l l' : List α) (h : ∀ b ∈ l', key b ∉ l.map key) :
    firstOfEach key (l ++ l') = firstOfEach key l ++ firstOfEach key l' := by
  have hall : ∀ b ∈ firstOfEach key l', (!(l.map key).contains (key b)) = true := by
    intro b hb
    have hk := h b ((firstOfEach_sublist key l').subset hb)
    simpa using hk
  rw [firstOfEach_append, List.filter_eq_self.mpr hall]

theorem firstOfEach_of_nodup {l : List α} (h : (l.map key).Nodup) : firstOfEach key l = l := by
  induction l with
  | nil => rfl
  | cons a l ih =>
    rw [List.map_cons, List.nodup_cons] at h
    rw [firstOfEach_cons, ih h.2, List.filter_eq_self.mpr]
    intro b hb
    rw [bne_iff_ne]
    exact fun he => h.1 (he ▸ List.mem_map_of_mem hb)

theorem firstOfEach_of_forall_eq {l : List α} {x : α} (h : ∀ a ∈ l, a = x) (hne : l ≠ []) :
    firstOfEach key l = [x] := by
  cases l with
  | nil => exact absurd rfl hne
  | cons a l =>
    obtain rfl := h a List.mem_cons_self
    rw [firstOfEach_cons_filter, List.filter_eq_nil_iff.mpr, firstOfEach_nil]
    intro b hb
    simp [h b (List.mem_cons_of_mem _ hb)]

theorem firstOfEach_singleton (a : α) : firstOfEach key [a] = [a] := by
  rw [firstOfEach_cons, firstOfEach_nil, List.filter_nil]

theorem firstOfEach_concat (l : List α) (a : α) :
    firstOfEach key (l ++ [a]) =
      if (l.map key).contains (key a) then firstOfEach key l else firstOfEach key l ++ [a] := by
  split
  · rename_i h
    exact firstOfEach_append_of_known key l [a] (by simpa using h)
  · rename_i h
    rw [firstOfEach_append, firstOfEach_singleton, List.filter_cons_of_pos (by simpa using h),
      List.filter_nil]

/-- Where the parts of a list share no key, the first elements are those of each part. -/
theorem firstOfEach_flatMap {γ : Type} (f : γ → List α) {xs : List γ}
    (h : xs.Pairwise fun x y => ∀ a ∈ f x, ∀ b ∈ f y, key b ≠ key a) :
    firstOfEach key (xs.flatMap f) = xs.flatMap fun x => firstOfEach key (f x) := by
  induction xs with
  | nil => rfl
  | cons x xs ih =>
    obtain ⟨hx, hxs⟩ := List.pairwise_cons.mp h
    have hfresh : ∀ b ∈ xs.flatMap f, key b ∉ (f x).map key := by
      intro b hb hk
      obtain ⟨y, hy, hb⟩ := List.mem_flatMap.mp hb
      obtain ⟨a, ha, he⟩ := List.mem_map.mp hk
      exact hx y hy a ha b hb he.symm
    rw [List.flatMap_cons, firstOfEach_append_of_fresh key _ _ hfresh, ih hxs, List.flatMap_cons]

/-! ## Change of keys -/

theorem firstOfEach_map (f : β → α) (l : List β) :
    firstOfEach key (l.map f) = (firstOfEach (fun b => key (f b)) l).map f := by
  induction l with
  | nil => rfl
  | cons b l ih =>
    rw [List.map_cons, firstOfEach_cons, firstOfEach_cons (fun b => key (f b)), List.map_cons, ih,
      List.filter_map]
    rfl

theorem firstOfEach_congr {κ' : Type} [BEq κ'] [LawfulBEq κ'] (key' : α → κ') (l : List α)
    (h : ∀ a ∈ l, ∀ b ∈ l, key a = key b ↔ key' a = key' b) :
    firstOfEach key l = firstOfEach key' l := by
  induction l with
  | nil => rfl
  | cons a l ih =>
    have htail : firstOfEach key l = firstOfEach key' l :=
      ih fun b hb c hc => h b (List.mem_cons_of_mem _ hb) c (List.mem_cons_of_mem _ hc)
    rw [firstOfEach_cons, firstOfEach_cons, htail]
    congr 1
    apply List.filter_congr
    intro b hb
    have hab := h b (List.mem_cons_of_mem _ ((firstOfEach_sublist key' l).subset hb)) a
      List.mem_cons_self
    rw [Bool.eq_iff_iff, bne_iff_ne, bne_iff_ne, ne_eq, ne_eq, hab]

end FirstOfEach

/-! ## Lists put together from parts -/

theorem infix_flatMap_of_mem {α β : Type} (f : α → List β) {xs : List α} {x : α} (h : x ∈ xs) :
    f x <:+: xs.flatMap f := by
  obtain ⟨before, after, rfl⟩ := List.append_of_mem h
  rw [List.flatMap_append, List.flatMap_cons, ← List.append_assoc]
  exact List.infix_append ..

/-- A filter that goes by the parts of a list keeps whole parts. -/
theorem filter_flatMap_of_forall {α β : Type} {f : α → List β} {p : α → Bool} {q : β → Bool}
    {xs : List α} (h : ∀ x ∈ xs, ∀ y ∈ f x, q y = p x) :
    (xs.flatMap f).filter q = (xs.filter p).flatMap f := by
  induction xs with
  | nil => rfl
  | cons x xs ih =>
    obtain ⟨hx, hxs⟩ := List.forall_mem_cons.mp h
    rw [List.flatMap_cons, List.filter_append, ih hxs]
    by_cases hp : p x
    · have hall : (f x).filter q = f x := by
        rw [List.filter_eq_self]
        intro y hy
        rw [hx y hy, hp]
      rw [hall, List.filter_cons_of_pos hp, List.flatMap_cons]
    · have hnone : (f x).filter q = [] := by
        rw [List.filter_eq_nil_iff]
        intro y hy
        rw [hx y hy]
        exact hp
      rw [hnone, List.filter_cons_of_neg hp, List.nil_append]

end FaultTolerance
