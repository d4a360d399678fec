/-! Prefixes and suffixes of a text given as a list of characters. An affix is removed at most
once, and only where it stands at the very start or the very end. -/
namespace FaultTolerance.Text

/-- What follows `pre`, when the text begins with it. -/
def stripStart? : List Char → List Char → Option (List Char)
  | [], cs => some cs
  | _ :: _, [] => none
  | p :: pre, c :: cs => if p = c then stripStart? pre cs else none

/-- What stands before `suf`, when the text ends with it. -/
def stripEnd? (suf cs : List Char) : Option (List Char) :=
  (stripStart? suf.reverse cs.reverse).map List.reverse

theorem stripStart?_eq_some_iff {pre cs rest : List Char} :
    stripStart? pre cs = some rest ↔ cs = pre ++ rest := by
  induction pre generalizing cs with
  | nil => simp [stripStart?, eq_comm]
  | cons p pre ih =>
    cases cs with
    | nil => simp [stripStart?]
    | cons c cs =>
      by_cases h : p = c
      · simp [stripStart?, h, ih]
      · simp [stripStart?, h, Ne.symm h]

theorem stripEnd?_eq_some_iff {suf cs rest : List Char} :
    stripEnd? suf cs = some rest ↔ cs = rest ++ suf := by
  simp only [stripEnd?, Option.map_eq_some_iff, stripStart?_eq_some_iff]
  constructor
  · rintro ⟨r, h, rfl⟩
    simpa using congrArg List.reverse h
  · rintro rfl
    exact ⟨rest.reverse, by simp, by simp⟩

/-- The part after the last character of the class `sep`, or all of the text. -/
def lastSegment (sep : Char → Bool) (cs : List Char) : List Char :=
  (cs.reverse.takeWhile fun c => !sep c).reverse

section lastSegment
variable {sep : Char → Bool} {pre cs : List Char}

theorem lastSegment_append (hcs : ∀ d ∈ cs, sep d = false) :
    lastSegment sep (pre ++ cs) = lastSegment sep pre ++ cs := by
  have hrev : ∀ d ∈ cs.reverse, (!sep d) = true := by
    intro d hd
    rw [hcs d (List.mem_reverse.mp hd)]
    rfl
  rw [lastSegment, lastSegment, List.reverse_append, List.takeWhile_append_of_pos hrev,
    List.reverse_append, List.reverse_reverse]

theorem lastSegment_self (hcs : ∀ d ∈ cs, sep d = false) : lastSegment sep cs = cs := by
  have h : lastSegment sep ([] ++ cs) = lastSegment sep [] ++ cs := lastSegment_append hcs
  exact h

/-- Nothing in front of a separator counts. -/
theorem lastSegment_append_cons {c : Char} (hc : sep c = true) :
    lastSegment sep (pre ++ c :: cs) = lastSegment sep cs := by
  rw [lastSegment, lastSegment, List.reverse_append, List.reverse_cons, List.append_assoc,
    List.singleton_append, List.takeWhile_append, List.takeWhile_cons_of_neg (by simp [hc]),
    List.append_nil]
  split
  · rename_i hall
    rw [(List.takeWhile_prefix _).eq_of_length hall]
  · rfl

end lastSegment

end FaultTolerance.Text
