import FaultTolerance.Proofs.Text.Scan
import FaultTolerance.Text.Affix

/-! Positions read back in their text. `Position.split?` goes to a position by counting terminators
and UTF-16 units from the start of the text. Where an offset stands between two characters, and not
inside `\r\n`, the position that a line table gives for it leads back to that place
(`split?_position`). -/
namespace FaultTolerance.Text
set_option autoImplicit false

/-! ## Places in a text -/

/-- Splits off the first line with its terminator; nothing when the text has no further line. -/
def splitLine? : List Char → Option (List Char × List Char)
  | [] => none
  | '\r' :: '\n' :: cs => some (['\r', '\n'], cs)
  | c :: cs =>
    if isTerminator c then some ([c], cs)
    else (splitLine? cs).map fun (line, rest) => (c :: line, rest)

/-- Splits a text so many UTF-16 units into its first line; nothing when the line is shorter or the
place is inside a character. -/
def splitColumn? : Nat → List Char → Option (List Char × List Char)
  | 0, cs => some ([], cs)
  | _ + 1, [] => none
  | n + 1, c :: cs =>
    if isTerminator c || n + 1 < units16 c then none
    else (splitColumn? (n + 1 - units16 c) cs).map fun (a, b) => (c :: a, b)

/-- Splits a text at a column of the line of a number. -/
def splitFrom? (column : Nat) : Nat → List Char → Option (List Char × List Char)
  | 0, cs => splitColumn? column cs
  | n + 1, cs =>
    (splitLine? cs).bind fun (line, rest) =>
      (splitFrom? column n rest).map fun (a, b) => (line ++ a, b)

/-- What stands before a position and what stands after it. -/
def Position.split? (p : Position) (cs : List Char) : Option (List Char × List Char) :=
  splitFrom? p.character p.line cs

/-- The text of a range. -/
def Range.slice? (r : Range) (cs : List Char) : Option (List Char) :=
  (r.start.split? cs).bind fun (before, _) =>
    (r.stop.split? cs).bind fun (upTo, _) => stripStart? before upTo

/-! ## Splitting lines -/

theorem splitLine?_cons {c : Char} (hc : isTerminator c = false) (cs : List Char) :
    splitLine? (c :: cs) = (splitLine? cs).map fun (line, rest) => (c :: line, rest) := by
  have hr : c ≠ '\r' := by
    rintro rfl
    cases hc
  rw [splitLine?, if_neg (by simp [hc])]
  exact fun _ he => absurd he hr

theorem splitLine?_endsLine {rest mark : List Char} (hmark : EndsLine rest mark) :
    splitLine? (mark ++ rest) = some (mark, rest) := by
  cases hmark with
  | both => rfl
  | newline => rfl
  | «return» hnext =>
    rw [List.singleton_append, splitLine?]
    · exact if_pos rfl
    · rintro cs - rfl
      exact hnext rfl

theorem splitLine?_line {line : List Char} (hline : Plain line) {rest mark : List Char}
    (hmark : EndsLine rest mark) : splitLine? (line ++ (mark ++ rest)) = some (line ++ mark, rest) := by
  induction line with
  | nil => exact splitLine?_endsLine hmark
  | cons c line ih =>
    obtain ⟨hc, hline⟩ := List.forall_mem_cons.mp hline
    rw [List.cons_append, splitLine?_cons hc, ih hline]
    rfl

theorem splitColumn?_cons {c : Char} (hc : isTerminator c = false) (n : Nat) (cs : List Char) :
    splitColumn? (units16 c + n) (c :: cs) =
      (splitColumn? n cs).map fun (a, b) => (c :: a, b) := by
  obtain ⟨m, hm⟩ : ∃ m, units16 c + n = m + 1 := ⟨units16 c + n - 1, by have := units16_pos c; omega⟩
  have hn : m + 1 - units16 c = n := by omega
  rw [hm, splitColumn?, if_neg, hn]
  rw [hc, Bool.false_or, decide_eq_true_eq]
  omega

theorem splitColumn?_line {line : List Char} (hline : Plain line) (tail : List Char) :
    splitColumn? (size16 line) (line ++ tail) = some (line, tail) := by
  induction line with
  | nil => rw [size16, List.nil_append, splitColumn?]
  | cons c line ih =>
    obtain ⟨hc, hline⟩ := List.forall_mem_cons.mp hline
    have hsize : size16 (c :: line) = units16 c + size16 line := rfl
    rw [hsize, List.cons_append, splitColumn?_cons hc, ih hline]
    rfl

/-! ## From an offset to its place -/

/-- A scan from the start of a line leads to a position that the line and those after it have at the
place where it stops. -/
theorem exists_splitFrom? {pre post : List Char} (h : ¬InsideTerminator pre post) (l : Nat) :
    ∃ k column, scan ⟨l, 0⟩ (byteSize pre) (pre ++ post) = ⟨l + k, column⟩ ∧
      splitFrom? column k (pre ++ post) = some (pre, post) := by
  induction hsize : byteSize pre using Nat.strongRecOn generalizing pre l with
  | ind size ih =>
    rcases exists_line pre with hplain | ⟨line, mark, rest, rfl, hline, hmark⟩
    · have hscan := scan_line hplain ⟨l, 0⟩ 0 post
      rw [Nat.add_zero, Nat.zero_add, scan_zero] at hscan
      exact ⟨0, size16 pre, hsize ▸ hscan, splitColumn?_line hplain post⟩
    · have hrest : ¬InsideTerminator rest post := fun hin => h (hin.append_left (line ++ mark))
      have hends : EndsLine (rest ++ post) mark := hmark.append fun hin => h (by
        rw [List.append_assoc]
        exact hin.append_left line)
      have hpos := hmark.size_pos
      simp only [byteSize_append] at hsize
      obtain ⟨k, column, hscan, hplace⟩ := ih (byteSize rest) (by omega) hrest (l + 1) rfl
      refine ⟨k + 1, column, ?_, ?_⟩
      · rw [← hsize, Nat.add_assoc, List.append_assoc, List.append_assoc, scan_line hline,
          scan_endsLine hends, hscan, Nat.add_assoc, Nat.add_comm 1]
      · rw [List.append_assoc, List.append_assoc, splitFrom?, splitLine?_line hline hends,
          Option.bind_some]
        simp [hplace]

/-- The position of an offset between two characters leads back to the place of the offset, unless
this is inside `\r\n`. -/
theorem split?_position {pre post : List Char} (h : ¬InsideTerminator pre post) :
    ((LineTable.ofText (pre ++ post)).position (byteSize pre)).split? (pre ++ post) =
      some (pre, post) := by
  obtain ⟨k, column, hscan, hplace⟩ := exists_splitFrom? h 0
  have hsize : min (byteSize pre) (byteSize (pre ++ post)) = byteSize pre := by
    rw [byteSize_append]
    omega
  rw [LineTable.position_ofText, hsize, hscan, Nat.zero_add]
  exact hplace

theorem slice?_range {pre mid post : List Char} (hstart : ¬InsideTerminator pre (mid ++ post))
    (hstop : ¬InsideTerminator (pre ++ mid) post) :
    ((LineTable.ofText (pre ++ mid ++ post)).range (byteSize pre)
      (byteSize (pre ++ mid))).slice? (pre ++ mid ++ post) = some mid := by
  have hbefore := split?_position hstart
  have hupTo := split?_position hstop
  rw [← List.append_assoc] at hbefore
  unfold Range.slice? LineTable.range
  simp only [hbefore, hupTo, Option.bind_some]
  exact stripStart?_eq_some_iff.mpr rfl

end FaultTolerance.Text
