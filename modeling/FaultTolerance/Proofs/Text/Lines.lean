import FaultTolerance.Text.LineTable
import Mathlib.Data.List.Basic
import Mathlib.Order.Basic

/-! The lines of a text. `Lines` cuts a text at its terminators, line by line, and a line table lists
where these lines start and end (`lines_ofText`). As the starts grow, halving finds the one line that an
offset belongs to (`LineTable.lineOf_eq`). -/
namespace FaultTolerance.Text
set_option autoImplicit false

/-! ## Parts of a text -/

theorem splitBytes?_eq_some_iff {n : Nat} {cs a b : List Char} :
    splitBytes? n cs = some (a, b) ↔ cs = a ++ b ∧ byteSize a = n := by
  fun_induction splitBytes? n cs generalizing a b with
  | case1 cs =>
    constructor
    · rintro ⟨rfl, rfl⟩
      exact ⟨rfl, rfl⟩
    · rintro ⟨rfl, hsize⟩
      cases a with
      | nil => rfl
      | cons c a =>
        have := c.utf8Size_pos
        rw [byteSize] at hsize
        omega
  | case2 n =>
    constructor
    · rintro ⟨⟩
    · rintro ⟨hnil, hsize⟩
      obtain ⟨rfl, -⟩ := List.append_eq_nil_iff.mp hnil.symm
      cases hsize
  | case3 n c cs hle ih =>
    rw [Option.map_eq_some_iff]
    constructor
    · rintro ⟨⟨a', b'⟩, hsplit, he⟩
      cases he
      obtain ⟨rfl, hsize⟩ := ih.mp hsplit
      exact ⟨rfl, by rw [byteSize]; omega⟩
    · rintro ⟨happend, hsize⟩
      cases a with
      | nil => cases hsize
      | cons d a =>
        obtain ⟨rfl, rfl⟩ := List.cons.inj happend
        rw [byteSize] at hsize
        exact ⟨(a, b), ih.mpr ⟨rfl, by omega⟩, rfl⟩
  | case4 n c cs hlt =>
    constructor
    · rintro ⟨⟩
    · rintro ⟨happend, hsize⟩
      cases a with
      | nil => cases hsize
      | cons d a =>
        obtain ⟨rfl, rfl⟩ := List.cons.inj happend
        rw [byteSize] at hsize
        omega

/-- What stands behind has no part in a split in front of it. -/
theorem splitBytes?_append_of_le {n : Nat} {cs : List Char} (h : n ≤ byteSize cs)
    (tail : List Char) :
    splitBytes? n (cs ++ tail) = (splitBytes? n cs).map fun (a, b) => (a, b ++ tail) := by
  fun_induction splitBytes? n cs with
  | case1 cs => rw [splitBytes?]; rfl
  | case2 n => cases h
  | case3 n c cs hle ih =>
    rw [byteSize] at h
    rw [List.cons_append, splitBytes?, if_pos hle, ih (by omega), Option.map_map, Option.map_map]
    rfl
  | case4 n c cs hlt =>
    rw [List.cons_append, splitBytes?, if_neg hlt]
    rfl

theorem between?_append (front cs : List Char) (stop : Nat) :
    between? (byteSize front) stop (front ++ cs) =
      (splitBytes? (stop - byteSize front) cs).map Prod.fst := by
  have hsplit : splitBytes? (byteSize front) (front ++ cs) = some (front, cs) :=
    splitBytes?_eq_some_iff.mpr ⟨rfl, rfl⟩
  rw [between?, hsplit]
  rfl

/-! ## Lines -/

def isTerminator (c : Char) : Bool := c = '\n' || c = '\r'

/-- Whether a text holds no terminator. -/
def Plain (line : List Char) : Prop := ∀ c ∈ line, isTerminator c = false

/-- What ends a line in front of some text: `\r\n`, `\n`, or a `\r` that no `\n` follows. -/
inductive EndsLine (rest : List Char) : List Char → Prop where
  | both : EndsLine rest ['\r', '\n']
  | newline : EndsLine rest ['\n']
  | return (h : rest.head? ≠ some '\n') : EndsLine rest ['\r']

/-- Whether the place between two texts is inside `\r\n`. -/
def InsideTerminator (pre post : List Char) : Prop :=
  pre.getLast? = some '\r' ∧ post.head? = some '\n'

theorem InsideTerminator.append_left {pre post : List Char} (h : InsideTerminator pre post)
    (cs : List Char) : InsideTerminator (cs ++ pre) post := by
  refine ⟨?_, h.2⟩
  rw [List.getLast?_append, h.1]
  rfl

/-- The offsets at which a line starts and ends. -/
structure Span where
  start : Nat
  stop : Nat

/-- Where the lines of a text stand that begins at an offset. -/
inductive Lines : Nat → List Char → List Span → Prop where
  | last (offset : Nat) {line : List Char} (hline : Plain line) :
    Lines offset line [⟨offset, offset + byteSize line⟩]
  | next (offset : Nat) {line mark rest : List Char} {spans : List Span} (hline : Plain line)
    (hmark : EndsLine rest mark) (h : Lines (offset + byteSize (line ++ mark)) rest spans) :
    Lines offset (line ++ mark ++ rest) (⟨offset, offset + byteSize line⟩ :: spans)

theorem isTerminator_eq_false_iff {c : Char} :
    isTerminator c = false ↔ ¬(c = '\n' ∨ c = '\r') := by
  simp [isTerminator]

theorem isTerminator_iff {c : Char} : isTerminator c ↔ c = '\n' ∨ c = '\r' := by
  simp [isTerminator]

/-- Every text is a line without terminators, maybe with a terminator and more text behind it. -/
theorem exists_line (cs : List Char) :
    Plain cs ∨ ∃ line mark rest, cs = line ++ mark ++ rest ∧ Plain line ∧ EndsLine rest mark := by
  induction cs with
  | nil => exact .inl nofun
  | cons c cs ih =>
    by_cases hc : isTerminator c
    · refine .inr ?_
      rcases isTerminator_iff.mp hc with rfl | rfl
      · exact ⟨[], _, cs, rfl, nofun, .newline⟩
      · by_cases hnext : cs.head? = some '\n'
        · obtain ⟨rest, rfl⟩ := List.head?_eq_some_iff.mp hnext
          exact ⟨[], _, rest, rfl, nofun, .both⟩
        · exact ⟨[], _, cs, rfl, nofun, .return hnext⟩
    · rw [Bool.not_eq_true] at hc
      rcases ih with hplain | ⟨line, mark, rest, rfl, hline, hmark⟩
      · exact .inl (List.forall_mem_cons.mpr ⟨hc, hplain⟩)
      · exact .inr ⟨c :: line, mark, rest, rfl, List.forall_mem_cons.mpr ⟨hc, hline⟩, hmark⟩

theorem EndsLine.size_pos {rest mark : List Char} (h : EndsLine rest mark) : 0 < byteSize mark := by
  cases h <;> decide

theorem exists_lines (offset : Nat) (cs : List Char) : ∃ spans, Lines offset cs spans := by
  -- each line is shorter than the text that it begins
  induction hsize : byteSize cs using Nat.strongRecOn generalizing offset cs with
  | ind size ih =>
    rcases exists_line cs with hplain | ⟨line, mark, rest, rfl, hline, hmark⟩
    · exact ⟨_, .last offset hplain⟩
    · have hpos := hmark.size_pos
      simp only [byteSize_append] at hsize
      obtain ⟨spans, hspans⟩ := ih (byteSize rest) (by omega) (offset + byteSize (line ++ mark)) rest rfl
      exact ⟨_, .next offset hline hmark hspans⟩

namespace Lines
variable {offset : Nat} {cs : List Char} {spans : List Span}

theorem offset_le (h : Lines offset cs spans) : ∀ s ∈ spans, offset ≤ s.start := by
  induction h with
  | last => simp
  | @next offset line mark rest spans _ _ _ ih =>
    refine List.forall_mem_cons.mpr ⟨Nat.le_refl _, fun s hs => ?_⟩
    have := ih s hs
    omega

theorem pairwise_start (h : Lines offset cs spans) : spans.Pairwise (·.start < ·.start) := by
  induction h with
  | last => exact List.pairwise_singleton ..
  | @next offset line mark rest spans _ hmark hrest ih =>
    refine List.pairwise_cons.mpr ⟨fun s hs => ?_, ih⟩
    have hpos := hmark.size_pos
    have hle := hrest.offset_le s hs
    rw [byteSize_append] at hle
    show offset < s.start
    omega

end Lines

theorem Lines.stop_le {offset : Nat} {cs : List Char} {spans : List Span}
    (h : Lines offset cs spans) : ∀ s ∈ spans, s.stop ≤ offset + byteSize cs := by
  induction h with
  | last => simp
  | next offset _ _ _ ih =>
    refine List.forall_mem_cons.mpr ⟨?_, fun s hs => ?_⟩
    · simp only [byteSize_append]
      omega
    · have := ih s hs
      simp only [byteSize_append] at this ⊢
      omega

/-! ## Tables -/

namespace LineTable

theorem addLines_plain {line : List Char} (hline : Plain line) (offset : Nat) (starts ends : Array Nat)
    (rest : List Char) :
    addLines offset starts ends (line ++ rest) =
      addLines (offset + byteSize line) starts ends rest := by
  induction line generalizing offset with
  | nil => rfl
  | cons c line ih =>
    obtain ⟨hc, hline⟩ := List.forall_mem_cons.mp hline
    rw [isTerminator_eq_false_iff] at hc
    rw [List.cons_append, addLines]
    · simp only [if_neg hc, ih hline]
      rw [byteSize, Nat.add_assoc]
    · exact fun _ he => absurd (.inr he) hc

theorem addLines_endsLine {rest mark : List Char} (hmark : EndsLine rest mark) (offset : Nat)
    (starts ends : Array Nat) :
    addLines offset starts ends (mark ++ rest) =
      addLines (offset + byteSize mark) (starts.push (offset + byteSize mark)) (ends.push offset)
        rest := by
  cases hmark with
  | both => rfl
  | newline => rfl
  | «return» hnext =>
    rw [List.singleton_append, addLines]
    · rfl
    · rintro cs - rfl
      exact hnext rfl

theorem toList_addLines {offset : Nat} {cs : List Char} {spans : List Span}
    (h : Lines offset cs spans) (starts ends : Array Nat) :
    (addLines offset (starts.push offset) ends cs).1.toList = starts.toList ++ spans.map Span.start ∧
      (addLines offset (starts.push offset) ends cs).2.toList = ends.toList ++ spans.map Span.stop := by
  induction h generalizing starts ends with
  | last offset hline =>
    have hread := addLines_plain hline offset (starts.push offset) ends []
    rw [List.append_nil] at hread
    rw [hread, addLines]
    exact ⟨Array.toList_push, Array.toList_push⟩
  | @next offset line mark rest spans hline hmark _ ih =>
    rw [List.append_assoc, addLines_plain hline, addLines_endsLine hmark, Nat.add_assoc,
      ← byteSize_append, (ih _ _).1, (ih _ _).2, Array.toList_push, Array.toList_push]
    simp

/-- A table lists the starts and the ends of the lines of its text. -/
theorem lines_ofText (cs : List Char) : ∃ spans, Lines 0 cs spans ∧
    (ofText cs).starts.toList = spans.map Span.start ∧
    (ofText cs).ends.toList = spans.map Span.stop := by
  obtain ⟨spans, hspans⟩ := exists_lines 0 cs
  exact ⟨spans, hspans, toList_addLines hspans #[] #[]⟩

/-! ## Search -/

/-- Whether the entries of an array grow. -/
def Grows (xs : Array Nat) : Prop :=
  ∀ i j (hi : i < xs.size) (hj : j < xs.size), i < j → xs[i] < xs[j]

/-- What a search tells about a growing array: where the number is, or between which entries. -/
def Found (xs : Array Nat) (x : Nat) : Except Nat Nat → Prop
  | .ok i => xs[i]? = some x
  | .error i => i ≤ xs.size ∧ (∀ j (h : j < xs.size), j < i → xs[j] < x) ∧
      ∀ j (h : j < xs.size), i ≤ j → x < xs[j]

theorem found_search {xs : Array Nat} (hgrows : Grows xs) {x lo hi : Nat} (h : hi ≤ xs.size)
    (hlo : ∀ j (hj : j < xs.size), j < lo → xs[j] < x)
    (hhi : ∀ j (hj : j < xs.size), hi ≤ j → x < xs[j]) (hle : lo ≤ hi) :
    Found xs x (search xs x lo hi h) := by
  fun_induction search xs x lo hi h with
  | case1 lo hi h hlt mid hmid =>
    have hsize : mid < xs.size := by omega
    exact (Array.getElem?_eq_getElem hsize).trans (congrArg some hmid)
  | case2 lo hi h hlt mid hne hbelow ih =>
    refine ih (fun j hj hj' => ?_) hhi (by omega)
    have hsize : mid < xs.size := by omega
    rcases Nat.lt_or_eq_of_le (Nat.le_of_lt_succ hj') with hless | rfl
    · exact Nat.lt_trans (hgrows j mid hj hsize hless) hbelow
    · exact hbelow
  | case3 lo hi h hlt mid hne hbelow ih =>
    refine ih hlo (fun j hj hj' => ?_) (by omega)
    have hsize : mid < xs.size := by omega
    have habove : x < xs[mid] := by omega
    rcases Nat.lt_or_eq_of_le hj' with hless | rfl
    · exact Nat.lt_trans habove (hgrows mid j hsize hj hless)
    · exact habove
  | case4 lo hi h hge =>
    obtain rfl : lo = hi := by omega
    exact ⟨h, hlo, hhi⟩

/-- The line of an offset is the last one that starts at or before it. -/
theorem lineOf_eq {t : LineTable} (hgrows : Grows t.starts) {offset start : Nat} {before after : List Nat}
    (hstarts : t.starts.toList = before ++ start :: after) (hstart : start ≤ min offset t.size)
    (hafter : ∀ s ∈ after, min offset t.size < s) : t.lineOf offset = before.length := by
  have hsize : t.starts.size = before.length + (after.length + 1) := by
    rw [← Array.length_toList, hstarts, List.length_append, List.length_cons]
  have hk : before.length < t.starts.size := by omega
  have hentry : t.starts[before.length] = start := by
    rw [← Array.getElem_toList]
    simp [hstarts]
  have hlater : ∀ j (hj : j < t.starts.size), before.length < j → min offset t.size < t.starts[j] := by
    intro j hj hlt
    obtain ⟨i, rfl⟩ := Nat.exists_eq_add_of_lt hlt
    refine hafter _ ?_
    rw [← Array.getElem_toList]
    simp [hstarts, Nat.add_assoc]
  have hfound : Found t.starts (min offset t.size)
      (search t.starts (min offset t.size) 0 t.starts.size (Nat.le_refl _)) :=
    found_search hgrows (Nat.le_refl _) nofun (fun j hj hj' => absurd hj (Nat.not_lt.mpr hj'))
      (Nat.zero_le _)
  unfold lineOf
  generalize search t.starts (min offset t.size) 0 t.starts.size _ = result at hfound
  cases result with
  | ok i =>
    obtain ⟨hi, he⟩ := Array.getElem?_eq_some_iff.mp hfound
    rcases Nat.lt_trichotomy i before.length with hlt | heq | hgt
    · have := hgrows i before.length hi hk hlt
      omega
    · exact heq
    · have := hlater i hi hgt
      omega
  | error i =>
    obtain ⟨hi, hbelow, habove⟩ := hfound
    -- all entries before the place found are smaller, so it is the one right behind the line's
    have hki : before.length < i := by
      by_contra hge
      have := habove before.length hk (by omega)
      omega
    have hik : i ≤ before.length + 1 := by
      by_contra hlt
      have := hbelow (before.length + 1) (by omega) (by omega)
      have := hlater (before.length + 1) (by omega) (by omega)
      omega
    show i - 1 = before.length
    omega

theorem grows_ofText (cs : List Char) : Grows (ofText cs).starts := by
  obtain ⟨spans, hspans, hstarts, -⟩ := lines_ofText cs
  have hpairwise := (List.pairwise_map (f := Span.start)).mpr hspans.pairwise_start
  rw [← hstarts] at hpairwise
  intro i j hi hj hij
  exact List.pairwise_iff_getElem.mp hpairwise i j hi hj hij

end LineTable
end FaultTolerance.Text
