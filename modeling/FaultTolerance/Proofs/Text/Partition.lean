import FaultTolerance.Proofs.Text.Scan

/-! A line table divides its text. `LineTable.Partitions` says how: the lines and the terminators between
them, one after the other, are the text, no line holds a terminator, and every offset has a line whose
bounds are in order. `partitions_ofText` reads it off the lines of the text; the tables are those that
come of reading the text byte by byte (`addByteLines_bytes`). -/
namespace FaultTolerance.Text
set_option autoImplicit false

/-! ## Lines and what stands between them -/

/-- The text of a line. -/
def contentAt (cs : List Char) (spans : List Span) (line : Nat) : Option (List Char) :=
  spans[line]?.bind fun s => between? s.start s.stop cs

/-- The text between a line and the next one. -/
def gapAt (cs : List Char) (spans : List Span) (line : Nat) : Option (List Char) :=
  spans[line]?.bind fun s => spans[line + 1]?.bind fun next => between? s.stop next.start cs

theorem between?_middle (front mid tail : List Char) :
    between? (byteSize front) (byteSize front + byteSize mid) (front ++ (mid ++ tail)) = some mid := by
  have hsplit : splitBytes? (byteSize mid) (mid ++ tail) = some (mid, tail) :=
    splitBytes?_eq_some_iff.mpr ⟨rfl, rfl⟩
  rw [between?_append, Nat.add_sub_cancel_left, hsplit]
  rfl

theorem contentAt_zero (front line tail : List Char) (spans : List Span) :
    contentAt (front ++ (line ++ tail)) (⟨byteSize front, byteSize front + byteSize line⟩ :: spans) 0 =
      some line :=
  between?_middle front line tail

theorem contentAt_succ (cs : List Char) (s : Span) (spans : List Span) (line : Nat) :
    contentAt cs (s :: spans) (line + 1) = contentAt cs spans line := rfl

theorem gapAt_succ (cs : List Char) (s : Span) (spans : List Span) (line : Nat) :
    gapAt cs (s :: spans) (line + 1) = gapAt cs spans line := rfl

namespace Lines
variable {offset : Nat} {cs front : List Char} {spans : List Span}

theorem start_head (h : Lines offset cs spans) : spans[0]?.map Span.start = some offset := by
  cases h <;> rfl

theorem stop_last (h : Lines offset cs spans) :
    spans.getLast?.map Span.stop = some (offset + byteSize cs) := by
  induction h with
  | last => rfl
  | @next offset line mark rest spans _ _ hrest ih =>
    have hne : spans ≠ [] := by
      rintro rfl
      cases hrest
    rw [List.getLast?_cons_of_ne_nil hne, ih, byteSize_append (line ++ mark), Nat.add_assoc]

theorem start_le_stop (h : Lines offset cs spans) : ∀ s ∈ spans, s.start ≤ s.stop := by
  induction h with
  | last => simp
  | next _ _ _ _ ih => exact List.forall_mem_cons.mpr ⟨Nat.le_add_right .., ih⟩

theorem isBoundary (h : Lines offset cs spans) (hfront : byteSize front = offset) :
    ∀ s ∈ spans, IsBoundary (front ++ cs) s.start ∧ IsBoundary (front ++ cs) s.stop := by
  induction h generalizing front with
  | @last offset line =>
    obtain rfl := hfront
    rintro s hs
    obtain rfl := List.mem_singleton.mp hs
    exact ⟨⟨front, line, rfl, rfl⟩, ⟨front ++ line, [], (List.append_nil _).symm, byteSize_append ..⟩⟩
  | @next offset line mark rest spans _ _ _ ih =>
    obtain rfl := hfront
    refine List.forall_mem_cons.mpr ⟨⟨⟨front, _, rfl, rfl⟩, ?_⟩, ?_⟩
    · exact ⟨front ++ line, mark ++ rest, by simp, byteSize_append ..⟩
    · rw [← List.append_assoc]
      exact ih (byteSize_append ..)

theorem gapAt_zero {line mark rest : List Char}
    (h : Lines (byteSize front + byteSize (line ++ mark)) rest spans) :
    gapAt (front ++ (line ++ mark ++ rest)) (⟨byteSize front, byteSize front + byteSize line⟩ :: spans) 0 =
      some mark := by
  obtain ⟨next, hnext, hstart⟩ := Option.map_eq_some_iff.mp h.start_head
  have hmiddle := between?_middle (front ++ line) mark rest
  rw [byteSize_append, Nat.add_assoc, ← byteSize_append line, ← hstart, List.append_assoc front,
    ← List.append_assoc line] at hmiddle
  simp only [gapAt, List.getElem?_cons_zero, List.getElem?_cons_succ, hnext, Option.bind_some]
  exact hmiddle

theorem exists_contentAt (h : Lines offset cs spans) (hfront : byteSize front = offset) {i : Nat}
    (hi : i < spans.length) : ∃ line, contentAt (front ++ cs) spans i = some line ∧ Plain line := by
  induction h generalizing front i with
  | @last offset line hline =>
    obtain rfl := hfront
    obtain rfl : i = 0 := Nat.lt_one_iff.mp hi
    have hfirst := contentAt_zero front line [] []
    rw [List.append_nil] at hfirst
    exact ⟨line, hfirst, hline⟩
  | @next offset line mark rest spans hline _ _ ih =>
    obtain rfl := hfront
    cases i with
    | zero =>
      have hfirst := contentAt_zero front line (mark ++ rest) spans
      rw [← List.append_assoc line] at hfirst
      exact ⟨line, hfirst, hline⟩
    | succ i =>
      rw [contentAt_succ, ← List.append_assoc]
      exact ih (byteSize_append ..) (Nat.lt_of_succ_lt_succ hi)

/-- Between a line and the next one stands a terminator, which ends where the next line starts. -/
theorem exists_gapAt (h : Lines offset cs spans) (hfront : byteSize front = offset) {i : Nat}
    (hi : i + 1 < spans.length) : ∃ mark pre rest, gapAt (front ++ cs) spans i = some mark ∧
      EndsLine rest mark ∧ front ++ cs = pre ++ rest ∧
      spans[i + 1]?.map Span.start = some (byteSize pre) := by
  induction h generalizing front i with
  | last => simp at hi
  | @next offset line mark rest spans _ hmark hrest ih =>
    obtain rfl := hfront
    cases i with
    | zero =>
      refine ⟨mark, front ++ (line ++ mark), rest, hrest.gapAt_zero, hmark, (List.append_assoc ..).symm, ?_⟩
      rw [List.getElem?_cons_succ, hrest.start_head, byteSize_append front]
    | succ i =>
      rw [gapAt_succ, ← List.append_assoc, List.getElem?_cons_succ]
      exact ih (byteSize_append ..) (Nat.lt_of_succ_lt_succ hi)

/-- The lines and what stands between them make up the text. -/
theorem flatMap_pieces (h : Lines offset cs spans) (hfront : byteSize front = offset) :
    (List.range spans.length).flatMap (fun i => (contentAt (front ++ cs) spans i).getD [] ++
      (gapAt (front ++ cs) spans i).getD []) = cs := by
  induction h generalizing front with
  | @last offset line hline =>
    obtain rfl := hfront
    have hfirst := contentAt_zero front line [] []
    rw [List.append_nil] at hfirst
    simp [hfirst, gapAt]
  | @next offset line mark rest spans _ _ hrest ih =>
    obtain rfl := hfront
    have hfront' : byteSize (front ++ (line ++ mark)) = byteSize front + byteSize (line ++ mark) :=
      byteSize_append ..
    have hlater := ih hfront'
    have hfirst := contentAt_zero front line (mark ++ rest) spans
    rw [← List.append_assoc line] at hfirst
    rw [List.append_assoc front] at hlater
    rw [List.length_cons, List.range_succ_eq_map, List.flatMap_cons, List.flatMap_map, hfirst,
      hrest.gapAt_zero]
    simp only [contentAt_succ, gapAt_succ, hlater, Option.getD_some]

end Lines

/-! ## Bytes -/

/-- The bytes of a text in UTF-8. -/
def bytes (cs : List Char) : List UInt8 := cs.flatMap String.utf8EncodeChar

theorem bytes_cons (c : Char) (cs : List Char) : bytes (c :: cs) = String.utf8EncodeChar c ++ bytes cs :=
  List.flatMap_cons

theorem toNat_ofNat_of_lt {n : Nat} (h : n < 256) : (UInt8.ofNat n).toNat = n := by
  rw [UInt8.toNat_ofNat', Nat.mod_eq_of_lt h]

/-- A byte below 128 is that of a character of its number. -/
theorem toNat_of_mem_utf8EncodeChar {c : Char} {b : UInt8} (hb : b ∈ String.utf8EncodeChar c)
    (hlt : b.toNat < 128) : c.toNat = b.toNat := by
  have hvalue : c.toNat = c.val.toNat := rfl
  rw [String.utf8EncodeChar.eq_1] at hb
  split_ifs at hb with hone
  · obtain rfl := List.mem_singleton.mp hb
    rw [toNat_ofNat_of_lt (by omega), hvalue]
  -- all bytes of a longer character have their highest bit set
  all_goals
    simp only [List.mem_cons, List.not_mem_nil, or_false] at hb
    have hhigh : 128 ≤ b.toNat := by
      rcases hb with rfl | rfl | rfl | rfl <;> rw [toNat_ofNat_of_lt (by omega)] <;> omega
    omega

theorem ne_of_mem_utf8EncodeChar {c : Char} (hc : isTerminator c = false) :
    ∀ b ∈ String.utf8EncodeChar c, ¬(b = 10 ∨ b = 13) := by
  rw [isTerminator_eq_false_iff] at hc
  rintro b hb (rfl | rfl)
  · exact hc (.inl (Char.toNat_inj.mp (toNat_of_mem_utf8EncodeChar hb (by decide))))
  · exact hc (.inr (Char.toNat_inj.mp (toNat_of_mem_utf8EncodeChar hb (by decide))))

theorem head?_bytes_ne {cs : List Char} (h : cs.head? ≠ some '\n') : (bytes cs).head? ≠ some 10 := by
  cases cs with
  | nil => exact nofun
  | cons c cs =>
    intro hhead
    have hne : String.utf8EncodeChar c ≠ [] := List.ne_nil_of_length_pos
      (String.length_utf8EncodeChar c ▸ c.utf8Size_pos)
    rw [bytes_cons, List.head?_append_of_ne_nil _ hne] at hhead
    have hvalue := toNat_of_mem_utf8EncodeChar (List.mem_of_head? hhead) (by decide)
    exact h (congrArg some (Char.toNat_inj.mp hvalue))

namespace LineTable

/-- Reads the bytes of a text on from an offset. At a terminator a line ends and the next one starts; the
last line ends with the bytes. -/
def addByteLines (offset : Nat) (starts ends : Array Nat) : List UInt8 → Array Nat × Array Nat
  | [] => (starts, ends.push offset)
  | 13 :: 10 :: bs => addByteLines (offset + 2) (starts.push (offset + 2)) (ends.push offset) bs
  | b :: bs =>
    let next := offset + 1
    if b = 10 ∨ b = 13 then addByteLines next (starts.push next) (ends.push offset) bs
    else addByteLines next starts ends bs

theorem addByteLines_plain {line : List UInt8} (hline : ∀ b ∈ line, ¬(b = 10 ∨ b = 13)) (offset : Nat)
    (starts ends : Array Nat) (rest : List UInt8) :
    addByteLines offset starts ends (line ++ rest) =
      addByteLines (offset + line.length) starts ends rest := by
  induction line generalizing offset with
  | nil => rfl
  | cons b line ih =>
    obtain ⟨hb, hline⟩ := List.forall_mem_cons.mp hline
    rw [List.cons_append, addByteLines]
    · simp only [if_neg hb, ih hline]
      rw [List.length_cons, Nat.add_assoc, Nat.add_comm 1]
    · exact fun _ he => absurd (.inr he) hb

theorem addByteLines_endsLine {rest mark : List Char} (hmark : EndsLine rest mark) (offset : Nat)
    (starts ends : Array Nat) :
    addByteLines offset starts ends (bytes (mark ++ rest)) =
      addByteLines (offset + byteSize mark) (starts.push (offset + byteSize mark)) (ends.push offset)
        (bytes rest) := by
  cases hmark with
  | both => rfl
  | newline => rfl
  | «return» hnext =>
    have hhead := head?_bytes_ne hnext
    have hreturn : bytes ('\r' :: rest) = 13 :: bytes rest := rfl
    rw [List.singleton_append, hreturn, addByteLines]
    · rfl
    · rintro bs - he
      exact hhead (by rw [he]; rfl)

/-- Reading a text byte by byte and reading it character by character finds the same lines. -/
theorem addByteLines_bytes (cs : List Char) (offset : Nat) (starts ends : Array Nat) :
    addByteLines offset starts ends (bytes cs) = addLines offset starts ends cs := by
  induction cs using textInduction generalizing offset starts ends with
  | nil => rfl
  | char c cs hc ih =>
    have hplain := @addLines_plain [c] (List.forall_mem_singleton.mpr hc) offset starts ends cs
    rw [bytes_cons, addByteLines_plain (ne_of_mem_utf8EncodeChar hc), String.length_utf8EncodeChar, ih]
    exact hplain.symm
  | mark mark cs hmark ih => rw [addByteLines_endsLine hmark, addLines_endsLine hmark, ih]

/-! ## Tables -/

def content? (t : LineTable) (line : Nat) : Option (List Char) := do
  between? (← t.starts[line]?) (← t.ends[line]?) t.text

def gap? (t : LineTable) (line : Nat) : Option (List Char) := do
  between? (← t.ends[line]?) (← t.starts[line + 1]?) t.text

/-- The table divides a text: into lines without terminators and one terminator between any two of them.
Every offset has a line, the last one to start at or before it, whose bounds are there and in order. -/
structure Partitions (t : LineTable) (cs : List Char) : Prop where
  size : t.ends.size = t.starts.size
  first : t.starts[0]? = some 0
  last : t.ends.back? = some (byteSize cs)
  start_le_stop : ∀ line start stop : Nat, t.starts[line]? = some start → t.ends[line]? = some stop →
    start ≤ stop
  grows : Grows t.starts
  isBoundary : ∀ offset, offset ∈ t.starts ∨ offset ∈ t.ends → IsBoundary cs offset
  content : ∀ line < t.lineCount, ∃ content, t.content? line = some content ∧ Plain content
  /-- A terminator stands in front of the text that the next line starts. -/
  gap : ∀ line, line + 1 < t.lineCount → ∃ mark pre rest, t.gap? line = some mark ∧ EndsLine rest mark ∧
    cs = pre ++ rest ∧ t.starts[line + 1]? = some (byteSize pre)
  text : (List.range t.lineCount).flatMap (fun line =>
    (t.content? line).getD [] ++ (t.gap? line).getD []) = cs
  lineOf : ∀ offset, ∃ start stop, t.starts[t.lineOf offset]? = some start ∧
    t.ends[t.lineOf offset]? = some stop ∧ start ≤ stop ∧ start ≤ min offset (byteSize cs) ∧
    ∀ line later, t.lineOf offset < line → t.starts[line]? = some later → min offset (byteSize cs) < later

section
variable {t : LineTable} {spans : List Span}

theorem content?_eq (hstarts : t.starts.toList = spans.map Span.start)
    (hends : t.ends.toList = spans.map Span.stop) (line : Nat) :
    t.content? line = contentAt t.text spans line := by
  rw [content?, starts_getElem? hstarts, ends_getElem? hends, contentAt]
  cases spans[line]? <;> rfl

theorem gap?_eq (hstarts : t.starts.toList = spans.map Span.start)
    (hends : t.ends.toList = spans.map Span.stop) (line : Nat) :
    t.gap? line = gapAt t.text spans line := by
  rw [gap?, starts_getElem? hstarts, ends_getElem? hends, gapAt]
  cases spans[line]? <;> cases spans[line + 1]? <;> rfl

end

theorem isBoundary_of_mem_ofText {cs : List Char} {spans : List Span} (hspans : Lines 0 cs spans)
    (hstarts : (ofText cs).starts.toList = spans.map Span.start)
    (hends : (ofText cs).ends.toList = spans.map Span.stop) {offset : Nat}
    (h : offset ∈ (ofText cs).starts ∨ offset ∈ (ofText cs).ends) : IsBoundary cs offset := by
  have hempty : byteSize [] = 0 := rfl
  have hboundary : ∀ s ∈ spans, IsBoundary cs s.start ∧ IsBoundary cs s.stop :=
    hspans.isBoundary hempty
  rw [← Array.mem_toList_iff, ← Array.mem_toList_iff, hstarts, hends] at h
  rcases h with h | h
  · obtain ⟨s, hs, rfl⟩ := List.mem_map.mp h
    exact (hboundary s hs).1
  · obtain ⟨s, hs, rfl⟩ := List.mem_map.mp h
    exact (hboundary s hs).2

/-- The line of an offset is the last one to start at or before it. -/
theorem exists_bounds_lineOf {cs : List Char} {spans : List Span} (hspans : Lines 0 cs spans)
    (hstarts : (ofText cs).starts.toList = spans.map Span.start)
    (hends : (ofText cs).ends.toList = spans.map Span.stop) (offset : Nat) :
    ∃ start stop, (ofText cs).starts[(ofText cs).lineOf offset]? = some start ∧
      (ofText cs).ends[(ofText cs).lineOf offset]? = some stop ∧ start ≤ stop ∧
      start ≤ min offset (byteSize cs) ∧
      ∀ line later, (ofText cs).lineOf offset < line → (ofText cs).starts[line]? = some later →
        min offset (byteSize cs) < later := by
  obtain ⟨before, span, after, rfl, hline, hstart, hafter, -⟩ :=
    exists_span_lineOf hspans hstarts offset
  have hspan : (before ++ span :: after)[before.length]? = some span := by simp
  rw [hline, starts_getElem? hstarts, ends_getElem? hends, hspan]
  refine ⟨span.start, span.stop, rfl, rfl, ?_, hstart, ?_⟩
  · exact hspans.start_le_stop span (List.mem_of_getElem? hspan)
  · intro line later hlater hentry
    obtain ⟨i, rfl⟩ := Nat.exists_eq_add_of_lt hlater
    rw [starts_getElem? hstarts, Nat.add_assoc, List.getElem?_append_right (Nat.le_add_right ..),
      Nat.add_sub_cancel_left, List.getElem?_cons_succ, Option.map_eq_some_iff] at hentry
    obtain ⟨s, hs, rfl⟩ := hentry
    exact hafter s (List.mem_of_getElem? hs)

/-- Every text is divided by its table, which is the one that its bytes give. -/
theorem partitions_ofText (cs : List Char) :
    (ofText cs).Partitions cs ∧
      addByteLines 0 #[0] #[] (bytes cs) = ((ofText cs).starts, (ofText cs).ends) := by
  obtain ⟨spans, hspans, hstarts, hends⟩ := lines_ofText cs
  have hempty : byteSize [] = 0 := rfl
  have htext : (ofText cs).text = [] ++ cs := rfl
  have hcount : (ofText cs).lineCount = spans.length := by
    rw [lineCount, ← Array.length_toList, hstarts, List.length_map]
  have hcontent : ∀ line, (ofText cs).content? line = contentAt cs spans line :=
    content?_eq hstarts hends
  have hgap : ∀ line, (ofText cs).gap? line = gapAt cs spans line := gap?_eq hstarts hends
  refine ⟨?_, addByteLines_bytes cs 0 #[0] #[]⟩
  constructor
  case size => exact (ofText cs).size_ends
  case first => rw [starts_getElem? hstarts, hspans.start_head]
  case last =>
    have hlast := hspans.stop_last
    rw [Nat.zero_add] at hlast
    rw [← Array.getLast?_toList, hends, List.getLast?_map, hlast]
  case start_le_stop =>
    intro line start stop hstart hstop
    rw [starts_getElem? hstarts, Option.map_eq_some_iff] at hstart
    rw [ends_getElem? hends, Option.map_eq_some_iff] at hstop
    obtain ⟨s, hs, rfl⟩ := hstart
    obtain ⟨s', hs', rfl⟩ := hstop
    obtain rfl := Option.some.inj (hs.symm.trans hs')
    exact hspans.start_le_stop s (List.mem_of_getElem? hs)
  case grows => exact grows_ofText cs
  case isBoundary => exact fun _ => isBoundary_of_mem_ofText hspans hstarts hends
  case content =>
    intro line hline
    rw [hcontent]
    exact hspans.exists_contentAt hempty (hcount ▸ hline)
  case gap =>
    intro line hline
    rw [hgap, starts_getElem? hstarts]
    exact hspans.exists_gapAt hempty (hcount ▸ hline)
  case text =>
    simp only [hcount, hcontent, hgap]
    exact hspans.flatMap_pieces hempty
  case lineOf => exact exists_bounds_lineOf hspans hstarts hends

/-- Every kind of terminator, two of them side by side and one at the end of the text. -/
theorem partitions_ofText_returns :
    let t : LineTable := ofText ['a', '\r', '\n', 'é', '\r', '\r', '\n']
    t.ends.back? = some 8 ∧ (∃ content, t.content? 3 = some content ∧ Plain content) ∧
      ∃ start stop, t.starts[t.lineOf 2]? = some start ∧ t.ends[t.lineOf 2]? = some stop ∧ start ≤ stop := by
  intro t
  have hdivides : t.Partitions ['a', '\r', '\n', 'é', '\r', '\r', '\n'] := (partitions_ofText _).1
  obtain ⟨start, stop, hstart, hstop, hle, -⟩ := hdivides.lineOf 2
  exact ⟨hdivides.last, hdivides.content 3 (by decide), start, stop, hstart, hstop, hle⟩

end LineTable
end FaultTolerance.Text
