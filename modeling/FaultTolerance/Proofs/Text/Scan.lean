import FaultTolerance.Proofs.Text.Lines

/-! Positions by counting. `scan` goes through a text from left to right and counts its lines and their
UTF-16 units; a line table gives the same positions without going through the text
(`LineTable.position_ofText`). -/
namespace FaultTolerance.Text
set_option autoImplicit false

/-- Goes some bytes on from a position that a text begins at. A place inside `\r\n` counts as the end of
its line, and one inside another character as the start of its line. -/
def scan (p : Position) : Nat → List Char → Position
  | _, [] => p
  | n, '\r' :: '\n' :: cs => if n < 2 then p else scan ⟨p.line + 1, 0⟩ (n - 2) cs
  | n, c :: cs =>
    if n = 0 then p
    else if n < c.utf8Size then ⟨p.line, 0⟩
    else if c = '\n' ∨ c = '\r' then scan ⟨p.line + 1, 0⟩ (n - c.utf8Size) cs
    else scan ⟨p.line, p.character + units16 c⟩ (n - c.utf8Size) cs

/-! ## Steps of a scan -/

theorem scan_zero (p : Position) (cs : List Char) : scan p 0 cs = p := by
  unfold scan
  split <;> simp

theorem scan_inside {c : Char} (hc : isTerminator c = false) (p : Position) {n : Nat} (hpos : n ≠ 0)
    (hn : n < c.utf8Size) (cs : List Char) : scan p n (c :: cs) = ⟨p.line, 0⟩ := by
  rw [isTerminator_eq_false_iff] at hc
  rw [scan, if_neg hpos, if_pos hn]
  exact fun _ he => absurd (.inr he) hc

theorem scan_cons {c : Char} (hc : isTerminator c = false) (p : Position) (n : Nat) (cs : List Char) :
    scan p (c.utf8Size + n) (c :: cs) = scan ⟨p.line, p.character + units16 c⟩ n cs := by
  have hpos := c.utf8Size_pos
  rw [isTerminator_eq_false_iff] at hc
  rw [scan, if_neg (by omega), if_neg (by omega), if_neg hc, Nat.add_sub_cancel_left]
  exact fun _ he => absurd (.inr he) hc

theorem scan_endsLine {rest mark : List Char} (hmark : EndsLine rest mark) (p : Position) (n : Nat) :
    scan p (byteSize mark + n) (mark ++ rest) = scan ⟨p.line + 1, 0⟩ n rest := by
  cases hmark with
  | both =>
    have hsize : byteSize ['\r', '\n'] = 2 := by decide
    rw [hsize, List.cons_append, List.singleton_append, scan, if_neg (by omega), Nat.add_sub_cancel_left]
  | newline =>
    have hsize : byteSize ['\n'] = 1 := by decide
    have hc : ('\n' : Char).utf8Size = 1 := by decide
    rw [hsize, List.singleton_append, scan, hc, if_neg (by omega), if_neg (by omega), if_pos (.inl rfl),
      Nat.add_sub_cancel_left]
    exact fun _ he => absurd he (by decide)
  | «return» hnext =>
    have hsize : byteSize ['\r'] = 1 := by decide
    have hc : ('\r' : Char).utf8Size = 1 := by decide
    rw [hsize, List.singleton_append, scan, hc, if_neg (by omega), if_neg (by omega), if_pos (.inr rfl),
      Nat.add_sub_cancel_left]
    rintro cs - rfl
    exact hnext rfl

theorem scan_insideTerminator {rest mark : List Char} (hmark : EndsLine rest mark) (p : Position)
    {n : Nat} (hn : n < byteSize mark) : scan p n (mark ++ rest) = p := by
  cases hmark with
  | both => exact if_pos hn
  | newline =>
    obtain rfl : n = 0 := Nat.lt_one_iff.mp hn
    exact scan_zero p _
  | «return» =>
    obtain rfl : n = 0 := Nat.lt_one_iff.mp hn
    exact scan_zero p _

/-! ## Lines -/

theorem scan_line {line : List Char} (hline : Plain line) (p : Position) (n : Nat) (tail : List Char) :
    scan p (byteSize line + n) (line ++ tail) = scan ⟨p.line, p.character + size16 line⟩ n tail := by
  induction line generalizing p with
  | nil => rw [byteSize, Nat.zero_add]; rfl
  | cons c line ih =>
    obtain ⟨hc, hline⟩ := List.forall_mem_cons.mp hline
    rw [byteSize, Nat.add_assoc, List.cons_append, scan_cons hc, ih hline, Nat.add_assoc]
    rfl

/-- Inside a line the column is that of what stands in front, unless the place is inside a character. -/
theorem scan_withinLine {line : List Char} (hline : Plain line) (p : Position) {n : Nat}
    (hn : n ≤ byteSize line) (tail : List Char) :
    scan p n (line ++ tail) = match splitBytes? n line with
      | some (a, _) => ⟨p.line, p.character + size16 a⟩
      | none => ⟨p.line, 0⟩ := by
  fun_induction splitBytes? n line generalizing p with
  | case1 line => rw [scan_zero]; rfl
  | case2 n => cases hn
  | case3 n c line hle ih =>
    obtain ⟨hc, hline⟩ := List.forall_mem_cons.mp hline
    rw [byteSize] at hn
    obtain ⟨m, hm⟩ := Nat.exists_eq_add_of_le hle
    rw [Nat.succ_eq_add_one] at hn ⊢
    rw [hm, Nat.add_sub_cancel_left] at ih ⊢
    rw [List.cons_append, scan_cons hc, ih hline _ (by omega)]
    cases splitBytes? m line with
    | none => rfl
    | some split => simp [size16, Nat.add_assoc]
  | case4 n c line hlt =>
    obtain ⟨hc, hline⟩ := List.forall_mem_cons.mp hline
    exact scan_inside hc p (Nat.succ_ne_zero n) (by omega) _

theorem column_line (front line tail : List Char) (n : Nat) :
    LineTable.column (front ++ (line ++ tail)) (byteSize front) (byteSize front + byteSize line)
        (byteSize front + n) =
      match splitBytes? (min n (byteSize line)) line with
      | some (a, _) => size16 a
      | none => 0 := by
  have hplace : max (byteSize front) (min (byteSize front + n) (byteSize front + byteSize line)) -
      byteSize front = min n (byteSize line) := by
    omega
  rw [LineTable.column, between?_append, hplace, splitBytes?_append_of_le (Nat.min_le_right ..)]
  cases splitBytes? (min n (byteSize line)) line <;> rfl

/-- Up to the next line, a scan that starts with a line gives the column in that line. -/
theorem scan_eq_column {line : List Char} (hline : Plain line) (front tail : List Char) (l : Nat) {n : Nat}
    (hn : n ≤ byteSize line ∨ ∃ mark rest, tail = mark ++ rest ∧ EndsLine rest mark ∧
      n < byteSize (line ++ mark)) :
    scan ⟨l, 0⟩ n (line ++ tail) = ⟨l, LineTable.column (front ++ (line ++ tail)) (byteSize front)
      (byteSize front + byteSize line) (byteSize front + n)⟩ := by
  rw [column_line]
  by_cases hle : n ≤ byteSize line
  · rw [scan_withinLine hline _ hle, Nat.min_eq_left hle]
    cases splitBytes? n line with
    | none => rfl
    | some split => simp
  · obtain ⟨mark, rest, rfl, hmark, hlt⟩ := hn.resolve_left hle
    obtain ⟨m, rfl⟩ := Nat.exists_eq_add_of_le (Nat.le_of_not_le hle)
    rw [byteSize_append] at hlt
    have hwhole : splitBytes? (byteSize line) line = some (line, []) :=
      splitBytes?_eq_some_iff.mpr ⟨(List.append_nil line).symm, rfl⟩
    rw [scan_line hline, scan_insideTerminator hmark _ (by omega), Nat.min_eq_right (by omega), hwhole]
    simp

/-- A scan stops in the last line that starts at or before its place. -/
theorem Lines.exists_scan {offset : Nat} {cs : List Char} {spans : List Span} (h : Lines offset cs spans)
    {front : List Char} (hfront : byteSize front = offset) (l : Nat) {n : Nat} (hn : n ≤ byteSize cs) :
    ∃ before span after, spans = before ++ span :: after ∧ span.start ≤ offset + n ∧
      (∀ s ∈ after, offset + n < s.start) ∧
      scan ⟨l, 0⟩ n cs =
        ⟨l + before.length, LineTable.column (front ++ cs) span.start span.stop (offset + n)⟩ := by
  induction h generalizing front l n with
  | last offset hline =>
    have hscan := scan_eq_column hline front [] l (.inl hn)
    rw [List.append_nil, hfront] at hscan
    exact ⟨[], _, [], rfl, Nat.le_add_right .., nofun, hscan⟩
  | @next offset line mark rest spans hline hmark hrest ih =>
    by_cases hlt : n < byteSize (line ++ mark)
    · have hscan := scan_eq_column hline front (mark ++ rest) l (.inr ⟨mark, rest, rfl, hmark, hlt⟩)
      rw [← List.append_assoc, hfront] at hscan
      refine ⟨[], _, spans, rfl, Nat.le_add_right .., fun s hs => ?_, hscan⟩
      have := hrest.offset_le s hs
      omega
    · obtain ⟨m, rfl⟩ := Nat.exists_eq_add_of_le (Nat.le_of_not_lt hlt)
      rw [byteSize_append (line ++ mark)] at hn
      have hfront' : byteSize (front ++ (line ++ mark)) = offset + byteSize (line ++ mark) := by
        rw [byteSize_append, hfront]
      obtain ⟨before, span, after, rfl, hstart, hafter, hscan⟩ := ih hfront' (l + 1) (n := m) (by omega)
      have hstep : scan ⟨l, 0⟩ (byteSize (line ++ mark) + m) (line ++ mark ++ rest) =
          scan ⟨l + 1, 0⟩ m rest := by
        rw [byteSize_append, Nat.add_assoc, List.append_assoc, scan_line hline, scan_endsLine hmark]
      refine ⟨_ :: before, span, after, rfl, by omega, fun s hs => ?_, ?_⟩
      · have := hafter s hs
        omega
      · rw [hstep, hscan, List.append_assoc front, Nat.add_assoc offset, List.length_cons,
          Nat.add_right_comm l, Nat.add_assoc l]

/-! ## Two texts -/

/-- Induction over a text, a character or a terminator at a time. -/
@[elab_as_elim]
theorem textInduction {motive : List Char → Prop} (nil : motive [])
    (char : ∀ c cs, isTerminator c = false → motive cs → motive (c :: cs))
    (mark : ∀ mark rest, EndsLine rest mark → motive rest → motive (mark ++ rest)) :
    ∀ cs, motive cs
  | [] => nil
  | c :: cs => by
    have ih := textInduction nil char mark cs
    cases hc : isTerminator c with
    | false => exact char c cs hc ih
    | true =>
      rcases isTerminator_iff.mp hc with rfl | rfl
      · exact mark _ cs .newline ih
      · by_cases hnext : cs.head? = some '\n'
        · obtain ⟨rest, rfl⟩ := List.head?_eq_some_iff.mp hnext
          exact mark _ rest .both (textInduction nil char mark rest)
        · exact mark _ cs (.return hnext) ih

/-- Induction along a scan: it ends at once or inside a character or a terminator, or it goes on behind
one of them. -/
@[elab_as_elim]
theorem scanInduction {motive : Position → Nat → List Char → Prop} (nil : ∀ p n, motive p n [])
    (start : ∀ p c cs, isTerminator c = false → motive p 0 (c :: cs))
    (inside : ∀ p n c cs, isTerminator c = false → n ≠ 0 → n < c.utf8Size → motive p n (c :: cs))
    (char : ∀ p n c cs, isTerminator c = false →
      motive ⟨p.line, p.character + units16 c⟩ n cs → motive p (c.utf8Size + n) (c :: cs))
    (insideMark : ∀ p n mark rest, EndsLine rest mark → n < byteSize mark → motive p n (mark ++ rest))
    (mark : ∀ p n mark rest, EndsLine rest mark →
      motive ⟨p.line + 1, 0⟩ n rest → motive p (byteSize mark + n) (mark ++ rest)) :
    ∀ p n cs, motive p n cs := by
  intro p n cs
  induction cs using textInduction generalizing p n with
  | nil => exact nil p n
  | char c cs hc ih =>
    rcases Nat.lt_or_ge n c.utf8Size with hlt | hge
    · by_cases hn : n = 0
      · exact hn ▸ start p c cs hc
      · exact inside p n c cs hc hn hlt
    · obtain ⟨m, rfl⟩ := Nat.exists_eq_add_of_le hge
      exact char p m c cs hc (ih _ m)
  | mark mark' cs hmark ih =>
    rcases Nat.lt_or_ge n (byteSize mark') with hlt | hge
    · exact insideMark p n mark' cs hmark hlt
    · obtain ⟨m, rfl⟩ := Nat.exists_eq_add_of_le hge
      exact mark p m mark' cs hmark (ih _ m)

/-- What ends a line in front of a text ends it in front of a longer one, unless it is a `\r` in front of
a `\n`. -/
theorem EndsLine.append {rest mark tail : List Char} (hmark : EndsLine rest mark)
    (h : ¬InsideTerminator (mark ++ rest) tail) : EndsLine (rest ++ tail) mark := by
  cases hmark with
  | both => exact .both
  | newline => exact .newline
  | «return» hnext =>
    cases rest with
    | nil => exact .return fun hhead => h ⟨rfl, hhead⟩
    | cons c rest => exact .return hnext

/-- A scan of two texts is a scan of the first one and then one of the second. -/
theorem scan_append {front rest : List Char} (h : ¬InsideTerminator front rest) (p : Position) (n : Nat) :
    scan p (byteSize front + n) (front ++ rest) = scan (scan p (byteSize front) front) n rest := by
  induction front using textInduction generalizing p with
  | nil => rw [byteSize, Nat.zero_add, scan_zero]; rfl
  | char c cs hc ih =>
    have hcs : ¬InsideTerminator cs rest := fun hinside => h (hinside.append_left [c])
    rw [byteSize, Nat.add_assoc, List.cons_append, scan_cons hc, scan_cons hc, ih hcs]
  | mark mark cs hmark ih =>
    have hcs : ¬InsideTerminator cs rest := fun hinside => h (hinside.append_left mark)
    rw [byteSize_append, Nat.add_assoc, List.append_assoc, scan_endsLine (hmark.append h),
      scan_endsLine hmark, ih hcs]

/-- A place inside `\r\n` counts as the one in front of it. -/
theorem scan_return (p : Position) (front tail : List Char) :
    scan p (byteSize front + 1) (front ++ '\r' :: '\n' :: tail) =
      scan p (byteSize front) (front ++ '\r' :: '\n' :: tail) := by
  have houtside : ¬InsideTerminator front ('\r' :: '\n' :: tail) := fun h =>
    absurd (Option.some.inj h.2) (by decide)
  have hinside : scan (scan p (byteSize front) front) 1 ('\r' :: '\n' :: tail) =
      scan p (byteSize front) front :=
    scan_insideTerminator .both _ (by decide)
  have hfront := scan_append houtside p 0
  rw [scan_zero, Nat.add_zero] at hfront
  rw [scan_append houtside, hinside, hfront]

/-- Whether a line starts between two texts. -/
structure StartsLine (front rest : List Char) : Prop where
  behindTerminator : ∀ c ∈ front.getLast?, isTerminator c
  outside : ¬InsideTerminator front rest

theorem character_scan_behindTerminator {front : List Char} {p : Position}
    (h : ∀ c ∈ front.getLast?, isTerminator c) (hp : front = [] → p.character = 0) :
    (scan p (byteSize front) front).character = 0 := by
  induction front using textInduction generalizing p with
  | nil => exact hp rfl
  | char c cs hc ih =>
    have hlast : cs ≠ [] := by
      rintro rfl
      exact Bool.eq_false_iff.mp hc (h c rfl)
    rw [byteSize, scan_cons hc]
    rw [List.getLast?_cons_of_ne_nil hlast] at h
    exact ih h (absurd · hlast)
  | mark mark cs hmark ih =>
    have hcs : ∀ c ∈ cs.getLast?, isTerminator c := fun c hc =>
      h c (by rw [List.getLast?_append, Option.mem_def.mp hc]; rfl)
    rw [byteSize_append, scan_endsLine hmark]
    exact ih hcs fun _ => rfl

/-! ## Terminators -/

/-- Where the terminators of a text end that begins at an offset. -/
def terminatorEnds (offset : Nat) : List Char → List Nat
  | [] => []
  | '\r' :: '\n' :: cs => (offset + 2) :: terminatorEnds (offset + 2) cs
  | c :: cs =>
    let next := offset + c.utf8Size
    if c = '\n' ∨ c = '\r' then next :: terminatorEnds next cs else terminatorEnds next cs

theorem terminatorEnds_cons {c : Char} (hc : isTerminator c = false) (offset : Nat) (cs : List Char) :
    terminatorEnds offset (c :: cs) = terminatorEnds (offset + c.utf8Size) cs := by
  rw [isTerminator_eq_false_iff] at hc
  rw [terminatorEnds]
  · exact if_neg hc
  · exact fun _ he => absurd (.inr he) hc

theorem terminatorEnds_endsLine {rest mark : List Char} (hmark : EndsLine rest mark) (offset : Nat) :
    terminatorEnds offset (mark ++ rest) =
      (offset + byteSize mark) :: terminatorEnds (offset + byteSize mark) rest := by
  cases hmark with
  | both => rfl
  | newline => rfl
  | «return» hnext =>
    rw [List.singleton_append, terminatorEnds]
    · rfl
    · rintro cs - rfl
      exact hnext rfl

theorem le_of_mem_terminatorEnds {cs : List Char} {offset place : Nat}
    (h : place ∈ terminatorEnds offset cs) : offset ≤ place := by
  induction cs using textInduction generalizing offset with
  | nil => cases h
  | char c cs hc ih =>
    rw [terminatorEnds_cons hc] at h
    exact Nat.le_trans (Nat.le_add_right ..) (ih h)
  | mark mark cs hmark ih =>
    rw [terminatorEnds_endsLine hmark] at h
    rcases List.mem_cons.mp h with rfl | h
    · exact Nat.le_add_right ..
    · exact Nat.le_trans (Nat.le_add_right ..) (ih h)

theorem countP_terminatorEnds {n offset : Nat} (h : n < offset) (cs : List Char) :
    (terminatorEnds offset cs).countP (· ≤ n) = 0 :=
  List.countP_eq_zero.mpr fun _ hplace => by
    have := le_of_mem_terminatorEnds hplace
    exact decide_eq_true_iff.not.mpr (by omega)

/-- A scan counts the terminators that end at or before its place. -/
theorem line_scan (cs : List Char) (p : Position) (offset n : Nat) :
    (scan p n cs).line = p.line + (terminatorEnds offset cs).countP (· ≤ offset + n) := by
  induction p, n, cs using scanInduction generalizing offset with
  | nil => rfl
  | start p c cs hc =>
    have hpos := c.utf8Size_pos
    rw [terminatorEnds_cons hc, countP_terminatorEnds (by omega), scan_zero]
    rfl
  | inside p n c cs hc hn hlt =>
    rw [terminatorEnds_cons hc, countP_terminatorEnds (by omega), scan_inside hc p hn hlt]
    rfl
  | char p n c cs hc ih =>
    rw [terminatorEnds_cons hc, scan_cons hc, ih (offset + c.utf8Size), Nat.add_assoc offset]
  | insideMark p n mark cs hmark hlt =>
    rw [terminatorEnds_endsLine hmark, scan_insideTerminator hmark p hlt,
      List.countP_cons_of_neg (by simp; omega), countP_terminatorEnds (by omega)]
    rfl
  | mark p n mark cs hmark ih =>
    rw [terminatorEnds_endsLine hmark, scan_endsLine hmark, ih (offset + byteSize mark),
      List.countP_cons_of_pos (by simp), Nat.add_assoc offset, Nat.add_assoc p.line, Nat.add_comm 1]

/-! ## Places between characters -/

/-- Whether an offset is that of a place between two characters or at an end of the text. -/
def IsBoundary (cs : List Char) (offset : Nat) : Prop :=
  ∃ pre post, cs = pre ++ post ∧ byteSize pre = offset

theorem isBoundary_zero (cs : List Char) : IsBoundary cs 0 := ⟨[], cs, rfl, rfl⟩

theorem IsBoundary.append_left {cs : List Char} {n : Nat} (h : IsBoundary cs n) (front : List Char) :
    IsBoundary (front ++ cs) (byteSize front + n) := by
  obtain ⟨pre, post, rfl, rfl⟩ := h
  exact ⟨front ++ pre, post, (List.append_assoc ..).symm, byteSize_append ..⟩

theorem IsBoundary.append_right {cs : List Char} {n : Nat} (h : IsBoundary cs n) (tail : List Char) :
    IsBoundary (cs ++ tail) n := by
  obtain ⟨pre, post, rfl, hn⟩ := h
  exact ⟨pre, post ++ tail, List.append_assoc .., hn⟩

theorem EndsLine.isBoundary {rest mark : List Char} (hmark : EndsLine rest mark) {n : Nat}
    (hn : n < byteSize mark) : IsBoundary mark n := by
  cases hmark with
  | both =>
    rcases Nat.lt_or_ge n 1 with hlt | hge
    · exact Nat.lt_one_iff.mp hlt ▸ isBoundary_zero _
    · obtain rfl : n = 1 := Nat.le_antisymm (Nat.le_of_lt_succ hn) hge
      exact ⟨['\r'], ['\n'], rfl, rfl⟩
  | newline => exact Nat.lt_one_iff.mp hn ▸ isBoundary_zero _
  | «return» => exact Nat.lt_one_iff.mp hn ▸ isBoundary_zero _

/-- A place inside a character counts as the start of its line. -/
theorem character_scan_inside {cs : List Char} {n : Nat} (h : ¬IsBoundary cs n) (hn : n ≤ byteSize cs)
    (p : Position) : (scan p n cs).character = 0 := by
  induction p, n, cs using scanInduction with
  | nil p n => exact absurd (Nat.le_zero.mp hn ▸ isBoundary_zero []) h
  | start => exact absurd (isBoundary_zero _) h
  | inside p n c cs hc hpos hlt => rw [scan_inside hc p hpos hlt]
  | char p n c cs hc ih =>
    rw [scan_cons hc]
    exact ih (fun hb => h (hb.append_left [c])) (Nat.le_of_add_le_add_left hn)
  | insideMark p n mark cs hmark hlt => exact absurd ((hmark.isBoundary hlt).append_right cs) h
  | mark p n mark cs hmark ih =>
    rw [byteSize_append] at hn
    rw [scan_endsLine hmark]
    exact ih (fun hb => h (hb.append_left mark)) (Nat.le_of_add_le_add_left hn)

/-! ## Bounds -/

theorem units16_pos (c : Char) : 0 < units16 c := by
  unfold units16
  split <;> decide

theorem units16_le (c : Char) : units16 c ≤ c.utf8Size := by
  have hvalue : c.toNat = c.val.toNat := rfl
  simp only [units16, Char.utf8Size, UInt32.le_iff_toNat_le, UInt32.toNat_ofNatLT, hvalue]
  grind

/-- A scan counts no more lines and no more units than it goes through bytes. -/
theorem scan_le (cs : List Char) (p : Position) (n : Nat) :
    (scan p n cs).line ≤ p.line + n ∧ (scan p n cs).character ≤ p.character + n := by
  induction p, n, cs using scanInduction with
  | nil => exact ⟨Nat.le_add_right .., Nat.le_add_right ..⟩
  | start => rw [scan_zero]; exact ⟨Nat.le_refl _, Nat.le_refl _⟩
  | inside p n c cs hc hn hlt =>
    rw [scan_inside hc p hn hlt]
    exact ⟨Nat.le_add_right .., Nat.zero_le _⟩
  | char p n c cs hc ih =>
    have hunits := units16_le c
    rw [scan_cons hc]
    dsimp only at ih
    omega
  | insideMark p n mark cs hmark hlt =>
    rw [scan_insideTerminator hmark p hlt]
    exact ⟨Nat.le_add_right .., Nat.le_add_right ..⟩
  | mark p n mark cs hmark ih =>
    have hpos := hmark.size_pos
    rw [scan_endsLine hmark]
    dsimp only at ih
    omega

/-! ## Tables -/

namespace LineTable

theorem position_eq {t : LineTable} {offset line start stop : Nat} (hline : t.lineOf offset = line)
    (hstart : t.starts[line]? = some start) (hstop : t.ends[line]? = some stop) :
    t.position offset = ⟨line, column t.text start stop offset⟩ := by
  subst hline
  obtain ⟨-, rfl⟩ := Array.getElem?_eq_some_iff.mp hstart
  obtain ⟨-, rfl⟩ := Array.getElem?_eq_some_iff.mp hstop
  rfl

section
variable {t : LineTable} {spans : List Span}

theorem starts_getElem? (h : t.starts.toList = spans.map Span.start) (line : Nat) :
    t.starts[line]? = spans[line]?.map Span.start := by
  rw [← Array.getElem?_toList, h, List.getElem?_map]

theorem ends_getElem? (h : t.ends.toList = spans.map Span.stop) (line : Nat) :
    t.ends[line]? = spans[line]?.map Span.stop := by
  rw [← Array.getElem?_toList, h, List.getElem?_map]

/-- The line of an offset is the last one that starts at or before it, and a scan stops in it. -/
theorem exists_span_lineOf {cs : List Char} (hspans : Lines 0 cs spans)
    (hstarts : (ofText cs).starts.toList = spans.map Span.start) (offset : Nat) :
    ∃ before span after, spans = before ++ span :: after ∧ (ofText cs).lineOf offset = before.length ∧
      span.start ≤ min offset (byteSize cs) ∧ (∀ s ∈ after, min offset (byteSize cs) < s.start) ∧
      scan ⟨0, 0⟩ (min offset (byteSize cs)) cs =
        ⟨before.length, column cs span.start span.stop (min offset (byteSize cs))⟩ := by
  have hempty : byteSize [] = 0 := rfl
  obtain ⟨before, span, after, rfl, hstart, hafter, hscan⟩ :=
    hspans.exists_scan hempty 0 (Nat.min_le_right offset (byteSize cs))
  simp only [Nat.zero_add, List.nil_append] at hstart hafter hscan
  rw [List.map_append, List.map_cons] at hstarts
  refine ⟨before, span, after, rfl, ?_, hstart, hafter, hscan⟩
  rw [lineOf_eq (grows_ofText cs) hstarts hstart (List.forall_mem_map.mpr hafter), List.length_map]

end

theorem position_ofText (cs : List Char) (offset : Nat) :
    (ofText cs).position offset = scan ⟨0, 0⟩ (min offset (byteSize cs)) cs := by
  obtain ⟨spans, hspans, hstarts, hends⟩ := lines_ofText cs
  obtain ⟨before, span, after, rfl, hline, -, -, hscan⟩ := exists_span_lineOf hspans hstarts offset
  have hspan : (before ++ span :: after)[before.length]? = some span := by simp
  have hentry : (ofText cs).starts[before.length]? = some span.start := by
    rw [starts_getElem? hstarts, hspan]
    rfl
  have hend : (ofText cs).ends[before.length]? = some span.stop := by
    rw [ends_getElem? hends, hspan]
    rfl
  -- the end of the line bounds the offset already
  have hstop := hspans.stop_le span (List.mem_append_right _ List.mem_cons_self)
  have hclamp : min (min offset (byteSize cs)) span.stop = min offset span.stop := by omega
  rw [position_eq hline hentry hend, hscan, column, column, hclamp]
  rfl

/-- What a scan counts. The line of an offset is the number of terminators that end at or before it. The
column is the number of UTF-16 units from the start of the line, where a place inside `\r\n` counts as the
end of the line and one inside a character as the start of it. Neither exceeds the offset. -/
theorem position_counts (cs : List Char) (offset : Nat) :
    let p : Position := (ofText cs).position offset
    let place : Nat := min offset (byteSize cs)
    p = scan ⟨0, 0⟩ place cs ∧
      p.line = (terminatorEnds 0 cs).countP (· ≤ place) ∧
      (∀ front line tail, cs = front ++ (line ++ tail) → StartsLine front (line ++ tail) → Plain line →
        place = byteSize (front ++ line) → p.character = size16 line) ∧
      (∀ front tail, cs = front ++ '\r' :: '\n' :: tail → place = byteSize front + 1 →
        p = (ofText cs).position (byteSize front)) ∧
      (¬IsBoundary cs place → p.character = 0) ∧
      p.line ≤ place ∧ p.character ≤ place := by
  intro p place
  have hscan : p = scan ⟨0, 0⟩ place cs := position_ofText cs offset
  have hline := line_scan cs ⟨0, 0⟩ 0 place
  have hbounds := scan_le cs ⟨0, 0⟩ place
  simp only [Nat.zero_add] at hline hbounds
  refine ⟨hscan, hscan ▸ hline, ?_, ?_, ?_, hscan ▸ hbounds⟩
  · rintro front line tail rfl hstart hplain hplace
    have hcharacter := character_scan_behindTerminator (p := ⟨0, 0⟩) hstart.behindTerminator fun _ => rfl
    have hcolumn := scan_line hplain (scan ⟨0, 0⟩ (byteSize front) front) 0 tail
    rw [scan_zero, hcharacter, Nat.zero_add, Nat.add_zero] at hcolumn
    rw [hscan, hplace, byteSize_append, scan_append hstart.outside, hcolumn]
  · rintro front tail rfl hplace
    have hfront : min (byteSize front) (byteSize (front ++ '\r' :: '\n' :: tail)) = byteSize front :=
      Nat.min_eq_left (by rw [byteSize_append]; exact Nat.le_add_right ..)
    rw [hscan, hplace, scan_return, position_ofText, hfront]
  · intro hinside
    rw [hscan]
    exact character_scan_inside hinside (Nat.min_le_right ..) _

theorem position_counts_second_line :
    ((ofText ['a', '\n', 'é', '😀', 'x', '\r', '\n', 'y']).position 9).character = 4 ∧
      (ofText ['a', '\n', 'é', '😀', 'x', '\r', '\n', 'y']).position 10 =
        (ofText ['a', '\n', 'é', '😀', 'x', '\r', '\n', 'y']).position 9 ∧
      ((ofText ['a', '\n', 'é', '😀', 'x', '\r', '\n', 'y']).position 30).line = 2 := by
  have hstart : StartsLine ['a', '\n'] ['é', '😀', 'x', '\r', '\n', 'y'] :=
    ⟨fun c hc => Option.some.inj hc ▸ rfl, fun h => absurd (Option.some.inj h.1) (by decide)⟩
  have hplain : Plain ['é', '😀', 'x'] := by simp [Plain, isTerminator]
  have hcolumn := (position_counts _ 9).2.2.1 _ _ _ rfl hstart hplain (by decide)
  have hinside := (position_counts _ 10).2.2.2.1 ['a', '\n', 'é', '😀', 'x'] ['y'] rfl (by decide)
  have hline := (position_counts ['a', '\n', 'é', '😀', 'x', '\r', '\n', 'y'] 30).2.1
  exact ⟨hcolumn, hinside, hline⟩

end LineTable
end FaultTolerance.Text
