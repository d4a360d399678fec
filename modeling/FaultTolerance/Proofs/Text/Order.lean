import FaultTolerance.Proofs.Text.Scan
import Mathlib.Data.Prod.Lex
import Mathlib.Order.Monotone.Defs

/-! The order of positions. Positions compare by line and then by column. Going on in a text from one
place between characters to another leads to a later position (`lt_scan`); only the `\r` of a `\r\n` has
no extent (`scan_return`). So places stand in the order of their positions, and ranges lie to one another
as the parts of the text do. -/
namespace FaultTolerance.Text
set_option autoImplicit false

instance : LinearOrder Position :=
  LinearOrder.lift' (fun p => toLex (p.line, p.character)) fun p q h => by
    cases p
    cases q
    simpa using h

theorem Position.lt_iff {p q : Position} :
    p < q ↔ p.line < q.line ∨ p.line = q.line ∧ p.character < q.character :=
  Prod.Lex.toLex_lt_toLex

theorem Position.le_iff {p q : Position} :
    p ≤ q ↔ p.line < q.line ∨ p.line = q.line ∧ p.character ≤ q.character :=
  Prod.Lex.toLex_le_toLex

theorem Position.lt_further (p : Position) (c : Char) : p < ⟨p.line, p.character + units16 c⟩ :=
  lt_iff.mpr (.inr ⟨rfl, Nat.lt_add_of_pos_right (units16_pos c)⟩)

theorem Position.lt_nextLine (p : Position) : p < ⟨p.line + 1, 0⟩ := lt_iff.mpr (.inl (Nat.lt_succ_self _))

/-- Whether one range has another one inside it. -/
def Range.Contains (r s : Range) : Prop := r.start ≤ s.start ∧ s.stop ≤ r.stop

/-- Whether one range ends where another one starts, or before. -/
def Range.Before (r s : Range) : Prop := r.stop ≤ s.start

/-! ## Places between characters -/

theorem isBoundary_size (cs : List Char) : IsBoundary cs (byteSize cs) :=
  ⟨cs, [], (List.append_nil cs).symm, rfl⟩

theorem IsBoundary.le_size {cs : List Char} {n : Nat} (h : IsBoundary cs n) : n ≤ byteSize cs := by
  obtain ⟨pre, post, rfl, rfl⟩ := h
  rw [byteSize_append]
  exact Nat.le_add_right ..

theorem IsBoundary.of_cons {c : Char} {cs : List Char} {n : Nat} (h : IsBoundary (c :: cs) n) :
    n = 0 ∨ ∃ m, n = c.utf8Size + m ∧ IsBoundary cs m := by
  obtain ⟨pre, post, happend, rfl⟩ := h
  cases pre with
  | nil => exact .inl rfl
  | cons d pre =>
    obtain ⟨rfl, rfl⟩ := List.cons.inj happend
    exact .inr ⟨byteSize pre, rfl, pre, post, rfl, rfl⟩

theorem IsBoundary.of_append {front cs : List Char} {n : Nat}
    (h : IsBoundary (front ++ cs) (byteSize front + n)) : IsBoundary cs n := by
  induction front with
  | nil => rwa [byteSize, Nat.zero_add] at h
  | cons c front ih =>
    have hpos := c.utf8Size_pos
    rw [byteSize, Nat.add_assoc] at h
    rcases h.of_cons with hzero | ⟨m, hm, h⟩
    · omega
    · exact ih (Nat.add_left_cancel hm ▸ h)

/-- Whether two offsets are those of the places before and behind the `\r` of a `\r\n`. -/
def AroundReturn (cs : List Char) (p q : Nat) : Prop :=
  ∃ pre post, cs = pre ++ '\r' :: '\n' :: post ∧ p = byteSize pre ∧ q = byteSize pre + 1

/-- Whether an offset is that of a place inside `\r\n`. -/
def InsideReturn (cs : List Char) (offset : Nat) : Prop := ∃ p, AroundReturn cs p offset

theorem AroundReturn.eq_succ {cs : List Char} {p q : Nat} (h : AroundReturn cs p q) : q = p + 1 := by
  obtain ⟨pre, post, -, rfl, rfl⟩ := h
  rfl

theorem AroundReturn.append_left {cs : List Char} {p q : Nat} (h : AroundReturn cs p q)
    (front : List Char) : AroundReturn (front ++ cs) (byteSize front + p) (byteSize front + q) := by
  obtain ⟨pre, post, rfl, rfl, rfl⟩ := h
  exact ⟨front ++ pre, post, (List.append_assoc ..).symm, (byteSize_append ..).symm,
    by rw [byteSize_append, Nat.add_assoc]⟩

theorem InsideTerminator.aroundReturn {pre post : List Char} (h : InsideTerminator pre post) :
    ∃ front, pre = front ++ ['\r'] ∧ AroundReturn (pre ++ post) (byteSize front) (byteSize pre) := by
  obtain ⟨front, rfl⟩ := List.getLast?_eq_some_iff.mp h.1
  obtain ⟨rest, rfl⟩ := List.head?_eq_some_iff.mp h.2
  exact ⟨front, rfl, front, rest, by simp, rfl, byteSize_append ..⟩

/-! ## Scans -/

theorem le_scan {cs : List Char} {n : Nat} (h : IsBoundary cs n) (p : Position) : p ≤ scan p n cs := by
  induction p, n, cs using scanInduction with
  | nil p n => exact le_refl p
  | start => rw [scan_zero]
  | inside p n c cs hc hn hlt =>
    obtain ⟨m, rfl, -⟩ := h.of_cons.resolve_left hn
    omega
  | char p n c cs hc ih =>
    rw [scan_cons hc]
    exact (p.lt_further c).le.trans (ih (@IsBoundary.of_append [c] _ _ h))
  | insideMark p n mark cs hmark hlt => rw [scan_insideTerminator hmark p hlt]
  | mark p n mark cs hmark ih =>
    rw [scan_endsLine hmark]
    exact p.lt_nextLine.le.trans (ih h.of_append)

/-- A scan leads to a later position, unless it goes over nothing but the `\r` of a `\r\n`. -/
theorem lt_scan {cs : List Char} {n : Nat} (h : IsBoundary cs n) (hpos : n ≠ 0)
    (hreturn : ¬AroundReturn cs 0 n) (p : Position) : p < scan p n cs := by
  induction p, n, cs using scanInduction with
  | nil p n => exact absurd (Nat.le_zero.mp h.le_size) hpos
  | start => exact absurd rfl hpos
  | inside p n c cs hc hn hlt =>
    obtain ⟨m, rfl, -⟩ := h.of_cons.resolve_left hn
    omega
  | char p n c cs hc =>
    rw [scan_cons hc]
    exact (p.lt_further c).trans_le (le_scan (@IsBoundary.of_append [c] _ _ h) _)
  | insideMark p n mark cs hmark hlt =>
    cases hmark with
    | both =>
      have hone : n = 1 := Nat.le_antisymm (Nat.le_of_lt_succ hlt) (Nat.pos_of_ne_zero hpos)
      exact absurd ⟨[], cs, rfl, rfl, hone⟩ hreturn
    | newline => exact absurd (Nat.lt_one_iff.mp hlt) hpos
    | «return» => exact absurd (Nat.lt_one_iff.mp hlt) hpos
  | mark p n mark cs hmark =>
    rw [scan_endsLine hmark]
    exact p.lt_nextLine.trans_le (le_scan h.of_append _)

/-- Every place between characters counts as one outside `\r\n`, from which a scan goes on. -/
theorem exists_outside {cs : List Char} {offset : Nat} (h : IsBoundary cs offset) (p : Position) :
    ∃ pre post, cs = pre ++ post ∧ ¬InsideTerminator pre post ∧
      scan p offset cs = scan p (byteSize pre) pre ∧
      (byteSize pre = offset ∨ AroundReturn cs (byteSize pre) offset) := by
  obtain ⟨pre, post, rfl, rfl⟩ := h
  by_cases hinside : InsideTerminator pre post
  · obtain ⟨front, rfl, haround⟩ := hinside.aroundReturn
    obtain ⟨rest, rfl⟩ := List.head?_eq_some_iff.mp hinside.2
    have houtside : ¬InsideTerminator front ('\r' :: '\n' :: rest) := fun h =>
      absurd (Option.some.inj h.2) (by decide)
    have hfront := scan_append houtside p 0
    rw [scan_zero, Nat.add_zero] at hfront
    refine ⟨front, '\r' :: '\n' :: rest, List.append_assoc .., houtside, ?_, .inr haround⟩
    rw [byteSize_append, List.append_assoc]
    exact (scan_return p front rest).trans hfront
  · have hfront := scan_append hinside p 0
    rw [scan_zero, Nat.add_zero] at hfront
    exact ⟨pre, post, rfl, hinside, hfront, .inl rfl⟩

theorem scan_lt_scan {cs : List Char} {a b : Nat} (ha : IsBoundary cs a) (hb : IsBoundary cs b)
    (hlt : a < b) (hreturn : ¬AroundReturn cs a b) (p : Position) : scan p a cs < scan p b cs := by
  obtain ⟨pre, post, rfl, houtside, hscan, hplace⟩ := exists_outside ha p
  have hle : byteSize pre ≤ a := by
    rcases hplace with heq | haround
    · exact Nat.le_of_eq heq
    · exact haround.eq_succ ▸ Nat.le_succ _
  obtain ⟨n, rfl⟩ := Nat.exists_eq_add_of_le (Nat.le_of_lt (Nat.lt_of_le_of_lt hle hlt))
  rw [hscan, scan_append houtside]
  refine lt_scan hb.of_append (by omega) (fun haround => ?_) _
  -- then no place is between the two, so `a` is in front of the `\r` itself
  have hn := haround.eq_succ
  obtain rfl : a = byteSize pre + 0 := by omega
  exact hreturn (haround.append_left pre)

/-! ## Tables -/

namespace LineTable
variable {cs : List Char} {a b : Nat}

theorem position_of_isBoundary (h : IsBoundary cs a) : (ofText cs).position a = scan ⟨0, 0⟩ a cs := by
  rw [position_ofText, Nat.min_eq_left h.le_size]

theorem position_aroundReturn (h : AroundReturn cs a b) :
    (ofText cs).position a = (ofText cs).position b := by
  obtain ⟨pre, post, rfl, rfl, rfl⟩ := h
  have hfront : IsBoundary (pre ++ '\r' :: '\n' :: post) (byteSize pre) := ⟨pre, _, rfl, rfl⟩
  have hinside : IsBoundary (pre ++ '\r' :: '\n' :: post) (byteSize pre + 1) :=
    ⟨pre ++ ['\r'], '\n' :: post, by simp, byteSize_append ..⟩
  rw [position_of_isBoundary hfront, position_of_isBoundary hinside, scan_return]

theorem position_lt (ha : IsBoundary cs a) (hb : IsBoundary cs b) (hlt : a < b)
    (hreturn : ¬AroundReturn cs a b) : (ofText cs).position a < (ofText cs).position b := by
  rw [position_of_isBoundary ha, position_of_isBoundary hb]
  exact scan_lt_scan ha hb hlt hreturn _

theorem strictMonoOn_position (cs : List Char) :
    StrictMonoOn (ofText cs).position {o | IsBoundary cs o ∧ ¬InsideReturn cs o} :=
  fun a ha _ hb hlt => position_lt ha.1 hb.1 hlt fun haround => hb.2 ⟨a, haround⟩

theorem monotoneOn_position (cs : List Char) :
    MonotoneOn (ofText cs).position {o | IsBoundary cs o} := by
  intro a ha b hb hle
  rcases Nat.lt_or_eq_of_le hle with hlt | rfl
  · by_cases haround : AroundReturn cs a b
    · exact (position_aroundReturn haround).le
    · exact (position_lt ha hb hlt haround).le
  · exact le_refl _

/-- The line of a later offset is no earlier one, also when an offset is inside a character. -/
theorem line_position_mono (cs : List Char) {a b : Nat} (h : a ≤ b) :
    ((ofText cs).position a).line ≤ ((ofText cs).position b).line := by
  have hplace : min a (byteSize cs) ≤ min b (byteSize cs) := by omega
  rw [position_ofText, position_ofText, line_scan cs _ 0, line_scan cs _ 0]
  refine Nat.add_le_add_left (List.countP_mono_left fun place _ hle => ?_) _
  simp only [decide_eq_true_eq] at hle ⊢
  omega

theorem position_min (cs : List Char) (offset : Nat) :
    (ofText cs).position (min offset (byteSize cs)) = (ofText cs).position offset := by
  rw [position_ofText, position_ofText, Nat.min_assoc, Nat.min_self]

/-- Only the end of a range has to be a place between characters, for a start inside a character counts
as the start of its line. -/
theorem range_start_le_stop (h : a ≤ b) (hb : IsBoundary cs (min b (byteSize cs))) :
    ((ofText cs).range a b).start ≤ ((ofText cs).range a b).stop := by
  show (ofText cs).position a ≤ (ofText cs).position b
  by_cases ha : IsBoundary cs (min a (byteSize cs))
  · rw [← position_min cs a, ← position_min cs b]
    exact monotoneOn_position cs ha hb (by omega)
  · have hcharacter : ((ofText cs).position a).character = 0 := by
      rw [position_ofText]
      exact character_scan_inside ha (Nat.min_le_right ..) _
    rw [Position.le_iff, hcharacter]
    rcases Nat.lt_or_eq_of_le (line_position_mono cs h) with hlt | heq
    · exact .inl hlt
    · exact .inr ⟨heq, Nat.zero_le _⟩

/-- Places between characters have their positions in order. They are all different but for the two
places around the `\r` of a `\r\n`. So a part of the text inside another one has its range inside the
other range, and parts behind one another have their ranges behind one another; without ends inside
`\r\n` it also holds the other way. No range ends before it starts. -/
theorem position_order (cs : List Char) :
    (∀ p q, IsBoundary cs p → IsBoundary cs q → p < q →
      (AroundReturn cs p q → (ofText cs).position p = (ofText cs).position q) ∧
      (¬AroundReturn cs p q → (ofText cs).position p < (ofText cs).position q)) ∧
    Set.InjOn (ofText cs).position {o | IsBoundary cs o ∧ ¬InsideReturn cs o} ∧
    (∀ a b c d, IsBoundary cs a → IsBoundary cs b → IsBoundary cs c → IsBoundary cs d →
      (a ≤ c ∧ d ≤ b → ((ofText cs).range a b).Contains ((ofText cs).range c d)) ∧
      (b ≤ c → ((ofText cs).range a b).Before ((ofText cs).range c d))) ∧
    (∀ a b c d, (∀ o ∈ [a, b, c, d], IsBoundary cs o ∧ ¬InsideReturn cs o) →
      (((ofText cs).range a b).Contains ((ofText cs).range c d) ↔ a ≤ c ∧ d ≤ b) ∧
      (((ofText cs).range a b).Before ((ofText cs).range c d) ↔ b ≤ c)) ∧
    ∀ start stop, start ≤ stop → IsBoundary cs (min stop (byteSize cs)) →
      ((ofText cs).range start stop).start ≤ ((ofText cs).range start stop).stop := by
  have hmono := monotoneOn_position cs
  have hstrict := strictMonoOn_position cs
  refine ⟨fun p q hp hq hlt => ⟨position_aroundReturn, position_lt hp hq hlt⟩, hstrict.injOn,
    fun a b c d ha hb hc hd => ⟨fun h => ⟨hmono ha hc h.1, hmono hd hb h.2⟩, hmono hb hc⟩, ?_,
    fun _ _ => range_start_le_stop⟩
  intro a b c d h
  have ha := h a (by simp)
  have hb := h b (by simp)
  have hc := h c (by simp)
  have hd := h d (by simp)
  exact ⟨and_congr (hstrict.le_iff_le ha hc) (hstrict.le_iff_le hd hb), hstrict.le_iff_le hb hc⟩

theorem position_order_return :
    (ofText ['a', '\r', '\n', 'é']).position 1 = (ofText ['a', '\r', '\n', 'é']).position 2 ∧
      (ofText ['a', '\r', '\n', 'é']).position 2 < (ofText ['a', '\r', '\n', 'é']).position 3 ∧
      ((ofText ['a', '\r', '\n', 'é']).range 4 5).start ≤
        ((ofText ['a', '\r', '\n', 'é']).range 4 5).stop := by
  have hfront : IsBoundary ['a', '\r', '\n', 'é'] 1 := ⟨['a'], _, rfl, rfl⟩
  have hinside : IsBoundary ['a', '\r', '\n', 'é'] 2 := ⟨['a', '\r'], _, rfl, rfl⟩
  have hbehind : IsBoundary ['a', '\r', '\n', 'é'] 3 := ⟨['a', '\r', '\n'], _, rfl, rfl⟩
  have haround : AroundReturn ['a', '\r', '\n', 'é'] 1 2 := ⟨['a'], ['é'], rfl, rfl, rfl⟩
  have horder := position_order ['a', '\r', '\n', 'é']
  refine ⟨(horder.1 1 2 hfront hinside (by decide)).1 haround, (horder.1 2 3 hinside hbehind (by decide)).2 ?_,
    horder.2.2.2.2 4 5 (by decide) (isBoundary_size _)⟩
  rintro ⟨pre, post, happend, hsize, -⟩
  have hsplit : some (['a', '\r'], ['\n', 'é']) = some (pre, '\r' :: '\n' :: post) :=
    splitBytes?_eq_some_iff.mpr ⟨happend, hsize.symm⟩
  simp at hsplit

end LineTable
end FaultTolerance.Text
