/-! Positions in a text. Offsets count bytes of its UTF-8 form, columns count UTF-16 units, and
lines end at `\n`, at `\r\n` and at a lone `\r`.

* `LineTable` lists where the lines of a text start and end,
* `LineTable.position` looks an offset up in it. -/
namespace FaultTolerance.Text

/-- A zero-based line and a column in UTF-16 units. -/
structure Position where
  line : Nat
  character : Nat
  deriving DecidableEq, Repr, Inhabited

/-- The part of a text from `start` up to `stop`. -/
structure Range where
  start : Position
  stop : Position
  deriving DecidableEq, Repr, Inhabited

/-- The number of bytes of a text in UTF-8. -/
def byteSize : List Char → Nat
  | [] => 0
  | c :: cs => c.utf8Size + byteSize cs

theorem byteSize_append (cs ds : List Char) : byteSize (cs ++ ds) = byteSize cs + byteSize ds := by
  induction cs with
  | nil => rw [List.nil_append, byteSize, Nat.zero_add]
  | cons c cs ih => rw [List.cons_append, byteSize, byteSize, ih, Nat.add_assoc]

theorem byteSize_ofList (cs : List Char) : (String.ofList cs).utf8ByteSize = byteSize cs := by
  induction cs with
  | nil => rfl
  | cons c cs ih =>
    rw [← List.singleton_append, String.ofList_append, String.utf8ByteSize_append, ih,
      byteSize_append, ← String.singleton_eq_ofList, String.utf8ByteSize_singleton]
    rfl

theorem byteSize_toList (s : String) : byteSize s.toList = s.utf8ByteSize := by
  rw [← byteSize_ofList, String.ofList_toList]

/-- The number of UTF-16 units of a character. -/
def units16 (c : Char) : Nat := if c.toNat < 0x10000 then 1 else 2

/-- The number of UTF-16 units of a text. -/
def size16 : List Char → Nat
  | [] => 0
  | c :: cs => units16 c + size16 cs

/-! ## Parts of a text -/

/-- Splits a text after so many bytes. There is no such place inside a character or behind the end
of the text. -/
def splitBytes? : Nat → List Char → Option (List Char × List Char)
  | 0, cs => some ([], cs)
  | _ + 1, [] => none
  | n + 1, c :: cs =>
    if c.utf8Size ≤ n + 1 then
      (splitBytes? (n + 1 - c.utf8Size) cs).map fun (a, b) => (c :: a, b)
    else none

/-- The text from one offset up to another one behind it. -/
def between? (start stop : Nat) (cs : List Char) : Option (List Char) :=
  (splitBytes? start cs).bind fun (_, rest) => (splitBytes? (stop - start) rest).map Prod.fst

/-! ## Search -/

/-- Looks a number up among the entries of a sorted array with an index from `lo` up to `hi`: its
index, or as an error the index at which it would have to be inserted. -/
def search (xs : Array Nat) (x lo hi : Nat) (h : hi ≤ xs.size) : Except Nat Nat :=
  if hlt : lo < hi then
    let mid := lo + (hi - lo) / 2
    if xs[mid] = x then .ok mid
    else if xs[mid] < x then search xs x (mid + 1) hi h
    else search xs x lo mid (by omega)
  else .error lo
termination_by hi - lo

/-! ## Tables -/

/-- A text, and the offsets at which its lines start and end. -/
structure LineTable where
  text : List Char
  starts : Array Nat
  ends : Array Nat
  nonempty : 0 < starts.size
  size_ends : ends.size = starts.size
  deriving DecidableEq, Repr

namespace LineTable

/-- Reads a text on from an offset. At a terminator a line ends and the next one starts; the last
line ends with the text. -/
def addLines (offset : Nat) (starts ends : Array Nat) : List Char → Array Nat × Array Nat
  | [] => (starts, ends.push offset)
  | '\r' :: '\n' :: cs => addLines (offset + 2) (starts.push (offset + 2)) (ends.push offset) cs
  | c :: cs =>
    let next := offset + c.utf8Size
    if c = '\n' ∨ c = '\r' then addLines next (starts.push next) (ends.push offset) cs
    else addLines next starts ends cs

theorem size_addLines (offset : Nat) (starts ends : Array Nat) (cs : List Char)
    (h : starts.size = ends.size + 1) :
    (addLines offset starts ends cs).2.size = (addLines offset starts ends cs).1.size ∧
      starts.size ≤ (addLines offset starts ends cs).1.size := by
  fun_induction addLines offset starts ends cs with
  | case1 => simp [h]
  | case2 offset starts ends cs ih =>
    have hnext := ih (by simp [h])
    rw [Array.size_push] at hnext
    exact ⟨hnext.1, by omega⟩
  | case3 offset starts ends c cs _ _ _ ih =>
    have hnext := ih (by simp [h])
    rw [Array.size_push] at hnext
    exact ⟨hnext.1, by omega⟩
  | case4 offset starts ends c cs _ _ _ ih => exact ih h

def ofText (cs : List Char) : LineTable :=
  let tables := addLines 0 #[0] #[] cs
  have hsize := size_addLines 0 #[0] #[] cs rfl
  ⟨cs, tables.1, tables.2, hsize.2, hsize.1⟩

def size (t : LineTable) : Nat := byteSize t.text

def lineCount (t : LineTable) : Nat := t.starts.size

/-- The number of the last line that starts at or before an offset. -/
def lineOf (t : LineTable) (offset : Nat) : Nat :=
  match search t.starts (min offset t.size) 0 t.starts.size (Nat.le_refl _) with
  | .ok line => line
  | .error place => place - 1

theorem search_lt {xs : Array Nat} {x lo hi : Nat} (h : hi ≤ xs.size) (hlo : lo ≤ hi) :
    match search xs x lo hi h with
    | .ok i => i < hi
    | .error i => i ≤ hi := by
  fun_induction search xs x lo hi h <;> grind

theorem lineOf_lt (t : LineTable) (offset : Nat) : t.lineOf offset < t.starts.size := by
  have hpos := t.nonempty
  have hbound := search_lt (x := min offset t.size) (Nat.le_refl t.starts.size) (Nat.zero_le _)
  unfold lineOf
  cases hfound : search t.starts (min offset t.size) 0 t.starts.size (Nat.le_refl _) with
  | ok line =>
    rw [hfound] at hbound
    exact hbound
  | error place =>
    rw [hfound] at hbound
    exact Nat.lt_of_le_of_lt (Nat.sub_le_sub_right hbound 1) (Nat.sub_lt hpos Nat.one_pos)

/-- The column of an offset in the line from `start` to `stop`; zero where the offset is inside a
character. -/
def column (cs : List Char) (start stop offset : Nat) : Nat :=
  size16 ((between? start (max start (min offset stop)) cs).getD [])

/-- The position of an offset. An offset past the end stands for the end, one inside `\r\n` for
the end of the line, and one inside a character for the start of its line. -/
def position (t : LineTable) (offset : Nat) : Position :=
  let line := t.lineOf offset
  have hstart := t.lineOf_lt offset
  have hstop := t.size_ends ▸ hstart
  ⟨line, column t.text t.starts[line] t.ends[line] offset⟩

def range (t : LineTable) (start stop : Nat) : Range := ⟨t.position start, t.position stop⟩

end LineTable
end FaultTolerance.Text
