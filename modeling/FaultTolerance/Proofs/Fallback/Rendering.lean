import FaultTolerance.Proofs.Fallback.Compatibility
import FaultTolerance.Proofs.Fallback.Findings

/-! The signature that a message asks for. A regular type, whose `[]` all stand at its end, is shown as
its erased simple name (`displayType_of_isRegular`), and the text of a signature can be read back, so two
methods are shown alike just where their types are the same (`expectedSignature_eq_iff`). A message about
a signature never asks for the text that the candidate has already (`expectedSignature_decides`). -/
namespace FaultTolerance.Fallback
open Java Naming Text
set_option autoImplicit false

/-! ## Dimensions -/

/-- Whether a type erases to a text with a simple name, with dimensions behind it and nowhere else. -/
def IsRegular (type : String) : Prop :=
  ∃ base n, eraseChars type.toList = base ++ dimensions n ∧ ¬ ['[', ']'] <:+: base ∧
    simpleName (.ofList base) ≠ ""

theorem isRegular_of_notMem {type : String} (base : List Char) (n : Nat)
    (herased : eraseChars type.toList = base ++ dimensions n) (hbase : '[' ∉ base)
    (hname : simpleName (.ofList base) ≠ "") : IsRegular type :=
  ⟨base, n, herased, fun hdims => hbase (hdims.subset List.mem_cons_self), hname⟩

theorem splitDimensionsRev_dimensions (n : Nat) (cs : List Char) :
    splitDimensionsRev ((dimensions n).reverse ++ cs) =
      ((splitDimensionsRev cs).1 + n, (splitDimensionsRev cs).2) := by
  induction n generalizing cs with
  | zero => rfl
  | succ n ih =>
    have hone : (dimensions (n + 1)).reverse ++ cs = (dimensions n).reverse ++ ']' :: '[' :: cs := by
      simp [dimensions]
    rw [hone, ih, splitDimensionsRev, Nat.add_assoc, Nat.add_comm 1 n]

theorem splitDimensionsRev_of_ne {cs : List Char} (h : ∀ rest, cs ≠ ']' :: '[' :: rest) :
    splitDimensionsRev cs = (0, cs) := by
  unfold splitDimensionsRev
  split
  · exact absurd rfl (h _)
  · rfl

section
variable {base : List Char}

theorem splitDimensions_append (h : ¬ ['[', ']'] <:+: base) (n : Nat) :
    splitDimensions (base ++ dimensions n) = (base, n) := by
  have hbase : splitDimensionsRev base.reverse = (0, base.reverse) := by
    refine splitDimensionsRev_of_ne fun rest hrest => h ?_
    refine ⟨rest.reverse, [], ?_⟩
    simpa using (congrArg List.reverse hrest).symm
  rw [splitDimensions, List.reverse_append, splitDimensionsRev_dimensions, hbase, Nat.zero_add,
    List.reverse_reverse]

theorem countDimensions_dimensions (n : Nat) : countDimensions (dimensions n) = n := by
  induction n with
  | zero => rfl
  | succ n ih => rw [dimensions, countDimensions, ih]

theorem countDimensions_cons {c : Char} {cs : List Char} (h : ∀ rest, c :: cs ≠ '[' :: ']' :: rest) :
    countDimensions (c :: cs) = countDimensions cs := by
  rw [countDimensions]
  rintro rest rfl rfl
  exact h rest rfl

theorem countDimensions_append (h : ¬ ['[', ']'] <:+: base) (n : Nat) :
    countDimensions (base ++ dimensions n) = n := by
  induction base with
  | nil => exact countDimensions_dimensions n
  | cons c base ih =>
    have hpair : ∀ rest, c :: (base ++ dimensions n) ≠ '[' :: ']' :: rest := by
      intro rest hrest
      obtain ⟨rfl, htail⟩ := List.cons_eq_cons.mp hrest
      cases base with
      | nil => cases n <;> simp [dimensions] at htail
      | cons d base =>
        obtain ⟨rfl, -⟩ := List.cons_eq_cons.mp htail
        exact h ⟨[], base, rfl⟩
    rw [List.cons_append, countDimensions_cons hpair]
    exact ih fun hdims => h (hdims.trans (List.infix_cons (List.infix_refl base)))

end

theorem simpleName_dimensions (base : List Char) (n : Nat) :
    simpleName (.ofList (base ++ dimensions n)) =
      simpleName (.ofList base) ++ .ofList (dimensions n) := by
  have hsquares : ∀ c ∈ dimensions n, (decide (c = '.') || decide (c = '$')) = false := by
    intro c hc
    induction n with
    | zero => cases hc
    | succ n ih =>
      rw [dimensions, List.mem_cons, List.mem_cons] at hc
      rcases hc with rfl | rfl | hc
      · decide
      · decide
      · exact ih hc
  simp only [simpleName, String.toList_ofList]
  rw [lastSegment_append hsquares, String.ofList_append]

/-- What is shown of a regular type is what types are compared by. -/
theorem displayType_of_isRegular {type : String} (h : IsRegular type) :
    displayType type = simpleName (erase type) := by
  obtain ⟨base, n, herased, hbase, -⟩ := h
  simp only [displayType, erase, herased, splitDimensions_append hbase, countDimensions_append hbase,
    simpleName_dimensions]

theorem displayType_ne_empty {type : String} (h : IsRegular type) : displayType type ≠ "" := by
  rw [displayType_of_isRegular h, erase]
  obtain ⟨base, n, herased, -, hname⟩ := h
  rw [herased, simpleName_dimensions]
  intro hempty
  exact hname (String.append_eq_empty_iff.mp hempty).1

/-! ## Reading a signature back -/

theorem isSpace_of_mem_eraseArguments {depth : Nat} {cs : List Char} {c : Char}
    (h : c ∈ eraseArguments depth cs) : isSpace c = false := by
  induction cs generalizing depth with
  | nil => cases h
  | cons d cs ih =>
    unfold eraseArguments at h
    split_ifs at h with _ _ hdropped
    · exact ih h
    · exact ih h
    · exact ih h
    · rcases List.mem_cons.mp h with rfl | h
      · exact (Bool.or_eq_false_iff.mp (Bool.eq_false_iff.mpr hdropped)).1
      · exact ih h

theorem isSpace_of_mem_eraseChars {cs : List Char} {c : Char} (h : c ∈ eraseChars cs) :
    isSpace c = false := by
  unfold eraseChars varargsToArray at h
  split at h
  · rename_i base hbase
    rcases List.mem_append.mp h with h | h
    · have hmem := List.mem_append_left ['.', '.', '.'] h
      rw [← stripEnd?_eq_some_iff.mp hbase] at hmem
      exact isSpace_of_mem_eraseArguments hmem
    · have hall : ∀ c ∈ ['[', ']'], isSpace c = false := List.all_iff_forall_prop.mp (by decide)
      exact hall c h
  · exact isSpace_of_mem_eraseArguments h

theorem space_notMem_displayType {type : String} (h : IsRegular type) :
    ' ' ∉ (displayType type).toList := by
  rw [displayType_of_isRegular h, simpleName, erase, String.toList_ofList, String.toList_ofList,
    lastSegment, List.mem_reverse]
  intro hmem
  have herased : ' ' ∈ eraseChars type.toList :=
    List.mem_reverse.mp ((List.takeWhile_sublist _).mem hmem)
  exact absurd (isSpace_of_mem_eraseChars herased) (by decide)

theorem append_cons_inj {c : Char} {x y r s : List Char} (hx : c ∉ x) (hy : c ∉ y)
    (h : x ++ c :: r = y ++ c :: s) : x = y ∧ r = s := by
  rcases List.append_eq_append_iff.mp h with ⟨more, rfl, hmore⟩ | ⟨more, rfl, hmore⟩
  · cases more with
    | nil => exact ⟨(List.append_nil x).symm, (List.cons_eq_cons.mp hmore).2⟩
    | cons d more =>
      obtain ⟨rfl, -⟩ := List.cons_eq_cons.mp hmore
      exact absurd (List.mem_append_right x List.mem_cons_self) hy
  · cases more with
    | nil => exact ⟨List.append_nil y, (List.cons_eq_cons.mp hmore).2.symm⟩
    | cons d more =>
      obtain ⟨rfl, -⟩ := List.cons_eq_cons.mp hmore
      exact absurd (List.mem_append_right y List.mem_cons_self) hx

/-- Whether a text can be told from others that are joined with it by commas and spaces. -/
def IsItem (cs : List Char) : Prop := cs ≠ [] ∧ ' ' ∉ cs

theorem join_cons_ne_nil {x : List Char} (hx : IsItem x) (xs : List (List Char)) :
    [',', ' '].intercalate (x :: xs) ≠ [] := by
  cases xs with
  | nil => simpa using hx.1
  | cons y xs => simp [List.intercalate_cons_cons]

theorem join_injective {xs ys : List (List Char)} (hxs : ∀ x ∈ xs, IsItem x) (hys : ∀ y ∈ ys, IsItem y)
    (h : [',', ' '].intercalate xs = [',', ' '].intercalate ys) : xs = ys := by
  -- An item may have commas, and may even end in one, but no space; so the items end where spaces are.
  induction xs generalizing ys with
  | nil =>
    cases ys with
    | nil => rfl
    | cons y ys => exact absurd h.symm (join_cons_ne_nil (hys y List.mem_cons_self) ys)
  | cons x xs ih =>
    obtain ⟨hx, hxs⟩ := List.forall_mem_cons.mp hxs
    cases ys with
    | nil => exact absurd h (join_cons_ne_nil hx xs)
    | cons y ys =>
      obtain ⟨hy, hys⟩ := List.forall_mem_cons.mp hys
      cases xs with
      | nil =>
        cases ys with
        | nil => simpa using h
        | cons y' ys =>
          rw [List.intercalate_singleton, List.intercalate_cons_cons] at h
          exact absurd (by simp [h]) hx.2
      | cons x' xs =>
        cases ys with
        | nil =>
          rw [List.intercalate_singleton, List.intercalate_cons_cons] at h
          exact absurd (by simp [← h]) hy.2
        | cons y' ys =>
          rw [List.intercalate_cons_cons, List.intercalate_cons_cons] at h
          have hspace : (x ++ [',']) ++ ' ' :: [',', ' '].intercalate (x' :: xs) =
              (y ++ [',']) ++ ' ' :: [',', ' '].intercalate (y' :: ys) := by simpa using h
          obtain ⟨hhead, htail⟩ := append_cons_inj (by simp [hx.2]) (by simp [hy.2]) hspace
          rw [List.append_cancel_right hhead, ih hxs hys htail]

/-! ## Methods -/

def HasRegularTypes (m : Method) : Prop := ∀ type ∈ m.returnType :: m.parameterTypes, IsRegular type

theorem isItem_displayType {type : String} (h : IsRegular type) : IsItem (displayType type).toList :=
  ⟨fun hnil => displayType_ne_empty h (String.toList_eq_nil_iff.mp hnil), space_notMem_displayType h⟩

theorem toList_expectedSignature (name : String) (m : Method) :
    (expectedSignature name m).toList = (displayType m.returnType).toList ++ ' ' ::
      (name.toList ++ '(' :: ([',', ' '].intercalate
        ((m.parameterTypes.map displayType).map String.toList) ++ [')'])) := by
  simp [expectedSignature, String.toList_append, String.toList_intercalate]

section
variable {a b : Method}

theorem map_displayType_eq_iff (ha : HasRegularTypes a) (hb : HasRegularTypes b) :
    a.parameterTypes.map displayType = b.parameterTypes.map displayType ↔
      List.Forall₂ SameType a.parameterTypes b.parameterTypes := by
  have hshown : ∀ m, HasRegularTypes m → m.parameterTypes.map displayType =
      m.parameterTypes.map fun type => simpleName (erase type) := fun m hm =>
    List.map_congr_left fun type htype => displayType_of_isRegular (hm type (List.mem_cons_of_mem _ htype))
  rw [hshown a ha, hshown b hb, ← List.forall₂_eq_eq_eq, List.forall₂_map_left_iff,
    List.forall₂_map_right_iff]
  rfl

theorem expectedSignature_eq_iff (ha : HasRegularTypes a) (hb : HasRegularTypes b) (name : String) :
    expectedSignature name a = expectedSignature name b ↔ SameSignature a b := by
  have hreturna := ha a.returnType List.mem_cons_self
  have hreturnb := hb b.returnType List.mem_cons_self
  constructor
  · intro h
    have htext := congrArg String.toList h
    rw [toList_expectedSignature, toList_expectedSignature] at htext
    obtain ⟨hreturn, hrest⟩ := append_cons_inj (space_notMem_displayType hreturna)
      (space_notMem_displayType hreturnb) htext
    have hjoined := List.append_cancel_right
      (List.cons_eq_cons.mp (List.append_cancel_left hrest)).2
    have hitems : ∀ m, HasRegularTypes m →
        ∀ x ∈ (m.parameterTypes.map displayType).map String.toList, IsItem x := by
      intro m hm x hx
      obtain ⟨shown, hshown, rfl⟩ := List.mem_map.mp hx
      obtain ⟨type, htype, rfl⟩ := List.mem_map.mp hshown
      exact isItem_displayType (hm type (List.mem_cons_of_mem _ htype))
    have hshown := List.map_injective_iff.mpr (fun _ _ => String.toList_inj.mp)
      (join_injective (hitems a ha) (hitems b hb) hjoined)
    refine ⟨?_, (map_displayType_eq_iff ha hb).mp hshown⟩
    rw [SameType, ← displayType_of_isRegular hreturna, ← displayType_of_isRegular hreturnb]
    exact String.toList_inj.mp hreturn
  · intro h
    have hreturn : displayType a.returnType = displayType b.returnType := by
      rw [displayType_of_isRegular hreturna, displayType_of_isRegular hreturnb]
      exact h.returnType
    rw [expectedSignature, expectedSignature, hreturn, (map_displayType_eq_iff ha hb).mpr h.parameterTypes]

end

/-! ## Messages -/

section
variable {model : Model} {checkSignatures : Bool} {methods : List Method} {o : Occurrence}
  {annotated candidate : Method} {name : String}

/-- The one problem that a reference to a lone candidate can have. -/
theorem eq_incompatible_of_verdict {problem : Problem} (hlone : Lone methods name candidate)
    (h : Verdict checkSignatures methods (.method annotated) name problem) :
    problem = .incompatibleSignature name (expectedSignature name annotated) ∧
      isCompatible annotated candidate = false := by
  rw [verdict_iff_incompatible (filter_eq_singleton_iff_lone.mpr hlone)] at h
  obtain ⟨-, -, annotated', htarget, hmismatch, hproblem⟩ := h
  cases htarget
  exact ⟨hproblem, isCompatible_eq_false.mpr hmismatch⟩

theorem ne_of_isCompatible_eq_false (ha : HasRegularTypes annotated) (hc : HasRegularTypes candidate)
    (h : isCompatible annotated candidate = false) (name : String) :
    expectedSignature name candidate ≠ expectedSignature name annotated := by
  intro hshown
  have hsame := ((expectedSignature_eq_iff hc ha name).mp hshown).symm
  rw [hsame.isCompatible] at h
  cases h

end

/-- Methods with regular types are shown alike just where their types are the same. So a reported candidate
is shown otherwise than the message expects, and one that is shown as expected is not reported. -/
theorem expectedSignature_decides {annotated candidate : Method} (ha : HasRegularTypes annotated)
    (hc : HasRegularTypes candidate) (name : String) :
    (expectedSignature name annotated = expectedSignature name candidate ↔
      SameSignature annotated candidate) ∧
    ∀ (model : Model) (checkSignatures : Bool) (id : Nat) (t : JavaType) (methods : List Method),
      model.type id = .ok t → model.methodsOf id = .ok methods → Lone methods name candidate →
      findings model checkSignatures id = .ok ((Occurrence.ofType model t methods).filterMap
        (finding? model checkSignatures methods)) ∧
      ∀ o ∈ Occurrence.ofType model t methods, o.target = .method annotated →
        (∀ f expected, finding? model checkSignatures methods o = some f →
          f.problem = .incompatibleSignature name expected →
          expectedSignature candidate.name candidate ≠ expected) ∧
        (∀ member, o.annotation.member? "fallbackMethod" = some member →
          member.value = .string name →
          expectedSignature candidate.name candidate = expectedSignature name annotated →
          finding? model checkSignatures methods o = none) := by
  refine ⟨expectedSignature_eq_iff ha hc name, ?_⟩
  intro model checkSignatures id t methods ht hm hlone
  refine ⟨findings_of_readable ht hm checkSignatures, ?_⟩
  intro o ho htarget
  have hspec := (Occurrence.mem_ofType.mp ho).2.2.2
  have hcandidate : candidate.name = name := by
    obtain ⟨_, _, _, hname, _⟩ := hlone
    exact hname
  rw [hcandidate]
  constructor
  · intro f expected hf hproblem
    have hverdict := verdict_of_finding? hspec hf hproblem
    rw [htarget] at hverdict
    obtain ⟨hexpected, hmismatch⟩ := eq_incompatible_of_verdict hlone hverdict
    rw [(Problem.incompatibleSignature.inj hexpected).2]
    exact ne_of_isCompatible_eq_false ha hc hmismatch name
  · intro member hmember hvalue hshown
    rw [Option.eq_none_iff_forall_ne_some]
    intro f hf
    cases (finding?_eq_some hspec).mp hf with
    | @of member' name' _ _ hmember' hvalue' _ hverdict =>
      obtain rfl : member = member' := Option.some.inj (hmember.symm.trans hmember')
      obtain rfl : name = name' := Value.string.inj (hvalue.symm.trans hvalue')
      rw [htarget] at hverdict
      obtain ⟨-, hmismatch⟩ := eq_incompatible_of_verdict hlone hverdict
      exact ne_of_isCompatible_eq_false ha hc hmismatch name hshown

def list : Method where
  name := "list"
  returnType := "java.util.List<org.acme.Entry>[]"
  parameterTypes := ["int..."]
  annotations := [referTo "listCached"]

def listCached : Method where
  name := "listCached"
  returnType := "List[]"
  parameterTypes := ["int[]"]

def count : Method where
  name := "count"
  returnType := "long"
  parameterTypes := ["int"]
  annotations := [referTo "listCached"]

def statementResource : JavaType where
  name := "org.acme.StatementResource"
  kind := .classType
  origin := .source "file:///StatementResource.java"
  methods := [list, count, listCached]

def statements : Model := ((MemoryModel.named "statements").addType statementResource).2.toModel

def referenceOn (m : Method) : Occurrence :=
  ⟨Catalog.fallback, referTo "listCached", statementResource, .method m⟩

/-- The reference on one method is right, and the other one asks for a signature that the candidate does
not have. -/
theorem expectedSignature_decides_statements :
    (SameSignature list listCached ∧
      finding? statements true statementResource.methods (referenceOn list) = none) ∧
    (∃ f, finding? statements true statementResource.methods (referenceOn count) = some f ∧
      f.problem = .incompatibleSignature "listCached" "long listCached(int)") ∧
    expectedSignature "listCached" listCached ≠ "long listCached(int)" := by
  have hlist : HasRegularTypes list :=
    List.forall_mem_cons.mpr
      ⟨isRegular_of_notMem "java.util.List".toList 1 (by decide) (by decide) (by decide),
        List.forall_mem_singleton.mpr
          (isRegular_of_notMem "int".toList 1 (by decide) (by decide) (by decide))⟩
  have hcached : HasRegularTypes listCached :=
    List.forall_mem_cons.mpr ⟨isRegular_of_notMem "List".toList 1 (by decide) (by decide) (by decide),
      List.forall_mem_singleton.mpr
        (isRegular_of_notMem "int".toList 1 (by decide) (by decide) (by decide))⟩
  have hcount : HasRegularTypes count :=
    List.forall_mem_cons.mpr ⟨isRegular_of_notMem "long".toList 0 (by decide) (by decide) (by decide),
      List.forall_mem_singleton.mpr
        (isRegular_of_notMem "int".toList 0 (by decide) (by decide) (by decide))⟩
  have hlone : Lone statementResource.methods "listCached" listCached :=
    ⟨[list, count], [], rfl, rfl, by decide⟩
  have hoccurs : ∀ m ∈ [list, count],
      referenceOn m ∈ Occurrence.ofType statements statementResource statementResource.methods := by
    have hresolve : Catalog.resolve? (referTo "listCached") = some Catalog.fallback := by
      decide +kernel
    intro m hm
    have htarget : m ∈ statementResource.methods := List.mem_append_left [listCached] hm
    have hannotated : referTo "listCached" ∈ m.annotations := by
      rcases List.mem_pair.mp hm with rfl | rfl <;> exact List.mem_singleton_self _
    exact Occurrence.mem_ofType.mpr
      ⟨rfl, Occurrence.method_mem_targets.mpr htarget, hannotated, hresolve⟩
  have hproblem : (finding? statements true statementResource.methods (referenceOn count)).map
      (·.problem) = some (.incompatibleSignature "listCached" "long listCached(int)") := by
    decide +kernel
  obtain ⟨f, hf, hexpected⟩ := Option.map_eq_some_iff.mp hproblem
  obtain ⟨hsame, hdecided⟩ := expectedSignature_decides hlist hcached "listCached"
  have haccepted := (hdecided statements true 0 _ _ rfl rfl hlone).2 (referenceOn list)
    (hoccurs list (by simp)) rfl
  have hreported := (((expectedSignature_decides hcount hcached "listCached").2 statements true 0 _ _
    rfl rfl hlone).2 (referenceOn count) (hoccurs count (by simp)) rfl).1
  have hshown : expectedSignature "listCached" listCached = expectedSignature "listCached" list := by
    decide
  exact ⟨⟨hsame.mp hshown.symm, haccepted.2 _ rfl rfl hshown⟩, ⟨f, hf, hexpected⟩,
    hreported f _ hf hexpected⟩

end FaultTolerance.Fallback
