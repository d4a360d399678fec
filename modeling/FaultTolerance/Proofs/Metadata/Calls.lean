import FaultTolerance.Metadata.Collector
import FaultTolerance.Proofs.FirstOfEach

/-! A collector under any calls. What it holds after some calls is the first item of each name among
those that they add (`kept`), and what it answers to a call is told by the calls before it
(`Call.answer`). `run_kept` says so of whole runs, and `keepsFirst_run` draws the consequences: which
calls are answered with yes, what is listed, what is looked up, and what adding it once more does. -/
namespace FaultTolerance.Collector
set_option autoImplicit false

/-! ## Calls -/

/-- What a collector is asked to do. -/
inductive Call where
  | addProperty (item : ItemMetadata)
  | addHint (hint : ItemHint)
  | hasHint (name : String)
  deriving DecidableEq

namespace Call

def property? : Call → Option ItemMetadata
  | .addProperty item => some item
  | _ => none

def hint? : Call → Option ItemHint
  | .addHint hint => some hint
  | _ => none

/-- Whether the call is about properties; the others are about hints. -/
def isProperty (call : Call) : Bool := call.property?.isSome

def apply (c : Collector) : Call → Bool × Collector
  | .addProperty item => c.addProperty item
  | .addHint hint => c.addHint hint
  | .hasHint name => (c.hasHint name, c)

end Call

/-- The answers to some calls in turn, and the collector after them. -/
def run (c : Collector) : List Call → List Bool × Collector
  | [] => ([], c)
  | call :: calls =>
    let (answer, next) := call.apply c
    let (answers, last) := run next calls
    (answer :: answers, last)

def additions (c : Collector) : List Call :=
  c.properties.map .addProperty ++ c.hints.map .addHint

/-- The items of one kind that calls add and that they are told were added. -/
def accepted {α : Type} (item? : Call → Option α) (calls : List Call) (answers : List Bool) :
    List α :=
  (calls.zip answers).filterMap fun (call, answer) => if answer then item? call else none

def answersTo (kind : Call → Bool) (calls : List Call) (answers : List Bool) : List Bool :=
  ((calls.zip answers).filter fun (call, _) => kind call).map Prod.snd

/-! ## What calls leave behind -/

def kept (calls : List Call) : Collector where
  properties := firstOfEach (·.name) (calls.filterMap Call.property?)
  hints := firstOfEach (·.name) (calls.filterMap Call.hint?)

/-- Whether calls add an item of a name, of the kind that `item?` tells. -/
def addsName {α : Type} (item? : Call → Option α) (key : α → String) (calls : List Call)
    (name : String) : Bool :=
  ((calls.filterMap item?).map key).contains name

def Call.answer (earlier : List Call) : Call → Bool
  | .addProperty item => !addsName property? (·.name) earlier item.name
  | .addHint hint => !addsName hint? (·.name) earlier hint.name
  | .hasHint name => addsName hint? (·.name) earlier name

def answersAfter (earlier : List Call) : List Call → List Bool
  | [] => []
  | call :: calls => call.answer earlier :: answersAfter (earlier ++ [call]) calls

theorem firstOfEach_filterMap_concat {α : Type} (item? : Call → Option α) (key : α → String)
    (calls : List Call) (call : Call) :
    firstOfEach key ((calls ++ [call]).filterMap item?) =
      firstOfEach key (calls.filterMap item?) ++
        ((item? call).filter fun a => !addsName item? key calls (key a)).toList := by
  rw [List.filterMap_append]
  cases hcall : item? call with
  | none => simp [hcall]
  | some a =>
    rw [List.filterMap_cons_some hcall, List.filterMap_nil, FirstOfEach.firstOfEach_concat,
      Option.filter_some]
    change (if addsName item? key calls (key a) then _ else _) = _
    cases addsName item? key calls (key a) <;> simp

/-- One call: the answer and what is held after it. -/
theorem apply_kept (calls : List Call) (call : Call) :
    call.apply (kept calls) = (call.answer calls, kept (calls ++ [call])) := by
  have hproperties : ∀ name, (kept calls).properties.any (·.name == name) =
      addsName Call.property? (·.name) calls name := FirstOfEach.any_firstOfEach _ _
  have hhints : ∀ name, (kept calls).hasHint name = addsName Call.hint? (·.name) calls name :=
    FirstOfEach.any_firstOfEach _ _
  have hkept : kept (calls ++ [call]) =
      { properties := (kept calls).properties ++ (call.property?.filter fun item =>
          !addsName Call.property? (·.name) calls item.name).toList
        hints := (kept calls).hints ++ (call.hint?.filter fun hint =>
          !addsName Call.hint? (·.name) calls hint.name).toList } :=
    congrArg₂ Collector.mk (firstOfEach_filterMap_concat ..) (firstOfEach_filterMap_concat ..)
  rw [hkept]
  cases call with
  | addProperty item =>
    rw [Call.apply, Collector.addProperty, hproperties, Call.answer]
    cases hknown : addsName Call.property? (·.name) calls item.name <;>
      simp [Call.property?, Call.hint?, Option.filter_some, hknown]
  | addHint hint =>
    rw [Call.apply, Collector.addHint, hhints, Call.answer]
    cases hknown : addsName Call.hint? (·.name) calls hint.name <;>
      simp [Call.property?, Call.hint?, Option.filter_some, hknown]
  | hasHint name =>
    rw [Call.apply, hhints, Call.answer]
    simp [Call.property?, Call.hint?]

theorem run_cons (c : Collector) (call : Call) (calls : List Call) :
    run c (call :: calls) =
      ((call.apply c).1 :: (run (call.apply c).2 calls).1, (run (call.apply c).2 calls).2) := rfl

theorem run_kept (earlier calls : List Call) :
    run (kept earlier) calls = (answersAfter earlier calls, kept (earlier ++ calls)) := by
  induction calls generalizing earlier with
  | nil => rw [List.append_nil]; rfl
  | cons call calls ih =>
    rw [run_cons, apply_kept, ih, answersAfter, List.append_assoc, List.singleton_append]

theorem run_new (calls : List Call) : run {} calls = (answersAfter [] calls, kept calls) :=
  run_kept [] calls

/-! ## Answers -/

theorem answersAfter_append (earlier before after : List Call) :
    answersAfter earlier (before ++ after) =
      answersAfter earlier before ++ answersAfter (earlier ++ before) after := by
  induction before generalizing earlier with
  | nil => rw [List.append_nil]; rfl
  | cons call before ih =>
    rw [List.cons_append, answersAfter, ih, answersAfter, List.append_assoc, List.singleton_append,
      List.cons_append]

theorem length_answersAfter (earlier calls : List Call) :
    (answersAfter earlier calls).length = calls.length := by
  induction calls generalizing earlier with
  | nil => rfl
  | cons call calls ih => rw [answersAfter, List.length_cons, List.length_cons, ih]

theorem answersAfter_getElem? (before after : List Call) (call : Call) :
    (answersAfter [] (before ++ call :: after))[before.length]? = some (call.answer before) := by
  rw [answersAfter_append, ← length_answersAfter [] before, List.getElem?_append_right (Nat.le_refl _),
    Nat.sub_self]
  rfl

theorem answersAfter_eq_map {earlier calls : List Call} {answer : Bool}
    (h : ∀ before call after, calls = before ++ call :: after →
      call.answer (earlier ++ before) = answer) :
    answersAfter earlier calls = calls.map fun _ => answer := by
  induction calls generalizing earlier with
  | nil => rfl
  | cons call calls ih =>
    have hcall : call.answer earlier = answer := by
      simpa using h [] call calls rfl
    have hrest : answersAfter (earlier ++ [call]) calls = calls.map fun _ => answer := by
      refine ih fun before call' after hsplit => ?_
      rw [List.append_assoc]
      exact h (call :: before) call' after (congrArg (call :: ·) hsplit)
    rw [answersAfter, hcall, hrest, List.map_cons]

theorem addsName_iff {α : Type} {item? : Call → Option α} {key : α → String} {calls : List Call}
    {name : String} :
    addsName item? key calls name ↔ ∃ call ∈ calls, ∃ a, item? call = some a ∧ key a = name := by
  rw [addsName, List.contains_iff_mem, List.mem_map]
  constructor
  · rintro ⟨a, ha, hname⟩
    obtain ⟨call, hcall, hitem⟩ := List.mem_filterMap.mp ha
    exact ⟨call, hcall, a, hitem, hname⟩
  · rintro ⟨call, hcall, a, hitem, hname⟩
    exact ⟨a, List.mem_filterMap.mpr ⟨call, hcall, hitem⟩, hname⟩

theorem property?_eq_some {call : Call} {item : ItemMetadata} :
    call.property? = some item ↔ call = .addProperty item := by
  cases call <;> simp [Call.property?]

theorem hint?_eq_some {call : Call} {hint : ItemHint} :
    call.hint? = some hint ↔ call = .addHint hint := by
  cases call <;> simp [Call.hint?]

theorem addsName_property {calls : List Call} {name : String} :
    addsName Call.property? (·.name) calls name ↔
      ∃ item, .addProperty item ∈ calls ∧ item.name = name := by
  simp only [addsName_iff, property?_eq_some]
  constructor
  · rintro ⟨_, hcall, item, rfl, hname⟩
    exact ⟨item, hcall, hname⟩
  · rintro ⟨item, hcall, hname⟩
    exact ⟨_, hcall, item, rfl, hname⟩

theorem addsName_hint {calls : List Call} {name : String} :
    addsName Call.hint? (·.name) calls name ↔
      ∃ hint, .addHint hint ∈ calls ∧ hint.name = name := by
  simp only [addsName_iff, hint?_eq_some]
  constructor
  · rintro ⟨_, hcall, hint, rfl, hname⟩
    exact ⟨hint, hcall, hname⟩
  · rintro ⟨hint, hcall, hname⟩
    exact ⟨_, hcall, hint, rfl, hname⟩

/-! ## Accepted items -/

theorem firstOfEach_eq_accepted {α : Type} {item? : Call → Option α} {key : α → String}
    (hanswer : ∀ earlier call a, item? call = some a →
      call.answer earlier = !addsName item? key earlier (key a)) (earlier calls : List Call) :
    firstOfEach key ((earlier ++ calls).filterMap item?) =
      firstOfEach key (earlier.filterMap item?) ++
        accepted item? calls (answersAfter earlier calls) := by
  -- An answer is told by the calls before it, so each call joins `earlier` once it is answered.
  induction calls generalizing earlier with
  | nil => simp [accepted]
  | cons call calls ih =>
    have hstep := ih (earlier ++ [call])
    rw [List.append_assoc, List.singleton_append] at hstep
    have hcall : accepted item? (call :: calls) (answersAfter earlier (call :: calls)) =
        ((item? call).filter fun a => !addsName item? key earlier (key a)).toList ++
          accepted item? calls (answersAfter (earlier ++ [call]) calls) := by
      rw [accepted, answersAfter, List.zip_cons_cons]
      cases hitem : item? call with
      | none => rw [List.filterMap_cons_none (by simp [hitem])]; rfl
      | some a =>
        rw [Option.filter_some, ← hanswer earlier call a hitem]
        cases hyes : call.answer earlier with
        | false => rw [List.filterMap_cons_none (by simp)]; rfl
        | true => rw [List.filterMap_cons_some (b := a) (by simp [hitem])]; rfl
    rw [hstep, hcall, firstOfEach_filterMap_concat, List.append_assoc]

/-! ## Calls of one kind -/

theorem filterMap_filter_of_isSome {α : Type} {item? : Call → Option α} {kind : Call → Bool}
    (hkind : ∀ call, (item? call).isSome → kind call) (calls : List Call) :
    (calls.filter kind).filterMap item? = calls.filterMap item? := by
  rw [List.filterMap_filter]
  refine List.filterMap_congr fun call _ => ?_
  split
  · rfl
  · rename_i h
    cases hitem : item? call with
    | none => rfl
    | some a => exact absurd (hkind call (by rw [hitem]; rfl)) h

theorem filterMap_filter_of_isNone {α : Type} {item? : Call → Option α} {kind : Call → Bool}
    (hkind : ∀ call, kind call → item? call = none) (calls : List Call) :
    (calls.filter kind).filterMap item? = [] := by
  rw [List.filterMap_eq_nil_iff]
  exact fun call hcall => hkind call (List.of_mem_filter hcall)

theorem answersAfter_filter {kind : Call → Bool}
    (hanswer : ∀ (earlier : List Call) (call : Call), kind call →
      call.answer (earlier.filter kind) = call.answer earlier) (earlier calls : List Call) :
    answersAfter (earlier.filter kind) (calls.filter kind) =
      answersTo kind calls (answersAfter earlier calls) := by
  induction calls generalizing earlier with
  | nil => rfl
  | cons call calls ih =>
    have hstep := ih (earlier ++ [call])
    rw [answersTo] at hstep ⊢
    rw [answersAfter, List.zip_cons_cons]
    by_cases hcall : kind call
    · rw [List.filter_append, List.filter_cons_of_pos hcall, List.filter_nil] at hstep
      rw [List.filter_cons_of_pos hcall, List.filter_cons_of_pos (by exact hcall), List.map_cons,
        answersAfter, hanswer earlier call hcall, hstep]
    · rw [List.filter_append, List.filter_cons_of_neg hcall, List.filter_nil, List.append_nil] at hstep
      rw [List.filter_cons_of_neg hcall, List.filter_cons_of_neg (by exact hcall), hstep]

theorem isProperty_eq_false {call : Call} (h : call.hint?.isSome) : call.isProperty = false := by
  cases call with
  | addProperty => nomatch h
  | addHint => rfl
  | hasHint => rfl

theorem hint?_of_isProperty {call : Call} (h : call.isProperty) : call.hint? = none := by
  cases call with
  | addProperty => rfl
  | addHint => nomatch h
  | hasHint => nomatch h

theorem property?_of_not_isProperty {call : Call} (h : !call.isProperty) : call.property? = none := by
  cases call with
  | addProperty => nomatch h
  | addHint => rfl
  | hasHint => rfl

theorem filterMap_property?_filter (calls : List Call) :
    (calls.filter Call.isProperty).filterMap Call.property? = calls.filterMap Call.property? :=
  filterMap_filter_of_isSome (fun _ h => h) calls

theorem filterMap_hint?_filter (calls : List Call) :
    (calls.filter (!·.isProperty)).filterMap Call.hint? = calls.filterMap Call.hint? :=
  filterMap_filter_of_isSome (fun _ h => by rw [isProperty_eq_false h]; rfl) calls

theorem answer_filter_isProperty (earlier : List Call) {call : Call} (h : call.isProperty) :
    call.answer (earlier.filter Call.isProperty) = call.answer earlier := by
  cases call with
  | addProperty item =>
    rw [Call.answer, addsName, filterMap_property?_filter, Call.answer, addsName]
  | addHint hint => nomatch h
  | hasHint name => nomatch h

theorem answer_filter_not_isProperty (earlier : List Call) {call : Call} (h : !call.isProperty) :
    call.answer (earlier.filter (!·.isProperty)) = call.answer earlier := by
  cases call with
  | addProperty item => nomatch h
  | addHint hint => rw [Call.answer, addsName, filterMap_hint?_filter, Call.answer, addsName]
  | hasHint name => rw [Call.answer, addsName, filterMap_hint?_filter, Call.answer, addsName]

/-- The calls about properties alone: the answers to them are the same, and no hints are held. -/
theorem run_filter_isProperty (calls : List Call) :
    run {} (calls.filter Call.isProperty) =
      (answersTo Call.isProperty calls (answersAfter [] calls),
        { properties := (kept calls).properties }) := by
  have hanswers := answersAfter_filter (fun earlier _ h => answer_filter_isProperty earlier h) [] calls
  have hhints : (calls.filter Call.isProperty).filterMap Call.hint? = [] :=
    filterMap_filter_of_isNone (fun _ h => hint?_of_isProperty h) calls
  rw [List.filter_nil] at hanswers
  rw [run_new, hanswers, kept, filterMap_property?_filter, hhints]
  rfl

theorem run_filter_not_isProperty (calls : List Call) :
    run {} (calls.filter (!·.isProperty)) =
      (answersTo (!·.isProperty) calls (answersAfter [] calls), { hints := (kept calls).hints }) := by
  have hanswers :=
    answersAfter_filter (fun earlier _ h => answer_filter_not_isProperty earlier h) [] calls
  have hproperties : (calls.filter (!·.isProperty)).filterMap Call.property? = [] :=
    filterMap_filter_of_isNone (fun _ h => property?_of_not_isProperty h) calls
  rw [List.filter_nil] at hanswers
  rw [run_new, hanswers, kept, hproperties, filterMap_hint?_filter]
  rfl

/-! ## Adding again -/

theorem apply_of_mem_additions {c : Collector} {call : Call} (h : call ∈ c.additions) :
    call.apply c = (false, c) := by
  rcases List.mem_append.mp h with h | h
  · obtain ⟨item, hitem, rfl⟩ := List.mem_map.mp h
    have hknown : c.properties.any (·.name == item.name) :=
      List.any_eq_true.mpr ⟨item, hitem, beq_self_eq_true _⟩
    rw [Call.apply, Collector.addProperty, if_pos hknown]
  · obtain ⟨hint, hhint, rfl⟩ := List.mem_map.mp h
    have hknown : c.hasHint hint.name :=
      List.any_eq_true.mpr ⟨hint, hhint, beq_self_eq_true _⟩
    rw [Call.apply, Collector.addHint, if_pos hknown]

/-- What a collector holds may be added to it again, in any order and any number of times. -/
theorem run_of_subset_additions {c : Collector} {calls : List Call} (h : calls ⊆ c.additions) :
    run c calls = (calls.map fun _ => false, c) := by
  induction calls with
  | nil => rfl
  | cons call calls ih =>
    obtain ⟨hcall, hcalls⟩ := List.cons_subset.mp h
    rw [run_cons, apply_of_mem_additions hcall, ih hcalls, List.map_cons]

theorem filterMap_property?_additions (c : Collector) :
    c.additions.filterMap Call.property? = c.properties := by
  simp [additions, List.filterMap_map, Function.comp_def, Call.property?]

theorem filterMap_hint?_additions (c : Collector) :
    c.additions.filterMap Call.hint? = c.hints := by
  simp [additions, List.filterMap_map, Function.comp_def, Call.hint?]

/-- A name that a list holds once is not in front of its element. -/
theorem addsName_eq_false {α : Type} {item? : Call → Option α} {key : α → String}
    {before after : List Call} {call : Call} {a : α} (hcall : item? call = some a)
    (h : (((before ++ call :: after).filterMap item?).map key).Nodup) :
    addsName item? key before (key a) = false := by
  rw [List.filterMap_append, List.filterMap_cons_some hcall, List.map_append, List.map_cons,
    List.nodup_append] at h
  rw [addsName, ← Bool.not_eq_true, List.contains_iff_mem]
  exact fun hmem => h.2.2 (key a) hmem (key a) List.mem_cons_self rfl

/-- What a collector holds is held by a new one to which it is added. -/
theorem run_additions {c : Collector} (hproperties : (c.properties.map (·.name)).Nodup)
    (hhints : (c.hints.map (·.name)).Nodup) :
    run {} c.additions = (c.additions.map fun _ => true, c) := by
  have hkept : kept c.additions = c := by
    rw [kept, filterMap_property?_additions, filterMap_hint?_additions,
      FirstOfEach.firstOfEach_of_nodup _ hproperties, FirstOfEach.firstOfEach_of_nodup _ hhints]
  have hanswers : answersAfter [] c.additions = c.additions.map fun _ => true := by
    refine answersAfter_eq_map fun before call after hsplit => ?_
    have hcall : call ∈ c.additions := hsplit ▸ List.mem_append_right _ List.mem_cons_self
    rw [← filterMap_property?_additions, hsplit] at hproperties
    rw [← filterMap_hint?_additions, hsplit] at hhints
    rw [List.nil_append]
    cases call with
    | addProperty item =>
      have hnew := addsName_eq_false (property?_eq_some.mpr rfl) hproperties
      rw [Call.answer, hnew]
      rfl
    | addHint hint =>
      have hnew := addsName_eq_false (hint?_eq_some.mpr rfl) hhints
      rw [Call.answer, hnew]
      rfl
    | hasHint name => simp [additions] at hcall
  rw [run_new, hanswers, hkept]

/-! ## Runs -/

/-- What the answers to some calls are, and what is held after them. -/
structure KeepsFirst (calls : List Call) (answers : List Bool) (c : Collector) : Prop where
  length : answers.length = calls.length
  /-- A property is added if none of its name was added before. -/
  addProperty : ∀ before item after, calls = before ++ .addProperty item :: after →
    (answers[before.length]? = some true ↔ ∀ earlier, .addProperty earlier ∈ before →
      earlier.name ≠ item.name)
  /-- A hint is added if none of its name was added before. -/
  addHint : ∀ before hint after, calls = before ++ .addHint hint :: after →
    (answers[before.length]? = some true ↔ ∀ earlier, .addHint earlier ∈ before →
      earlier.name ≠ hint.name)
  hasHint : ∀ before name after, calls = before ++ .hasHint name :: after →
    (answers[before.length]? = some true ↔ ∃ earlier, .addHint earlier ∈ before ∧
      earlier.name = name)
  /-- The items listed are those that were accepted, in their order. -/
  properties : c.toProjectInfo.properties = accepted Call.property? calls answers
  hints : c.toProjectInfo.hints = accepted Call.hint? calls answers
  nodup_properties : (c.toProjectInfo.properties.map (·.name)).Nodup
  nodup_hints : (c.toProjectInfo.hints.map (·.name)).Nodup
  /-- The item of a name is the first one that was ever added under it. -/
  property? : ∀ name, c.toProjectInfo.property? name =
    (calls.filterMap Call.property?).find? (·.name == name)
  hint? : ∀ name, c.toProjectInfo.hint? name = (calls.filterMap Call.hint?).find? (·.name == name)
  /-- Without the calls about hints all is the same about properties. -/
  propertiesAlone : run {} (calls.filter Call.isProperty) =
    (answersTo Call.isProperty calls answers, { properties := c.toProjectInfo.properties })
  /-- Without the calls about properties all is the same about hints. -/
  hintsAlone : run {} (calls.filter (!·.isProperty)) =
    (answersTo (!·.isProperty) calls answers, { hints := c.toProjectInfo.hints })
  /-- Adding what is listed once more changes nothing. -/
  again : ∀ more ⊆ c.additions, run c more = (more.map fun _ => false, c)
  /-- A new collector that is given what is listed lists the same. -/
  renewed : run {} c.additions = (c.additions.map fun _ => true, c)

theorem keepsFirst_run (calls : List Call) :
    KeepsFirst calls (run {} calls).1 (run {} calls).2 := by
  rw [run_new]
  have hproperties : ((kept calls).properties.map (·.name)).Nodup :=
    FirstOfEach.nodup_map_firstOfEach _ _
  have hhints : ((kept calls).hints.map (·.name)).Nodup := FirstOfEach.nodup_map_firstOfEach _ _
  constructor
  case length => exact length_answersAfter [] calls
  case addProperty =>
    rintro before item after rfl
    have hknown : addsName Call.property? (·.name) before item.name ↔ _ := addsName_property
    rw [answersAfter_getElem?, Option.some.injEq, Call.answer, Bool.not_eq_true', ← Bool.not_eq_true,
      hknown]
    push Not
    rfl
  case addHint =>
    rintro before hint after rfl
    have hknown : addsName Call.hint? (·.name) before hint.name ↔ _ := addsName_hint
    rw [answersAfter_getElem?, Option.some.injEq, Call.answer, Bool.not_eq_true', ← Bool.not_eq_true,
      hknown]
    push Not
    rfl
  case hasHint =>
    rintro before name after rfl
    rw [answersAfter_getElem?, Option.some.injEq, Call.answer, addsName_hint]
  case properties => exact firstOfEach_eq_accepted (by rintro _ (_ | _ | _) _ ⟨⟩; rfl) [] calls
  case hints => exact firstOfEach_eq_accepted (by rintro _ (_ | _ | _) _ ⟨⟩; rfl) [] calls
  case nodup_properties => exact hproperties
  case nodup_hints => exact hhints
  case property? => exact FirstOfEach.find?_firstOfEach _ _
  case hint? => exact FirstOfEach.find?_firstOfEach _ _
  case propertiesAlone => exact run_filter_isProperty calls
  case hintsAlone => exact run_filter_not_isProperty calls
  case again => exact fun _ hmore => run_of_subset_additions hmore
  case renewed => exact run_additions hproperties hhints

/-- A property that differs from an earlier one of its name in all else is dropped, a hint that comes
between the two has no part in it, and the earlier one may be added again. -/
theorem keepsFirst_run_delay :
    let first : ItemMetadata := { name := "Retry/delay", type := "long" }
    let second : ItemMetadata := { name := "Retry/delay", type := "int", phase := 2, binary := true }
    let unit : ItemHint := { name := "Retry/delay", isEnum := true }
    let calls : List Call := [.addProperty first, .addHint unit, .addProperty second]
    (run {} calls).1[2]? ≠ some true ∧
      (run {} calls).2.toProjectInfo.property? "Retry/delay" = some first ∧
      run (run {} calls).2 [.addProperty first] = ([false], (run {} calls).2) := by
  intro first second unit calls
  have hkeeps : KeepsFirst calls (run {} calls).1 (run {} calls).2 := keepsFirst_run calls
  refine ⟨fun h => ?_, hkeeps.property? "Retry/delay", hkeeps.again [.addProperty first] (by decide)⟩
  exact (hkeeps.addProperty [.addProperty first, .addHint unit] second [] rfl).mp h first
    List.mem_cons_self rfl

end FaultTolerance.Collector
