import FaultTolerance.Model.Memory
import Mathlib.Data.List.Basic

/-! A project in memory while types and documents are added to it. `Indexed` ties the list of types and
the table of documents to all that was added so far: every change keeps it, and so does every run of
changes (`indexed_after`). What a query answers is read off it (`queries_consistent`). -/
namespace FaultTolerance
open Java
set_option autoImplicit false

/-! ## Changes -/

/-- What may be added to a project in memory. -/
inductive Change where
  | type (type : JavaType)
  | document (uri : String)

namespace Change

def type? : Change → Option JavaType
  | type t => some t
  | document _ => none

/-- Whether the change makes a document known. -/
def opens (uri : String) : Change → Bool
  | type t => t.uri? == some uri
  | document u => u == uri

end Change

theorem Java.JavaType.uri?_eq_some {t : JavaType} {uri : String} :
    t.uri? = some uri ↔ t.origin = .source uri := by
  unfold JavaType.uri?
  cases t.origin <;> simp

theorem any_opens_iff {changes : List Change} {uri : String} :
    changes.any (·.opens uri) ↔
      .document uri ∈ changes ∨ ∃ t, .type t ∈ changes ∧ t.origin = .source uri := by
  rw [List.any_eq_true]
  constructor
  · rintro ⟨c, hc, ho⟩
    cases c with
    | type t => exact .inr ⟨t, hc, JavaType.uri?_eq_some.mp (beq_iff_eq.mp ho)⟩
    | document u => exact .inl (beq_iff_eq.mp ho ▸ hc)
  · rintro (hc | ⟨t, hc, ht⟩)
    · exact ⟨_, hc, beq_self_eq_true uri⟩
    · exact ⟨_, hc, beq_iff_eq.mpr (JavaType.uri?_eq_some.mpr ht)⟩

namespace MemoryModel

def change (m : MemoryModel) : Change → MemoryModel
  | .type t => (m.addType t).2
  | .document uri => m.addDocument uri

def after (m : MemoryModel) (changes : List Change) : MemoryModel := changes.foldl change m

theorem after_append (m : MemoryModel) (changes more : List Change) :
    m.after (changes ++ more) = (m.after changes).after more :=
  List.foldl_append ..

/-! ## Numbers of types -/

/-- The numbers of the types that come from a document. -/
def idsIn (uri : String) (ts : List JavaType) : List Nat := ts.findIdxs fun t => t.uri? == some uri

theorem mem_findIdxs {α : Type} {p : α → Bool} {xs : List α} {id : Nat} :
    id ∈ xs.findIdxs p ↔ ∃ x, xs[id]? = some x ∧ p x := by
  rw [List.mem_findIdxs_iff_exists_getElem_pos]
  constructor
  · rintro ⟨hlt, hp⟩
    exact ⟨_, List.getElem?_eq_getElem hlt, hp⟩
  · rintro ⟨x, hx, hp⟩
    obtain ⟨hlt, rfl⟩ := List.getElem?_eq_some_iff.mp hx
    exact ⟨hlt, hp⟩

theorem mem_idsIn {uri : String} {ts : List JavaType} {id : Nat} :
    id ∈ idsIn uri ts ↔ ∃ t, ts[id]? = some t ∧ t.origin = .source uri := by
  rw [idsIn, mem_findIdxs]
  simp only [beq_iff_eq, JavaType.uri?_eq_some]

theorem idsIn_concat (uri : String) (ts : List JavaType) (t : JavaType) :
    idsIn uri (ts ++ [t]) = idsIn uri ts ++ if t.uri? == some uri then [ts.length] else [] := by
  rw [idsIn, List.findIdxs_append, Nat.zero_add, List.findIdxs_singleton]
  rfl

/-! ## Types of a scope -/

theorem covered_eq_findIdxs (scope : Scope) (n : Nat) (ts : List JavaType) :
    covered scope n ts = ts.findIdxs (fun t => scope.covers t.origin) n := by
  induction ts generalizing n with
  | nil => rfl
  | cons t ts ih => rw [covered, List.findIdxs_cons, ih]

theorem pairwise_covered (scope : Scope) (n : Nat) (ts : List JavaType) :
    (covered scope n ts).Pairwise (· < ·) := by
  rw [covered_eq_findIdxs]
  exact List.pairwise_findIdxs

theorem covered_sourcesAndDependencies (n : Nat) (ts : List JavaType) :
    covered .sourcesAndDependencies n ts = List.range' n ts.length := by
  induction ts generalizing n with
  | nil => rfl
  | cons t ts ih =>
    have hcovers : Scope.sourcesAndDependencies.covers t.origin = true := by
      cases t.origin <;> rfl
    rw [covered, if_pos hcovers, ih, List.length_cons, List.range'_succ]

theorem mem_covered_sourcesOnly {id : Nat} {ts : List JavaType} :
    id ∈ covered .sourcesOnly 0 ts ↔ ∃ t uri, ts[id]? = some t ∧ t.origin = .source uri := by
  have hcovers : ∀ origin, Scope.sourcesOnly.covers origin ↔ ∃ uri, origin = .source uri := by
    intro origin
    cases origin <;> simp [Scope.covers]
  rw [covered_eq_findIdxs, mem_findIdxs]
  simp only [hcovers, exists_and_left]

theorem resolveProject_toModel {m : MemoryModel} (h : m.loaded = true) (scope : Scope) :
    m.toModel.resolveProject scope = .ok (covered scope 0 m.types) := by
  change m.whenLoaded _ = _
  rw [whenLoaded, if_pos h]

/-! ## Documents -/

theorem lookup_cons_ite {α : Type} (uri u : String) (x : α) (entries : List (String × α)) :
    ((u, x) :: entries).lookup uri = if uri = u then some x else entries.lookup uri := by
  rw [List.lookup_cons]
  by_cases h : uri = u
  · simp [h]
  · simp [beq_false_of_ne h, h]

/-- Extending a document changes the entry of that document and no other. -/
theorem lookup_extendDocument (uri u : String) (ids : List Nat)
    (documents : List (String × List Nat)) :
    (extendDocument u ids documents).lookup uri =
      if uri = u then some ((documents.lookup u).getD [] ++ ids) else documents.lookup uri := by
  induction documents with
  | nil =>
    rw [extendDocument, lookup_cons_ite]
    rfl
  | cons document documents ih =>
    obtain ⟨u', old⟩ := document
    rw [extendDocument, lookup_cons_ite, lookup_cons_ite]
    by_cases hu : u' = u
    · rw [if_pos hu, if_pos hu.symm, lookup_cons_ite, hu]
      by_cases h : uri = u <;> simp [h]
    · rw [if_neg hu, if_neg (Ne.symm hu), lookup_cons_ite, ih]
      by_cases h : uri = u'
      · rw [if_pos h, if_pos h, if_neg (h ▸ hu)]
      · rw [if_neg h, if_neg h]

/-! ## The invariant -/

/-- A loaded project that holds what was added: the types in order, and for each document that became
known the numbers of its types. -/
structure Indexed (m : MemoryModel) (changes : List Change) : Prop where
  loaded : m.loaded = true
  types : m.types = changes.filterMap Change.type?
  documents : ∀ uri, m.documents.lookup uri =
    if changes.any (·.opens uri) then some (idsIn uri m.types) else none

variable {m : MemoryModel} {changes : List Change}

theorem Indexed.named (project : String) : (MemoryModel.named project).Indexed [] :=
  ⟨rfl, rfl, fun _ => rfl⟩

theorem Indexed.idsIn_of_unopened (h : m.Indexed changes) {uri : String}
    (hno : ¬ changes.any (·.opens uri)) : idsIn uri m.types = [] := by
  rw [List.eq_nil_iff_forall_not_mem]
  intro id hid
  obtain ⟨t, ht, horigin⟩ := mem_idsIn.mp hid
  have hmem := List.mem_of_getElem? ht
  rw [h.types] at hmem
  obtain ⟨c, hc, hct⟩ := List.mem_filterMap.mp hmem
  cases c with
  | type t' =>
    cases hct
    exact hno (any_opens_iff.mpr (.inr ⟨t, hc, horigin⟩))
  | document _ => cases hct

theorem Indexed.getD_lookup (h : m.Indexed changes) (uri : String) :
    (m.documents.lookup uri).getD [] = idsIn uri m.types := by
  rw [h.documents]
  split
  · rfl
  · rename_i hno
    exact (h.idsIn_of_unopened hno).symm

theorem Indexed.addDocument (h : m.Indexed changes) (uri : String) :
    (m.addDocument uri).Indexed (changes ++ [.document uri]) := by
  refine ⟨h.loaded, ?_, ?_⟩
  · rw [List.filterMap_append]
    exact h.types.trans (List.append_nil _).symm
  · intro u
    change (extendDocument uri [] m.documents).lookup u = _
    rw [lookup_extendDocument, h.getD_lookup, List.append_nil, List.any_append]
    by_cases hu : u = uri
    · subst hu
      simp [Change.opens, MemoryModel.addDocument]
    · have hne : (uri == u) = false := beq_false_of_ne (Ne.symm hu)
      simp [hu, hne, Change.opens, h.documents, MemoryModel.addDocument]

theorem Indexed.addType (h : m.Indexed changes) (t : JavaType) :
    (m.addType t).2.Indexed (changes ++ [.type t]) := by
  refine ⟨h.loaded, ?_, ?_⟩
  · rw [List.filterMap_append, ← h.types]
    rfl
  · intro u
    have htypes : (m.addType t).2.types = m.types ++ [t] := rfl
    rw [htypes, idsIn_concat, List.any_append]
    cases ht : t.uri? with
    | none => simp [MemoryModel.addType, Change.opens, ht, h.documents]
    | some uri =>
      simp only [MemoryModel.addType, ht, lookup_extendDocument, h.getD_lookup]
      by_cases hu : u = uri
      · subst hu
        simp [Change.opens, ht]
      · have hne : (uri == u) = false := beq_false_of_ne (Ne.symm hu)
        simp [hu, hne, Change.opens, ht, h.documents]

theorem Indexed.change (h : m.Indexed changes) (c : Change) :
    (m.change c).Indexed (changes ++ [c]) := by
  cases c with
  | type t => exact h.addType t
  | document uri => exact h.addDocument uri

theorem Indexed.after (h : m.Indexed changes) (more : List Change) :
    (m.after more).Indexed (changes ++ more) := by
  induction more generalizing m changes with
  | nil =>
    rw [List.append_nil]
    exact h
  | cons c more ih =>
    rw [List.append_cons]
    exact ih (h.change c)

theorem indexed_after (project : String) (changes : List Change) :
    ((MemoryModel.named project).after changes).Indexed changes :=
  (Indexed.named project).after changes

/-! ## Queries -/

theorem Indexed.type_eq_ok_iff (h : m.Indexed changes) {id : Nat} {t : JavaType} :
    m.toModel.type id = .ok t ↔ m.types[id]? = some t := by
  change m.whenLoaded _ = _ ↔ _
  rw [whenLoaded, if_pos h.loaded]
  cases m.types[id]? <;> simp

theorem Indexed.exists_type_iff (h : m.Indexed changes) {id : Nat} :
    (∃ t, m.toModel.type id = .ok t) ↔ id < m.size := by
  simp only [h.type_eq_ok_iff]
  rw [← Option.isSome_iff_exists]
  simp [size]

/-- What a number denotes, it denotes after any further changes. -/
theorem Indexed.type_after (h : m.Indexed changes) {id : Nat} {t : JavaType}
    (ht : m.toModel.type id = .ok t) (later : List Change) :
    (m.after later).toModel.type id = .ok t := by
  have hlater := h.after later
  have htypes : (m.after later).types = m.types ++ later.filterMap Change.type? := by
    rw [hlater.types, h.types, List.filterMap_append]
  rw [h.type_eq_ok_iff] at ht
  obtain ⟨hlt, _⟩ := List.getElem?_eq_some_iff.mp ht
  rw [hlater.type_eq_ok_iff, htypes, List.getElem?_append_left hlt, ht]

theorem Indexed.typesInDocument (h : m.Indexed changes) (uri : String) :
    m.toModel.typesInDocument uri =
      if changes.any (·.opens uri) then .ok (idsIn uri m.types)
      else .error (.unknownDocument uri) := by
  change m.whenLoaded _ = _
  rw [whenLoaded, if_pos h.loaded, h.documents]
  by_cases hopen : changes.any (·.opens uri)
  · rw [if_pos hopen, if_pos hopen]
  · rw [if_neg hopen, if_neg hopen]

theorem Indexed.typesInDocument_eq_ok (h : m.Indexed changes) {uri : String} {ids : List Nat}
    (hids : m.toModel.typesInDocument uri = .ok ids) : ids = idsIn uri m.types := by
  rw [h.typesInDocument] at hids
  split at hids <;> cases hids
  rfl

theorem Indexed.mem_document (h : m.Indexed changes) {uri : String} {ids : List Nat}
    (hids : m.toModel.typesInDocument uri = .ok ids) {id : Nat} :
    id ∈ ids ↔ ∃ t, m.toModel.type id = .ok t ∧ t.origin = .source uri := by
  rw [h.typesInDocument_eq_ok hids, mem_idsIn]
  simp only [h.type_eq_ok_iff]

theorem Indexed.exists_document (h : m.Indexed changes) {id : Nat} {t : JavaType} {uri : String}
    (ht : m.toModel.type id = .ok t) (horigin : t.origin = .source uri) :
    ∃ ids, m.toModel.typesInDocument uri = .ok ids ∧ id ∈ ids := by
  have hid : id ∈ idsIn uri m.types := mem_idsIn.mpr ⟨t, h.type_eq_ok_iff.mp ht, horigin⟩
  refine ⟨_, ?_, hid⟩
  rw [h.typesInDocument]
  split
  · rfl
  · rename_i hno
    rw [h.idsIn_of_unopened hno] at hid
    cases hid

/-- The numbers of a document's types denote these types, in their order. -/
theorem Indexed.map_type_idsIn (h : m.Indexed changes) (uri : String) :
    (idsIn uri m.types).map m.toModel.type =
      (m.types.filter fun t => t.uri? == some uri).map .ok := by
  unfold idsIn
  apply List.ext_getElem
  · rw [List.length_map, List.length_map, List.length_findIdxs, List.countP_eq_length_filter]
  · intro i _ hi
    rw [List.length_map] at hi
    rw [List.getElem_map, List.getElem_map, h.type_eq_ok_iff,
      List.getElem_filter_eq_getElem_getElem_findIdxs hi]
    exact List.getElem?_eq_getElem _

theorem Indexed.mem_covered_sourcesOnly (h : m.Indexed changes) {id : Nat} :
    id ∈ covered .sourcesOnly 0 m.types ↔
      ∃ uri ids, m.toModel.typesInDocument uri = .ok ids ∧ id ∈ ids := by
  rw [MemoryModel.mem_covered_sourcesOnly]
  simp only [← h.type_eq_ok_iff]
  constructor
  · rintro ⟨t, uri, ht, horigin⟩
    exact ⟨uri, h.exists_document ht horigin⟩
  · rintro ⟨uri, ids, hids, hid⟩
    obtain ⟨t, ht, horigin⟩ := (h.mem_document hids).mp hid
    exact ⟨t, uri, ht, horigin⟩

theorem Indexed.findType?_eq_some_iff (h : m.Indexed changes) {name : String} {id : Nat} :
    m.findType? name = some id ↔ (∃ t, m.toModel.type id = .ok t ∧ t.name = name) ∧
      ∀ j < id, ∀ t, m.toModel.type j = .ok t → t.name ≠ name := by
  simp only [h.type_eq_ok_iff]
  rw [findType?, List.findIdx?_eq_some_iff_getElem]
  constructor
  · rintro ⟨hlt, hname, hfirst⟩
    refine ⟨⟨_, List.getElem?_eq_getElem hlt, beq_iff_eq.mp hname⟩, fun j hj t ht he => ?_⟩
    obtain ⟨_, rfl⟩ := List.getElem?_eq_some_iff.mp ht
    exact hfirst j hj (beq_iff_eq.mpr he)
  · rintro ⟨⟨t, ht, hname⟩, hfirst⟩
    obtain ⟨hlt, rfl⟩ := List.getElem?_eq_some_iff.mp ht
    refine ⟨hlt, beq_iff_eq.mpr hname, fun j hj he => ?_⟩
    have hjlt : j < m.types.length := by omega
    exact hfirst j hj _ (List.getElem?_eq_getElem hjlt) (beq_iff_eq.mp he)

theorem Indexed.findType?_eq_none_iff (h : m.Indexed changes) {name : String} :
    m.findType? name = none ↔ ∀ id t, m.toModel.type id = .ok t → t.name ≠ name := by
  simp only [h.type_eq_ok_iff]
  rw [findType?, List.findIdx?_eq_none_iff]
  constructor
  · intro hnone id t ht
    exact beq_eq_false_iff_ne.mp (hnone t (List.mem_of_getElem? ht))
  · intro hnone t ht
    obtain ⟨id, hid⟩ := List.getElem?_of_mem ht
    exact beq_eq_false_iff_ne.mpr (hnone id t hid)

/-- A document that is added and known already changes nothing; one that is new has no types. -/
theorem Indexed.typesInDocument_addDocument (h : m.Indexed changes) (uri u : String) :
    (m.addDocument uri).toModel.typesInDocument u =
      if u = uri then .ok (idsIn uri m.types) else m.toModel.typesInDocument u := by
  rw [(h.addDocument uri).typesInDocument, h.typesInDocument, List.any_append]
  by_cases hu : u = uri
  · subst hu
    simp [Change.opens, MemoryModel.addDocument]
  · have hne : (uri == u) = false := beq_false_of_ne (Ne.symm hu)
    simp [hu, hne, Change.opens, MemoryModel.addDocument]

/-- Whatever is added to a project in memory, and in whatever order, its answers agree. A number
denotes the type that was added under it, for good; a document is known once it was added or a type
came from it, and lists the numbers of its types in ascending order; the types of all sources are those
that some document lists; a name stands for the first type that has it. Adding a document changes no
answer but that to a question about a document that was not known. -/
theorem queries_consistent (project : String) (changes : List Change) :
    let m := (MemoryModel.named project).after changes
    (∀ t, (m.addType t).1 = m.size ∧
      ∀ later, ((m.addType t).2.after later).toModel.type m.size = .ok t) ∧
    (∀ id t, m.toModel.type id = .ok t → ∀ later, (m.after later).toModel.type id = .ok t) ∧
    (∀ uri, (∃ ids, m.toModel.typesInDocument uri = .ok ids) ↔
      .document uri ∈ changes ∨ ∃ t, .type t ∈ changes ∧ t.origin = .source uri) ∧
    (∀ uri ids, m.toModel.typesInDocument uri = .ok ids → ids.Pairwise (· < ·) ∧
      ∀ id, id ∈ ids ↔ ∃ t, m.toModel.type id = .ok t ∧ t.origin = .source uri) ∧
    (∃ ids, m.toModel.resolveProject .sourcesOnly = .ok ids ∧ ids.Pairwise (· < ·) ∧
      ∀ id, id ∈ ids ↔ ∃ uri listed, m.toModel.typesInDocument uri = .ok listed ∧ id ∈ listed) ∧
    m.toModel.resolveProject .sourcesAndDependencies = .ok (List.range m.size) ∧
    (∀ id, (∃ t, m.toModel.type id = .ok t) ↔ id < m.size) ∧
    (∀ name, (m.findType? name = none ↔ ∀ id t, m.toModel.type id = .ok t → t.name ≠ name) ∧
      ∀ id, m.findType? name = some id ↔ (∃ t, m.toModel.type id = .ok t ∧ t.name = name) ∧
        ∀ j < id, ∀ t, m.toModel.type j = .ok t → t.name ≠ name) ∧
    ∀ uri, (m.addDocument uri).toModel.resolveProject = m.toModel.resolveProject ∧
      (m.addDocument uri).toModel.type = m.toModel.type ∧
      (m.addDocument uri).toModel.methodsOf = m.toModel.methodsOf ∧
      (m.addDocument uri).toModel.annotationsOn = m.toModel.annotationsOn ∧
      (m.addDocument uri).toModel.rangeOf = m.toModel.rangeOf ∧
      (m.addDocument uri).findType? = m.findType? ∧ (m.addDocument uri).size = m.size ∧
      (∀ u ids, m.toModel.typesInDocument u = .ok ids →
        (m.addDocument uri).toModel.typesInDocument u = .ok ids) ∧
      ∀ u cause, m.toModel.typesInDocument u = .error cause →
        (m.addDocument uri).toModel.typesInDocument u = if u = uri then .ok [] else .error cause := by
  intro m
  have h : m.Indexed changes := indexed_after project changes
  refine ⟨fun t => ⟨rfl, fun later => ?_⟩, fun id t ht later => h.type_after ht later, fun uri => ?_,
    fun uri ids hids => ⟨?_, fun id => h.mem_document hids⟩, ?_, ?_, fun id => h.exists_type_iff,
    fun name => ⟨h.findType?_eq_none_iff, fun id => h.findType?_eq_some_iff⟩,
    fun uri => ⟨rfl, rfl, rfl, rfl, rfl, rfl, rfl, ?_, ?_⟩⟩
  · have hadded := h.addType t
    apply hadded.type_after
    exact hadded.type_eq_ok_iff.mpr (List.getElem?_concat_length ..)
  · rw [← any_opens_iff, h.typesInDocument]
    split <;> simp_all
  · rw [h.typesInDocument_eq_ok hids]
    exact List.pairwise_findIdxs
  · exact ⟨_, resolveProject_toModel h.loaded _, pairwise_covered _ _ _,
      fun id => h.mem_covered_sourcesOnly⟩
  · rw [resolveProject_toModel h.loaded, covered_sourcesAndDependencies, ← List.range_eq_range']
    rfl
  · intro u ids hids
    rw [h.typesInDocument_addDocument, hids]
    split
    · rename_i hu
      rw [← hu, h.typesInDocument_eq_ok hids]
    · rfl
  · intro u cause hcause
    rw [h.typesInDocument_addDocument, hcause]
    split
    · rename_i hu
      subst hu
      rw [h.typesInDocument] at hcause
      split at hcause
      · cases hcause
      · rename_i hno
        rw [h.idsIn_of_unopened hno]
    · rfl

end MemoryModel
end FaultTolerance
