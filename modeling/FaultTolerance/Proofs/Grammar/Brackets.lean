import FaultTolerance.Java.Grammar.Rules
import FaultTolerance.Proofs.Source.Bodies.Balanced

/-! Sources that follow the grammar have their brackets in pairs. What is accepted is derived from the
rules (`derives_of_accepts`), and no rule opens a bracket that it does not close (`effect_pattern`). So the
tokens of a well-formed source are balanced, as the results about sources without syntax errors ask
(`balanced_of_isWellFormed`), and pairing its brackets leaves none over (`paired_of_isWellFormed`). -/
namespace FaultTolerance.Java
set_option autoImplicit false

namespace Source.Tree

/-- Every bracket has its partner, and no bracket is left among the other tokens. -/
inductive Paired : List Tree → Prop where
  | nil : Paired []
  | leaf {t : Token} {ts : List Tree} (hopening : Bracket.opening? t = none)
      (hclosing : Bracket.closing? t = none) (h : Paired ts) : Paired (.leaf t :: ts)
  | group {bracket : Bracket} {opening closing : Token} {content ts : List Tree}
      (hopening : Bracket.opening? opening = some bracket)
      (hclosing : Bracket.closing? closing = some bracket) (hcontent : Paired content)
      (h : Paired ts) : Paired (.group bracket opening content (some closing) :: ts)

theorem paired_ofTokens {ts : List Token} (h : Balanced ts) : Paired (ofTokens ts) := by
  induction h with
  | nil => exact .nil
  | token hopening hclosing h ih =>
    rw [ofTokens_cons hopening hclosing h]
    exact .leaf hopening hclosing ih
  | group hopening hclosing hcontent h ihcontent ih =>
    rw [ofTokens_group hopening hclosing hcontent h]
    exact .group hopening hclosing ihcontent ih

end Source.Tree

namespace Grammar
open Source

/-! ## Derivations -/

section
variable {ρ : Type} {rules : ρ → Pattern ρ}

/-- The tokens that the patterns of a reading can be, one after the other. -/
inductive Derives (rules : ρ → Pattern ρ) : Reading ρ → List Token → Prop where
  | nil : Derives rules [] []
  | terminal {x : Terminal} {reserved : Bool} {t : Token} {ps : Reading ρ} {ts : List Token}
      (ht : x.accepts reserved t) (h : Derives rules ps ts) :
      Derives rules (.terminal x :: ps) (t :: ts)
  | rule {r : ρ} {ps : Reading ρ} {ts : List Token} (h : Derives rules (rules r :: ps) ts) :
      Derives rules (.rule r :: ps) ts
  | sequence {qs ps : Reading ρ} {ts : List Token} (h : Derives rules (qs ++ ps) ts) :
      Derives rules (.sequence qs :: ps) ts
  | oneOf {q : Pattern ρ} {qs ps : Reading ρ} {ts : List Token} (hq : q ∈ qs)
      (h : Derives rules (q :: ps) ts) : Derives rules (.oneOf qs :: ps) ts
  | absent {q : Pattern ρ} {ps : Reading ρ} {ts : List Token} (h : Derives rules ps ts) :
      Derives rules (.optional q :: ps) ts
  | present {q : Pattern ρ} {ps : Reading ρ} {ts : List Token} (h : Derives rules (q :: ps) ts) :
      Derives rules (.optional q :: ps) ts
  | enough {q : Pattern ρ} {ps : Reading ρ} {ts : List Token} (h : Derives rules ps ts) :
      Derives rules (.many q :: ps) ts
  | more {q : Pattern ρ} {ps : Reading ρ} {ts : List Token}
      (h : Derives rules (q :: .many q :: ps) ts) : Derives rules (.many q :: ps) ts

theorem derives_of_mem_expand {n : Nat} {r r' : Reading ρ} {ts : List Token}
    (h : r' ∈ expand rules n r) (hr : Derives rules r' ts) : Derives rules r ts := by
  induction n generalizing r with
  | zero => cases h
  | succ n ih =>
    rcases r with _ | ⟨_ | _ | qs | qs | q | q, ps⟩
    case nil =>
      obtain rfl := List.mem_singleton.mp h
      exact hr
    case cons.terminal =>
      obtain rfl := List.mem_singleton.mp h
      exact hr
    case cons.rule => exact .rule (ih h)
    case cons.sequence => exact .sequence (ih h)
    case cons.oneOf =>
      obtain ⟨q, hq, h⟩ := List.mem_flatMap.mp h
      exact .oneOf hq (ih h)
    case cons.optional =>
      rcases List.mem_append.mp h with h | h
      · exact .present (ih h)
      · exact .absent (ih h)
    case cons.many =>
      rcases List.mem_append.mp h with h | h
      · exact .more (ih h)
      · exact .enough (ih h)

theorem eq_terminal_of_front? {r : Reading ρ} {x : Terminal} (h : front? r = some x) :
    r = .terminal x :: r.tail := by
  unfold front? at h
  split at h
  · cases h
    rfl
  · cases h

variable [BEq ρ]

theorem mem_of_mem_eraseDups {α : Type} [BEq α] {a : α} {l : List α} (h : a ∈ l.eraseDups) :
    a ∈ l := by
  -- The recursion of `eraseDups` is on a filtered tail, so the induction is on the length.
  induction hn : l.length using Nat.strongRecOn generalizing l with
  | ind n ih =>
    cases l with
    | nil => exact h
    | cons b l =>
      rw [List.eraseDups_cons] at h
      rcases List.mem_cons.mp h with rfl | h
      · exact List.mem_cons_self
      · have hlt : (l.filter fun c => !c == b).length < n := by
          have := List.length_filter_le (fun c => !c == b) l
          rw [List.length_cons] at hn
          omega
        exact List.mem_cons_of_mem b (List.mem_of_mem_filter (ih _ hlt h rfl))

theorem exists_derives_of_mem_step {readings : List (Reading ρ)} {t : Token} {r' : Reading ρ}
    {ts : List Token} (h : r' ∈ step rules readings t) (hr : Derives rules r' ts) :
    ∃ r ∈ readings, Derives rules r (t :: ts) := by
  unfold step at h
  obtain ⟨r, hmem, rfl⟩ := List.mem_map.mp (mem_of_mem_eraseDups h)
  obtain ⟨hexpanded, hfront⟩ := List.mem_filter.mp hmem
  obtain ⟨x, hx, haccepts⟩ := (Option.any_eq_true _ _).mp hfront
  obtain ⟨s, hs, hr'⟩ := List.mem_flatMap.mp hexpanded
  refine ⟨s, hs, derives_of_mem_expand hr' ?_⟩
  rw [eq_terminal_of_front? hx]
  exact .terminal haccepts hr

theorem exists_derives_of_foldl {readings : List (Reading ρ)} {ts : List Token}
    (h : ((ts.foldl (step rules) readings).flatMap (expansions rules)).any List.isEmpty) :
    ∃ r ∈ readings, Derives rules r ts := by
  induction ts generalizing readings with
  | nil =>
    obtain ⟨r', hr', hempty⟩ := List.any_eq_true.mp h
    obtain ⟨r, hr, hexpand⟩ := List.mem_flatMap.mp hr'
    obtain rfl := List.isEmpty_iff.mp hempty
    exact ⟨r, hr, derives_of_mem_expand hexpand .nil⟩
  | cons t ts ih =>
    obtain ⟨r', hr', hderives⟩ := ih h
    exact exists_derives_of_mem_step hr' hderives

theorem derives_of_accepts {start : ρ} {ts : List Token} (h : accepts rules start ts) :
    Derives rules [.rule start] ts := by
  obtain ⟨r, hr, hderives⟩ := exists_derives_of_foldl h
  obtain rfl := List.mem_singleton.mp hr
  exact hderives

end

/-! ## Brackets -/

/-- The brackets that are open after a symbol, those in `stack` being open before it. -/
def effectOfText (text : String) (stack : List Bracket) : Option (List Bracket) :=
  match Bracket.opening? ⟨.symbol, text, [], 0⟩, Bracket.closing? ⟨.symbol, text, [], 0⟩, stack with
  | some bracket, _, stack => some (bracket :: stack)
  | none, some bracket, top :: stack => if bracket = top then some stack else none
  | none, some _, [] => none
  | none, none, stack => some stack

theorem effectOfText_append {text : String} {s s' : List Bracket} (h : effectOfText text s = some s')
    (below : List Bracket) : effectOfText text (s ++ below) = some (s' ++ below) := by
  unfold effectOfText at h ⊢
  cases hopening : Bracket.opening? ⟨.symbol, text, [], 0⟩ with
  | some bracket =>
    simp only [hopening, Option.some.injEq] at h
    simp only [← h, List.cons_append]
  | none =>
    cases hclosing : Bracket.closing? ⟨.symbol, text, [], 0⟩ with
    | none => simp_all
    | some bracket =>
      cases s with
      | nil => simp [hopening, hclosing] at h
      | cons top s =>
        simp only [hopening, hclosing] at h
        simp only [List.cons_append]
        split at h <;> simp_all

/-- Only symbols are brackets. -/
theorem closesAll_cons_of_kind {t : Token} {stack : List Bracket} {ts : List Token}
    (h : t.kind ≠ .symbol) : closesAll stack (t :: ts) = closesAll stack ts := by
  simp [closesAll, Bracket.opening?, Bracket.closing?, Token.isSymbol, h]

theorem closesAll_cons_of_effectOfText {t : Token} {text : String} {stack stack' : List Bracket}
    {ts : List Token} (hkind : t.kind = .symbol) (htext : t.text = text)
    (h : effectOfText text stack = some stack') :
    closesAll stack (t :: ts) = closesAll stack' ts := by
  have hopening : Bracket.opening? t = Bracket.opening? ⟨.symbol, text, [], 0⟩ := by
    simp [Bracket.opening?, Token.isSymbol, hkind, htext]
  have hclosing : Bracket.closing? t = Bracket.closing? ⟨.symbol, text, [], 0⟩ := by
    simp [Bracket.closing?, Token.isSymbol, hkind, htext]
  simp only [closesAll, hopening, hclosing]
  unfold effectOfText at h
  cases hopening' : Bracket.opening? ⟨.symbol, text, [], 0⟩ with
  | some bracket => simp_all
  | none =>
    cases hclosing' : Bracket.closing? ⟨.symbol, text, [], 0⟩ with
    | none => simp_all
    | some bracket =>
      cases stack with
      | nil => simp [hopening', hclosing'] at h
      | cons top stack =>
        simp only [hopening', hclosing'] at h
        split at h <;> simp_all

/-- The brackets that are open after a terminal. What adjoins another token should be no bracket. -/
def Terminal.effect : Terminal → List Bracket → Option (List Bracket)
  | .symbol text, stack => effectOfText text stack
  | .adjoined text, stack => if effectOfText text [] = some [] then some stack else none
  | _, stack => some stack

theorem Terminal.effect_append {x : Terminal} {s s' : List Bracket} (h : x.effect s = some s')
    (below : List Bracket) : x.effect (s ++ below) = some (s' ++ below) := by
  cases x with
  | symbol text => exact effectOfText_append h below
  | adjoined text =>
    rw [Terminal.effect] at h ⊢
    split at h <;> simp_all
  | _ => rw [show s = s' from Option.some.inj h]; rfl

/-- A token goes on from the brackets that its terminal leaves open. -/
theorem closesAll_cons_of_effect {x : Terminal} {reserved : Bool} {t : Token}
    {stack stack' : List Bracket} {ts : List Token} (ht : x.accepts reserved t)
    (hx : x.effect stack = some stack') : closesAll stack (t :: ts) = closesAll stack' ts := by
  cases x with
  | symbol text =>
    simp only [Terminal.accepts, Token.isSymbol, Bool.and_eq_true, beq_iff_eq] at ht
    exact closesAll_cons_of_effectOfText ht.1 ht.2 hx
  | adjoined text =>
    simp only [Terminal.accepts, Bool.and_eq_true, beq_iff_eq] at ht
    rw [Terminal.effect] at hx
    split at hx
    · rename_i htext
      obtain rfl : stack = stack' := Option.some.inj hx
      by_cases hkind : t.kind = .symbol
      · exact closesAll_cons_of_effectOfText hkind ht.1 (effectOfText_append htext stack)
      · exact closesAll_cons_of_kind hkind
    · cases hx
  | _ =>
    obtain rfl : stack = stack' := Option.some.inj hx
    refine closesAll_cons_of_kind fun hkind => ?_
    simp [Terminal.accepts, Token.isKeyword, Token.isWord, hkind] at ht

namespace Pattern
variable {ρ : Type}

mutual

/-- The brackets that are open after a pattern, when each rule closes what it opens. -/
def effect : Pattern ρ → List Bracket → Option (List Bracket)
  | .terminal x, stack => x.effect stack
  | .rule _, stack => some stack
  | .sequence ps, stack => effectOfAll ps stack
  | .oneOf ps, stack => if areNeutral ps then some stack else none
  | .optional p, stack => if effect p [] = some [] then some stack else none
  | .many p, stack => if effect p [] = some [] then some stack else none

def effectOfAll : List (Pattern ρ) → List Bracket → Option (List Bracket)
  | [], stack => some stack
  | p :: ps, stack => (effect p stack).bind (effectOfAll ps)

/-- Whether each of some patterns closes what it opens. -/
def areNeutral : List (Pattern ρ) → Bool
  | [] => true
  | p :: ps => effect p [] = some [] && areNeutral ps

end

mutual

/-- What a pattern does to the brackets on top of a stack, it does over any others. -/
theorem effect_append (p : Pattern ρ) {s s' : List Bracket} (h : p.effect s = some s')
    (below : List Bracket) : p.effect (s ++ below) = some (s' ++ below) := by
  cases p with
  | terminal x => exact Terminal.effect_append h below
  | rule r =>
    rw [effect, Option.some.injEq] at h
    rw [effect, h]
  | sequence ps => exact effectOfAll_append ps h below
  | oneOf ps =>
    rw [effect] at h ⊢
    split at h <;> simp_all
  | optional p =>
    rw [effect] at h ⊢
    split at h <;> simp_all
  | many p =>
    rw [effect] at h ⊢
    split at h <;> simp_all

theorem effectOfAll_append (ps : List (Pattern ρ)) {s s' : List Bracket}
    (h : effectOfAll ps s = some s') (below : List Bracket) :
    effectOfAll ps (s ++ below) = some (s' ++ below) := by
  cases ps with
  | nil =>
    rw [effectOfAll, Option.some.injEq] at h
    rw [effectOfAll, h]
  | cons p ps =>
    rw [effectOfAll] at h
    obtain ⟨s₁, hp, hps⟩ := Option.bind_eq_some_iff.mp h
    rw [effectOfAll, effect_append p hp below]
    exact effectOfAll_append ps hps below

end

/-- A pattern that closes what it opens leaves every stack as it is. -/
theorem effect_eq_some {p : Pattern ρ} (h : p.effect [] = some []) (stack : List Bracket) :
    p.effect stack = some stack :=
  effect_append p h stack

theorem effectOfAll_cons {p : Pattern ρ} (h : p.effect [] = some []) (ps : List (Pattern ρ))
    (stack : List Bracket) : effectOfAll (p :: ps) stack = effectOfAll ps stack := by
  rw [effectOfAll, effect_eq_some h]
  rfl

theorem effectOfAll_of_append (qs ps : List (Pattern ρ)) (stack : List Bracket) :
    effectOfAll (qs ++ ps) stack = (effectOfAll qs stack).bind (effectOfAll ps) := by
  induction qs generalizing stack with
  | nil => rfl
  | cons q qs ih =>
    rw [List.cons_append, effectOfAll, effectOfAll, Option.bind_assoc]
    exact Option.bind_congr fun s _ => ih s

theorem effect_of_mem {q : Pattern ρ} {qs : List (Pattern ρ)} (h : areNeutral qs) (hq : q ∈ qs) :
    q.effect [] = some [] := by
  induction qs with
  | nil => cases hq
  | cons p qs ih =>
    simp only [areNeutral, Bool.and_eq_true, decide_eq_true_eq] at h
    rcases List.mem_cons.mp hq with rfl | hq
    · exact h.1
    · exact ih h.2 hq

end Pattern

/-- What is derived closes the brackets of a stack when the patterns do, whatever the rules: each of them
closes what it opens. -/
theorem closesAll_of_derives {ρ : Type} {rules : ρ → Pattern ρ} {ps : Reading ρ} {ts : List Token}
    {stack : List Bracket} (h : Derives rules ps ts)
    (hrules : ∀ r, (rules r).effect [] = some [])
    (hps : Pattern.effectOfAll ps stack = some []) : closesAll stack ts := by
  induction h generalizing stack with
  | nil =>
    rw [Pattern.effectOfAll, Option.some.injEq] at hps
    rw [closesAll, hps]
    rfl
  | terminal ht _ ih =>
    rw [Pattern.effectOfAll] at hps
    obtain ⟨s, hx, hps⟩ := Option.bind_eq_some_iff.mp hps
    rw [closesAll_cons_of_effect ht hx]
    exact ih hps
  | @rule r ps _ _ ih =>
    apply ih
    rw [Pattern.effectOfAll_cons (hrules r)]
    exact hps
  | @sequence qs ps _ _ ih =>
    apply ih
    rw [Pattern.effectOfAll_of_append]
    exact hps
  | @oneOf q qs ps _ hq _ ih =>
    rw [Pattern.effectOfAll, Pattern.effect] at hps
    split at hps
    · rename_i hqs
      apply ih
      rw [Pattern.effectOfAll_cons (Pattern.effect_of_mem hqs hq)]
      exact hps
    · cases hps
  | @absent q ps _ _ ih =>
    rw [Pattern.effectOfAll, Pattern.effect] at hps
    split at hps
    · exact ih hps
    · cases hps
  | @present q ps _ _ ih =>
    rw [Pattern.effectOfAll, Pattern.effect] at hps
    split at hps
    · rename_i hq
      apply ih
      rw [Pattern.effectOfAll_cons hq]
      exact hps
    · cases hps
  | @enough q ps _ _ ih =>
    rw [Pattern.effectOfAll, Pattern.effect] at hps
    split at hps
    · exact ih hps
    · cases hps
  | @more q ps _ _ ih =>
    apply ih
    rw [Pattern.effectOfAll, Pattern.effect] at hps
    split at hps
    · rename_i hq
      rw [Pattern.effectOfAll_cons hq, Pattern.effectOfAll, Pattern.effect, if_pos hq]
      exact hps
    · cases hps

/-! ## Well-formed sources -/

theorem effect_pattern (r : Rule) : r.pattern.effect [] = some [] := by
  cases r <;> decide +kernel

theorem balanced_of_isWellFormed {cs : List Char} (h : isWellFormed cs) : Balanced (tokens cs) :=
  balanced_of_closesAll (closesAll_of_derives (derives_of_accepts h) effect_pattern rfl)

/-- A source that follows the grammar leaves no bracket over, and none is closed for it. -/
theorem paired_of_isWellFormed {cs : List Char} (h : isWellFormed cs) :
    Tree.Paired (Tree.ofTokens (tokens cs)) :=
  Tree.paired_ofTokens (balanced_of_isWellFormed h)

end Grammar
end FaultTolerance.Java
