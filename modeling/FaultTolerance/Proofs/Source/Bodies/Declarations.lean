import FaultTolerance.Proofs.Source.Bodies.Members

/-! Where declarations end. A head goes on until its body or its first value (`isHead`); then the
declaration ends with the body (`splitDeclarations_body`) or at the next semicolon
(`splitDeclarations_value`), whatever stands inside. -/
namespace FaultTolerance.Java.Source
open Source.Tree
set_option autoImplicit false

/-! ## Heads -/

/-- Whether some trees can stand before the body or the first value of a declaration: they end no
declaration, begin neither a value nor the default of an annotation's element, and belong to no package
declaration and no imported name. `parameters` says whether the parameters of a method stand in front of
them. -/
def isHead (parameters : Bool) : List Tree → Bool
  | [] => true
  | t :: ts =>
    !t.isSymbol ";" && !t.isSymbol "=" && !t.isGroup .curly &&
      !(t.isKeyword "default" && parameters) && !t.isKeyword "package" && !t.isKeyword "import" &&
      isHead (t.isGroup .round || parameters) ts

theorem isHead_cons {parameters : Bool} {t : Tree} {ts : List Tree} :
    isHead parameters (t :: ts) = true ↔
      t.isSymbol ";" = false ∧ t.isSymbol "=" = false ∧ t.isGroup .curly = false ∧
        (t.isKeyword "default" && parameters) = false ∧ t.isKeyword "package" = false ∧
        t.isKeyword "import" = false ∧ isHead (t.isGroup .round || parameters) ts = true := by
  rw [isHead]
  simp only [Bool.and_eq_true, Bool.not_eq_true', and_assoc]

theorem of_isHead {parameters : Bool} {ts : List Tree} (h : isHead parameters ts) :
    ∀ t ∈ ts, t.isGroup .curly = false ∧ t.isKeyword "package" = false ∧
      t.isKeyword "import" = false := by
  induction ts generalizing parameters with
  | nil => exact nofun
  | cons t ts ih =>
    obtain ⟨-, -, hcurly, -, hpackage, himport, hrest⟩ := isHead_cons.mp h
    exact List.forall_mem_cons.mpr ⟨⟨hcurly, hpackage, himport⟩, ih hrest⟩

/-! ## Splitting -/

/-- A head ends no declaration and leaves what follows it outside a value. -/
theorem splitDeclarations_head {part ts : List Tree} (h : isHead (hasParameters part) ts)
    (ys : List Tree) :
    splitDeclarations false part (ts ++ ys) = splitDeclarations false (ts.reverse ++ part) ys := by
  induction ts generalizing part with
  | nil => rfl
  | cons t ts ih =>
    obtain ⟨hsemi, hequals, hcurly, hdefault, -, -, hrest⟩ := isHead_cons.mp h
    have hparameters : hasParameters (t :: part) = (t.isGroup .round || hasParameters part) :=
      List.any_cons
    rw [← hparameters] at hrest
    simp [splitDeclarations, hsemi, hequals, hcurly, hdefault, ih hrest]

theorem isSymbol_of_body {x : Tree} (hx : x.isGroup .curly) (s : String) : x.isSymbol s = false := by
  obtain ⟨opening, content, closing, rfl⟩ := eq_of_isGroup hx
  rfl

theorem splitDeclarations_body {x : Tree} (hx : x.isGroup .curly) {ts : List Tree}
    (h : isHead false ts) (ys : List Tree) :
    splitDeclarations false [] (ts ++ x :: ys) = (ts ++ [x]) :: splitDeclarations false [] ys := by
  have hhead : isHead (hasParameters []) ts := h
  rw [splitDeclarations_head hhead, splitDeclarations, isSymbol_of_body hx, hx]
  simp

/-- In a value only a semicolon ends the declaration. -/
theorem splitDeclarations_inValue {part ts : List Tree} (h : ∀ t ∈ ts, t.isSymbol ";" = false)
    (ys : List Tree) :
    splitDeclarations true part (ts ++ ys) = splitDeclarations true (ts.reverse ++ part) ys := by
  induction ts generalizing part with
  | nil => rfl
  | cons t ts ih =>
    obtain ⟨hsemi, hrest⟩ := List.forall_mem_cons.mp h
    simp [splitDeclarations, hsemi, ih hrest]

theorem splitDeclarations_value {eq semi : Tree} (heq : eq.isSymbol "=") (hsemi : semi.isSymbol ";")
    {ts values : List Tree} (h : isHead false ts) (hvalues : ∀ t ∈ values, t.isSymbol ";" = false)
    (ys : List Tree) :
    splitDeclarations false [] (ts ++ eq :: (values ++ semi :: ys)) =
      (ts ++ eq :: values) :: splitDeclarations false [] ys := by
  have hends : eq.isSymbol ";" = false := isSymbol_of_ne heq (by decide)
  have hcurly : eq.isGroup .curly = false := by
    cases eq with
    | group => cases heq
    | leaf => rfl
    | marked => rfl
  have hhead : isHead (hasParameters []) ts := h
  rw [splitDeclarations_head hhead, splitDeclarations, hends, hcurly, heq]
  simp [splitDeclarations_inValue hvalues, splitDeclarations, hsemi]

/-- What follows a semicolon is split on its own. -/
theorem splitDeclarations_semicolon {semi : Tree} (hsemi : semi.isSymbol ";") (inValue : Bool)
    (part ts ys : List Tree) :
    splitDeclarations inValue part (ts ++ semi :: ys) =
      splitDeclarations inValue part (ts ++ [semi]) ++ splitDeclarations false [] ys := by
  induction ts generalizing inValue part with
  | nil => simp [splitDeclarations, hsemi]
  | cons t ts ih =>
    rw [List.cons_append, List.cons_append, splitDeclarations, splitDeclarations]
    split
    · rw [ih, List.cons_append]
    · split
      · rw [ih, List.cons_append]
      · exact ih ..

/-! ## Packages and imported names -/

section
variable {x : Tree} {ys : List Tree}

theorem packageOf?_head (hx : x.isStop) {parameters : Bool} {ts : List Tree}
    (h : isHead parameters ts) : packageOf? (ts ++ x :: ys) = none := by
  have hkeyword : ∀ t ∈ skipAnnotations ts, t.isKeyword "package" = false := fun t ht =>
    (of_isHead h t ((List.dropWhile_suffix _).subset ht)).2.1
  unfold packageOf?
  rw [skipAnnotations_append hx]
  rcases hskipped : skipAnnotations ts with _ | ⟨a | _ | _, rest⟩
  case nil =>
    have hstop := isKeyword_of_isStop hx "package"
    rcases x with a | _ | _
    case leaf => simp_all [Tree.isKeyword]
    all_goals rfl
  case cons.leaf =>
    have hleaf := hkeyword (.leaf a) (hskipped ▸ List.mem_cons_self)
    simp_all [Tree.isKeyword]
  all_goals rfl

theorem importOf?_head (hx : x.isStop) {parameters : Bool} {ts : List Tree}
    (h : isHead parameters ts) : importOf? (ts ++ x :: ys) = none := by
  rcases ts with _ | ⟨a | _ | _, rest⟩
  case nil =>
    have hstop := isKeyword_of_isStop hx "import"
    rcases x with a | _ | _
    case leaf => simp_all [importOf?, Tree.isKeyword]
    all_goals rfl
  case cons.leaf =>
    have hleaf := (of_isHead h (.leaf a) List.mem_cons_self).2.2
    simp_all [importOf?, Tree.isKeyword]
  all_goals rfl

/-! ## Types -/

theorem typeHead?_stop (hx : x.isStop) : typeHead? (x :: ys) = none := by
  have hkeyword := isKeyword_of_isStop hx
  have hat := isSymbol_of_isStop hx (s := "@") (by decide)
  rcases x with a | _ | _
  case leaf =>
    rcases ys with _ | ⟨b | _ | _, ys⟩
    case cons.leaf => simp_all [typeHead?, Tree.isKeyword, Tree.isSymbol]
    all_goals rfl
  all_goals rfl

theorem typeHead?_word_stop (hx : x.isStop) (a : Token) : typeHead? (.leaf a :: x :: ys) = none := by
  have hinterface := isKeyword_of_isStop hx "interface"
  obtain ⟨_, _, _, rfl⟩ | ⟨b, rfl, hkind, _⟩ := eq_of_isStop hx
  · rfl
  · have hword := isWord_of_symbol hkind
    change b.isKeyword "interface" = false at hinterface
    cases ys <;> simp [typeHead?, hword, hinterface]

theorem typeHead?_append (hx : x.isStop) (ts : List Tree) :
    typeHead? (ts ++ x :: ys) =
      (typeHead? ts).map fun (kind, name, rest) => (kind, name, rest ++ x :: ys) := by
  have hangle := isSymbol_of_isStop hx (s := "<") (by decide)
  have hword := word?_of_isStop hx
  have hround : x.isGroup .round = false := by
    obtain ⟨_, _, _, rfl⟩ | ⟨_, rfl, _⟩ := eq_of_isStop hx <;> rfl
  rcases ts with _ | ⟨a | _ | _, _ | ⟨b | _ | _, ts⟩⟩
  case nil => exact typeHead?_stop hx
  case cons.leaf.nil => exact typeHead?_word_stop hx a
  case cons.leaf.cons.leaf =>
    simp only [List.cons_append, typeHead?]
    split_ifs
    -- Only a record and an annotation type look at what follows the name.
    any_goals rfl
    · rcases ts with _ | ⟨t, ts⟩
      · simp [hround, hangle]
      · simp only [List.cons_append]
        split <;> rfl
    · cases ts <;> simp
    · rcases ts with _ | ⟨c | _ | _, ts⟩
      case nil => rcases x with _ | _ | _ <;> simp_all [Tree.word?]
      case cons.leaf =>
        simp only [List.cons_append]
        split <;> rfl
      all_goals rfl
  all_goals rfl

theorem anglesClosed_typeHead? {ts rest : List Tree} {kind : Kind} {name : Token}
    (hhead : typeHead? ts = some (kind, name, rest)) (h : anglesClosed 0 ts) :
    anglesClosed 0 rest := by
  obtain ⟨front, rfl, hlength, hname, hfront⟩ := exists_of_typeHead? hhead
  clear hhead hlength hname
  induction front with
  | nil => exact h
  | cons t front ih =>
    obtain ⟨hword | hmark, hfront⟩ := List.forall_mem_cons.mp hfront
    · rw [List.map_cons, List.cons_append, anglesClosed_cons_word hword] at h
      exact ih h hfront
    · have hat : (Tree.leaf t).isSymbol "@" := hmark
      rw [List.map_cons, List.cons_append,
        anglesClosed_cons_other (isSymbol_of_ne hat (by decide))
          (isSymbol_of_ne hat (by decide))] at h
      exact ih h hfront

theorem length_typeHead? {ts rest : List Tree} {kind : Kind} {name : Token}
    (h : typeHead? ts = some (kind, name, rest)) :
    (tokensOf rest).length + 2 ≤ (tokensOf ts).length := by
  obtain ⟨front, rfl, hlength, _, _⟩ := exists_of_typeHead? h
  rw [tokensOf_append, tokensOf_leaves, List.length_append]
  omega

/-- The body of a type is the first one behind its head. -/
theorem bodyOf?_append {ts : List Tree} (h : ∀ t ∈ ts, t.isGroup .curly = false) (opening : Token)
    (content : List Tree) (closing : Option Token) :
    bodyOf? (ts ++ [.group .curly opening content closing]) = some content := by
  induction ts with
  | nil => rfl
  | cons t ts ih =>
    obtain ⟨ht, hts⟩ := List.forall_mem_cons.mp h
    have hnext := ih hts
    unfold bodyOf? at hnext ⊢
    rw [List.cons_append, List.findSome?_cons]
    rcases t with _ | ⟨_ | _ | _⟩ | _
    case group.curly => cases ht
    all_goals exact hnext

end
end FaultTolerance.Java.Source
