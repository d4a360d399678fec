import FaultTolerance.Proofs.Source.Bodies.Heads
import FaultTolerance.Proofs.Source.Nodes.Declarations

/-! What the syntax tree of a source means. Its package, its imports and its types are those of the outline
of the source, so that names resolve the same (`ofRoot_ofTrees`) and the types are the same
(`toTypes_ofTrees`). -/
namespace FaultTolerance.Java.Source
set_option autoImplicit false

/-! ## What a declaration in a unit is -/

theorem exists_of_packageOf? {d : List Tree} {name : List Token} (h : packageOf? d = some name) :
    ∃ a ts, skipAnnotations d = .leaf a :: ts ∧ a.isKeyword "package" := by
  unfold packageOf? at h
  split at h
  · rename_i a ts hskip
    split at h
    · rename_i hkeyword
      exact ⟨a, ts, hskip, hkeyword⟩
    · cases h
  · cases h

theorem exists_of_importOf? {d : List Tree} {i : ImportSyntax} (h : importOf? d = some i) :
    ∃ a ts, d = .leaf a :: ts ∧ a.isKeyword "import" := by
  unfold importOf? at h
  split at h
  · rename_i a ts
    split at h
    · rename_i hkeyword
      exact ⟨a, ts, rfl, hkeyword⟩
    · cases h
  · cases h

theorem importOf?_eq_none {d : List Tree} {name : List Token} (h : packageOf? d = some name) :
    importOf? d = none := by
  cases hi : importOf? d with
  | none => rfl
  | some i =>
    obtain ⟨a, ts, hskip, hpackage⟩ := exists_of_packageOf? h
    obtain ⟨b, us, rfl, himport⟩ := exists_of_importOf? hi
    obtain ⟨rfl, -⟩ : a = b ∧ ts = us := by
      simpa [skipAnnotations, Tree.isAnnotation, eq_comm] using hskip
    simp only [Token.isKeyword, Bool.and_eq_true, beq_iff_eq] at hpackage himport
    exact absurd (hpackage.2.symm.trans himport.2) (by decide)

theorem isKeyword_eq_false {a : Token} {w w' : String} (h : a.isKeyword w) (hne : w ≠ w') :
    a.isKeyword w' = false := by
  simp only [Token.isKeyword, Bool.and_eq_true, beq_iff_eq] at h
  simp [Token.isKeyword, h.2, hne]

/-- Modifiers end at a keyword that is none. -/
theorem modifiers_keyword {d ts : List Tree} {a : Token} {w : String}
    (h : skipAnnotations d = .leaf a :: ts) (ha : a.isKeyword w)
    (hw : w ∉ "non" :: modifierWords) : (modifiers d).2 = .leaf a :: ts := by
  induction d with
  | nil => cases h
  | cons t d ih =>
    cases t with
    | leaf b =>
      obtain ⟨rfl, rfl⟩ : b = a ∧ d = ts := by simpa [skipAnnotations, Tree.isAnnotation] using h
      rw [List.mem_cons, not_or] at hw
      obtain ⟨hnon, hmodifiers⟩ := hw
      have hsealed : dropSealed? b d = none := by
        unfold dropSealed?
        split
        · rw [isKeyword_eq_false ha hnon]
          rfl
        · rfl
      have hmodifier : (modifierWords.any fun w => b.isKeyword w) = false := by
        refine List.any_eq_false.mpr fun w' hw' => ?_
        rw [isKeyword_eq_false ha fun he => hmodifiers (he ▸ hw')]
        decide
      rw [modifiers_leaf, hsealed, hmodifier]
      rfl
    | group => simp [skipAnnotations, Tree.isAnnotation] at h
    | marked mark name arguments => exact ih h

theorem typeHead?_keyword {a : Token} (ts : List Tree) {w : String} (ha : a.isKeyword w)
    (hw : w ∉ ["class", "interface", "enum", "record"]) : typeHead? (.leaf a :: ts) = none := by
  simp only [List.mem_cons, List.not_mem_nil, or_false, not_or] at hw
  obtain ⟨hclass, hinterface, henum, hrecord⟩ := hw
  have hat : a.isSymbol "@" = false := by
    simp only [Token.isKeyword, Bool.and_eq_true, beq_iff_eq] at ha
    simp [Token.isSymbol, ha.1]
  rcases ts with _ | ⟨_ | _ | _, ts⟩
  case cons.leaf =>
    simp [typeHead?, isKeyword_eq_false ha hclass, isKeyword_eq_false ha hinterface,
      isKeyword_eq_false ha henum, isKeyword_eq_false ha hrecord, hat]
  all_goals rfl

/-- A declaration of a package or an import is none of a type. -/
theorem typeHead?_eq_none {d : List Tree}
    (h : (packageNode? d).isSome ∨ (importNode? d).isSome) : typeHead? (modifiers d).2 = none := by
  rcases h with h | h
  · rw [packageNode?, Option.isSome_map] at h
    obtain ⟨name, hname⟩ := Option.isSome_iff_exists.mp h
    obtain ⟨a, ts, hskip, ha⟩ := exists_of_packageOf? hname
    rw [modifiers_keyword hskip ha (by decide)]
    exact typeHead?_keyword ts ha (by decide)
  · rw [importNode?, Option.isSome_map] at h
    obtain ⟨i, hi⟩ := Option.isSome_iff_exists.mp h
    obtain ⟨a, ts, rfl, ha⟩ := exists_of_importOf? hi
    have hskip : skipAnnotations (.leaf a :: ts) = .leaf a :: ts := by
      simp [skipAnnotations, Tree.isAnnotation]
    rw [modifiers_keyword hskip ha (by decide)]
    exact typeHead?_keyword ts ha (by decide)

/-! ## Types -/

theorem declarationNodes_flatMap (n : Nat) (outer : Kind) (declarations : List (List Tree)) :
    declarationNodes n outer declarations =
      declarations.flatMap fun d => declarationNodes n outer [d] := by
  cases n with
  | zero => exact (List.flatMap_eq_nil_iff.mpr fun _ _ => rfl).symm
  | succ n => exact List.map_eq_flatMap

/-- The nodes of a declaration of a package or an import: none declares a type. -/
theorem filter_declarationNodes {n : Nat} {outer : Kind} {d : List Tree}
    (h : (packageNode? d).isSome ∨ (importNode? d).isSome) :
    (declarationNodes n outer [d]).filter (·.isTypeDeclaration) = [] := by
  cases n with
  | zero => rfl
  | succ n =>
    have htype : (memberNode outer d (modifiers d).2).isTypeDeclaration = false := by
      have hkind := kind_memberNode outer d (modifiers d).2
      unfold Node.isMethod Node.isField at hkind
      unfold Node.isTypeDeclaration
      cases hd : (memberNode outer d (modifiers d).2).kind <;> simp_all
    rw [declarationNodes, List.map_singleton, typeHead?_eq_none h,
      List.filter_cons_of_neg (by simp [htype]), List.filter_nil]

theorem kind_of_packageNode? {d : List Tree} {n : Node} (h : packageNode? d = some n) :
    n.kind = .packageDeclaration := by
  obtain ⟨name, _, rfl⟩ := Option.map_eq_some_iff.mp h
  rfl

theorem kind_of_importNode? {d : List Tree} {n : Node} (h : importNode? d = some n) :
    n.kind = .importDeclaration := by
  obtain ⟨i, _, rfl⟩ := Option.map_eq_some_iff.mp h
  rfl

theorem filter_unitNodes (n : Nat) (d : List Tree) :
    (unitNodes (declarationNodes n .classType) d).filter (·.isTypeDeclaration) =
      (declarationNodes n .classType [d]).filter (·.isTypeDeclaration) := by
  unfold unitNodes
  cases hpackage : packageNode? d with
  | some node =>
    have hkind : node.isTypeDeclaration = false := by
      rw [Node.isTypeDeclaration, kind_of_packageNode? hpackage]
    rw [filter_declarationNodes (.inl (by rw [hpackage]; rfl))]
    exact List.filter_cons_of_neg (by simp [hkind])
  | none =>
    cases himport : importNode? d with
    | some node =>
      have hkind : node.isTypeDeclaration = false := by
        rw [Node.isTypeDeclaration, kind_of_importNode? himport]
      rw [filter_declarationNodes (.inr (by rw [himport]; rfl))]
      exact List.filter_cons_of_neg (by simp [hkind])
    | none => rfl

/-! ## Packages and imports -/

theorem kind_ne_of_mem_unitNodes {n : Nat} {d : List Tree} (hpackage : packageOf? d = none)
    {node : Node} (h : node ∈ unitNodes (declarationNodes n .classType) d) :
    node.kind ≠ .packageDeclaration := by
  have hnone : packageNode? d = none := by rw [packageNode?, hpackage, Option.map_none]
  unfold unitNodes at h
  rw [hnone, Option.none_or] at h
  split at h
  · rename_i hnode
    obtain rfl := List.mem_singleton.mp h
    rw [kind_of_importNode? hnode]
    decide
  · exact (kind_ne_of_mem_declarationNodes h).2.1

theorem path?_packageNode? {d : List Tree} {name : List Token} (h : packageOf? d = some name) :
    ∃ node, packageNode? d = some node ∧ node.path? = some (Token.compactText name) := by
  refine ⟨_, by rw [packageNode?, h, Option.map_some], ?_⟩
  have hskip : ∀ n ∈ (d.takeWhile Tree.isAnnotation).filterMap annotationNode?,
      n.isPath = false := by
    intro n hn
    obtain ⟨t, _, hn⟩ := List.mem_filterMap.mp hn
    cases t with
    | leaf => cases hn
    | group => cases hn
    | marked mark name arguments =>
      obtain rfl := Option.some.inj hn
      cases arguments <;> simp [Node.isPath]
  rw [Node.path?, Node.children_ofTokens, find?_append_of_forall hskip,
    List.find?_cons_of_pos (isPath_pathNode none name)]
  rfl

theorem package_unitNodes (n : Nat) (ds : List (List Tree)) :
    ((ds.flatMap (unitNodes (declarationNodes n .classType))).find?
      (·.kind = .packageDeclaration)).bind Node.path? =
        (ds.findSome? packageOf?).map Token.compactText := by
  induction ds with
  | nil => rfl
  | cons d ds ih =>
    rw [List.flatMap_cons, List.findSome?_cons]
    cases hpackage : packageOf? d with
    | none =>
      rw [find?_append_of_forall fun node hnode => by
        simpa using kind_ne_of_mem_unitNodes hpackage hnode, ih]
    | some name =>
      obtain ⟨node, hnode, hpath⟩ := path?_packageNode? hpackage
      have hunit : unitNodes (declarationNodes n .classType) d = [node] := by
        rw [unitNodes, hnode, Option.some_or]
      rw [hunit, List.singleton_append,
        List.find?_cons_of_pos (by simp [kind_of_packageNode? hnode]), Option.bind_some, hpath]
      rfl

theorem isTypeImport_of_mem_unitNodes {n : Nat} {d : List Tree} (himport : importOf? d = none)
    {node : Node} (h : node ∈ unitNodes (declarationNodes n .classType) d) :
    node.isTypeImport = false := by
  have hnone : importNode? d = none := by rw [importNode?, himport, Option.map_none]
  have hkind : node.kind ≠ .importDeclaration := by
    unfold unitNodes at h
    rw [hnone, Option.or_none] at h
    split at h
    · rename_i hnode
      obtain rfl := List.mem_singleton.mp h
      rw [kind_of_packageNode? hnode]
      decide
    · exact (kind_ne_of_mem_declarationNodes h).2.2
  simp [Node.isTypeImport, hkind]

theorem importNode?_eq {d : List Tree} {i : ImportSyntax} (h : importOf? d = some i) :
    ∃ node, importNode? d = some node ∧ node.isTypeImport = !i.isStatic ∧
      node.isOnDemand = i.onDemand ∧ node.path? = some (Token.compactText i.path) := by
  refine ⟨_, by rw [importNode?, h, Option.map_some], ?_⟩
  have hpath : (pathNode none i.path).isPath := isPath_pathNode none i.path
  have hkind : (pathNode none i.path).kind ≠ .staticWord ∧
      (pathNode none i.path).kind ≠ .asterisk := by
    unfold Node.isPath at hpath
    cases hk : (pathNode none i.path).kind <;> simp_all
  have hstar : ∀ w, (Node.ofTokens .staticWord none w []).isPath = false := fun _ => rfl
  cases hstatic : i.isStatic <;> cases hdemand : i.onDemand <;>
    simp [Node.isTypeImport, Node.isOnDemand, Node.path?, Node.child?, wordNodes, hpath, hkind.1,
      hkind.2, hstar] <;> rfl

/-- The paths of a unit's imports, on demand or not, as some condition says. -/
theorem imports_unitNodes (n : Nat) (p : Bool → Bool) (ds : List (List Tree)) :
    (((ds.flatMap (unitNodes (declarationNodes n .classType))).filter (·.isTypeImport)).filter
      fun node => p node.isOnDemand).filterMap Node.path? =
    (((ds.filterMap importOf?).filter (!·.isStatic)).filter fun i => p i.onDemand).map
      fun i => Token.compactText i.path := by
  induction ds with
  | nil => rfl
  | cons d ds ih =>
    rw [List.flatMap_cons, List.filter_append, List.filter_append, List.filterMap_append, ih]
    cases himport : importOf? d with
    | none =>
      have hnone : (unitNodes (declarationNodes n .classType) d).filter (·.isTypeImport) = [] :=
        List.filter_eq_nil_iff.mpr fun node hnode => by
          simp [isTypeImport_of_mem_unitNodes himport hnode]
      rw [hnone, List.filterMap_cons_none himport]
      rfl
    | some i =>
      obtain ⟨node, hnode, htype, hdemand, hpath⟩ := importNode?_eq himport
      have hpackage : packageNode? d = none := by
        cases hname : packageOf? d with
        | none => rw [packageNode?, hname, Option.map_none]
        | some name =>
          rw [importOf?_eq_none hname] at himport
          cases himport
      have hunit : unitNodes (declarationNodes n .classType) d = [node] := by
        rw [unitNodes, hpackage, hnode, Option.none_or]
      rw [hunit, List.filterMap_cons_some himport]
      cases hstatic : i.isStatic <;> cases hp : p i.onDemand <;>
        simp [htype, hdemand, hpath, hstatic, hp]

section
variable (ts : List Tree)

theorem types_ofTrees :
    (Node.ofTrees ts).children.filter (·.isTypeDeclaration) =
      (declarationNodes (Tree.tokensOf ts).length .classType
        (splitDeclarations false [] ts)).filter (·.isTypeDeclaration) := by
  rw [declarationNodes_flatMap, List.filter_flatMap, Node.ofTrees, Node.children_ofTokens,
    List.filter_flatMap]
  exact congrArg (List.flatMap · _) (funext fun d => filter_unitNodes _ d)

/-! ## Names -/

theorem packageName?_ofTrees :
    (Node.ofTrees ts).packageName? = (Outline.ofTrees ts).packageName? :=
  package_unitNodes _ _

theorem declaredNames_ofTrees :
    (Node.ofTrees ts).declaredNames = (Outline.ofTrees ts).declaredNames := by
  let s : Setting := ⟨⟨none, [], [], [], []⟩, .ofText [], .binary⟩
  have hread := readAs_declarationNodes s (Tree.tokensOf ts).length .classType
    (splitDeclarations false [] ts)
  rw [Node.declaredNames, Node.namesBelow_eq_flatMap, Node.flatMap_namesOf_eq_filter, types_ofTrees,
    ← Node.flatMap_namesOf_eq_filter, hread.names, Node.packagePrefix, packageName?_ofTrees]
  rfl

/-- Names resolve in the tree of a source as they do in its outline. -/
theorem ofRoot_ofTrees (known : List String) :
    NameScope.ofRoot known (.ofTrees ts) = .ofOutline known (.ofTrees ts) := by
  have himports : ∀ p : Bool → Bool,
      (((Node.ofTrees ts).children.filter (·.isTypeImport)).filter
        fun node => p node.isOnDemand).filterMap Node.path? =
      (((Outline.ofTrees ts).imports.filter (!·.isStatic)).filter fun i => p i.onDemand).map
        fun i => Token.compactText i.path :=
    fun p => imports_unitNodes (Tree.tokensOf ts).length p (splitDeclarations false [] ts)
  rw [NameScope.ofRoot, NameScope.ofOutline, packageName?_ofTrees, declaredNames_ofTrees,
    himports not, List.map_map]
  exact congrArg (NameScope.mk _ _ _ · known) (himports id)

/-- The types of a source are those of its outline. -/
theorem toTypes_ofTrees (cs : List Char) (origin : Origin) (known : List String) :
    (Node.ofTrees ts).toTypes cs origin known = (Outline.ofTrees ts).toTypes cs origin known := by
  have hread := readAs_declarationNodes ⟨.ofOutline known (.ofTrees ts), .ofText cs, origin⟩
    (Tree.tokensOf ts).length .classType (splitDeclarations false [] ts)
  rw [Node.toTypes, types_ofTrees, ofRoot_ofTrees, hread.types, Node.packagePrefix,
    packageName?_ofTrees]
  rfl

end

end FaultTolerance.Java.Source
