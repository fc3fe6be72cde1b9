import DeclBundle.Proofs.Reference.Analysis

/-!
# Names that a conditional type infers

A conditional type binds the names that are collected from its bound. The collection goes through
some nodes (`Part.searched`) and stops at the others: at a nested conditional type, which has names
of its own, but also at a method, a call signature or a mapped type. So `infer U` binds the uses of
`U` in the bound and in the true branch exactly if the collection comes to it (`mem_inferredNames`).
-/

namespace DeclBundle.Part

/-- The nodes of a bound through which the names that are inferred are collected. -/
def searched : Part → Bool
  | .type (.conditional ..) | .type (.mapped ..) | .type (.predicate ..) | .type (.infer _) => false
  | .type _ | .parameter _ | .element _ | .span _ | .member (.property ..) => true
  | _ => false

/-- The names that are collected from a node and from what stands below it. -/
def collected : Part → List String
  | .type t => t.inferredNames
  | .parameter p => TypeExpr.inferredInOption p.ascription
  | .element e => e.element.inferredNames
  | .span s => s.type.inferredNames
  | .member m => TypeExpr.inferredInMember m
  | _ => []

theorem inferredInOption_eq (t : Option TypeExpr) :
    TypeExpr.inferredInOption t = (t.toList.map .type).flatMap collected := by
  cases t <;> simp [TypeExpr.inferredInOption, collected]

theorem inferredInTypes_eq (ts : List TypeExpr) :
    TypeExpr.inferredInTypes ts = (ts.map .type).flatMap collected := by
  induction ts with
  | nil => rfl
  | cons t ts ih => simp [TypeExpr.inferredInTypes, collected, ih]

theorem inferredInElements_eq (es : List TupleElement) :
    TypeExpr.inferredInElements es = (es.map .element).flatMap collected := by
  induction es with
  | nil => rfl
  | cons e es ih =>
    cases e
    simp [TypeExpr.inferredInElements, collected, ih]

theorem inferredInParameters_eq (ps : List Parameter) :
    TypeExpr.inferredInParameters ps = (ps.map .parameter).flatMap collected := by
  induction ps with
  | nil => rfl
  | cons p ps ih =>
    cases p
    simp [TypeExpr.inferredInParameters, collected, ih]

theorem inferredInSpans_eq (ss : List TemplateSpan) :
    TypeExpr.inferredInSpans ss = (ss.map .span).flatMap collected := by
  induction ss with
  | nil => rfl
  | cons s ss ih =>
    cases s
    simp [TypeExpr.inferredInSpans, collected, ih]

theorem inferredInMembers_eq (ms : List Member) :
    TypeExpr.inferredInMembers ms = (ms.map .member).flatMap collected := by
  induction ms with
  | nil => rfl
  | cons m ms ih => simp [TypeExpr.inferredInMembers, collected, ih]

/-- The collection goes down from the nodes that are searched. -/
theorem collected_eq {p : Part} (h : p.searched) :
    p.collected = (p.regions.map (·.2)).flatMap collected := by
  cases p with
  | type t =>
    cases t <;> simp_all [searched, collected, TypeExpr.inferredNames, signatureRegions,
      inferredInTypes_eq, inferredInElements_eq, inferredInParameters_eq, inferredInSpans_eq,
      inferredInMembers_eq, List.flatMap_map]
  | parameter p => simp [collected, inferredInOption_eq, List.flatMap_map]
  | member m =>
    cases m <;> simp_all [searched, collected, TypeExpr.inferredInMember, inferredInOption_eq,
      List.flatMap_map]
  | element e => simp [collected]
  | span s => simp [collected]
  | _ => cases h

/-- No name is collected from a node that is not searched, unless it is `infer` itself. -/
theorem mem_collected_of_not_searched {p : Part} (h : p.searched = false) {name : String} :
    name ∈ p.collected ↔ ∃ q, p = .type (.infer q) ∧ q.name = name := by
  cases p with
  | type t =>
    cases t with
    | infer q =>
      cases q
      simp [collected, TypeExpr.inferredNames, eq_comm]
    | _ => simp_all [searched, collected, TypeExpr.inferredNames]
  | member m => cases m <;> simp_all [searched, collected, TypeExpr.inferredInMember]
  | _ => simp_all [searched, collected]

/-- The collected names are those of the `infer` nodes that only searched nodes lead down to. The
way down starts with the node itself, which has to be searched or to be the `infer` node. -/
theorem mem_collected {p : Part} {name : String} :
    name ∈ p.collected ↔ ∃ steps q, p.Above steps (.type (.infer q)) ∧ q.name = name
      ∧ ∀ s ∈ steps, s.node.searched := by
  by_cases hp : p.searched
  · rw [collected_eq hp, List.flatMap_map, List.mem_flatMap]
    constructor
    · rintro ⟨c, hc, hn⟩
      obtain ⟨steps, q, hq, hname, hs⟩ := mem_collected.1 hn
      exact ⟨_, q, .down hc hq, hname, List.forall_mem_cons.2 ⟨hp, hs⟩⟩
    · rintro ⟨steps, q, hq, hname, hs⟩
      obtain ⟨-, rfl⟩ | ⟨c, hc, rest, rfl, hbelow⟩ := above_iff.1 hq
      · cases hp
      · exact ⟨c, hc, mem_collected.2 ⟨rest, q, hbelow, hname, (List.forall_mem_cons.1 hs).2⟩⟩
  · rw [mem_collected_of_not_searched (by simpa using hp)]
    constructor
    · rintro ⟨q, rfl, hname⟩
      exact ⟨[], q, .here _, hname, nofun⟩
    · rintro ⟨steps, q, hq, hname, hs⟩
      obtain ⟨-, rfl⟩ | ⟨c, -, rest, rfl, -⟩ := above_iff.1 hq
      · exact ⟨q, rfl, hname⟩
      · exact absurd (hs _ List.mem_cons_self) hp
termination_by sizeOf p
decreasing_by all_goals exact sizeOf_lt_of_mem_regions hc

theorem mem_inferredNames {t : TypeExpr} {name : String} :
    name ∈ t.inferredNames ↔ ∃ steps q, (type t).Above steps (.type (.infer q)) ∧ q.name = name
      ∧ ∀ s ∈ steps, s.node.searched :=
  mem_collected (p := type t)

/-- The step from a conditional type down to its bound or its true branch. -/
def Step.inferring (check limit onTrue onFalse : TypeExpr) : Step :=
  ⟨.type (.conditional check limit onTrue onFalse), .inside⟩

/-- A conditional type binds the names that it infers where a type may be meant. -/
theorem binds_inferring {check limit onTrue onFalse : TypeExpr} {name : String} {space : Space} :
    (Step.inferring check limit onTrue onFalse).Binds name space
      ↔ name ∈ limit.inferredNames ∧ space ≠ .value := by
  simp only [Step.Binds, Step.binders, Step.inferring, binders_inside, innerBinders, List.mem_map]
  constructor
  · rintro ⟨_, ⟨_, hmem, rfl⟩, rfl, hcovers⟩
    exact ⟨hmem, by cases space <;> simp_all [Space.covers]⟩
  · rintro ⟨hmem, hspace⟩
    exact ⟨_, ⟨name, hmem, rfl⟩, rfl, by cases space <;> simp_all [Space.covers]⟩

theorem not_mem_inferredNames {t : TypeExpr} {name : String} : name ∉ t.inferredNames
    ↔ ∀ steps q, (type t).Above steps (.type (.infer q)) → q.name = name →
        ∃ s ∈ steps, s.node.searched = false := by
  simp only [mem_inferredNames, not_exists, not_and, Classical.not_forall, Bool.not_eq_true,
    exists_prop]

/-- Where a name is used as a type only under what a conditional type infers, it is reported if it
is reported as a value, or else if each of its `infer` positions in the bound is below a node that
is not searched, and no other node binds it at one of the uses. -/
theorem reports_inferred {d : Declaration} {before : List Step}
    {check limit onTrue onFalse : TypeExpr} {name : String}
    (huses : ∀ around node space, (declaration d).Above around node →
      .name name space ∈ node.uses → space ≠ .value →
        ∃ rest, around = before ++ .inferring check limit onTrue onFalse :: rest) :
    .name name ∈ (Analysis.declaration d).references
      ↔ (∃ around node, (declaration d).Above around node ∧ .name name .value ∈ node.uses
          ∧ FreeAt around name .value)
        ∨ (∀ steps q, (type limit).Above steps (.type (.infer q)) → q.name = name →
            ∃ s ∈ steps, s.node.searched = false)
          ∧ ∃ rest node space,
              (declaration d).Above (before ++ .inferring check limit onTrue onFalse :: rest) node
              ∧ .name name space ∈ node.uses ∧ space ≠ .value
              ∧ FreeAt (before ++ rest) name space := by
  rw [name_mem_references, ← not_mem_inferredNames]
  constructor
  · rintro ⟨around, node, space, hn, hu, hf⟩
    by_cases hspace : space = .value
    · subst hspace
      exact .inl ⟨around, node, hn, hu, hf⟩
    · obtain ⟨rest, rfl⟩ := huses around node space hn hu hspace
      obtain ⟨hbinds, hf⟩ := freeAt_insert.1 hf
      exact .inr ⟨fun hmem => hbinds (binds_inferring.2 ⟨hmem, hspace⟩),
        rest, node, space, hn, hu, hspace, hf⟩
  · rintro (⟨around, node, hn, hu, hf⟩ | ⟨hmem, rest, node, space, hn, hu, hspace, hf⟩)
    · exact ⟨around, node, .value, hn, hu, hf⟩
    · exact ⟨_, node, space, hn, hu,
        freeAt_insert.2 ⟨fun hbinds => hmem (binds_inferring.1 hbinds).1, hf⟩⟩

/-- An object with a call signature whose parameter is `infer U`. -/
def callSignature : TypeExpr :=
  .object [.call [] [⟨"x", .none, false, false, some (.infer ⟨none, "U", none, none, []⟩)⟩]
    (some (.keyword "void"))]

/-- `T extends { (x: infer U): void } ? U : never` -/
def callArgument : TypeExpr :=
  .conditional (.reference ⟨["T"]⟩ []) callSignature (.reference ⟨["U"]⟩ []) (.keyword "never")

/-- The type alias of `callArgument`. -/
def callArgumentAlias : Declaration :=
  .ofKind (.typeAlias "M" [⟨none, "T", none, none, []⟩] callArgument)

/-- All uses of the inferred name are in the true branch. -/
theorem uses_callArgument {v : Visit} (hv : v ∈ (declaration callArgumentAlias).visits)
    {space : Space} (hu : .name "U" space ∈ v.node.uses) :
    ∃ rest, v.around = [⟨.declaration callArgumentAlias, .inside⟩]
      ++ .inferring (.reference ⟨["T"]⟩ []) callSignature (.reference ⟨["U"]⟩ []) (.keyword "never")
        :: rest := by
  revert hu v
  simp [callArgumentAlias, callArgument, callSignature, Declaration.ofKind, visits_eq, visitsBelow,
    Visit.below, Step.inferring, signatureRegions, Entity.root]

/-- A name that is inferred in a call signature is reported, though it is used in the true branch
only. -/
theorem reports_inferred_call :
    (∃ steps q, (type callSignature).Above steps (.type (.infer q)) ∧ q.name = "U")
      ∧ .name "U" ∈ (Analysis.declaration callArgumentAlias).references := by
  refine ⟨⟨_, _, .down (.head _) (.down (.head _) (.down (.head _) (.here _))), rfl⟩, ?_⟩
  refine (reports_inferred fun _ _ _ hn hu _ => uses_callArgument hn.mem_visits hu).2 (.inr
    ⟨not_mem_inferredNames.1 (by decide), [], .type (.reference ⟨["U"]⟩ []), .type, ?_,
      List.mem_singleton.2 rfl, by decide, by decide⟩)
  exact .down (.tail _ (.head _)) (.down (.tail _ (.tail _ (.head _))) (.here _))

end DeclBundle.Part
