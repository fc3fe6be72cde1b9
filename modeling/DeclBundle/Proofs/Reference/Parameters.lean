import DeclBundle.Proofs.Reference.Analysis

/-!
# Parameters as values

A parameter list binds its names as values where it opens a scope. A function, a method, a call or
construct signature and a function type open one. The constructor of a class, a setter and an index
signature do not (`Part.opensScope`), and there `typeof p` in the list itself is a use of a `p`
further out.
-/

namespace DeclBundle.Part

/-- The nodes whose parameter list opens a scope. -/
def opensScope : Part → Bool
  | .member (.index ..) | .member (.initializer ..) | .member (.setter ..) => false
  | _ => true

/-- Where a parameter stands below the node whose list it is in. -/
theorem region_of_parameter {owner : Part} {r : Region} {q : Parameter}
    (h : (r, .parameter q) ∈ owner.regions) :
    r = if owner.opensScope then .signature else .outside := by
  cases owner with
  | type t => cases t <;> simp_all [signatureRegions, opensScope]
  | member m => cases m <;> simp_all [signatureRegions, opensScope]
  | declaration d =>
    obtain ⟨id, modifiers, pos, kind⟩ := d
    cases kind <;> simp_all [signatureRegions, opensScope]
  | statement s => cases s <;> simp_all
  | _ => simp_all

/-- The way down to a parameter leads below the names of its list, as values, exactly if the list
opens a scope. -/
theorem binds_parameter {owner : Part} {r : Region} {q : Parameter}
    (h : (r, .parameter q) ∈ owner.regions) {name : String}
    (hname : name ∈ owner.parameters.map (·.name)) :
    Step.Binds ⟨owner, r⟩ name .value ↔ owner.opensScope := by
  obtain rfl := region_of_parameter h
  cases ho : owner.opensScope with
  | false => simp [Step.Binds, Step.binders]
  | true =>
    simp only [Step.Binds, Step.binders, if_true, binders_signature, iff_true]
    obtain ⟨p, hp, rfl⟩ := List.mem_map.1 hname
    exact ⟨(p.name, .value), List.mem_append_left _ (List.mem_map.2 ⟨p, hp, rfl⟩), rfl, rfl⟩

/-- A use of a parameter as a value, below a parameter of the same list, is free exactly if the list
opens no scope and no other node binds the name. Where it is free, the name is reported. -/
theorem parameter_free_iff {d : Declaration} {before rest : List Step} {owner node : Part}
    {r : Region} {q : Parameter} {name : String} (howner : (declaration d).Above before owner)
    (hq : (r, .parameter q) ∈ owner.regions) (hnode : (Part.parameter q).Above rest node)
    (huse : .name name .value ∈ node.uses) (hname : name ∈ owner.parameters.map (·.name)) :
    (FreeAt (before ++ ⟨owner, r⟩ :: rest) name .value
        ↔ owner.opensScope = false ∧ FreeAt (before ++ rest) name .value)
      ∧ (owner.opensScope = false → FreeAt (before ++ rest) name .value →
          .name name ∈ (Analysis.declaration d).references) := by
  have hfree : FreeAt (before ++ ⟨owner, r⟩ :: rest) name .value
      ↔ owner.opensScope = false ∧ FreeAt (before ++ rest) name .value := by
    rw [freeAt_insert, binds_parameter hq hname, Bool.not_eq_true]
  refine ⟨hfree, fun ho hf => ?_⟩
  exact name_mem_references.2
    ⟨_, node, .value, howner.append (.down hq hnode), huse, hfree.2 ⟨ho, hf⟩⟩

/-- `class C { constructor(x: string, y: typeof x) }` -/
def initializerClass : Declaration := .ofKind (.classLike "C" [] none []
  [.initializer .none [⟨"x", .none, false, false, some (.keyword "string")⟩,
    ⟨"y", .none, false, false, some (.query ⟨["x"]⟩ [])⟩]])

/-- A parameter of a constructor that the type of another one asks for is reported. -/
theorem parameter_free_iff_initializer :
    .name "x" ∈ (Analysis.declaration initializerClass).references :=
  (parameter_free_iff (.down (.head _) (.here _)) (.tail _ (.head _)) (.down (.head _) (.here _))
    (List.mem_singleton.2 rfl) (by decide)).2 rfl (by decide)

end DeclBundle.Part
