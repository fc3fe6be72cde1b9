import DeclBundle.Proofs.Names.Binders
import DeclBundle.Proofs.Names.Rooted
import DeclBundle.Proofs.Names.Walk

/-!
# The walk and the sites

A setting is what a walk finds where it stands, and it has a site (`Walk.Setting.site`). A walk
leads from one setting to another (`Walk.Leads`): a step is one that renaming takes as well, or one
of the walk alone. Over every type, member, declaration and statement the walk gives what renaming
gives at the site of the setting, and leads back to the setting (`Walk.leads_type`,
`Walk.leads_member`, `Walk.leads_statement`).

The walk notes the type parameters of a list before it goes into their constraints, and renaming
notes each on its way, so what is noted is the same up to order.
-/

namespace DeclBundle

namespace Scopes

/-- One more scope is open than in `outer`. -/
def Within (outer s : Scopes) : Prop := ∃ scope, s = { outer with inner := scope :: outer.inner }

variable {outer s : Scopes}

theorem within_push (s : Scopes) : Within s s.push := ⟨[], rfl⟩

theorem Within.bind (h : Within outer s) (name : String) (owner : Option ModuleId) :
    Within outer (s.bind name owner).2 := by
  obtain ⟨scope, rfl⟩ := h
  exact ⟨_, rfl⟩

theorem Within.reserveInScope (h : Within outer s) (name : String) :
    Within outer (s.reserveInScope name) := by
  obtain ⟨scope, rfl⟩ := h
  exact ⟨_, rfl⟩

theorem Within.bindAll : ∀ (names : List String) {s : Scopes}, Within outer s →
    Within outer (Site.bindAll s names).2
  | [], _, h => h
  | name :: names, _, h => Within.bindAll names (h.bind name none)

theorem Within.bindCaptured (captured members : List String) (h : Within outer s) :
    Within outer (Site.bindCaptured captured s members).2 := by
  refine List.foldlRecOn (motive := fun x : Table String String × Scopes => Within outer x.2)
    members _ h fun x hx m _ => ?_
  obtain ⟨renamed, scopes⟩ := x
  simp only
  split
  · exact Within.bind hx m none
  · exact hx

theorem Within.pop (h : Within outer s) : s.pop = outer := by
  obtain ⟨scope, rfl⟩ := h
  rfl

end Scopes

namespace Walk

namespace Setting

/-- The site of the statements of a module in a setting. -/
def site (σ : Setting) (l : Linker) (module : ModuleId) : Site :=
  { Naming.site l σ.names module with locals := σ.locals.flatten }

/-- The setting inside a scope with more names and bindings. -/
def inside (σ : Setting) (scopes : Scopes) (bindings : List LocalName) : Setting :=
  ⟨{ σ.names with scopes }, bindings.reverse :: σ.locals⟩

/-- Binds type parameters in a new scope. -/
def enterTypes (σ : Setting) (given : List String) : Setting :=
  let bound := Site.bindAll σ.names.scopes.push given
  σ.inside bound.2 ((given.zip bound.1).map fun b => ⟨b.1, b.2, .type⟩)

/-- Notes parameters as local bindings, which keep their names. -/
def enterParameters (σ : Setting) (ps : List Parameter) : Setting :=
  { σ with locals := addLocals (ps.map fun p => ⟨p.name, p.name, .value⟩) σ.locals }

/-- Binds the members of a namespace body in a new scope, those captured under other names. -/
def enterBody (σ : Setting) (captured members : List String) : Setting :=
  let reserved := (members.filter (· ∉ captured)).foldl Scopes.reserveInScope σ.names.scopes.push
  let renamed := Site.bindCaptured captured reserved members
  σ.inside renamed.2 (members.map fun m => ⟨m, (renamed.1.get? m).getD m, .both⟩)

/-- Leaves the innermost scope. -/
def exit (σ : Setting) : Setting :=
  ⟨{ σ.names with scopes := σ.names.scopes.pop }, σ.locals.tail⟩

variable (σ : Setting) (l : Linker) (module : ModuleId)

theorem site_names (n : FinalNames) (scopes : Scopes) (locals locals' : List (List LocalName)) :
    (Setting.mk { n with scopes } locals).site l module
      = { (Setting.mk n locals').site l module with scopes, locals := locals.flatten } := by
  have hr : ∀ r, FinalNames.resolved? { n with scopes } l r = n.resolved? l r := by
    intro r
    cases r <;> rfl
  simp [site, Naming.site, hr]

theorem site_enterTypes (given : List String) :
    (σ.enterTypes given).site l module = ((σ.site l module).enterTypes given).2 := by
  rw [enterTypes, inside, site_names l module σ.names _ _ σ.locals]
  simp [Site.enterTypes, Site.addLocals, site, Naming.site]

theorem exit_enterTypes (given : List String) : (σ.enterTypes given).exit = σ := by
  have h := ((Scopes.within_push σ.names.scopes).bindAll given).pop
  simp only [exit, enterTypes, inside, h, List.tail_cons]

theorem enterParameters_inside (scopes : Scopes) (bindings : List LocalName) (ps : List Parameter) :
    ((σ.inside scopes bindings).enterParameters ps).site l module
      = ((σ.inside scopes bindings).site l module).enterParameters (ps.map (·.name)) := by
  simp [enterParameters, inside, addLocals, Site.enterParameters, Site.addLocals, site,
    Function.comp_def]

theorem site_enterParameters (given : List String) (ps : List Parameter) :
    ((σ.enterTypes given).enterParameters ps).site l module
      = ((σ.site l module).enterTypes given).2.enterParameters (ps.map (·.name)) := by
  rw [enterTypes, enterParameters_inside, ← site_enterTypes]
  rfl

theorem exit_enterParameters (ps : List Parameter) : (σ.enterParameters ps).exit = σ.exit := by
  obtain ⟨n, locals⟩ := σ
  cases locals <;> rfl

theorem exit_signature (given : List String) (ps : List Parameter) :
    ((σ.enterTypes given).enterParameters ps).exit = σ := by
  rw [exit_enterParameters, exit_enterTypes]

theorem site_enterBody (captured members : List String) :
    (σ.enterBody captured members).site l module
      = ((σ.site l module).enterBody captured members).2 := by
  rw [enterBody, inside, site_names l module σ.names _ _ σ.locals]
  simp [Site.enterBody, Site.addLocals, site, Naming.site, Function.comp_def]

theorem exit_enterBody (captured members : List String) :
    (σ.enterBody captured members).exit = σ := by
  have hr : ∀ (names : List String) (s : Scopes), Scopes.Within σ.names.scopes s →
      Scopes.Within σ.names.scopes (names.foldl Scopes.reserveInScope s) := by
    intro names
    induction names with
    | nil => exact fun _ h => h
    | cons name names ih => exact fun _ h => ih _ (h.reserveInScope name)
  have h := ((hr (members.filter (· ∉ captured)) _
    (Scopes.within_push σ.names.scopes)).bindCaptured captured members).pop
  simp only [exit, enterBody, inside, h, List.tail_cons]

end Setting

/-! ## What a walk does in a setting -/

/-- From a setting, whatever nested names there are, a walk leads to another one and gives a part,
of which it notes the nested names in some order. -/
def Leads (σ : Setting) (w : Walk α) (x : Named α) (σ' : Setting) : Prop :=
  ∀ nested, ∃ noted, noted.Perm x.nested ∧ w ⟨σ, nested⟩ = (x.value, ⟨σ', noteAll nested noted⟩)

section

variable {σ σ' σ'' : Setting}

theorem Leads.pure (a : α) : Leads σ (Pure.pure a) (Pure.pure a) σ := fun _ => ⟨[], .nil, rfl⟩

/-- A step that renaming takes as well. -/
theorem Leads.bind {w : Walk α} {f : α → Walk β} {x : Named α} {g : α → Named β}
    (hw : Leads σ w x σ') (hf : Leads σ' (f x.value) (g x.value) σ'') :
    Leads σ (w >>= f) (x >>= g) σ'' := by
  intro nested
  obtain ⟨noted, hp, hr⟩ := hw nested
  obtain ⟨noted', hp', hr'⟩ := hf (noteAll nested noted)
  refine ⟨noted ++ noted', hp.append hp', ?_⟩
  have he : noteAll nested (noted ++ noted') = noteAll (noteAll nested noted) noted' :=
    List.foldl_append
  rw [he, Named.value_bind, ← hr']
  exact congrArg (fun r : α × State => f r.1 r.2) hr

theorem Leads.of_perm {w : Walk α} {x y : Named α} (h : Leads σ w x σ') (hv : x.value = y.value)
    (hn : x.nested.Perm y.nested) : Leads σ w y σ' := fun nested =>
  let ⟨noted, hp, hr⟩ := h nested
  ⟨noted, hp.trans hn, hv ▸ hr⟩

/-- A step of the walk alone, which notes nothing. -/
theorem Leads.step {w : Walk α} {f : α → Walk β} {a : α} {y : Named β}
    (hw : Leads σ w (Pure.pure a) σ') (hf : Leads σ' (f a) y σ'') : Leads σ (w >>= f) y σ'' :=
  Leads.bind (g := fun _ => y) hw hf

/-- A step after which nothing is noted. -/
theorem Leads.last {w : Walk α} {f : α → Walk β} {x : Named α} {b : β} (hw : Leads σ w x σ')
    (hf : Leads σ' (f x.value) (Pure.pure b) σ'') : Leads σ (w >>= f) ⟨b, x.nested⟩ σ'' :=
  (Leads.bind (g := fun _ => Pure.pure b) hw hf).of_perm rfl (by simp)

/-- A step of renaming alone, which notes nothing. -/
theorem Leads.given {w : Walk β} {a : α} {g : α → Named β} (h : Leads σ w (g a) σ') :
    Leads σ w (Pure.pure a >>= g) σ' := h

theorem Leads.look {f : State → α} {a : α} (h : ∀ nested, f ⟨σ, nested⟩ = a) :
    Leads σ (look f) (Pure.pure a) σ := fun nested => ⟨[], .nil, by rw [← h nested]; rfl⟩

theorem Leads.pass (x : Named α) : Leads σ (pass x) x σ := fun _ => ⟨x.nested, .refl _, rfl⟩

theorem Leads.inScopes (f : Scopes → α × Scopes) :
    Leads σ (inScopes f) (Pure.pure (f σ.names.scopes).1)
      { σ with names.scopes := (f σ.names.scopes).2 } := fun _ => ⟨[], .nil, rfl⟩

theorem Leads.inLocals (f : List (List LocalName) → List (List LocalName)) :
    Leads σ (inLocals f) (Pure.pure ()) { σ with locals := f σ.locals } := fun _ => ⟨[], .nil, rfl⟩

theorem Leads.enterParameters (ps : List Parameter) :
    Leads σ (enterParameters ps) (Pure.pure ()) (σ.enterParameters ps) := .inLocals _

theorem Leads.exitScope : Leads σ exitScope (Pure.pure ()) σ.exit :=
  .step (.inScopes _) (.inLocals _)

/-- What follows when a scope is left. -/
theorem Leads.exit {f : Unit → Walk α} {x : Named α} (h : σ.exit = σ')
    (hf : Leads σ' (f ()) x σ'') : Leads σ (Walk.exitScope >>= f) x σ'' :=
  .step (h ▸ Leads.exitScope) hf

/-- The names that are noted when parameters are bound. -/
def boundNames (parameters : List (Option DeclId × String)) (names : List String) :
    List (DeclId × String) :=
  (parameters.zip names).flatMap fun b => (Named.note b.1.1 b.2).nested

theorem Leads.bindTypes : ∀ (parameters : List (Option DeclId × String)) {σ : Setting},
    let bound := Site.bindAll σ.names.scopes (parameters.map (·.2))
    Leads σ (bindTypes parameters) ⟨bound.1, boundNames parameters bound.1⟩
      { σ with names.scopes := bound.2 }
  | [], _ => .pure _
  | (id, given) :: rest, σ => by
    intro bound
    refine .step (.inScopes _) ?_
    exact Leads.bind (g := fun _ => ⟨bound.1, boundNames rest bound.1.tail⟩) (.pass _)
      (.last (Leads.bindTypes rest) (.pure _))

theorem Leads.enterTypes (parameters : List (Option DeclId × String)) :
    let names := (Site.bindAll σ.names.scopes.push (parameters.map (·.2))).1
    Leads σ (enterTypes parameters) ⟨names, boundNames parameters names⟩
      (σ.enterTypes (parameters.map (·.2))) := by
  intro names
  refine .step (.inScopes _) ?_
  exact .last (Leads.bindTypes parameters) (.step (.inLocals _) (.pure _))

theorem Leads.enterBody (l : Linker) (module : ModuleId) (captured members : List String) :
    Leads σ (enterBody captured members)
      (Pure.pure ((σ.site l module).enterBody captured members).1)
      (σ.enterBody captured members) :=
  .step (.inScopes _) (.step (.inScopes _) (.step (.inScopes _) (.step (.inLocals _) (.pure _))))

end

/-! ## Names -/

section

variable {σ : Setting} (hσ : σ.names.Rooted) (l : Linker) (module : ModuleId)
include hσ

/-- Where the bindings without a declaration have rows, nested names are not looked at. -/
theorem resolved?_eq (nested : Table DeclId String) (r : Resolution) :
    State.resolved? l ⟨σ, nested⟩ r = σ.names.resolved? l r := by
  have hrow : ∀ o id, σ.names.idOf? o = some id → State.get? ⟨σ, nested⟩ id = σ.names.get? id := by
    intro o id ho
    obtain ⟨b, hb⟩ := Table.mem_keys.1 (hσ o id ho)
    simp [State.get?, FinalNames.get?, hb]
  cases r with
  | namespaceOf m =>
    exact Option.bind_congr fun id hid => hrow (.namespaceOf m) id hid
  | external ref =>
    exact Option.bind_congr fun id hid => hrow (.library ref) id hid
  | _ => rfl

theorem finalName?_eq (nested : Table DeclId String) (name : String) (space : Space) :
    State.finalName? l module ⟨σ, nested⟩ name space
      = (σ.site l module).finalName? name space := by
  have hlocal : State.local? ⟨σ, nested⟩ name space = (σ.site l module).local? name space :=
    List.find?_flatten.symm
  rw [State.finalName?, Site.finalName?, hlocal]
  cases (σ.site l module).local? name space with
  | some b => rfl
  | none => exact resolved?_eq hσ l nested _

theorem importRoot_eq (nested : Table DeclId String) (specifier : String)
    (qualifier : Option String) : State.importRoot l ⟨σ, nested⟩ specifier qualifier
      = (σ.site l module).importRoot specifier qualifier :=
  Option.bind_congr fun _ _ => resolved?_eq hσ l nested _

theorem reference?_eq (nested : Table DeclId String) : ∀ r : Reference,
    State.reference? l module ⟨σ, nested⟩ r = (σ.site l module).reference? r
  | .name name => finalName?_eq hσ l module nested name .both
  | .importType specifier qualifier => importRoot_eq hσ l module nested specifier qualifier

theorem Leads.finalName? (name : String) (space : Space) :
    Leads σ (finalName? l module name space)
      (Pure.pure ((σ.site l module).finalName? name space)) σ :=
  .look fun nested => finalName?_eq hσ l module nested name space

theorem Leads.entity (space : Space) (e : Entity) :
    Leads σ (entity l module space e) (Pure.pure (Rename.entity (σ.site l module) space e)) σ := by
  refine .step (.finalName? hσ l module e.root space) ?_
  rw [Rename.entity]
  cases (σ.site l module).finalName? e.root space <;> exact .pure _

theorem Leads.plainName (name : String) :
    Leads σ (plainName l module name) (Pure.pure (Rename.plainName (σ.site l module) name)) σ :=
  .step (.finalName? hσ l module name .both) (.pure _)

theorem Leads.tokens : ∀ ts : List Token,
    Leads σ (tokens l module ts) (Pure.pure (Rename.tokens (σ.site l module) ts)) σ
  | [] => .pure _
  | .text _ :: ts => .step (Leads.tokens ts) (.pure _)
  | .identifier name :: ts =>
    .step (.plainName hσ l module name) (.step (Leads.tokens ts) (.pure _))

theorem Leads.propertyName : ∀ name : PropertyName,
    Leads σ (propertyName l module name) (Pure.pure (Rename.propertyName (σ.site l module) name)) σ
  | .computed e => by
    simp only [Walk.propertyName, Rename.propertyName]
    split
    · exact .pure _
    · exact .step (.entity hσ l module .value e) (.pure _)
  | .identifier _ | .stringLiteral _ | .numericLiteral _ => .pure _

theorem Leads.importType (argument : String) (qualifier : Option Entity) (ts : List TypeExpr)
    (isTypeOf : Bool) : Leads σ (importType l argument qualifier ts isTypeOf)
      (Pure.pure (Rename.importType (σ.site l module) argument qualifier ts isTypeOf)) σ := by
  refine .step (.look fun nested => importRoot_eq hσ l module nested argument
    (qualifier.map Entity.root)) ?_
  rw [Rename.importType]
  cases (if qualifier.isNone && !isTypeOf then none
    else (σ.site l module).importRoot argument (qualifier.map Entity.root)) with
  | none => exact .pure _
  | some name => cases isTypeOf <;> exact .pure _

end

/-! ## Type parameters -/

/-- Type parameters under the given names, of which only the constraints and defaults count. -/
def bounded (s : Site) (names : List String) : List TypeParameter → Named (List TypeParameter)
  | [] => pure []
  | ⟨id, name, constraint, fallback, keywords⟩ :: ps => do
    let constraint ← Rename.option s constraint
    let fallback ← Rename.option s fallback
    return ⟨id, names.headD name, constraint, fallback, keywords⟩ :: (← bounded s names.tail ps)

theorem value_bounded (s : Site) : ∀ (names : List String) (ps : List TypeParameter),
    (bounded s names ps).value = (Rename.typeParameters s names ps).value
  | _, [] => rfl
  | names, ⟨_, _, _, _, _⟩ :: ps => by
    simp only [bounded, Rename.typeParameters, Named.value_bind, Named.value_pure,
      value_bounded s names.tail ps]

/-- Renaming notes each name before the constraint and the default; here the names come first. -/
theorem nested_bounded (s : Site) : ∀ {names : List String} {ps : List TypeParameter},
    names.length = ps.length → (boundNames (ps.map fun p => (p.id, p.name)) names
      ++ (bounded s names ps).nested).Perm (Rename.typeParameters s names ps).nested
  | [], [], _ => .nil
  | name :: names, ⟨id, given, constraint, fallback, keywords⟩ :: ps, h => by
    have ih := @nested_bounded s names ps (Nat.succ.inj h)
    simp only [bounded, Rename.typeParameters, Named.nested_bind, Named.nested_pure,
      List.append_nil, List.map_cons, List.headD_cons, List.tail_cons]
    change ((Named.note id name).nested ++ boundNames _ names ++ _).Perm _
    rw [List.append_assoc]
    refine .append_left _ ((List.perm_append_comm_assoc _ _ _).trans (.append_left _ ?_))
    exact (List.perm_append_comm_assoc _ _ _).trans (.append_left _ ih)

section

variable {σ σ'' : Setting} (l : Linker) (module : ModuleId)

/-- What follows when type parameters are entered and their constraints and defaults are renamed. -/
theorem Leads.enter {tps : List TypeParameter} {walk : List String → Walk (List TypeParameter)}
    {f : List TypeParameter → Walk α} {g : List TypeParameter → Named α}
    (hwalk : ∀ names, Leads (σ.enterTypes (tps.map (·.name))) (walk names)
      (bounded ((σ.enterTypes (tps.map (·.name))).site l module) names tps)
      (σ.enterTypes (tps.map (·.name))))
    (hf : ∀ bound, Leads (σ.enterTypes (tps.map (·.name))) (f bound) (g bound) σ'') :
    let entered := (σ.site l module).enterTypes (tps.map (·.name))
    Leads σ (Walk.enterTypes (tps.map fun p => (p.id, p.name)) >>= fun names => walk names >>= f)
      (Rename.typeParameters entered.2 entered.1 tps >>= g) σ'' := by
  intro entered
  have hmap : (tps.map fun p => (p.id, p.name)).map (·.2) = tps.map (·.name) := by simp
  have he := @Leads.enterTypes σ (tps.map fun p => (p.id, p.name))
  rw [hmap] at he
  rw [Setting.site_enterTypes] at hwalk
  have h : Leads σ (Walk.enterTypes _ >>= fun names => walk names >>= f)
    (⟨_, _⟩ >>= fun names => bounded entered.2 names tps >>= g) σ'' :=
      .bind he (.bind (hwalk _) (hf _))
  refine h.of_perm ?_ ?_
  · simp only [Named.value_bind, value_bounded]
    rfl
  · simp only [Named.nested_bind, value_bounded, ← List.append_assoc]
    refine .append_right _ (nested_bounded entered.2 ?_)
    rw [Site.length_bindAll, List.length_map]

/-- What follows when `infer` names are entered, of which none is noted. -/
theorem Leads.infer {names : List String} {f : List String → Walk α} {x : Named α}
    (hf : ∀ bound, Leads (σ.enterTypes names) (f bound) x σ'') :
    Leads σ (Walk.enterTypes (names.map (none, ·)) >>= f) x σ'' := by
  have he := @Leads.enterTypes σ (names.map (none, ·))
  have hnone : ∀ bound : List String, boundNames (names.map (none, ·)) bound = [] := by
    intro bound
    rw [boundNames, List.flatMap_eq_nil_iff]
    intro b hb
    obtain ⟨name, -, hn⟩ := List.mem_map.1 (List.of_mem_zip hb).1
    rw [← hn]
    rfl
  simp only [hnone, List.map_map, Function.comp_def, List.map_id'] at he
  exact .step he (hf _)

/-- What follows when the key of a mapped type is entered. -/
theorem Leads.key {id : Option DeclId} {name : String} {f : List String → Walk α}
    {x : Named α} (hf : Leads (σ.enterTypes [name])
      (f ((σ.site l module).enterTypes [name]).1) x σ'') :
    Leads σ (Walk.enterTypes [(id, name)] >>= f) (do
      Named.note id (((σ.site l module).enterTypes [name]).1.headD name)
      x) σ'' :=
  (Leads.bind (g := fun _ => x) (Leads.enterTypes [(id, name)]) hf).of_perm rfl
    (.append_right _ (.of_eq (List.append_nil _)))

/-- A signature: type parameters, parameters and a result, and the end of their scope. -/
theorem Leads.signature {tps : List TypeParameter} {ps : List Parameter}
    {bounds : List String → Walk (List TypeParameter)} {annotated : Walk (List Parameter)}
    {walk : Walk β} (result : Site → Named β)
    {k : List TypeParameter → List Parameter → β → α}
    (hbounds : ∀ names, Leads (σ.enterTypes (tps.map (·.name))) (bounds names)
      (bounded ((σ.enterTypes (tps.map (·.name))).site l module) names tps)
      (σ.enterTypes (tps.map (·.name))))
    (hps : Leads ((σ.enterTypes (tps.map (·.name))).enterParameters ps) annotated
      (Rename.parameters (((σ.enterTypes (tps.map (·.name))).enterParameters ps).site l module) ps)
      ((σ.enterTypes (tps.map (·.name))).enterParameters ps))
    (hresult : Leads ((σ.enterTypes (tps.map (·.name))).enterParameters ps) walk
      (result (((σ.enterTypes (tps.map (·.name))).enterParameters ps).site l module))
      ((σ.enterTypes (tps.map (·.name))).enterParameters ps)) :
    let entered := (σ.site l module).enterTypes (tps.map (·.name))
    let body := entered.2.enterParameters (ps.map (·.name))
    Leads σ (do
        let names ← Walk.enterTypes (tps.map fun p => (p.id, p.name))
        let bound ← bounds names
        Walk.enterParameters ps
        let annotated ← annotated
        let result ← walk
        Walk.exitScope
        return k bound annotated result)
      (do
        let bound ← Rename.typeParameters entered.2 entered.1 tps
        return k bound (← Rename.parameters body ps) (← result body)) σ := by
  intro entered body
  rw [Setting.site_enterParameters] at hps hresult
  exact .enter l module hbounds fun bound => .step (.enterParameters ps)
    (.bind hps (.bind hresult (.exit (σ.exit_signature _ ps) (.pure _))))

end

/-! ## The walk follows renaming -/

theorem Setting.rooted_enterTypes {σ : Setting} (h : σ.names.Rooted) (given : List String) :
    (σ.enterTypes given).names.Rooted := h.withScopes _

theorem Setting.rooted_signature {σ : Setting} (h : σ.names.Rooted) (given : List String)
    (ps : List Parameter) : ((σ.enterTypes given).enterParameters ps).names.Rooted := h.withScopes _

theorem Setting.rooted_enterBody {σ : Setting} (h : σ.names.Rooted)
    (captured members : List String) : (σ.enterBody captured members).names.Rooted := h.withScopes _

section

variable (l : Linker) (module : ModuleId)

mutual
theorem leads_type {σ : Setting} (hσ : σ.names.Rooted) : ∀ t : TypeExpr,
    Leads σ (type l module t) (Rename.type (σ.site l module) t) σ
  | .keyword _ | .literal _ => .pure _
  | .reference name arguments => by
    rw [type, Rename.type]
    exact .step (.entity hσ l module .type name) (.bind (leads_types hσ arguments) (.pure _))
  | .query name arguments => by
    rw [type, Rename.type]
    exact .step (.entity hσ l module .value name) (.bind (leads_types hσ arguments) (.pure _))
  | .array t | .operator _ t | .parenthesized t => by
    rw [type, Rename.type]
    exact .bind (leads_type hσ t) (.pure _)
  | .tuple es => by
    rw [type, Rename.type]
    exact .bind (leads_elements hσ es) (.pure _)
  | .union ts | .intersection ts => by
    rw [type, Rename.type]
    exact .bind (leads_types hσ ts) (.pure _)
  | .function tps ps result | .construct _ tps ps result => by
    rw [type, Rename.type]
    have htps := Setting.rooted_enterTypes hσ (tps.map (·.name))
    have hps := Setting.rooted_signature hσ (tps.map (·.name)) ps
    exact .signature l module (fun s => Rename.type s result)
      (fun names => leads_typeParameters htps names tps) (leads_parameters hps ps)
      (leads_type hps result)
  | .object ms => by
    rw [type, Rename.type]
    exact .bind (leads_members hσ ms) (.pure _)
  | .indexed object index => by
    rw [type, Rename.type]
    exact .bind (leads_type hσ object) (.bind (leads_type hσ index) (.pure _))
  | .conditional check bound onTrue onFalse => by
    rw [type, Rename.type]
    have hinner := Setting.rooted_enterTypes hσ bound.inferredNames
    have hbound := leads_type hinner bound
    have htrue := leads_type hinner onTrue
    rw [Setting.site_enterTypes] at hbound htrue
    exact .bind (leads_type hσ check) (.infer fun _ => .bind hbound (.bind htrue
      (.exit (σ.exit_enterTypes _) (.bind (leads_type hσ onFalse) (.pure _)))))
  | .infer ⟨id, name, constraint, fallback, _⟩ => by
    rw [type, Rename.type]
    exact .step (.finalName? hσ l module name .type) (.bind (.pass _)
      (.bind (leads_option hσ constraint) (.bind (leads_option hσ fallback) (.pure _))))
  | .mapped ⟨id, name, constraint, fallback, _⟩ nameType _ _ target => by
    rw [type, Rename.type]
    have hinner := Setting.rooted_enterTypes hσ [name]
    have hname := leads_option hinner nameType
    have htarget := leads_option hinner target
    rw [Setting.site_enterTypes] at hname htarget
    exact .bind (leads_option hσ constraint) (.bind (leads_option hσ fallback)
      (.key l module (.bind hname (.bind htarget (.exit (σ.exit_enterTypes _) (.pure _))))))
  | .importType argument qualifier arguments isTypeOf => by
    rw [type, Rename.type]
    exact .bind (leads_types hσ arguments) (.importType hσ l module argument qualifier _ isTypeOf)
  | .predicate _ _ target => by
    rw [type, Rename.type]
    exact .bind (leads_option hσ target) (.pure _)
  | .template _ ss => by
    rw [type, Rename.type]
    exact .bind (leads_spans hσ ss) (.pure _)
  | .verbatim ts => by
    rw [type, Rename.type]
    exact .step (.tokens hσ l module ts) (.pure _)

theorem leads_option {σ : Setting} (hσ : σ.names.Rooted) : ∀ t : Option TypeExpr,
    Leads σ (option l module t) (Rename.option (σ.site l module) t) σ
  | none => .pure _
  | some t => .bind (leads_type hσ t) (.pure _)

theorem leads_types {σ : Setting} (hσ : σ.names.Rooted) : ∀ ts : List TypeExpr,
    Leads σ (types l module ts) (Rename.types (σ.site l module) ts) σ
  | [] => .pure _
  | t :: ts => .bind (leads_type hσ t) (.bind (leads_types hσ ts) (.pure _))

theorem leads_typeParameters {σ : Setting} (hσ : σ.names.Rooted) (names : List String) :
    ∀ ps : List TypeParameter,
      Leads σ (typeParameters l module names ps) (bounded (σ.site l module) names ps) σ
  | [] => .pure _
  | ⟨_, _, constraint, fallback, _⟩ :: ps =>
    .bind (leads_option hσ constraint) (.bind (leads_option hσ fallback)
      (.bind (leads_typeParameters hσ names.tail ps) (.pure _)))

theorem leads_parameters {σ : Setting} (hσ : σ.names.Rooted) : ∀ ps : List Parameter,
    Leads σ (parameters l module ps) (Rename.parameters (σ.site l module) ps) σ
  | [] => .pure _
  | ⟨_, _, _, _, ascription⟩ :: ps =>
    .bind (leads_option hσ ascription) (.bind (leads_parameters hσ ps) (.pure _))

theorem leads_elements {σ : Setting} (hσ : σ.names.Rooted) : ∀ es : List TupleElement,
    Leads σ (elements l module es) (Rename.elements (σ.site l module) es) σ
  | [] => .pure _
  | ⟨_, _, _, t⟩ :: es => .bind (leads_type hσ t) (.bind (leads_elements hσ es) (.pure _))

theorem leads_spans {σ : Setting} (hσ : σ.names.Rooted) : ∀ ss : List TemplateSpan,
    Leads σ (spans l module ss) (Rename.spans (σ.site l module) ss) σ
  | [] => .pure _
  | ⟨t, _⟩ :: ss => .bind (leads_type hσ t) (.bind (leads_spans hσ ss) (.pure _))

theorem leads_members {σ : Setting} (hσ : σ.names.Rooted) : ∀ ms : List Member,
    Leads σ (members l module ms) (Rename.members (σ.site l module) ms) σ
  | [] => .pure _
  | m :: ms => .bind (leads_member hσ m) (.bind (leads_members hσ ms) (.pure _))

theorem leads_member {σ : Setting} (hσ : σ.names.Rooted) : ∀ m : Member,
    Leads σ (member l module m) (Rename.member (σ.site l module) m) σ
  | .property name _ _ ascription => by
    rw [member, Rename.member]
    exact .step (.propertyName hσ l module name) (.bind (leads_option hσ ascription) (.pure _))
  | .method name _ _ tps ps result => by
    rw [member, Rename.member]
    have htps := Setting.rooted_enterTypes hσ (tps.map (·.name))
    have hps := Setting.rooted_signature hσ (tps.map (·.name)) ps
    exact .step (.propertyName hσ l module name)
      (.signature l module (fun s => Rename.option s result)
        (fun names => leads_typeParameters htps names tps) (leads_parameters hps ps)
        (leads_option hps result))
  | .call tps ps result | .construct tps ps result => by
    rw [member, Rename.member]
    have htps := Setting.rooted_enterTypes hσ (tps.map (·.name))
    have hps := Setting.rooted_signature hσ (tps.map (·.name)) ps
    exact .signature l module (fun s => Rename.option s result)
      (fun names => leads_typeParameters htps names tps) (leads_parameters hps ps)
      (leads_option hps result)
  | .index _ ps ascription => by
    rw [member, Rename.member]
    exact .bind (leads_parameters hσ ps) (.bind (leads_type hσ ascription) (.pure _))
  | .initializer _ ps => by
    rw [member, Rename.member]
    exact .bind (leads_parameters hσ ps) (.pure _)
  | .getter name _ result => by
    rw [member, Rename.member]
    exact .step (.propertyName hσ l module name) (.bind (leads_option hσ result) (.pure _))
  | .setter name _ ps => by
    rw [member, Rename.member]
    exact .step (.propertyName hσ l module name) (.bind (leads_parameters hσ ps) (.pure _))
end

theorem leads_heritages {σ : Setting} (hσ : σ.names.Rooted) : ∀ hs : List Heritage,
    Leads σ (heritages l module hs) (Rename.heritages (σ.site l module) hs) σ
  | [] => .pure _
  | h :: hs => by
    have hh : Leads σ (heritage l module h) (Rename.heritage (σ.site l module) h) σ :=
      .step (.entity hσ l module .type h.expression)
        (.bind (leads_types l module hσ h.arguments) (.pure _))
    exact .bind hh (.bind (leads_heritages hσ hs) (.pure _))

theorem leads_declarators {σ : Setting} (hσ : σ.names.Rooted) : ∀ ds : List Declarator,
    Leads σ (declarators l module ds) (Rename.declarators (σ.site l module) ds) σ
  | [] => .pure _
  | d :: ds =>
    .bind (leads_option l module hσ d.ascription) (.bind (leads_declarators hσ ds) (.pure _))

theorem leads_specifiers {σ : Setting} (hσ : σ.names.Rooted) : ∀ xs : List ExportSpecifier,
    Leads σ (specifiers l module xs) (pure (xs.map fun x =>
      { x with binding := Rename.plainName (σ.site l module) x.binding })) σ
  | [] => .pure _
  | x :: xs =>
    .step (.plainName hσ l module x.binding) (.step (leads_specifiers hσ xs) (.pure _))

theorem leads_capturedNames {σ : Setting} (hσ : σ.names.Rooted) (body : List Statement) :
    Leads σ (capturedNames l module body)
      (pure (Rename.capturedNames (σ.site l module) body)) σ :=
  .look fun nested => List.filterMap_congr fun r _ => reference?_eq hσ l module nested r

mutual
theorem leads_kind {σ : Setting} (hσ : σ.names.Rooted) : ∀ k : DeclarationKind,
    Leads σ (kind l module k) (Rename.kind (σ.site l module) k) σ
  | .interface _ tps bases ms => by
    rw [kind, Rename.kind]
    have hinner := Setting.rooted_enterTypes hσ (tps.map (·.name))
    have hbases := leads_heritages l module hinner bases
    have hms := leads_members l module hinner ms
    rw [Setting.site_enterTypes] at hbases hms
    exact .enter l module (fun names => leads_typeParameters l module hinner names tps)
      fun _ => .bind hbases (.bind hms (.exit (σ.exit_enterTypes _) (.pure _)))
  | .classLike _ tps none implemented ms => by
    rw [kind, Rename.kind]
    have hinner := Setting.rooted_enterTypes hσ (tps.map (·.name))
    have himplemented := leads_heritages l module hinner implemented
    have hms := leads_members l module hinner ms
    rw [Setting.site_enterTypes] at himplemented hms
    exact .enter l module (fun names => leads_typeParameters l module hinner names tps)
      fun _ => .given (.bind himplemented (.bind hms (.exit (σ.exit_enterTypes _) (.pure _))))
  | .classLike _ tps (some base) implemented ms => by
    rw [kind, Rename.kind]
    have hinner := Setting.rooted_enterTypes hσ (tps.map (·.name))
    have harguments := leads_types l module hinner base.arguments
    have himplemented := leads_heritages l module hinner implemented
    have hms := leads_members l module hinner ms
    rw [Setting.site_enterTypes] at harguments himplemented hms
    exact .step (.entity hσ l module .value base.expression)
      (.enter l module (fun names => leads_typeParameters l module hinner names tps)
        fun _ => .bind harguments (.given (.bind himplemented (.bind hms
          (.exit (σ.exit_enterTypes _) (.pure _))))))
  | .function _ tps ps result => by
    rw [kind, Rename.kind]
    have htps := Setting.rooted_enterTypes hσ (tps.map (·.name))
    have hps := Setting.rooted_signature hσ (tps.map (·.name)) ps
    exact .signature l module (fun s => Rename.option s result)
      (fun names => leads_typeParameters l module htps names tps) (leads_parameters l module hps ps)
      (leads_option l module hps result)
  | .variableList _ ds => by
    rw [kind, Rename.kind]
    exact .bind (leads_declarators l module hσ ds) (.pure _)
  | .enumeration _ _ => .pure _
  | .typeAlias _ tps target => by
    rw [kind, Rename.kind]
    have hinner := Setting.rooted_enterTypes hσ (tps.map (·.name))
    have htarget := leads_type l module hinner target
    rw [Setting.site_enterTypes] at htarget
    exact .enter l module (fun names => leads_typeParameters l module hinner names tps)
      fun _ => .bind htarget (.exit (σ.exit_enterTypes _) (.pure _))
  | .namespaceBlock _ _ body => by
    rw [kind, Rename.kind]
    have hbody := leads_statements (Setting.rooted_enterBody hσ
      (Rename.capturedNames (σ.site l module) body) ((Free.bodyBinders body).map Prod.fst)) body
    rw [Setting.site_enterBody] at hbody
    exact .step (leads_capturedNames l module hσ body) (.step (.enterBody l module _ _)
      (.bind hbody (.bind (.pass _) (.exit (σ.exit_enterBody _ _) (.pure _)))))

theorem leads_declaration {σ : Setting} (hσ : σ.names.Rooted) : ∀ d : Declaration,
    Leads σ (declaration l module d) (Rename.declaration (σ.site l module) d) σ
  | ⟨_, _, _, k⟩ => .bind (leads_kind hσ k) (.pure _)

theorem leads_statements {σ : Setting} (hσ : σ.names.Rooted) : ∀ xs : List Statement,
    Leads σ (statements l module xs) (Rename.statements (σ.site l module) xs) σ
  | [] => .pure _
  | x :: xs => .bind (leads_statement hσ x) (.bind (leads_statements hσ xs) (.pure _))

theorem leads_statement {σ : Setting} (hσ : σ.names.Rooted) : ∀ x : Statement,
    Leads σ (statement l module x) (Rename.statement (σ.site l module) x) σ
  | .declaration d => .bind (leads_declaration hσ d) (.pure _)
  | .exports ⟨xs, none, _⟩ => .step (leads_specifiers l module hσ xs) (.pure _)
  | .exportDefault e | .exportAssignment e => .step (.plainName hσ l module e) (.pure _)
  | .verbatim ts _ => .step (.tokens hσ l module ts) (.pure _)
  | .imports _ | .exports ⟨_, some _, _⟩ | .exportAll _ _ => .pure _
end

end

end Walk

end DeclBundle
