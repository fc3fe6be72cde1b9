import DeclBundle.Proofs.Names.Scopes

/-!
# Scopes as a stack

What an operation can do to scopes is said once (`Scopes.step_spec`): it takes a name at the top
level, takes one in the innermost scope, opens a scope or closes one. So the owners of the top level
stay (`Scopes.owner?_run`), a name stays taken as long as the scope that has it is open
(`Scopes.mem_outermost_run`), and a stretch of operations that closes every scope it opens changes
nothing outside (`Scopes.pop_run`).
-/

namespace DeclBundle

namespace Scopes

/-- What is done to scopes. -/
inductive Op where
  | reserve (name : String)
  | reserveInScope (name : String)
  | bind (preferred : String) (owner : Option ModuleId)
  | push
  | pop
deriving DecidableEq, Repr

/-- What an operation makes of the scopes. -/
def step (s : Scopes) : Op → Scopes
  | .reserve name => s.reserve name
  | .reserveInScope name => s.reserveInScope name
  | .bind preferred owner => (s.bind preferred owner).2
  | .push => s.push
  | .pop => s.pop

/-- The scopes after some operations, one after the other. -/
def run (s : Scopes) (ops : List Op) : Scopes := ops.foldl step s

theorem run_cons (s : Scopes) (op : Op) (ops : List Op) :
    s.run (op :: ops) = (s.step op).run ops := rfl

/-- The scopes before and after an operation. -/
inductive Steps (s : Scopes) : Op → Scopes → Prop
  /-- A name is taken at the top level, and all owners stay. -/
  | top {op : Op} {root : Table String (Option ModuleId)}
      (hroot : ∀ name owner, s.root.get? name = some owner → root.get? name = some owner)
      (hop : s.inner = [] ∨ ∃ name, op = .reserve name) : Steps s op { s with root }
  /-- A name is taken in the innermost scope. -/
  | inside {op : Op} {scope : List String} {outer : List (List String)}
      (hinner : s.inner = scope :: outer) (name : String) :
      Steps s op { s with inner := pushNew scope name :: outer }
  | push : Steps s .push s.push
  | pop : Steps s .pop s.pop

variable {s t : Scopes} {d : Nat} {x : String}

theorem get?_reserve {name : String} {o : Option ModuleId} (h : s.root.get? x = some o) :
    (s.reserve name).root.get? x = some o := by
  rw [reserve, Table.get?_insertNew, if_neg, h]
  rintro ⟨rfl, hnone⟩
  rw [hnone] at h
  cases h

/-- A name that is chosen has no owner yet, so no owner changes. -/
theorem get?_insert_choose {preferred : String} {owner o : Option ModuleId}
    (h : s.root.get? x = some o) :
    (s.root.insert (s.choose preferred) owner).get? x = some o := by
  rw [Table.get?_insert, if_neg, h]
  rintro rfl
  exact s.choose_not_mem preferred (mem_taken.2 (.inl (Table.mem_keys_of_get? h)))

theorem step_spec (s : Scopes) (op : Op) : Steps s op (s.step op) := by
  cases op with
  | reserve name => exact .top (fun _ _ => get?_reserve) (.inr ⟨name, rfl⟩)
  | reserveInScope name =>
    simp only [step, reserveInScope]
    split
    · rename_i hs
      exact .top (fun _ _ => get?_reserve) (.inl hs)
    · rename_i scope outer hs
      exact .inside hs name
  | bind preferred owner =>
    simp only [step, bind]
    split
    · rename_i hs
      exact .top (fun _ _ => get?_insert_choose) (.inl hs)
    · rename_i scope outer hs
      exact .inside hs _
  | push => exact .push
  | pop => exact .pop

/-! ## Owners -/

theorem owner?_step {owner : Option ModuleId} (h : s.owner? x = some owner) (op : Op) :
    (s.step op).owner? x = some owner := by
  have hstep := s.step_spec op
  generalize s.step op = t at hstep ⊢
  cases hstep with
  | top hroot hop => exact hroot x owner h
  | inside hinner name => exact h
  | push => exact h
  | pop => exact h

theorem owner?_run {owner : Option ModuleId} (h : s.owner? x = some owner) (ops : List Op) :
    (s.run ops).owner? x = some owner :=
  List.foldlRecOn (motive := fun t : Scopes => t.owner? x = some owner) ops step h
    fun _ ht op _ => owner?_step ht op

/-! ## Names in open scopes -/

/-- The top level and the outermost `d` scopes. -/
def outermost (s : Scopes) (d : Nat) : Scopes := { s with inner := s.inner.drop (s.depth - d) }

/-- None of the outermost `d` scopes is closed by the operations. -/
def Keeps (s : Scopes) (d : Nat) (ops : List Op) : Prop :=
  ∀ first, first <+: ops → d ≤ (s.run first).depth

theorem Keeps.depth {ops : List Op} (h : s.Keeps d ops) : d ≤ s.depth := h [] List.nil_prefix

theorem Keeps.of_cons {op : Op} {ops : List Op} (h : s.Keeps d (op :: ops)) :
    (s.step op).Keeps d ops :=
  fun first hf => h (op :: first) (List.cons_prefix_cons.2 ⟨rfl, hf⟩)

theorem outermost_depth (s : Scopes) : s.outermost s.depth = s := by simp [outermost]

theorem mem_taken_of_outermost (h : x ∈ (s.outermost d).taken) : x ∈ s.taken := by
  rw [mem_taken, List.mem_flatten] at h ⊢
  refine h.imp_right ?_
  rintro ⟨scope, hs, hx⟩
  exact ⟨scope, List.mem_of_mem_drop hs, hx⟩

/-- What the outermost scopes have they keep while they are open. -/
theorem mem_outermost_step (hx : x ∈ (s.outermost d).taken) (op : Op) (hd : d ≤ s.depth)
    (hd' : d ≤ (s.step op).depth) : x ∈ ((s.step op).outermost d).taken := by
  have hstep := s.step_spec op
  generalize s.step op = t at hstep hd' ⊢
  rw [mem_taken] at hx ⊢
  cases hstep with
  | top hroot hop =>
    refine hx.imp_left fun hk => ?_
    obtain ⟨owner, ho⟩ := Table.mem_keys.1 hk
    exact Table.mem_keys.2 ⟨owner, hroot x owner ho⟩
  | @inside _ scope outer hinner name =>
    refine hx.imp_right fun hf => ?_
    simp only [outermost, depth, hinner, List.length_cons] at hf hd ⊢
    obtain hd | hd := Nat.eq_or_lt_of_le hd
    · simp only [hd, Nat.sub_self, List.drop_zero, List.flatten_cons, List.mem_append,
        mem_pushNew] at hf ⊢
      exact hf.imp_left .inl
    · rw [Nat.succ_sub (Nat.le_of_lt_succ hd), List.drop_succ_cons] at hf ⊢
      exact hf
  | push =>
    refine hx.imp_right fun hf => ?_
    simp only [outermost, push, depth, List.length_cons] at hf hd ⊢
    rwa [Nat.succ_sub hd, List.drop_succ_cons]
  | pop =>
    refine hx.imp_right fun hf => ?_
    simp only [outermost, pop, depth, List.length_tail] at hf hd' ⊢
    cases hinner : s.inner with
    | nil => simp [hinner] at hf
    | cons scope outer =>
      simp only [hinner, List.length_cons, Nat.add_sub_cancel, List.tail_cons] at hf hd' ⊢
      rwa [Nat.succ_sub hd', List.drop_succ_cons] at hf

theorem mem_outermost_run : ∀ {ops : List Op} {s : Scopes}, x ∈ (s.outermost d).taken →
    s.Keeps d ops → x ∈ ((s.run ops).outermost d).taken
  | [], _, hx, _ => hx
  | op :: _, _, hx, hk => by
    have hstep := mem_outermost_step hx op hk.depth hk.of_cons.depth
    rw [run_cons]
    exact mem_outermost_run hstep hk.of_cons

theorem depth_bind (s : Scopes) (preferred : String) (owner : Option ModuleId) :
    (s.bind preferred owner).2.depth = s.depth := by
  unfold bind depth
  split <;> simp_all

/-- A name that is given out stays taken as long as its scope is open. -/
theorem mem_taken_run_bind {preferred : String} {owner : Option ModuleId} {later : List Op}
    (h : (s.bind preferred owner).2.Keeps s.depth later) :
    (s.bind preferred owner).1 ∈ ((s.bind preferred owner).2.run later).taken := by
  have hm : (s.bind preferred owner).1
      ∈ ((s.bind preferred owner).2.outermost s.depth).taken := by
    rw [← s.depth_bind preferred owner, outermost_depth, mem_taken_bind]
    exact .inr rfl
  exact mem_taken_of_outermost (mem_outermost_run hm h)

/-! ## Balanced stretches -/

/-- `t` has the top level of `s`, and scopes inside those of `s`. -/
structure Above (s t : Scopes) : Prop where
  root : t.root = s.root
  inner : ∃ scope inside, t.inner = scope :: (inside ++ s.inner)

theorem above_push (s : Scopes) : Above s s.push := ⟨rfl, [], [], rfl⟩

theorem Above.step (h : Above s t) {op : Op} (hop : ∀ name, op ≠ .reserve name)
    (hd : s.depth < (t.step op).depth) : Above s (t.step op) := by
  obtain ⟨hroot, scope, inside, hinner⟩ := h
  have hstep := t.step_spec op
  generalize t.step op = t' at hstep hd ⊢
  cases hstep with
  | top _ htop =>
    rcases htop with hnil | ⟨name, rfl⟩
    · rw [hinner] at hnil
      cases hnil
    · exact absurd rfl (hop name)
  | inside hscope name =>
    cases hinner.symm.trans hscope
    exact ⟨hroot, _, inside, rfl⟩
  | push => exact ⟨hroot, [], scope :: inside, by simp [push, hinner]⟩
  | pop =>
    cases inside with
    | nil => simp [depth, pop, hinner] at hd
    | cons next inside => exact ⟨hroot, next, inside, by simp [pop, hinner]⟩

theorem Above.run : ∀ {ops : List Op} {t : Scopes}, Above s t → (∀ name, .reserve name ∉ ops) →
    t.Keeps (s.depth + 1) ops → Above s (t.run ops)
  | [], _, h, _, _ => h
  | op :: _, _, h, hr, hk => by
    have hstep := h.step (fun name he => hr name (he ▸ List.mem_cons_self)) hk.of_cons.depth
    rw [run_cons]
    exact hstep.run (fun name hm => hr name (List.mem_cons_of_mem op hm)) hk.of_cons

theorem Above.pop_eq (h : Above s t) (hd : t.depth = s.depth + 1) : t.pop = s := by
  obtain ⟨hroot, scope, inside, hinner⟩ := h
  have hnil : inside = [] := by
    simpa [depth, hinner] using hd
  cases s
  simp_all [pop]

/-- The operations leave open what is open, and close every scope that they open. -/
structure Balanced (s : Scopes) (ops : List Op) : Prop where
  keeps : s.Keeps s.depth ops
  depth : (s.run ops).depth = s.depth

theorem pop_run {stretch : List Op} (h : s.push.Balanced stretch)
    (hr : ∀ name, .reserve name ∉ stretch) : (s.push.run stretch).pop = s :=
  ((above_push s).run hr h.keeps).pop_eq h.depth

/-- What scopes do on whatever comes after them. -/
structure Sound (s : Scopes) : Prop where
  /-- A name that is given out is free in the whole chain just before. -/
  free : ∀ preferred owner, s.isFree (s.bind preferred owner).1 = true
  /-- It is taken as long as the scope that it was bound in is open. -/
  taken : ∀ preferred owner later, (s.bind preferred owner).2.Keeps s.depth later →
    ((s.bind preferred owner).2.run later).isFree (s.bind preferred owner).1 = false
  /-- It differs from every name that is given out while the scope is open. -/
  distinct : ∀ preferred owner later preferred' owner',
    (s.bind preferred owner).2.Keeps s.depth later →
      (((s.bind preferred owner).2.run later).bind preferred' owner').1
        ≠ (s.bind preferred owner).1
  /-- The names of the top level stay, with their owners. -/
  owner : ∀ name owner later, s.owner? name = some owner → (s.run later).owner? name = some owner
  /-- A balanced stretch in a scope of its own that reserves no name at the top level changes
  nothing. -/
  balanced : ∀ stretch, s.push.Balanced stretch → (∀ name, .reserve name ∉ stretch) →
    (s.run (.push :: stretch ++ [.pop])).depth = s.depth
      ∧ ∀ name, (s.run (.push :: stretch ++ [.pop])).isFree name = s.isFree name
        ∧ (s.run (.push :: stretch ++ [.pop])).owner? name = s.owner? name

/-- Whatever has been done to the scopes, they are sound. -/
theorem sound_after_run (ops : List Op) : (empty.run ops).Sound := by
  generalize empty.run ops = s
  have hfree (s : Scopes) (name : String) : s.isFree name = true ↔ name ∉ s.taken := by
    simp [isFree]
  refine ⟨fun preferred owner => ?_, fun preferred owner later hk => ?_,
    fun preferred owner later preferred' owner' hk he => ?_,
    fun name owner later h => owner?_run h later, fun stretch hb hr => ?_⟩
  · exact (hfree _ _).2 (s.bind_not_mem preferred owner)
  · exact Bool.eq_false_iff.2 fun h => (hfree _ _).1 h (mem_taken_run_bind hk)
  · exact bind_not_mem _ preferred' owner' (he ▸ mem_taken_run_bind hk)
  · have hrun : s.run (.push :: stretch ++ [.pop]) = s := by
      rw [run, List.foldl_append]
      exact pop_run hb hr
    rw [hrun]
    exact ⟨rfl, fun _ => ⟨rfl, rfl⟩⟩

/-- A name may be asked for that has been made up for another one. -/
example : let s := empty.run [.bind "T" none, .push, .bind "T" none]
    s.inner = [["T_$0"]] ∧ (s.bind "T_$0" none).1 = "T_$0_$0" := by decide +kernel

end Scopes

end DeclBundle
