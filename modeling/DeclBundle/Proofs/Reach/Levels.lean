import Mathlib.Logic.Function.Iterate

/-!
# Walks that go level by level

A walk takes in the targets of a level and goes on to the targets they lead to. Whatever can be
expanded is expanded once, so the number of things left to expand bounds the levels to come. After
more rounds than that no level is left (`LevelWalk.iterate_round`), and the walk has taken in just
what its roots lead to in finitely many steps (`LevelWalk.mem_run`); further levels change nothing
(`LevelWalk.run_add`).
-/

namespace DeclBundle

/-- How many of `xs` are not among `seen`. -/
def unseen [DecidableEq α] (xs seen : List α) : Nat := xs.countP (· ∉ seen)

theorem unseen_le_length [DecidableEq α] (xs seen : List α) : unseen xs seen ≤ xs.length :=
  List.countP_le_length

theorem unseen_mono [DecidableEq α] {seen seen' : List α} (xs : List α)
    (h : ∀ x ∈ seen, x ∈ seen') : unseen xs seen' ≤ unseen xs seen := by
  refine List.countP_mono_left fun x _ hx => ?_
  simp only [decide_eq_true_eq] at hx ⊢
  exact fun hs => hx (h x hs)

theorem unseen_lt [DecidableEq α] {seen seen' : List α} {a : α} (h : ∀ x ∈ seen, x ∈ seen')
    (ha : a ∉ seen) (ha' : a ∈ seen') : ∀ {xs : List α}, a ∈ xs → unseen xs seen' < unseen xs seen
  | x :: xs, hm => by
    have hle := unseen_mono xs h
    rcases List.mem_cons.1 hm with rfl | hm
    · simp only [unseen, List.countP_cons, ha, ha', not_true_eq_false, not_false_eq_true,
        decide_true, decide_false, ↓reduceIte, Bool.false_eq_true] at hle ⊢
      omega
    · have ih := unseen_lt h ha ha' hm
      have hx : x ∉ seen' → x ∉ seen := fun hx hs => hx (h x hs)
      simp only [unseen, List.countP_cons, decide_eq_true_eq] at ih ⊢
      by_cases h' : x ∈ seen'
      · simp only [h', not_true_eq_false, ↓reduceIte]
        omega
      · simp only [h', hx h', not_false_eq_true, ↓reduceIte]
        omega

/-- What `roots` lead to in finitely many steps. -/
inductive Reaches (successors : τ → List τ) (roots : List τ) : τ → Prop
  | root {t : τ} (h : t ∈ roots) : Reaches successors roots t
  | step {t t' : τ} (h : Reaches successors roots t) (hs : t' ∈ successors t) :
    Reaches successors roots t'

theorem Reaches.mono {successors : τ → List τ} {roots roots' : List τ}
    (hr : ∀ t ∈ roots, t ∈ roots') {t : τ} (h : Reaches successors roots t) :
    Reaches successors roots' t := by
  induction h with
  | root h => exact .root (hr _ h)
  | step _ hs ih => exact .step ih hs

/-- A walk by levels: how a level is taken in and what it leads to. -/
structure LevelWalk (σ τ : Type) [Membership τ σ] where
  visit : σ → List τ → σ × List τ
  successors : τ → List τ
  /-- How much is left to expand. -/
  pending : σ → Nat
  visit_nil : ∀ r : σ, visit r [] = (r, [])
  mem_visit : ∀ {r : σ} {ts : List τ} {t : τ}, t ∈ (visit r ts).1 ↔ t ∈ r ∨ t ∈ ts
  /-- The next level holds what the new targets of this one lead to. -/
  mem_next : ∀ {r : σ} {ts : List τ} {t' : τ},
    t' ∈ (visit r ts).2 ↔ ∃ t ∈ ts, t ∉ r ∧ t' ∈ successors t
  pending_lt : ∀ {r : σ} {ts : List τ} {t t' : τ}, t ∈ ts → t ∉ r → t' ∈ successors t →
    pending (visit r ts).1 < pending r

namespace LevelWalk

variable {σ τ : Type} [Membership τ σ] (w : LevelWalk σ τ)

/-- What at most so many levels take in. -/
def run : Nat → σ → List τ → σ
  | 0, r, _ => r
  | _, r, [] => r
  | fuel + 1, r, level => run fuel (w.visit r level).1 (w.visit r level).2

@[simp] theorem run_nil (fuel : Nat) (r : σ) : w.run fuel r [] = r := by
  cases fuel <;> rfl

theorem run_cons (fuel : Nat) (r : σ) (u : τ) (us : List τ) :
    w.run (fuel + 1) r (u :: us) = w.run fuel (w.visit r (u :: us)).1 (w.visit r (u :: us)).2 := rfl

theorem pending_visit {r : σ} {ts : List τ} {t' : τ} (h : t' ∈ (w.visit r ts).2) :
    w.pending (w.visit r ts).1 < w.pending r := by
  obtain ⟨t, ht, hn, hs⟩ := w.mem_next.1 h
  exact w.pending_lt ht hn hs

/-- A walk takes in nothing that its roots do not lead to. -/
theorem run_sound {roots : List τ} : ∀ {fuel : Nat} {r : σ} {level : List τ},
    (∀ t ∈ r, Reaches w.successors roots t) → (∀ t ∈ level, Reaches w.successors roots t) →
      ∀ t ∈ w.run fuel r level, Reaches w.successors roots t
  | 0, _, _, hr, _ => hr
  | _ + 1, _, [], hr, _ => hr
  | fuel + 1, r, u :: us, hr, hl => by
    rw [run_cons]
    refine run_sound (fun t ht => ?_) (fun t ht => ?_)
    · rcases w.mem_visit.1 ht with h | h
      · exact hr t h
      · exact hl t h
    · obtain ⟨t₀, h₀, -, hs⟩ := w.mem_next.1 ht
      exact .step (hl t₀ h₀) hs

/-- What is taken in leads only to what is taken in or stands on the next level. -/
def ClosedUpTo (r : σ) (level : List τ) : Prop :=
  ∀ t ∈ r, ∀ t' ∈ w.successors t, t' ∈ r ∨ t' ∈ level

theorem closedUpTo_visit {r : σ} {ts : List τ} (h : w.ClosedUpTo r ts) :
    w.ClosedUpTo (w.visit r ts).1 (w.visit r ts).2 := by
  intro t ht t' ht'
  rw [w.mem_visit] at ht ⊢
  by_cases hr : t ∈ r
  · exact .inl (h t hr t' ht')
  · exact .inr (w.mem_next.2 ⟨t, ht.resolve_left hr, hr, ht'⟩)

/-- With more levels than there are things to expand, a walk ends with all that it was led to. -/
theorem run_closed : ∀ {fuel : Nat} {r : σ} {level : List τ},
    w.pending r < fuel → w.ClosedUpTo r level →
      w.ClosedUpTo (w.run fuel r level) [] ∧ ∀ t, t ∈ r ∨ t ∈ level → t ∈ w.run fuel r level
  | fuel + 1, r, [], _, hc => by
    rw [run_nil]
    exact ⟨hc, fun t ht => ht.resolve_right (by simp)⟩
  | fuel + 1, r, u :: us, hf, hc => by
    have hc' := w.closedUpTo_visit hc
    rw [run_cons]
    cases hn : (w.visit r (u :: us)).2 with
    | nil =>
      rw [hn] at hc'
      rw [run_nil]
      exact ⟨hc', fun t ht => w.mem_visit.2 ht⟩
    | cons v vs =>
      have hv : v ∈ (w.visit r (u :: us)).2 := by simp [hn]
      have hp := w.pending_visit hv
      rw [hn] at hc'
      obtain ⟨h1, h2⟩ := run_closed (Nat.lt_of_lt_of_le hp (Nat.le_of_lt_succ hf)) hc'
      exact ⟨h1, fun t ht => h2 t (.inl (w.mem_visit.2 ht))⟩

/-- One round: the level at hand is taken in, and the next one is at hand. -/
def round (x : σ × List τ) : σ × List τ := w.visit x.1 x.2

theorem iterate_round_nil (n : Nat) (r : σ) : w.round^[n] (r, []) = (r, []) :=
  Function.iterate_fixed (w.visit_nil r) n

/-- After more rounds than there are things to expand, no level is left. -/
theorem iterate_round : ∀ {n : Nat} {r : σ} {level : List τ}, w.pending r < n →
    w.round^[n] (r, level) = (w.run n r level, [])
  | n + 1, r, [], _ => by rw [run_nil, iterate_round_nil]
  | n + 1, r, u :: us, h => by
    have hround : w.round (r, u :: us) = ((w.visit r (u :: us)).1, (w.visit r (u :: us)).2) := rfl
    rw [Function.iterate_succ_apply, run_cons, hround]
    cases hn : (w.visit r (u :: us)).2 with
    | nil => rw [run_nil, iterate_round_nil]
    | cons v vs =>
      have hv : v ∈ (w.visit r (u :: us)).2 := by simp [hn]
      have hp := w.pending_visit hv
      exact iterate_round (Nat.lt_of_lt_of_le hp (Nat.le_of_lt_succ h))

/-- Further levels change nothing when no level is left. -/
theorem run_add {fuel : Nat} {r : σ} {level : List τ} (h : w.pending r < fuel) (k : Nat) :
    w.run (fuel + k) r level = w.run fuel r level := by
  have hmore : w.round^[fuel + k] (r, level) = (w.run (fuel + k) r level, []) :=
    w.iterate_round (Nat.lt_add_right k h)
  rw [Nat.add_comm fuel k, Function.iterate_add_apply, w.iterate_round h, iterate_round_nil] at hmore
  rw [Nat.add_comm]
  exact (Prod.ext_iff.1 hmore).1.symm

/-- From nothing, a walk with enough levels takes in what its roots lead to. -/
theorem mem_run {fuel : Nat} {r : σ} {roots : List τ} (hr : ∀ t, t ∉ r) (h : w.pending r < fuel)
    {t : τ} : t ∈ w.run fuel r roots ↔ Reaches w.successors roots t := by
  constructor
  · exact w.run_sound (fun t ht => absurd ht (hr t)) (fun t ht => .root ht) t
  · intro ht
    have h0 : w.ClosedUpTo r roots := fun t ht => absurd ht (hr t)
    obtain ⟨hc, ha⟩ := w.run_closed h h0
    induction ht with
    | root ht => exact ha _ (.inr ht)
    | step _ hs ih => exact (hc _ ih _ hs).resolve_right (by simp)

end LevelWalk

end DeclBundle
