/-
  `Foundation.Machine`: guarded transition systems.

  A machine is given by its initial states, a guard for every event and a total
  function that computes the state after an event.  Nondeterminism (message loss,
  crashes, failing disks, interleaving) lives in the choice of events, so a run is
  a list of events and a concrete run can be evaluated.

  The module holds the two inductions this development uses over runs: a predicate
  that holds initially and survives every enabled event holds in every reachable
  state; and a predicate that survives an event exactly under a condition holds all
  along a run exactly if every event of the run meets the condition.
-/
import Mathlib

set_option autoImplicit false

namespace Neo4r.Foundation

open List

/-- A guarded transition system over states `σ` and events `ε`. -/
structure Machine (σ ε : Type) where
  /-- The states a run may start in. -/
  init : σ → Prop
  /-- The guard: which events may happen in a state. -/
  enabled : σ → ε → Prop
  /-- The state after an event. -/
  next : σ → ε → σ

namespace Machine

variable {σ ε : Type}

/-- The states some run of enabled events leads to. -/
inductive Reachable (m : Machine σ ε) : σ → Prop
  | start {s : σ} : m.init s → Reachable m s
  | step {s : σ} {e : ε} : Reachable m s → m.enabled s e → Reachable m (m.next s e)

variable {m : Machine σ ε} {s : σ}

/-- The invariant rule: what holds initially and is kept by every enabled event
of a reachable state holds in every reachable state. -/
theorem Reachable.invariant {P : σ → Prop} (hinit : ∀ s, m.init s → P s)
    (hstep : ∀ s e, m.Reachable s → P s → m.enabled s e → P (m.next s e)) (hs : m.Reachable s) :
    P s := by
  induction hs with
  | start h => exact hinit _ h
  | step hr he ih => exact hstep _ _ hr ih he

/-- The state after a list of events. -/
def run (m : Machine σ ε) : σ → List ε → σ := foldl m.next

/-- Every event of the list is enabled when its turn comes. -/
def Admissible (m : Machine σ ε) : σ → List ε → Prop
  | _, [] => True
  | s, e :: es => m.enabled s e ∧ m.Admissible (m.next s e) es

/-- Admissibility of a concrete list of events is decided by running it. -/
instance decidableAdmissible (m : Machine σ ε) [∀ s e, Decidable (m.enabled s e)] :
    ∀ (s : σ) (es : List ε), Decidable (m.Admissible s es)
  | _, [] => inferInstanceAs (Decidable True)
  | s, e :: es =>
    have := decidableAdmissible m (m.next s e) es
    inferInstanceAs (Decidable (m.enabled s e ∧ m.Admissible (m.next s e) es))

/-- An admissible list of events stays inside the reachable states. -/
theorem Reachable.run (hs : m.Reachable s) {es : List ε} (hes : m.Admissible s es) :
    m.Reachable (m.run s es) := by
  induction es generalizing s with
  | nil => exact hs
  | cons e es ih => exact ih (hs.step hes.1) hes.2

/-- The machine with a further condition on its events. -/
def restrict (m : Machine σ ε) (guard : σ → ε → Prop) : Machine σ ε where
  init := m.init
  enabled s e := m.enabled s e ∧ guard s e
  next := m.next

end Machine

variable {ε : Type}

variable {Q : List ε → ε → Prop}

/-- A condition on the events of a run, for no event. -/
theorem forall_concat_isPrefix_nil :
    ∀ done e, done ++ [e] <+: [] → Q done e := by
  intro done e h
  exact absurd (prefix_nil.mp h) (by simp)

variable {events : List ε}

/-- A condition on the events of a run, for a run that is one event longer. -/
theorem forall_concat_isPrefix_concat {e : ε} :
    (∀ done e', done ++ [e'] <+: events ++ [e] → Q done e') ↔
      Q events e ∧ ∀ done e', done ++ [e'] <+: events → Q done e' := by
  simp only [prefix_concat_iff]
  constructor
  · exact fun h => ⟨h events e (.inl rfl), fun done e' hpre => h done e' (.inr hpre)⟩
  · rintro ⟨hlast, hearlier⟩ done e' (heq | hpre)
    · obtain ⟨rfl, rfl⟩ := concat_inj.mp (by simpa using heq)
      exact hlast
    · exact hearlier done e' hpre

/-- A condition on the events of a run, from its first event on. -/
theorem forall_concat_isPrefix_cons {e : ε} :
    (∀ done e', done ++ [e'] <+: e :: events → Q done e') ↔
      Q [] e ∧ ∀ done e', done ++ [e'] <+: events → Q (e :: done) e' := by
  constructor
  · intro h
    refine ⟨h [] e (prefix_append [e] events), fun done e' hpre => h (e :: done) e' ?_⟩
    exact cons_prefix_cons.mpr ⟨rfl, hpre⟩
  · rintro ⟨hfirst, hrest⟩ done e' hpre
    cases done with
    | nil =>
      cases (cons_prefix_cons.mp hpre).1
      exact hfirst
    | cons e₁ done =>
      obtain ⟨rfl, hrestpre⟩ := cons_prefix_cons.mp hpre
      exact hrest done e' hrestpre

/-- A property of the states along a run, kept by each event exactly under a condition. -/
theorem forall_isPrefix_iff {P : List ε → Prop} (hnil : P [])
    (hstep : ∀ done e, done ++ [e] <+: events → (∀ earlier, earlier <+: done → P earlier) →
      (P (done ++ [e]) ↔ Q done e)) :
    (∀ done, done <+: events → P done) ↔ ∀ done e, done ++ [e] <+: events → Q done e := by
  induction events using reverseRecOn with
  | nil =>
    refine iff_of_true ?_ ?_
    · intro done h
      rwa [prefix_nil.mp h]
    · exact forall_concat_isPrefix_nil
  | append_singleton events e ih =>
    -- a run that is one event longer has one more state and one more event to check
    have hP : (∀ done, done <+: events ++ [e] → P done) ↔
        P (events ++ [e]) ∧ ∀ done, done <+: events → P done := by
      simp only [prefix_concat_iff]
      exact forall_eq_or_imp
    rw [hP, forall_concat_isPrefix_concat,
      ← ih fun done e' hpre => hstep done e' (hpre.trans (prefix_append _ _))]
    exact and_congr_left fun hall => hstep events e prefix_rfl hall

end Neo4r.Foundation
