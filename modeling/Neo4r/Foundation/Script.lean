/-
  `Foundation.Script`: computations as sequences of steps.

  A `Fallible` computation is a function, so nothing can be said about the states between
  its parts.  A script keeps the parts apart: it runs like their sequence, and `visits` are
  the states before, between and after them.

  `Passes` and `Completes` are triples with two postconditions, one for the end of the run
  and one for every state on the way, which is where a crash may leave it.  `Completes` says
  besides that the run succeeds.
-/
import Neo4r.Foundation.Fallible

set_option autoImplicit false

namespace Neo4r.Foundation

open Fallible List

/-- Steps, each of which may depend on the results of those before it. -/
inductive Script (ε σ : Type) : Type 1
  | done
  | step {α : Type} (x : Fallible ε σ α) (next : α → Script ε σ)

namespace Script

variable {ε σ : Type}

/-- The sequence of the steps. -/
def run : Script ε σ → Fallible ε σ Unit
  | done => pure ()
  | step x next => x >>= fun a => (next a).run

/-- The states that a run passes through; a step that fails is the last. -/
def visits : Script ε σ → σ → List σ
  | done, s => [s]
  | step x next, s => s :: match x.run s with
    | (.ok a, t) => (next a).visits t
    | (.error _, t) => [t]

/-- One script after another. -/
def andThen : Script ε σ → Script ε σ → Script ε σ
  | done, script => script
  | step x next, script => step x fun a => (next a).andThen script

/-- A script for every element in turn. -/
def forEach {α : Type} (body : α → Script ε σ) : List α → Script ε σ
  | [] => done
  | a :: l => (body a).andThen (forEach body l)

theorem run_andThen (first second : Script ε σ) :
    (first.andThen second).run = first.run >>= fun _ => second.run := by
  induction first with
  | done => rfl
  | step x next ih =>
    rw [andThen, run, run, bind_assoc]
    exact bind_congr ih

theorem andThen_assoc (first second third : Script ε σ) :
    (first.andThen second).andThen third = first.andThen (second.andThen third) := by
  induction first with
  | done => rfl
  | step x next ih => exact congrArg (step x) (funext ih)

/-- Two loops in a row are one loop. -/
theorem forEach_append {α : Type} (body : α → Script ε σ) (l l' : List α) :
    forEach body (l ++ l') = (forEach body l).andThen (forEach body l') := by
  induction l with
  | nil => rfl
  | cons a l ih => rw [cons_append, forEach, forEach, ih, andThen_assoc]

variable (script : Script ε σ)

theorem mem_visits_start (s : σ) : s ∈ script.visits s := by
  cases script with
  | done => exact mem_singleton_self s
  | step =>
    rw [visits]
    exact .head _

theorem mem_visits_end (s : σ) : (script.run.run s).2 ∈ script.visits s := by
  induction script generalizing s with
  | done => exact mem_singleton_self s
  | step x next ih =>
    rw [run, visits, run_bind]
    refine .tail _ ?_
    rcases x.run s with ⟨result, t⟩
    cases result with
    | ok a => exact ih a t
    | error => exact mem_singleton_self t

/-- From a state with the property on the script passes only through such states. -/
def Keeps (P : σ → Prop) (script : Script ε σ) : Prop := ∀ s, P s → ∀ t ∈ script.visits s, P t

variable {P : σ → Prop} {α : Type} {x : Fallible ε σ α} {next : α → Script ε σ}

theorem keeps_done : Keeps P (done : Script ε σ) := fun _ hs _ ht => mem_singleton.mp ht ▸ hs

/-- What comes after a step may rely on what the step has done. -/
theorem forall_visits_step {s : σ} (hs : P s) (hx : P (x.run s).2)
    (hnext : ∀ a t, x.run s = (.ok a, t) → ∀ u ∈ (next a).visits t, P u) :
    ∀ u ∈ (step x next).visits s, P u := by
  rw [visits, forall_mem_cons]
  refine ⟨hs, ?_⟩
  rcases hrun : x.run s with ⟨result, t⟩
  rw [hrun] at hx
  cases result with
  | ok a => exact hnext a t hrun
  | error => exact fun u hu => mem_singleton.mp hu ▸ hx

theorem keeps_step (hx : ∀ s, P s → P (x.run s).2) (hnext : ∀ a, Keeps P (next a)) :
    Keeps P (step x next) := by
  refine fun s hs => forall_visits_step hs (hx s hs) fun a t hrun => hnext a t ?_
  have hafter := hx s hs
  rwa [hrun] at hafter

/-! ## Runs that may stop on the way -/

/-- The script passes only through states with `P`; it ends without an error in a state with `Q`,
or with an error, and then `E`. -/
def Passes (E : Prop) (P Q : σ → Prop) (script : Script ε σ) (s : σ) : Prop :=
  (∀ u ∈ script.visits s, P u) ∧ match script.run.run s with
    | (.ok _, t) => Q t
    | (.error _, _) => E

variable {E : Prop} {Q : σ → Prop} {s : σ}

theorem passes_done (hP : P s) (hQ : Q s) : Passes E P Q (done : Script ε σ) s :=
  ⟨fun _ hu => mem_singleton.mp hu ▸ hP, hQ⟩

variable {Q' : σ → Prop} {t : σ} {script : Script ε σ} {I : List α → σ → Prop}
  {body : α → Script ε σ}

/-- A step that succeeds. -/
theorem passes_step {a : α} (hs : P s) (hrun : x.run s = (.ok a, t))
    (hnext : Passes E P Q (next a) t) : Passes E P Q (step x next) s := by
  rw [Passes, visits, run, run_bind_of_ok hrun, hrun, forall_mem_cons]
  exact ⟨⟨hs, hnext.1⟩, hnext.2⟩

/-- A step that fails is the last. -/
theorem passes_fail {e : ε} (hs : P s) (hrun : x.run s = (.error e, t)) (ht : P t) (hE : E) :
    Passes E P Q (step x next) s := by
  rw [Passes, visits, run, run_bind_of_error hrun, hrun, forall_mem_cons, forall_mem_singleton]
  exact ⟨⟨hs, ht⟩, hE⟩

theorem Passes.mono {P' : σ → Prop} (h : Passes E P Q script s) (hP : ∀ u, P u → P' u)
    (hQ : ∀ u, Q u → Q' u) : Passes E P' Q' script s := by
  obtain ⟨hvisits, hend⟩ := h
  refine ⟨fun u hu => hP u (hvisits u hu), ?_⟩
  split at hend
  · exact hQ _ hend
  · exact hend

theorem Passes.andThen {first second : Script ε σ} (h : Passes E P Q first s)
    (h' : ∀ t, Q t → Passes E P Q' second t) : Passes E P Q' (first.andThen second) s := by
  induction first generalizing s with
  | done => exact h' s h.2
  | step x next ih =>
    obtain ⟨hvisits, hend⟩ := h
    rcases hx : x.run s with ⟨result, t⟩
    rw [visits, hx, forall_mem_cons] at hvisits
    cases result with
    | ok a =>
      rw [run, run_bind_of_ok hx] at hend
      exact passes_step hvisits.1 hx (ih a ⟨hvisits.2, hend⟩)
    | error =>
      rw [run, run_bind_of_error hx] at hend
      exact passes_fail hvisits.1 hx (hvisits.2 t (mem_singleton_self t)) hend

/-- A loop, with an invariant that speaks of what is still to do. -/
theorem passes_forEach (hend : ∀ t, I [] t → P t)
    (hbody : ∀ a l t, I (a :: l) t → Passes E P (I l) (body a) t) {l : List α} (hs : I l s) :
    Passes E P (I []) (forEach body l) s := by
  induction l generalizing s with
  | nil => exact passes_done (hend s hs) hs
  | cons a l ih => exact (hbody a l s hs).andThen fun t ht => ih ht

/-- The script passes only through states with `P` and ends, without an error, in one with
`Q`. -/
def Completes (P Q : σ → Prop) (script : Script ε σ) (s : σ) : Prop :=
  (∀ u ∈ script.visits s, P u) ∧ ∃ t, script.run.run s = (.ok (), t) ∧ Q t

/-- A run that completes is one that nothing stops. -/
theorem completes_iff :
    Completes P Q script s ↔ Passes False P Q script s := by
  refine and_congr_right fun _ => ?_
  rcases script.run.run s with ⟨_ | _, t⟩ <;> simp

end Script

end Neo4r.Foundation
