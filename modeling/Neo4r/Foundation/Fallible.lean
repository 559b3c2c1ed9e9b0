/-
  `Foundation.Fallible`: computations that change a state and may fail on the way.

  A method that takes `&mut self` and returns a `Result` leaves its changes behind when
  it fails.  `Fallible` is that: a failure comes with the state it was raised in, and
  nothing is rolled back.

  The two inversion rules take a sequence apart, for a run that succeeds and for one
  that fails; `Respects` is the rule for what every run, successful or not, does to the
  state.
-/
import Mathlib

set_option autoImplicit false

namespace Neo4r.Foundation

open List

variable {ε α β : Type}

variable {f : α → Except ε β} {l : List α}

/-- A sequence of checks that succeeds succeeds in both parts. -/
theorem of_exceptBind_ok {x : Except ε α} {b : β}
    (h : (x >>= f) = .ok b) : ∃ a, x = .ok a ∧ f a = .ok b := by
  cases x with
  | error => cases h
  | ok a => exact ⟨a, rfl, h⟩

theorem exceptBind_ok_iff {x : Except ε α} {b : β} :
    (x >>= f) = .ok b ↔ ∃ a, x = .ok a ∧ f a = .ok b := by
  refine ⟨of_exceptBind_ok, ?_⟩
  rintro ⟨a, rfl, h⟩
  exact h

/-- A loop of checks that all succeed. -/
theorem exceptMapM_ok {g : α → β} (h : ∀ a ∈ l, f a = .ok (g a)) : l.mapM f = .ok (l.map g) := by
  induction l with
  | nil => rfl
  | cons a l ih =>
    rw [mapM_cons, h a mem_cons_self, ih fun b hb => h b (mem_cons_of_mem _ hb)]
    rfl

/-- A loop that succeeds has succeeded for every element. -/
theorem exists_of_exceptMapM_ok {l' : List β} (h : l.mapM f = .ok l') {a : α} (ha : a ∈ l) :
    ∃ b, f a = .ok b := by
  induction l generalizing l' with
  | nil => cases ha
  | cons first l ih =>
    rw [mapM_cons] at h
    obtain ⟨b, hb, hrest⟩ := of_exceptBind_ok h
    obtain ⟨bs, hbs, -⟩ := of_exceptBind_ok hrest
    rcases mem_cons.mp ha with rfl | hmem
    · exact ⟨b, hb⟩
    · exact ih hbs hmem

theorem exceptMapM_ok_iff {l' : List β} :
    l.mapM f = .ok l' ↔ Forall₂ (fun a b => f a = .ok b) l l' := by
  induction l generalizing l' with
  | nil =>
    rw [forall₂_nil_left_iff]
    constructor
    · intro h
      cases h
      rfl
    · rintro rfl
      rfl
  | cons a l ih =>
    rw [mapM_cons, forall₂_cons_left_iff]
    constructor
    · intro h
      obtain ⟨b, hb, hrest⟩ := of_exceptBind_ok h
      obtain ⟨bs, hbs, heq⟩ := of_exceptBind_ok hrest
      cases heq
      exact ⟨b, bs, hb, ih.mp hbs, rfl⟩
    · rintro ⟨b, bs, hb, hbs, rfl⟩
      rw [hb, ih.mpr hbs]
      rfl

/-- Loops that do the same to each element. -/
theorem exceptMapM_congr {g : α → Except ε β} (h : ∀ a ∈ l, f a = g a) :
    l.mapM f = l.mapM g := by
  induction l with
  | nil => rfl
  | cons a l ih =>
    rw [mapM_cons, mapM_cons, h a mem_cons_self, ih fun b hb => h b (.tail _ hb)]

/-- A loop of checks succeeds if each of them does. -/
theorem exceptForM_ok_iff {f : α → Except ε Unit} :
    l.forM f = .ok () ↔ ∀ a ∈ l, f a = .ok () := by
  induction l with
  | nil => exact iff_of_true rfl nofun
  | cons a l ih =>
    rw [forall_mem_cons, ← ih]
    refine exceptBind_ok_iff.trans ?_
    exact ⟨fun ⟨_, h⟩ => h, fun h => ⟨(), h⟩⟩

/-- A run of steps that succeeds, and one more. -/
theorem exceptFoldlM_concat {f : β → α → Except ε β} {a : α} {b b' b'' : β}
    (h : l.foldlM f b = .ok b') (h' : f b' a = .ok b'') :
    (l ++ [a]).foldlM f b = .ok b'' := by
  have hlast : [a].foldlM f b' = .ok b'' := by
    rw [foldlM_cons, h']
    rfl
  rw [foldlM_append, h]
  exact hlast

/-- A computation on a state `σ` that returns an `α` or fails with an `ε`. -/
structure Fallible (ε σ α : Type) where
  run : σ → Except ε α × σ

namespace Fallible

variable {ε σ α β : Type} {x : Fallible ε σ α}

instance : Monad (Fallible ε σ) where
  pure a := ⟨fun s => (.ok a, s)⟩
  bind x f := ⟨fun s => match x.run s with
    | (.ok a, s) => (f a).run s
    | (.error e, s) => (.error e, s)⟩

theorem ext_run {y : Fallible ε σ α} (h : ∀ s, x.run s = y.run s) : x = y := by
  cases x
  cases y
  exact congrArg mk (funext h)

theorem map_id_eq (x : Fallible ε σ α) : id <$> x = x := by
  refine ext_run fun s => ?_
  change (match x.run s with
    | (.ok a, s) => (.ok a, s)
    | (.error e, s) => (.error e, s)) = x.run s
  rcases x.run s with ⟨_ | _, _⟩ <;> rfl

variable {γ : Type}

theorem bind_bind_eq (x : Fallible ε σ α) (f : α → Fallible ε σ β) (g : β → Fallible ε σ γ) :
    x >>= f >>= g = x >>= fun a => f a >>= g := by
  refine ext_run fun s => ?_
  change (match (match x.run s with
      | (.ok a, s) => (f a).run s
      | (.error e, s) => (.error e, s)) with
    | (.ok b, s) => (g b).run s
    | (.error e, s) => (.error e, s)) = (match x.run s with
      | (.ok a, s) => (f a >>= g).run s
      | (.error e, s) => (.error e, s))
  rcases x.run s with ⟨_ | _, _⟩ <;> rfl

instance : LawfulMonad (Fallible ε σ) :=
  LawfulMonad.mk' (Fallible ε σ) map_id_eq (fun _ _ => rfl) bind_bind_eq

/-- Fails and leaves the state as it is. -/
def fail (e : ε) : Fallible ε σ α := ⟨fun s => (.error e, s)⟩

/-- The state. -/
def current : Fallible ε σ σ := ⟨fun s => (.ok s, s)⟩

/-- Reads the state, where the read may fail. -/
def lookup (f : σ → Except ε α) : Fallible ε σ α := ⟨fun s => (f s, s)⟩

/-- Changes the state. -/
def change (f : σ → σ) : Fallible ε σ Unit := ⟨fun s => (.ok (), f s)⟩

/-- A computation on a part of the state. -/
def zoom {τ : Type} (part : σ → τ) (put : σ → τ → σ) (x : Fallible ε τ α) :
    Fallible ε σ α := ⟨fun s => ((x.run (part s)).1, put s (x.run (part s)).2)⟩

/-- The computation for every element in turn. -/
def forEach (f : α → Fallible ε σ Unit) : List α → Fallible ε σ Unit
  | [] => pure ()
  | a :: l => do
      f a
      forEach f l

/-- The computation for every element in turn, with the results. -/
def collect (f : α → Fallible ε σ β) : List α → Fallible ε σ (List β)
  | [] => pure []
  | a :: l => do
      let b ← f a
      let bs ← collect f l
      pure (b :: bs)

/-- The computation for every element in turn, with the results of those that succeed. -/
def collectOk (f : α → Fallible ε σ β) : List α → Fallible ε σ (List β)
  | [] => pure []
  | a :: l => ⟨fun s => match (f a).run s with
    | (.ok b, s) => (do
        let bs ← collectOk f l
        pure (b :: bs)).run s
    | (.error _, s) => (collectOk f l).run s⟩

theorem collect_append (f : α → Fallible ε σ β) (l l' : List α) :
    collect f (l ++ l') = (do
      let bs ← collect f l
      let bs' ← collect f l'
      pure (bs ++ bs')) := by
  induction l with
  | nil => simp [collect]
  | cons a l ih => simp [collect, ih]

theorem forEach_map (f : β → Fallible ε σ Unit) (g : γ → β) (l : List γ) :
    forEach f (l.map g) = forEach (fun c => f (g c)) l := by
  induction l with
  | nil => rfl
  | cons c l ih =>
    rw [map_cons, forEach, forEach, ih]

/-! ## Running -/

variable {x : Fallible ε σ α} {f : α → Fallible ε σ β} {s s' : σ} {a : α} {b : β} {e : ε}
  {g : σ → Except ε α}

@[simp] theorem run_pure (a : α) (s : σ) : (pure a : Fallible ε σ α).run s = (.ok a, s) := rfl

@[simp] theorem run_fail (e : ε) (s : σ) : (fail e : Fallible ε σ α).run s = (.error e, s) := rfl

@[simp] theorem run_current (s : σ) : (current : Fallible ε σ σ).run s = (.ok s, s) := rfl

@[simp] theorem run_lookup (g : σ → Except ε α) (s : σ) : (lookup g).run s = (g s, s) := rfl

@[simp] theorem run_change (g : σ → σ) (s : σ) :
    (change g : Fallible ε σ Unit).run s = (.ok (), g s) := rfl

@[simp] theorem run_zoom {τ : Type} (part : σ → τ) (put : σ → τ → σ) (y : Fallible ε τ α) (s : σ) :
    (zoom part put y).run s = ((y.run (part s)).1, put s (y.run (part s)).2) := rfl

theorem run_bind (x : Fallible ε σ α) (f : α → Fallible ε σ β) (s : σ) :
    (x >>= f).run s = match x.run s with
      | (.ok a, s) => (f a).run s
      | (.error e, s) => (.error e, s) := rfl

theorem run_bind_of_ok (h : x.run s = (.ok a, s')) : (x >>= f).run s = (f a).run s' := by
  rw [run_bind, h]

theorem run_bind_of_error (h : x.run s = (.error e, s')) : (x >>= f).run s = (.error e, s') := by
  rw [run_bind, h]

theorem run_lookup_of_ok (h : g s = .ok a) :
    (lookup g >>= f).run s = (f a).run s :=
  run_bind_of_ok (by rw [run_lookup, h])

/-- A sequence that succeeds succeeds in both parts. -/
theorem of_bind_ok (h : (x >>= f).run s = (.ok b, s')) :
    ∃ a t, x.run s = (.ok a, t) ∧ (f a).run t = (.ok b, s') := by
  rcases hx : x.run s with ⟨result, t⟩
  cases result with
  | ok a =>
    rw [run_bind_of_ok hx] at h
    exact ⟨a, t, rfl, h⟩
  | error =>
    rw [run_bind_of_error hx] at h
    cases h

/-- A sequence that fails fails in the first part, or in the second after the first has
succeeded. -/
theorem of_bind_error (h : (x >>= f).run s = (.error e, s')) :
    x.run s = (.error e, s') ∨ ∃ a t, x.run s = (.ok a, t) ∧ (f a).run t = (.error e, s') := by
  rcases hx : x.run s with ⟨result, t⟩
  cases result with
  | ok a =>
    rw [run_bind_of_ok hx] at h
    exact .inr ⟨a, t, rfl, h⟩
  | error =>
    rw [run_bind_of_error hx] at h
    cases h
    exact .inl rfl

/-- A computation whose result is only looked at. -/
theorem of_bind_pure {g : α → β} {result : Except ε β}
    (h : (x >>= fun a => pure (g a)).run s = (result, s')) :
    ∃ r, x.run s = (r, s') ∧ result = r.map g := by
  rcases hx : x.run s with ⟨r, t⟩
  cases r with
  | ok =>
    rw [run_bind_of_ok hx] at h
    cases h
    exact ⟨_, rfl, rfl⟩
  | error =>
    rw [run_bind_of_error hx] at h
    cases h
    exact ⟨_, rfl, rfl⟩

theorem of_lookup_ok (h : (lookup g).run s = (.ok a, s')) :
    g s = .ok a ∧ s' = s := by
  obtain ⟨h₁, h₂⟩ := Prod.mk.inj h
  exact ⟨h₁, h₂.symm⟩

theorem of_lookup_bind_ok (h : (lookup g >>= f).run s = (.ok b, s')) :
    ∃ a, g s = .ok a ∧ (f a).run s = (.ok b, s') := by
  obtain ⟨a, t, hlookup, hf⟩ := of_bind_ok h
  obtain ⟨hg, rfl⟩ := of_lookup_ok hlookup
  exact ⟨a, hg, hf⟩

/-! ## What every run does to the state -/

/-- Every run, successful or not, changes the state only as the relation allows. -/
def Respects (R : σ → σ → Prop) (x : Fallible ε σ α) : Prop := ∀ s, R s (x.run s).2

variable {R : σ → σ → Prop}

/-- The second part may be allowed more than the first. -/
theorem Respects.bind_of {S T : σ → σ → Prop} (hstop : ∀ s t, R s t → T s t)
    (htrans : ∀ s t u, R s t → S t u → T s u) (hx : Respects R x)
    (hf : ∀ a, Respects S (f a)) : Respects T (x >>= f) := by
  intro s
  have hs := hx s
  rcases h : x.run s with ⟨result, t⟩
  rw [h] at hs
  cases result with
  | ok a =>
    rw [run_bind_of_ok h]
    exact htrans s t _ hs (hf a t)
  | error =>
    rw [run_bind_of_error h]
    exact hstop s t hs

variable [IsPreorder σ R] {l : List α}

theorem Respects.bind (hx : Respects R x) (hf : ∀ a, Respects R (f a)) : Respects R (x >>= f) :=
  Respects.bind_of (fun _ _ h => h) IsTrans.trans hx hf

/-- The second part only gets results of the first. -/
theorem Respects.bind_ok {Q : α → Prop} (hx : Respects R x)
    (hres : ∀ s a t, x.run s = (.ok a, t) → Q a) (hf : ∀ a, Q a → Respects R (f a)) :
    Respects R (x >>= f) := by
  intro s
  have hs := hx s
  rcases h : x.run s with ⟨result, t⟩
  rw [h] at hs
  cases result with
  | ok a =>
    rw [run_bind_of_ok h]
    exact IsTrans.trans s t _ hs (hf a (hres s a t h) t)
  | error =>
    rw [run_bind_of_error h]
    exact hs

theorem Respects.pure (a : α) : Respects R (pure a : Fallible ε σ α) := refl

theorem Respects.lookup (g : σ → Except ε α) : Respects R (lookup g) := refl

/-- Only a successful lookup goes on. -/
theorem Respects.lookup_bind {g : σ → Except ε α}
    (h : ∀ s a, g s = .ok a → R s ((f a).run s).2) : Respects R (Fallible.lookup g >>= f) := by
  intro s
  rw [run_bind, run_lookup]
  cases hg : g s with
  | error => exact refl s
  | ok a => exact h s a hg

theorem Respects.current : Respects R (current : Fallible ε σ σ) := refl

theorem Respects.forEach {f : α → Fallible ε σ Unit} (hf : ∀ a ∈ l, Respects R (f a)) :
    Respects R (forEach f l) := by
  induction l with
  | nil => exact Respects.pure ()
  | cons a l ih =>
    refine (hf a (.head _)).bind fun _ => ?_
    exact ih fun b hb => hf b (.tail _ hb)

theorem Respects.collect (hf : ∀ a ∈ l, Respects R (f a)) :
    Respects R (collect f l) := by
  induction l with
  | nil => exact Respects.pure []
  | cons a l ih =>
    refine (hf a (.head _)).bind fun _ => ?_
    refine (ih fun b hb => hf b (.tail _ hb)).bind fun _ => ?_
    exact Respects.pure _

theorem Respects.collectOk (hf : ∀ a ∈ l, Respects R (f a)) :
    Respects R (collectOk f l) := by
  induction l with
  | nil => exact Respects.pure []
  | cons a l ih =>
    intro s
    have hrest := ih fun b hb => hf b (.tail _ hb)
    have hs := hf a (.head _) s
    rcases h : (f a).run s with ⟨result, t⟩
    rw [h] at hs
    cases result with
    | ok =>
      simp only [Fallible.collectOk, h]
      exact IsTrans.trans s t _ hs (hrest.bind (fun _ => Respects.pure _) t)
    | error =>
      simp only [Fallible.collectOk, h]
      exact IsTrans.trans s t _ hs (hrest t)

/-- If the first state has the property, so has the second. -/
def Stays (P : σ → Prop) (s t : σ) : Prop := P s → P t

instance isPreorder_stays (P : σ → Prop) : IsPreorder σ (Stays P) where
  refl _ := id
  trans _ _ _ h h' hs := h' (h hs)

/-! ## What a run does to a part of the state -/

/-- Every run, successful or not, leaves a part of the state as it is. -/
def Preserves {τ : Type} (part : σ → τ) (x : Fallible ε σ α) : Prop :=
  ∀ s, part (x.run s).2 = part s

variable {τ : Type} {part : σ → τ}

instance isPreorder_part (part : σ → τ) : IsPreorder σ fun s t => part t = part s where
  refl _ := rfl
  trans _ _ _ h h' := h'.trans h

theorem Preserves.bind (hx : Preserves part x) (hf : ∀ a, Preserves part (f a)) :
    Preserves part (x >>= f) :=
  Respects.bind (R := fun s t => part t = part s) hx hf

theorem Preserves.pure (a : α) : Preserves part (pure a : Fallible ε σ α) := fun _ => rfl

theorem Preserves.lookup (g : σ → Except ε α) : Preserves part (lookup g) := fun _ => rfl

theorem Preserves.current : Preserves part (current : Fallible ε σ σ) := fun _ => rfl

theorem Preserves.forEach {f : α → Fallible ε σ Unit} (hf : ∀ a ∈ l, Preserves part (f a)) :
    Preserves part (forEach f l) :=
  Respects.forEach (R := fun s t => part t = part s) hf

theorem Preserves.map {υ : Type} (hx : Preserves part x) (g : τ → υ) :
    Preserves (fun s => g (part s)) x := fun s => congrArg g (hx s)

theorem Preserves.of_run {result : Except ε α} (hx : Preserves part x)
    (h : x.run s = (result, s')) : part s' = part s := by
  have hs := hx s
  rw [h] at hs
  exact hs

/-- On a part of the state the computation is another one. -/
def Shows {τ : Type} (part : σ → τ) (x : Fallible ε σ α) (y : Fallible ε τ α) : Prop :=
  ∀ s, (x.run s).1 = (y.run (part s)).1 ∧ part (x.run s).2 = (y.run (part s)).2

variable {y : Fallible ε τ α} {f : α → Fallible ε σ Unit}

theorem Shows.bind {f : α → Fallible ε σ β} {g : α → Fallible ε τ β} (hx : Shows part x y)
    (hf : ∀ a, Shows part (f a) (g a)) : Shows part (x >>= f) (y >>= g) := by
  intro s
  obtain ⟨hres, hpart⟩ := hx s
  rw [run_bind, run_bind]
  rcases h : x.run s with ⟨result, t⟩
  rcases h' : y.run (part s) with ⟨result', t'⟩
  rw [h, h'] at hres hpart
  subst hres hpart
  cases result with
  | ok a => exact hf a t
  | error => exact ⟨rfl, rfl⟩

variable {x : Fallible ε σ Unit}

/-- Computations that do nothing to the part. -/
theorem shows_pure (h : ∀ s, (x.run s).1 = .ok () ∧ part (x.run s).2 = part s) :
    Shows part x (pure ()) :=
  fun s => h s

theorem Shows.after_quiet {f : Unit → Fallible ε σ α} (hx : Shows part x (pure ()))
    (hf : Shows part (f ()) y) : Shows part (x >>= f) y := by
  have h := hx.bind (g := fun _ => y) fun _ => hf
  rwa [pure_bind] at h

theorem Shows.then_quiet {f : Unit → Fallible ε σ Unit} {y : Fallible ε τ Unit}
    (hx : Shows part x y) (hf : Shows part (f ()) (pure ())) : Shows part (x >>= f) y := by
  have h := hx.bind (g := pure) fun _ => hf
  rwa [bind_pure] at h

theorem Shows.forEach {g : α → Fallible ε τ Unit} (h : ∀ a ∈ l, Shows part (f a) (g a)) :
    Shows part (Fallible.forEach f l) (Fallible.forEach g l) := by
  induction l with
  | nil => exact fun _ => ⟨rfl, rfl⟩
  | cons a l ih =>
    refine (h a (.head _)).bind fun _ => ?_
    exact ih fun b hb => h b (.tail _ hb)

theorem shows_forEach_pure (h : ∀ a ∈ l, Shows part (f a) (pure ())) :
    Shows part (Fallible.forEach f l) (pure ()) := by
  induction l with
  | nil => exact fun _ => ⟨rfl, rfl⟩
  | cons a l ih =>
    refine (h a (.head _)).after_quiet ?_
    exact ih fun b hb => h b (.tail _ hb)

/-! ## Pre- and postconditions

A computation that fails leaves a state behind, and this state has a postcondition of its own.
`attempt` turns the failure into a result, so that what follows it goes on from there. -/

/-- The computation with its failure as a result. -/
def attempt (x : Fallible ε σ α) : Fallible ε σ (Except ε α) :=
  ⟨fun s => (.ok (x.run s).1, (x.run s).2)⟩

theorem Respects.attempt {R : σ → σ → Prop} {x : Fallible ε σ α} (h : Respects R x) :
    Respects R x.attempt :=
  fun s => h s

/-- From a state with `P` the computation ends with a result and in a state with `Q`, or it
fails in a state with `E`. -/
structure Triple (P : σ → Prop) (x : Fallible ε σ α) (Q : α → σ → Prop) (E : σ → Prop) : Prop where
  ok : ∀ {s a t}, P s → x.run s = (.ok a, t) → Q a t
  error : ∀ {s e t}, P s → x.run s = (.error e, t) → E t

variable {P : σ → Prop} {Q : α → σ → Prop} {E : σ → Prop} {x : Fallible ε σ α} {I E' : σ → Prop}
  {R : β → σ → Prop}

/-- A triple whose postconditions are the same. -/
theorem Triple.after (h : Triple P x (fun _ => I) I) (hs : P s) : I (x.run s).2 := by
  rcases hrun : x.run s with ⟨result, t⟩
  cases result with
  | ok => exact h.ok hs hrun
  | error => exact h.error hs hrun

theorem Triple.mono {P' : σ → Prop} {Q' : α → σ → Prop} (h : Triple P x Q E) (hP : ∀ s, P' s → P s)
    (hQ : ∀ a s, Q a s → Q' a s) (hE : ∀ s, E s → E' s) : Triple P' x Q' E' where
  ok hs hrun := hQ _ _ (h.ok (hP _ hs) hrun)
  error hs hrun := hE _ (h.error (hP _ hs) hrun)

theorem triple_pure (h : ∀ s, P s → Q a s) : Triple P (pure a : Fallible ε σ α) Q E where
  ok hs hrun := by
    cases hrun
    exact h _ hs
  error _ hrun := by cases hrun

theorem triple_lookup (hQ : ∀ s a, P s → g s = .ok a → Q a s) (hE : ∀ s, P s → E s) :
    Triple P (lookup g) Q E where
  ok hs hrun := by
    obtain ⟨hvalue, rfl⟩ := of_lookup_ok hrun
    exact hQ _ _ hs hvalue
  error hs hrun := by
    obtain ⟨-, rfl⟩ := Prod.mk.inj hrun
    exact hE _ hs

theorem triple_current {Q : σ → σ → Prop} (h : ∀ s, P s → Q s s) :
    Triple P (current : Fallible ε σ σ) Q E where
  ok hs hrun := by
    cases hrun
    exact h _ hs
  error _ hrun := by cases hrun

theorem triple_change {g : σ → σ} {Q : Unit → σ → Prop} (h : ∀ s, P s → Q () (g s)) :
    Triple P (change g : Fallible ε σ Unit) Q E where
  ok hs hrun := by
    cases hrun
    exact h _ hs
  error _ hrun := by cases hrun

theorem Triple.bind {f : α → Fallible ε σ β} (hx : Triple P x Q E)
    (hf : ∀ a, Triple (Q a) (f a) R E) : Triple P (x >>= f) R E where
  ok hs hrun := by
    obtain ⟨a, t, hfirst, hrest⟩ := of_bind_ok hrun
    exact (hf a).ok (hx.ok hs hfirst) hrest
  error hs hrun := by
    rcases of_bind_error hrun with hfirst | ⟨a, t, hfirst, hrest⟩
    · exact hx.error hs hfirst
    · exact (hf a).error (hx.ok hs hfirst) hrest

/-- A computation that starts by looking at the state may be judged for each state. -/
theorem triple_current_bind {f : σ → Fallible ε σ β}
    (h : ∀ s, P s → Triple (fun t => t = s) (f s) R E) : Triple P (current >>= f) R E where
  ok hs hrun := (h _ hs).ok rfl hrun
  error hs hrun := (h _ hs).error rfl hrun

/-- What follows an attempt knows whether it has failed. -/
theorem Triple.attempt (h : Triple P x Q E) :
    Triple P x.attempt (fun result s => (∃ a, result = .ok a ∧ Q a s) ∨
      (∃ e, result = .error e) ∧ E s) E' where
  ok {s} _ _ hs hrun := by
    obtain ⟨hres, rfl⟩ := Prod.mk.inj hrun
    rcases hx : x.run s with ⟨result, t⟩
    cases result with
    | ok a =>
      rw [hx] at hres
      exact .inl ⟨a, (Except.ok.inj hres).symm, h.ok hs hx⟩
    | error e =>
      rw [hx] at hres
      exact .inr ⟨⟨e, (Except.ok.inj hres).symm⟩, h.error hs hx⟩
  error _ hrun := by cases hrun

/-- A computation that keeps a part of the state keeps what is said about it. -/
theorem Preserves.triple (h : Preserves part x) (I : τ → Prop) :
    Triple (fun s => I (part s)) x (fun _ s => I (part s)) (fun s => I (part s)) where
  ok {_ _ _} hs hrun := by
    rw [h.of_run hrun]
    exact hs
  error {_ _ _} hs hrun := by
    rw [h.of_run hrun]
    exact hs

/-- A loop and its invariant. -/
theorem triple_forEach {f : α → Fallible ε σ Unit} (h : ∀ a ∈ l, Triple I (f a) (fun _ => I) E) :
    Triple I (forEach f l) (fun _ => I) E := by
  induction l with
  | nil => exact triple_pure fun _ hs => hs
  | cons a l ih =>
    refine (h a (.head _)).bind fun _ => ih fun b hb => ?_
    exact h b (.tail _ hb)

end Fallible

end Neo4r.Foundation
