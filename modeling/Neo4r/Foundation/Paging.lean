/-
  `Foundation.Paging`: results that are fetched page by page.

  A pager hands out the next page of a result and says whether more follows.  `drain` is
  what a client does with it: it fetches, with a page size of its choice each time, until
  it is told that nothing follows.  `Concat` reads several pagers one after the other.

  Three facts about one fetch carry the module: what it delivers (`Delivers`, against the
  list of rows that are pending), that a page with more to follow is not empty
  (`Productive`), and that such a page brings the end nearer (`Shrinks`).  Each is shown of
  `Concat` from its members.
-/
import Mathlib

set_option autoImplicit false

namespace Neo4r.Foundation

open List

/-- A page of a result, and whether more follows. -/
structure Page (α : Type) where
  rows : List α
  hasMore : Bool
  deriving DecidableEq, Repr

/-- How pages of at most a given size are fetched from a state. -/
structure Pager (σ α : Type) where
  fetch : Nat → σ → Page α × σ

namespace Pager

variable {σ α : Type}

/-- The rows fetched until the end is announced, one page for each size, with the state
then; nothing if the sizes do not lead to the end. -/
def drain (p : Pager σ α) : List Nat → σ → Option (List α × σ)
  | [], _ => none
  | size :: sizes, s =>
    let (page, s) := p.fetch size s
    if page.hasMore then
      (p.drain sizes s).map fun result => (page.rows ++ result.1, result.2)
    else some (page.rows, s)

variable {p : Pager σ α} {s : σ} {size : Nat} {l : List Nat} {t : σ} {rows : List α}

theorem drain_cons_of_more (h : (p.fetch size s).1.hasMore = true) (sizes : List Nat) :
    p.drain (size :: sizes) s = (p.drain sizes (p.fetch size s).2).map fun result =>
      ((p.fetch size s).1.rows ++ result.1, result.2) := by
  exact if_pos h

theorem drain_cons_of_end (h : (p.fetch size s).1.hasMore = false) (sizes : List Nat) :
    p.drain (size :: sizes) s = some ((p.fetch size s).1.rows, (p.fetch size s).2) := by
  exact if_neg (by simp [h])

/-! ## Facts about a fetch -/

/-- Fetching a page of an admissible size keeps the states with the property. -/
def Keeps (p : Pager σ α) (sizes : Nat → Prop) (Inv : σ → Prop) : Prop :=
  ∀ size s, sizes size → Inv s → Inv (p.fetch size s).2

/-- A fetch delivers the first of the pending rows and announces the end when none is
left. -/
def Delivers (p : Pager σ α) (Inv : σ → Prop) (pending : σ → List α) : Prop :=
  ∀ size s, Inv s →
    (p.fetch size s).1.rows ++ pending (p.fetch size s).2 = pending s ∧
      ((p.fetch size s).1.hasMore = false → pending (p.fetch size s).2 = [])

/-- A page with more to follow has a row. -/
def Productive (p : Pager σ α) : Prop :=
  ∀ size s, (p.fetch size s).1.hasMore = true → (p.fetch size s).1.rows ≠ []

/-- A page brings the end nearer. -/
def Shrinks (p : Pager σ α) (left : σ → Nat) : Prop :=
  ∀ size s, left (p.fetch size s).2 + (p.fetch size s).1.rows.length ≤ left s

/-- At the announced end the state has the property. -/
def Finishes (p : Pager σ α) (Done : σ → Prop) : Prop :=
  ∀ size s, (p.fetch size s).1.hasMore = false → Done (p.fetch size s).2

/-! ## Whole results -/

/-- What holds of a last page, and of a page before others of which it holds. -/
theorem drain_induction {P : List Nat → σ → List α → σ → Prop}
    (hend : ∀ size l s, (p.fetch size s).1.hasMore = false →
      P (size :: l) s (p.fetch size s).1.rows (p.fetch size s).2)
    (hmore : ∀ size l s rest t, P l (p.fetch size s).2 rest t →
      P (size :: l) s ((p.fetch size s).1.rows ++ rest) t)
    (h : p.drain l s = some (rows, t)) : P l s rows t := by
  induction l generalizing s rows with
  | nil => cases h
  | cons size l ih =>
    cases hpage : (p.fetch size s).1.hasMore with
    | true =>
      rw [drain_cons_of_more hpage, Option.map_eq_some_iff] at h
      obtain ⟨⟨rest, t'⟩, hrest, heq⟩ := h
      cases heq
      exact hmore size l s rest _ (ih hrest)
    | false =>
      rw [drain_cons_of_end hpage] at h
      cases h
      exact hend size l s hpage

theorem drain_keeps {sizes : Nat → Prop} {Inv : σ → Prop} (hkeeps : p.Keeps sizes Inv)
    (hl : ∀ size ∈ l, sizes size) (hs : Inv s) (h : p.drain l s = some (rows, t)) : Inv t := by
  refine drain_induction (P := fun l s _ t => (∀ size ∈ l, sizes size) → Inv s → Inv t)
    (fun size l s _ hl hs => ?_) (fun size l s _ _ ih hl hs => ?_) h hl hs
  · exact hkeeps size s (hl size (.head _)) hs
  · exact ih (fun size' hmem => hl size' (.tail _ hmem)) (hkeeps size s (hl size (.head _)) hs)

/-- Fetching to the end delivers the pending rows. -/
theorem rows_of_drain {Inv : σ → Prop} {pending : σ → List α} (hkeeps : p.Keeps (fun _ => True) Inv)
    (hdelivers : p.Delivers Inv pending) (hs : Inv s) (h : p.drain l s = some (rows, t)) :
    rows = pending s := by
  refine drain_induction (P := fun _ s rows _ => Inv s → rows = pending s)
    (fun size _ s hmore hs => ?_) (fun size _ s _ _ ih hs => ?_) h hs
  · obtain ⟨hrows, hend⟩ := hdelivers size s hs
    rw [← hrows, hend hmore, append_nil]
  · rw [ih (hkeeps size s trivial hs)]
    exact (hdelivers size s hs).1

theorem done_of_drain {Done : σ → Prop} (hfinishes : p.Finishes Done)
    (h : p.drain l s = some (rows, t)) : Done t :=
  drain_induction (P := fun _ _ _ t => Done t) (fun size _ s => hfinishes size s)
    (fun _ _ _ _ _ => id) h

/-- With pages of any one size the end is reached. -/
theorem exists_drain {left : σ → Nat} (hshrinks : p.Shrinks left) (hproductive : p.Productive)
    (size : Nat) (s : σ) : ∃ count result, p.drain (replicate count size) s = some result := by
  induction hleft : left s using Nat.strong_induction_on generalizing s with
  | h n ih =>
    cases hmore : (p.fetch size s).1.hasMore with
    | true =>
      have hrow := length_pos_of_ne_nil (hproductive size s hmore)
      have hless := hshrinks size s
      obtain ⟨count, result, hrest⟩ := ih (left (p.fetch size s).2) (by omega) _ rfl
      refine ⟨count + 1, ((p.fetch size s).1.rows ++ result.1, result.2), ?_⟩
      rw [replicate_succ, drain_cons_of_more hmore, hrest]
      rfl
    | false =>
      exact ⟨1, _, drain_cons_of_end hmore []⟩

end Pager

/-! ## One pager after the other -/

/-- Pagers that are read in order, and the one whose turn it is. -/
structure Concat (σ : Type) where
  cursors : List σ
  current : Nat
  deriving DecidableEq, Repr

namespace Concat

variable {σ α : Type}

/-- The state after a page of the current member. -/
def advance (c : Concat σ) (page : Page α) (member : σ) : Concat σ where
  cursors := c.cursors.set c.current member
  current := if page.hasMore then c.current else c.current + 1

/-- The rows of a page that is being filled from the members in turn. -/
def gather (p : Pager σ α) (size : Nat) : Nat → List α → Concat σ → List α × Concat σ
  | 0, rows, c => (rows, c)
  | rounds + 1, rows, c =>
    if rows.length < size then
      match c.cursors[c.current]? with
      | none => (rows, c)
      | some member =>
        let (page, member) := p.fetch (size - rows.length) member
        gather p size rounds (rows ++ page.rows) (c.advance page member)
    else (rows, c)

/-- Rounds enough to fill a page: each delivers a row or ends a member. -/
def roundsFor (size : Nat) (c : Concat σ) : Nat := size + c.cursors.length

/-- The members as one pager. -/
def pager (p : Pager σ α) : Pager (Concat σ) α where
  fetch size c :=
    let size := max size 1
    let (rows, c) := gather p size (roundsFor size c) [] c
    (⟨rows, decide (c.current < c.cursors.length)⟩, c)

/-- A filled page, or no member left to fill it from. -/
def Filled (size : Nat) (result : List α × Concat σ) : Prop :=
  size ≤ result.1.length ∨ result.2.cursors.length ≤ result.2.current

@[simp] theorem length_advance (c : Concat σ) (page : Page α) (member : σ) :
    (c.advance page member).cursors.length = c.cursors.length := length_set ..

variable {p : Pager σ α} {size rounds : Nat} {rows : List α} {c : Concat σ} {member : σ}
  {pending : σ → List α}

theorem gather_of_full (h : ¬rows.length < size) : gather p size rounds rows c = (rows, c) := by
  cases rounds with
  | zero => rfl
  | succ =>
    exact if_neg h

theorem gather_of_none (h : c.cursors[c.current]? = none) :
    gather p size rounds rows c = (rows, c) := by
  cases rounds with
  | zero => rfl
  | succ =>
    rw [gather, h]
    exact ite_id ..

theorem gather_of_some (hrows : rows.length < size) (h : c.cursors[c.current]? = some member) :
    gather p size (rounds + 1) rows c =
      gather p size rounds (rows ++ (p.fetch (size - rows.length) member).1.rows)
        (c.advance (p.fetch (size - rows.length) member).1
          (p.fetch (size - rows.length) member).2) := by
  rw [gather, h]
  exact if_pos hrows

/-- The induction over the rounds: what holds of the start and survives a page of the
current member holds at the end. -/
theorem gather_induction {P : List α → Concat σ → Prop}
    (hstep : ∀ rows c member, rows.length < size → c.cursors[c.current]? = some member → P rows c →
      P (rows ++ (p.fetch (size - rows.length) member).1.rows)
      (c.advance (p.fetch (size - rows.length) member).1 (p.fetch (size - rows.length) member).2))
    (rounds : Nat) (h : P rows c) :
    P (gather p size rounds rows c).1 (gather p size rounds rows c).2 := by
  induction rounds generalizing rows c with
  | zero => exact h
  | succ rounds ih =>
    rcases Nat.lt_or_ge rows.length size with hrows | hrows
    · cases hmember : c.cursors[c.current]? with
      | none =>
        rw [gather_of_none hmember]
        exact h
      | some member =>
        rw [gather_of_some hrows hmember]
        exact ih (hstep rows c member hrows hmember h)
    · rw [gather_of_full (Nat.not_lt.mpr hrows)]
      exact h

theorem length_fetch (p : Pager σ α) (size : Nat) (c : Concat σ) :
    ((pager p).fetch size c).2.cursors.length = c.cursors.length :=
  gather_induction (P := fun _ c' => c'.cursors.length = c.cursors.length)
    (fun _ c' _ _ _ h => (length_advance c' _ _).trans h) _ rfl

/-- The rounds of a page are enough. -/
theorem filled_gather (hproductive : p.Productive)
    (h : size - rows.length + (c.cursors.length - c.current) ≤ rounds) :
    Filled size (gather p size rounds rows c) := by
  induction rounds generalizing rows c with
  | zero =>
    rw [gather, Filled]
    dsimp only
    omega
  | succ rounds ih =>
    rcases Nat.lt_or_ge rows.length size with hrows | hrows
    · cases hmember : c.cursors[c.current]? with
      | none =>
        rw [gather_of_none hmember]
        exact .inr (getElem?_eq_none_iff.mp hmember)
      | some member =>
        rw [gather_of_some hrows hmember]
        refine ih ?_
        -- a page with more to follow fills a row, and the last page ends the member
        have hcur := (List.getElem?_eq_some_iff.mp hmember).1
        rw [length_advance, length_append]
        cases hmore : (p.fetch (size - rows.length) member).1.hasMore with
        | true =>
          have hrow := length_pos_of_ne_nil (hproductive _ _ hmore)
          rw [advance, hmore]
          simp only [if_true]
          omega
        | false =>
          rw [advance, hmore]
          simp only [Bool.false_eq_true, if_false]
          omega
    · rw [gather_of_full (Nat.not_lt.mpr hrows)]
      exact .inl hrows

/-! ### The facts, from the members -/

/-- A property of every member, by its place. -/
def All (Inv : Nat → σ → Prop) (c : Concat σ) : Prop :=
  ∀ i member, c.cursors[i]? = some member → Inv i member

variable {Inv : Nat → σ → Prop} {page : Page α}

theorem all_advance (h : All Inv c) (hmember : Inv c.current member) :
    All Inv (c.advance page member) := by
  intro i other hother
  rw [advance] at hother
  rw [getElem?_set] at hother
  split at hother
  · rename_i heq
    subst heq
    split at hother
    · cases hother
      exact hmember
    · cases hother
  · exact h i other hother

theorem keeps_pager {sizes : Nat → Prop} (hkeeps : ∀ i, p.Keeps sizes (Inv i))
    (hsizes : ∀ part, 0 < part → part ≤ max size 1 → sizes part) (h : All Inv c) :
    All Inv ((pager p).fetch size c).2 := by
  refine gather_induction (P := fun _ c => All Inv c) ?_ _ h
  intro rows c member hrows hmember hall
  refine all_advance hall (hkeeps _ _ member (hsizes _ (by omega) (by omega)) ?_)
  exact hall _ member hmember

theorem productive_pager (hproductive : p.Productive) : (pager p).Productive := by
  intro size c hmore
  have hmore := of_decide_eq_true hmore
  have hfilled : Filled (max size 1) (gather p (max size 1) (roundsFor (max size 1) c) [] c) := by
    refine filled_gather hproductive ?_
    rw [roundsFor]
    omega
  rcases hfilled with hfull | hover
  · refine ne_nil_of_length_pos (Nat.lt_of_lt_of_le ?_ hfull)
    omega
  · exact absurd hmore (Nat.not_lt.mpr hover)

/-- The rows that are pending in the current member and those after it. -/
def pendingIn (pending : σ → List α) (c : Concat σ) : List α :=
  (c.cursors.drop c.current).flatMap pending

theorem pendingIn_of_some (h : c.cursors[c.current]? = some member) :
    pendingIn pending c = pending member ++ (c.cursors.drop (c.current + 1)).flatMap pending := by
  obtain ⟨hlt, rfl⟩ := List.getElem?_eq_some_iff.mp h
  rw [pendingIn, drop_eq_getElem_cons hlt, flatMap_cons]

theorem pendingIn_advance {old : σ} (h : c.cursors[c.current]? = some old)
    (hend : page.hasMore = false → pending member = []) :
    pendingIn pending (c.advance page member) =
      pending member ++ (c.cursors.drop (c.current + 1)).flatMap pending := by
  obtain ⟨hlt, -⟩ := List.getElem?_eq_some_iff.mp h
  have hdrop : (c.cursors.set c.current member).drop (c.current + 1) =
      c.cursors.drop (c.current + 1) := drop_set_of_lt (by omega)
  cases hmore : page.hasMore with
  | true =>
    have hat : (c.advance page member).cursors[(c.advance page member).current]? = some member := by
      rw [advance, hmore]
      exact getElem?_set_self hlt
    rw [pendingIn_of_some hat, advance, hmore]
    exact congrArg (fun rest => pending member ++ rest.flatMap pending) hdrop
  | false =>
    rw [advance, hmore, hend hmore]
    exact congrArg (fun rest => rest.flatMap pending) hdrop

theorem delivers_pager {Inv : σ → Prop} (hkeeps : p.Keeps (fun _ => True) Inv)
    (hdelivers : p.Delivers Inv pending) :
    (pager p).Delivers (All fun _ => Inv) (pendingIn pending) := by
  intro size c hall
  constructor
  · refine (gather_induction (P := fun rows c' => All (fun _ => Inv) c' ∧
      rows ++ pendingIn pending c' = pendingIn pending c) ?_ _ ⟨hall, nil_append _⟩).2
    rintro rows c' member - hmember ⟨hall', hsum⟩
    have hinv := hall' _ member hmember
    obtain ⟨hpage, hend⟩ := hdelivers ((max size 1) - rows.length) member hinv
    refine ⟨all_advance hall' (hkeeps _ member trivial hinv), ?_⟩
    rw [pendingIn_advance hmember hend, ← hsum, pendingIn_of_some hmember, ← hpage]
    simp only [append_assoc]
  · intro hmore
    have hover : ((pager p).fetch size c).2.cursors.length ≤ ((pager p).fetch size c).2.current :=
      Nat.not_lt.mp (of_decide_eq_false hmore)
    rw [pendingIn, drop_eq_nil_of_le hover, flatMap_nil]

/-- What is left in the members. -/
def leftIn (left : σ → Nat) (c : Concat σ) : Nat := (c.cursors.map left).sum

theorem leftIn_advance {left : σ → Nat} {c : Concat σ} {old : σ} (page : Page α) (member : σ)
    (h : c.cursors[c.current]? = some old) :
    leftIn left (c.advance page member) + left old = leftIn left c + left member := by
  obtain ⟨hlt, rfl⟩ := List.getElem?_eq_some_iff.mp h
  have hlt' : c.current < (c.cursors.map left).length := by rwa [length_map]
  have hold := sum_take_add_sum_drop (c.cursors.map left) c.current
  rw [drop_eq_getElem_cons hlt', sum_cons, getElem_map] at hold
  rw [leftIn, leftIn, advance, map_set, set_eq_take_append_cons_drop, if_pos hlt', sum_append,
    sum_cons]
  omega

theorem shrinks_pager {left : σ → Nat} (hshrinks : p.Shrinks left) :
    (pager p).Shrinks (leftIn left) := by
  intro size c
  refine gather_induction (P := fun rows c' => leftIn left c' + rows.length ≤ leftIn left c)
    ?_ _ (Nat.le_refl _)
  intro rows c' member _ hmember hsum
  have hpage := hshrinks ((max size 1) - rows.length) member
  have hmove := @leftIn_advance σ α left c' member (p.fetch (max size 1 - rows.length) member).1
    (p.fetch (max size 1 - rows.length) member).2 hmember
  rw [length_append]
  omega

/-- The members before the current one have announced their end. -/
def DoneBefore (Done : σ → Prop) (c : Concat σ) : Prop :=
  ∀ i member, i < c.current → c.cursors[i]? = some member → Done member

theorem doneBefore_fetch {Done : σ → Prop} (hfinishes : p.Finishes Done) (size : Nat)
    (h : DoneBefore Done c) : DoneBefore Done ((pager p).fetch size c).2 := by
  refine gather_induction (P := fun _ c => DoneBefore Done c) ?_ _ h
  intro rows c member _ hmember hdone i other hi hother
  have hfin := hfinishes ((max size 1) - rows.length) member
  rw [advance] at hi hother
  dsimp only at hi hother
  rw [getElem?_set] at hother
  split at hother
  · rename_i heq
    split at hother
    · cases hother
      refine hfin (Bool.eq_false_iff.mpr fun hmore => ?_)
      rw [if_pos hmore] at hi
      omega
    · cases hother
  · rename_i hne
    refine hdone i other ?_ hother
    split at hi <;> omega

theorem finishes_pager (p : Pager σ α) :
    (pager p).Finishes fun c => c.cursors.length ≤ c.current :=
  fun _ _ hmore => Nat.not_lt.mp (of_decide_eq_false hmore)

end Concat

end Neo4r.Foundation
