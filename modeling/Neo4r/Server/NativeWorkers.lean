/-
  `Server.NativeWorkers`: requests, their cancellation and the worker pool
  (`neo4r-server/src/backend/native_worker.rs`).

  A request is registered and put into a queue; a worker takes it from there, asks whether it
  was cancelled, and executes it otherwise.  The store of pending requests is locked for each
  of these steps anew, so cancellations and the end of a session come in between.
-/
import Neo4r.Foundation.Machine

set_option autoImplicit false

namespace Neo4r.Server

open Foundation Function

/-- `PendingRequestState`; a request is known by its session and its id. -/
structure PendingRequestState where
  pending : Finset (Nat × Nat)
  cancelled : Finset (Nat × Nat)

namespace PendingRequestState

variable (state : PendingRequestState)

/-- `register`. -/
def register (key : Nat × Nat) : PendingRequestState :=
  ⟨insert key state.pending, state.cancelled.erase key⟩

/-- `cancel`. -/
def cancel (key : Nat × Nat) : Bool × PendingRequestState :=
  if key ∈ state.pending then (true, { state with cancelled := insert key state.cancelled })
  else (false, state)

/-- `take_cancelled`. -/
def takeCancelled (key : Nat × Nat) : Bool × PendingRequestState :=
  (key ∈ state.cancelled, ⟨state.pending.erase key, state.cancelled.erase key⟩)

/-- `start`. -/
def start (key : Nat × Nat) : PendingRequestState :=
  ⟨state.pending.erase key, state.cancelled.erase key⟩

/-- `close_session`. -/
def closeSession (sessionId : Nat) : PendingRequestState :=
  ⟨state.pending.filter (·.1 ≠ sessionId), state.cancelled.filter (·.1 ≠ sessionId)⟩

end PendingRequestState

/-- How far a request has come. -/
inductive RequestStage
  | new
  /-- `submit` has registered it. -/
  | registered
  /-- `try_send` has put it into the queue. -/
  | queued
  /-- `try_send` has found the queue full. -/
  | refused
  /-- A worker has taken it from the queue. -/
  | received
  /-- It was not cancelled when the worker asked. -/
  | started
  | answered
  deriving DecidableEq

/-- What a request is answered with. -/
inductive RequestAnswer
  | result
  | cancelled
  | queueFull

/-- A request, and what has come of it: whether a cancellation of it returned true, how often
its frame was executed and its answers. -/
structure NativeRequest where
  key : Nat × Nat
  stage : RequestStage
  confirmed : Bool
  executions : Nat
  answers : List RequestAnswer

/-- The request has been submitted and not been answered. -/
def NativeRequest.Live (request : NativeRequest) : Prop :=
  request.stage ≠ .new ∧ request.stage ≠ .answered

instance (request : NativeRequest) : Decidable request.Live := inferInstanceAs (Decidable (_ ∧ _))

/-- `answer` is sent to the session of the request. -/
def NativeRequest.answer (request : NativeRequest) (answer : RequestAnswer) : NativeRequest :=
  { request with stage := .answered, answers := request.answers ++ [answer] }

/-- `NativeWorkerPool`, with every request ever submitted. -/
structure NativeWorkerPool where
  state : PendingRequestState
  jobs : List Nat
  requests : Nat → NativeRequest

namespace NativeWorkerPool

/-- The steps of `submit` and of `native_worker_loop`, and what may come in between. -/
inductive Event
  | register (n : Nat) (key : Nat × Nat)
  | trySend (n : Nat)
  | refuse (n : Nat)
  | receive
  | takeCancelled (n : Nat)
  | execute (n : Nat)
  | cancel (key : Nat × Nat)
  | closeSession (sessionId : Nat)

/-- A step of a submission or of a worker that has begun. -/
def Event.ofPool : Event → Bool
  | .trySend _ | .refuse _ | .receive | .takeCancelled _ | .execute _ => true
  | _ => false

/-- A request is replaced. -/
def set (s : NativeWorkerPool) (n : Nat) (request : NativeRequest) : NativeWorkerPool :=
  { s with requests := update s.requests n request }

/-- The pool after an event; the queue takes `capacity` jobs. -/
def next (capacity : Nat) (s : NativeWorkerPool) : Event → NativeWorkerPool
  | .register n key =>
      { s with state := s.state.register key }.set n ⟨key, .registered, false, 0, []⟩
  | .trySend n =>
      if s.jobs.length < capacity then
        { s with jobs := s.jobs ++ [n] }.set n { s.requests n with stage := .queued }
      else s.set n { s.requests n with stage := .refused }
  | .refuse n =>
      { s with state := s.state.start (s.requests n).key }.set n ((s.requests n).answer .queueFull)
  | .receive => match s.jobs with
      | [] => s
      | n :: jobs => { s with jobs }.set n { s.requests n with stage := .received }
  | .takeCancelled n =>
      let (cancelled, state) := s.state.takeCancelled (s.requests n).key
      { s with state }.set n <|
        if cancelled then (s.requests n).answer .cancelled
        else { s.requests n with stage := .started }
  | .execute n =>
      { s with state := s.state.start (s.requests n).key }.set n
        { (s.requests n).answer .result with executions := (s.requests n).executions + 1 }
  | .cancel key =>
      let (confirmed, state) := s.state.cancel key
      { s with
        state
        requests := fun n => let request := s.requests n
          if confirmed ∧ request.key = key ∧ request.Live then { request with confirmed := true }
          else request }
  | .closeSession sessionId => { s with state := s.state.closeSession sessionId }

/-- Requests of one session have different ids while they are live. -/
def machine (capacity : Nat) : Machine NativeWorkerPool Event where
  init s := s = ⟨⟨∅, ∅⟩, [], fun _ => ⟨(0, 0), .new, false, 0, []⟩⟩
  enabled s
    | .register n key => (s.requests n).stage = .new ∧
        ∀ m, (s.requests m).Live → (s.requests m).key ≠ key
    | .trySend n => (s.requests n).stage = .registered
    | .refuse n => (s.requests n).stage = .refused
    | .receive => s.jobs ≠ []
    | .takeCancelled n => (s.requests n).stage = .received
    | .execute n => (s.requests n).stage = .started
    | .cancel _ | .closeSession _ => True
  next := next capacity

/-- A session is closed when no cancellation of its requests is still to be seen by a worker. -/
def ClosesUncancelled (s : NativeWorkerPool) : Event → Prop
  | .closeSession sessionId => ∀ key ∈ s.state.cancelled, key.1 ≠ sessionId
  | _ => True

/-- What holds of a request at a stage. -/
def Fits (state : PendingRequestState) (request : NativeRequest) : RequestStage → Prop
  | .new => request.confirmed = false ∧ request.executions = 0 ∧ request.answers = []
  | .registered | .queued | .refused | .received =>
      (request.confirmed → request.key ∈ state.cancelled) ∧ request.executions = 0 ∧
        request.answers = []
  | .started => request.key ∉ state.pending ∧ request.confirmed = false ∧
      request.executions = 0 ∧ request.answers = []
  | .answered => (request.confirmed → request.executions = 0) ∧ request.executions ≤ 1 ∧
      request.answers.length = 1

structure Inv (s : NativeWorkerPool) : Prop where
  fits : ∀ n, Fits s.state (s.requests n) (s.requests n).stage
  distinct : ∀ n m, (s.requests n).Live → (s.requests m).Live →
    (s.requests n).key = (s.requests m).key → n = m
  jobs : ∀ n, n ∈ s.jobs ↔ (s.requests n).stage = .queued
  nodup : s.jobs.Nodup

variable {s : NativeWorkerPool} {state : PendingRequestState} {request : NativeRequest}
  {jobs : List Nat} {n capacity : Nat}

theorem Fits.congr {state' : PendingRequestState} (h : Fits state request request.stage)
    (hpending : request.Live → request.key ∈ state'.pending → request.key ∈ state.pending)
    (hcancelled : request.Live → request.key ∈ state.cancelled → request.key ∈ state'.cancelled) :
    Fits state' request request.stage := by
  unfold NativeRequest.Live at *
  cases hstage : request.stage <;> simp_all [Fits]

/-- The store has changed under one key only. -/
def OnlyAt (key : Nat × Nat) (state state' : PendingRequestState) : Prop :=
  ∀ other, other ≠ key → (other ∈ state'.pending → other ∈ state.pending) ∧
    (other ∈ state.cancelled → other ∈ state'.cancelled)

/-- One request changes, and what the store has under its key; other live requests have other
keys. -/
theorem Inv.set (h : Inv s) (n : Nat) (hfits : Fits state request request.stage)
    (hstate : OnlyAt request.key s.state state)
    (hkey : ∀ m, m ≠ n → (s.requests m).Live → (s.requests m).key ≠ request.key)
    (hjobs : ∀ m, m ∈ jobs ↔ if m = n then request.stage = .queued else m ∈ s.jobs)
    (hnodup : jobs.Nodup) : Inv ⟨state, jobs, update s.requests n request⟩ where
  fits m := by
    simp only [update_apply]
    split
    · exact hfits
    · next hm =>
      exact (h.fits m).congr (fun hlive => (hstate _ (hkey m hm hlive)).1)
        fun hlive => (hstate _ (hkey m hm hlive)).2
  distinct a b ha hb heq := by
    have := h.distinct a b
    grind
  jobs m := by
    have := h.jobs m
    grind
  nodup := hnodup

/-- A live request changes and keeps its key. -/
theorem Inv.setLive (h : Inv s) (hlive : (s.requests n).Live)
    (hkey : request.key = (s.requests n).key) (hfits : Fits state request request.stage)
    (hstate : OnlyAt request.key s.state state)
    (hjobs : ∀ m, m ∈ jobs ↔ if m = n then request.stage = .queued else m ∈ s.jobs)
    (hnodup : jobs.Nodup) : Inv ⟨state, jobs, update s.requests n request⟩ :=
  h.set n hfits hstate (fun m hm hlive' heq => hm (h.distinct m n hlive' hlive (heq.trans hkey)))
    hjobs hnodup

theorem Inv.next (h : Inv s) {event : Event}
    (henabled : ((machine capacity).restrict ClosesUncancelled).enabled s event) :
    Inv (next capacity s event) := by
  -- the stage of the request says that it is live, what fits it and whether it is queued
  have hstage : ∀ {n stage}, (s.requests n).stage = stage → stage ≠ .new → stage ≠ .answered →
      (s.requests n).Live ∧ Fits s.state (s.requests n) stage ∧ (n ∈ s.jobs ↔ stage = .queued) :=
    fun heq hnew hanswered => ⟨⟨heq ▸ hnew, heq ▸ hanswered⟩, heq ▸ h.fits _, heq ▸ h.jobs _⟩
  have hstart : ∀ key, OnlyAt key s.state (s.state.start key) := fun key other hne => by
    simp [PendingRequestState.start, hne]
  have hsame : ∀ key, OnlyAt key s.state s.state := fun _ _ _ => ⟨id, id⟩
  cases event with
  | register n =>
    obtain ⟨hnew, hkeys⟩ := henabled.1
    have := h.jobs n
    refine h.set n ⟨nofun, rfl, rfl⟩ (fun other hne => ?_) (fun m _ => hkeys m) (by grind) h.nodup
    simp [PendingRequestState.register, hne]
  | trySend n =>
    obtain ⟨hlive, hfits, hjob⟩ := hstage henabled.1 (by decide) (by decide)
    simp only [NativeWorkerPool.next]
    split
    · refine h.setLive hlive rfl hfits (hsame _) (by grind) ?_
      exact h.nodup.append (List.nodup_singleton n) (by simpa using hjob)
    · exact h.setLive hlive rfl hfits (hsame _) (by grind) h.nodup
  | refuse | execute =>
    obtain ⟨hlive, hfits, hjob⟩ := hstage henabled.1 (by decide) (by decide)
    refine h.setLive hlive rfl ?_ (hstart _) (by grind [NativeRequest.answer]) h.nodup
    simp [Fits, NativeRequest.answer, hfits.2]
  | receive =>
    simp only [NativeWorkerPool.next]
    cases hjobs : s.jobs with
    | nil => exact h
    | cons n jobs =>
      obtain ⟨hlive, hfits, -⟩ := hstage ((h.jobs n).mp (by rw [hjobs]; exact .head _)) (by decide)
        (by decide)
      have hnodup := h.nodup
      rw [hjobs] at hnodup
      exact h.setLive hlive rfl hfits (hsame _) (by grind) hnodup.of_cons
  | takeCancelled n =>
    obtain ⟨hlive, hfits, hjob⟩ := hstage henabled.1 (by decide) (by decide)
    simp only [NativeWorkerPool.next, PendingRequestState.takeCancelled]
    by_cases hcancelled : (s.requests n).key ∈ s.state.cancelled
    · simp only [hcancelled, decide_true, if_true]
      refine h.setLive hlive rfl ?_ (hstart _) (by grind [NativeRequest.answer]) h.nodup
      simp [Fits, NativeRequest.answer, hfits.2]
    · simp only [hcancelled, decide_false, Bool.false_eq_true, if_false]
      refine h.setLive hlive rfl ⟨Finset.notMem_erase _ _, ?_, hfits.2⟩ (hstart _)
        (by grind) h.nodup
      simpa using mt hfits.1 hcancelled
  | cancel =>
    simp only [NativeWorkerPool.next, PendingRequestState.cancel]
    split
    · refine ⟨fun n => ?_, fun n m hn hm heq => h.distinct n m ?_ ?_ ?_, fun n => ?_, h.nodup⟩
      · have hfits := h.fits n
        simp only [Fits, NativeRequest.Live] at hfits ⊢
        grind
      · grind [NativeRequest.Live]
      · grind [NativeRequest.Live]
      · grind
      · have := h.jobs n
        grind
    · simpa using h
  | closeSession sessionId =>
    have hclose : ∀ key ∈ s.state.cancelled, key.1 ≠ sessionId := henabled.2
    refine ⟨fun n => (h.fits n).congr (fun _ hmem => (Finset.mem_filter.mp hmem).1)
      fun _ hmem => Finset.mem_filter.mpr ⟨hmem, hclose _ hmem⟩, h.distinct, h.jobs, h.nodup⟩

/-- The pool has a step to do for a live request. -/
theorem Inv.exists_step (h : Inv s) (hlive : (s.requests n).Live) (capacity : Nat) :
    ∃ event : Event, event.ofPool ∧ (machine capacity).enabled s event := by
  cases hstage : (s.requests n).stage with
  | new => exact absurd hstage hlive.1
  | registered => exact ⟨.trySend n, rfl, hstage⟩
  | queued => exact ⟨.receive, rfl, List.ne_nil_of_mem ((h.jobs n).mpr hstage)⟩
  | refused => exact ⟨.refuse n, rfl, hstage⟩
  | received => exact ⟨.takeCancelled n, rfl, hstage⟩
  | started => exact ⟨.execute n, rfl, hstage⟩
  | answered => exact absurd hstage hlive.2

/-- Where no session is closed with a cancellation still to be seen, a request whose
cancellation returned true is not executed, every request is executed and answered at most
once, and each has one answer when the pool has nothing left to do. -/
theorem cancelled_not_executed (h : ((machine capacity).restrict ClosesUncancelled).Reachable s)
    (n : Nat) : ((s.requests n).confirmed → (s.requests n).executions = 0) ∧
      (s.requests n).executions ≤ 1 ∧ (s.requests n).answers.length ≤ 1 ∧
      ((∀ event : Event, event.ofPool → ¬(machine capacity).enabled s event) →
        (s.requests n).stage ≠ .new → (s.requests n).answers.length = 1) := by
  have hinv : Inv s := by
    refine h.invariant ?_ fun s event _ hs henabled => hs.next henabled
    rintro _ rfl
    exact ⟨fun n => ⟨rfl, rfl, rfl⟩, fun n m hn => absurd rfl hn.1, by simp, List.nodup_nil⟩
  have hfits := hinv.fits n
  unfold Fits at hfits
  by_cases hlive : (s.requests n).Live
  · obtain ⟨event, hpool, henabled⟩ := hinv.exists_step hlive capacity
    refine ⟨?_, ?_, ?_, fun hquiet => absurd henabled (hquiet event hpool)⟩
    all_goals grind [NativeRequest.Live]
  · grind [NativeRequest.Live]

/-- No requests. -/
def idle : NativeWorkerPool := ⟨⟨∅, ∅⟩, [], fun _ => ⟨(0, 0), .new, false, 0, []⟩⟩

/-- A request that is cancelled in the queue and not executed. -/
theorem cancelled_not_executed_queued :
    (((machine 1).run idle [.register 0 (7, 1), .trySend 0, .cancel (7, 1), .receive,
      .takeCancelled 0, .closeSession 7]).requests 0).executions = 0 := by
  have hstart : ((machine 1).restrict ClosesUncancelled).Reachable idle := .start rfl
  have hrun : ((machine 1).restrict ClosesUncancelled).Admissible idle [.register 0 (7, 1),
      .trySend 0, .cancel (7, 1), .receive, .takeCancelled 0, .closeSession 7] :=
    ⟨⟨⟨rfl, fun m hm => absurd rfl hm.1⟩, trivial⟩, ⟨rfl, trivial⟩, ⟨trivial, trivial⟩,
      ⟨List.cons_ne_nil _ _, trivial⟩, ⟨rfl, trivial⟩,
      ⟨trivial, fun _ hmem => absurd hmem (Finset.notMem_empty _)⟩, trivial⟩
  exact (cancelled_not_executed (hstart.run hrun) 0).1 (by decide)

/-- A request is cancelled in the queue, and its session is closed before a worker takes it:
the cancellation returned true, and the request is executed. -/
theorem cancelled_executed_after_close :
    ∃ request, request = ((machine 1).run idle [.register 0 (7, 1), .trySend 0, .cancel (7, 1),
        .closeSession 7, .receive, .takeCancelled 0, .execute 0]).requests 0 ∧
      request.confirmed = true ∧ request.executions = 1 :=
  ⟨_, rfl, by decide, by decide⟩

end NativeWorkerPool

end Neo4r.Server
