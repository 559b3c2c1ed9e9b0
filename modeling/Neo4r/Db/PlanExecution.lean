/-
  `Db.PlanExecution`: whether the steps of a plan can be carried out.

  The steps are planned from one table, and each is carried out on the table that the steps
  before it have left.  `Placed` says what those steps have made of a placement; from it, a step
  is accepted unless an earlier one has taken its target away or has made its server the
  primary.
-/
import Neo4r.Db.PrimaryTransfer

set_option autoImplicit false

namespace Neo4r.Db

open Foundation ShardRoutingTable ShardPlacement List Fallible

namespace ClusterDatabase

variable {R : Type} {replicator : ShardReplicator Command R} {s t u : ClusterDatabase R}

/-! ## Memberships -/

variable {α : Type} {p : α → Bool} {f : α → α}

theorem find?_modifyFirst (hf : ∀ a, p (f a) = p a) (l : List α) :
    (modifyFirst p f l).find? p = (l.find? p).map f := by
  induction l with
  | nil => rfl
  | cons a l ih =>
    rw [modifyFirst]
    cases hp : p a with
    | true => rw [if_pos rfl, find?_cons_of_pos ((hf a).trans hp), find?_cons_of_pos hp,
        Option.map_some]
    | false => rw [if_neg Bool.false_ne_true, find?_cons_of_neg (by simp [hp]),
        find?_cons_of_neg (by simp [hp]), ih]

theorem find?_modifyFirst_of_ne {q : α → Bool}
    (hf : ∀ a, p a = true → q a = false ∧ q (f a) = false) (l : List α) :
    (modifyFirst p f l).find? q = l.find? q := by
  induction l with
  | nil => rfl
  | cons a l ih =>
    rw [modifyFirst]
    cases hp : p a with
    | true => rw [if_pos rfl, find?_cons_of_neg (by simp [hf a hp]),
        find?_cons_of_neg (by simp [hf a hp])]
    | false => rw [if_neg Bool.false_ne_true, find?_cons, find?_cons, ih]

theorem find?_insertionSort (r : α → α → Prop) [DecidableRel r] (p : α → Bool)
    (h : ∀ a b, p a = true → p b = true → r a b) (l : List α) :
    (l.insertionSort r).find? p = l.find? p := by
  rw [← head?_filter, ← head?_filter, filter_insertionSort r p h]

/-- The server is a node that may be given shards. -/
def Available (serverId : Nat) (s : ClusterDatabase R) : Prop :=
  (∃ node ∈ s.membership.nodes, node.serverId = serverId) ∧
    ∀ node ∈ s.membership.nodes, node.serverId = serverId →
      node.state = .joining ∨ node.state = .active

theorem Available.ensureJoiningOrActiveNode {server : Nat} (h : s.Available server) :
    s.ensureJoiningOrActiveNode server = .ok () := by
  obtain ⟨⟨node, hnode, hid⟩, hstate⟩ := h
  have hsome : (s.membership.nodes.find? fun node => node.serverId = server).isSome = true := by
    rw [find?_isSome]
    exact ⟨node, hnode, decide_eq_true hid⟩
  obtain ⟨found, hfound⟩ := Option.isSome_iff_exists.mp hsome
  rw [ClusterDatabase.ensureJoiningOrActiveNode, hfound]
  refine if_pos (hstate found (mem_of_find?_eq_some hfound) ?_)
  exact of_decide_eq_true (find?_some hfound :)

/-- Only the membership is changed, and of the assignments only the one of a server. -/
structure Touches (shardId serverId : Nat) (s t : ClusterDatabase R) : Prop where
  core : t.core = s.core
  authority : t.authorityServerId = s.authorityServerId
  assignments : ∀ shardId' serverId', (shardId', serverId') ≠ (shardId, serverId) →
    t.assignment shardId' serverId' = s.assignment shardId' serverId'
  nodes : ∀ serverId', s.Available serverId' → t.Available serverId'
  saving : s.Saving → t.Saving

variable {shardId serverId : Nat} {old : ClusterShardAssignment}

theorem Touches.refl (s : ClusterDatabase R) : Touches shardId serverId s s :=
  ⟨rfl, rfl, fun _ _ _ => rfl, fun _ havail => havail, id⟩

theorem Touches.trans (h : Touches shardId serverId s t) (h' : Touches shardId serverId t u) :
    Touches shardId serverId s u where
  core := h'.core.trans h.core
  authority := h'.authority.trans h.authority
  assignments shardId' serverId' hne :=
    (h'.assignments shardId' serverId' hne).trans (h.assignments shardId' serverId' hne)
  nodes serverId' havail := h'.nodes serverId' (h.nodes serverId' havail)
  saving hs := h'.saving (h.saving hs)

instance : IsPreorder (ClusterDatabase R) (Touches shardId serverId) where
  refl := Touches.refl
  trans _ _ _ := Touches.trans

theorem any_assignment : (s.membership.shardAssignments.any fun assignment =>
    assignment.shardId = shardId && assignment.serverId = serverId) =
      (s.assignment shardId serverId).isSome := by
  rw [Bool.eq_iff_iff, any_eq_true, assignment, find?_isSome]

theorem assignment_saveMembership (shardId serverId : Nat) :
    (saveMembership.run s).2.assignment shardId serverId = s.assignment shardId serverId := by
  refine find?_insertionSort _ _ (fun a b ha hb => ?_) _
  simp only [Bool.and_eq_true, decide_eq_true_eq] at ha hb
  exact .inr ⟨ha.1.trans hb.1.symm, (ha.2.trans hb.2.symm).le⟩

theorem touches_saveMembership (s : ClusterDatabase R) :
    Touches shardId serverId s (saveMembership.run s).2 where
  core := rfl
  authority := rfl
  assignments shardId' serverId' _ := assignment_saveMembership shardId' serverId'
  nodes serverId' havail := by
    obtain ⟨⟨node, hnode, hid⟩, hstate⟩ := havail
    exact ⟨⟨node, (mem_insertionSort _).mpr hnode, hid⟩,
      fun node hnode => hstate node ((mem_insertionSort _).mp hnode)⟩
  saving := ignoresMembership_keepsSaving.saveMembership s

/-- The server with an assignment changed. -/
def withAssignment (shardId serverId : Nat)
    (f : ClusterShardAssignment → ClusterShardAssignment) (s : ClusterDatabase R) :
    ClusterDatabase R :=
  { s with membership := modifyAssignment shardId serverId f s.membership }

section

variable {f : ClusterShardAssignment → ClusterShardAssignment}
  (hf : ∀ a, (f a).shardId = a.shardId ∧ (f a).serverId = a.serverId)

include hf

theorem assignment_withAssignment :
    (s.withAssignment shardId serverId f).assignment shardId serverId =
      (s.assignment shardId serverId).map f := by
  refine find?_modifyFirst (fun a => ?_) s.membership.shardAssignments
  rw [(hf a).1, (hf a).2]

theorem touches_withAssignment (s : ClusterDatabase R) :
    Touches shardId serverId s (s.withAssignment shardId serverId f) where
  core := rfl
  authority := rfl
  assignments shardId' serverId' hne := by
    refine find?_modifyFirst_of_ne (fun a ha => ?_) s.membership.shardAssignments
    simp only [Bool.and_eq_true, decide_eq_true_eq] at ha
    have hother : (decide (a.shardId = shardId') && decide (a.serverId = serverId')) = false := by
      rw [Bool.eq_false_iff]
      intro hboth
      simp only [Bool.and_eq_true, decide_eq_true_eq] at hboth
      exact hne (Prod.ext (hboth.1.symm.trans ha.1) (hboth.2.symm.trans ha.2))
    rw [(hf a).1, (hf a).2]
    exact ⟨hother, hother⟩
  nodes _ havail := havail
  saving := id

/-- An assignment that is changed and saved. -/
theorem touches_record (hold : s.assignment shardId serverId = some old) :
    Touches shardId serverId s (saveMembership.run (s.withAssignment shardId serverId f)).2 ∧
      (saveMembership.run (s.withAssignment shardId serverId f)).2.assignment shardId serverId =
        some (f old) := by
  refine ⟨(touches_withAssignment hf s).trans (touches_saveMembership _), ?_⟩
  rw [assignment_saveMembership, assignment_withAssignment hf, hold, Option.map_some]

end

/-- A new assignment is the last of the list. -/
theorem touches_newAssignment (hnone : s.assignment shardId serverId = none) :
    Touches shardId serverId s { s with membership := { s.membership with
        shardAssignments :=
          s.membership.shardAssignments ++ [⟨shardId, serverId, .catchingUp, 0⟩] } } ∧
      ClusterDatabase.assignment shardId serverId { s with membership := { s.membership with
        shardAssignments :=
          s.membership.shardAssignments ++ [⟨shardId, serverId, .catchingUp, 0⟩] } } =
        some ⟨shardId, serverId, .catchingUp, 0⟩ := by
  refine ⟨⟨rfl, rfl, fun shardId' serverId' hne => ?_, fun _ havail => havail, id⟩, ?_⟩
  · rw [assignment, assignment, find?_append]
    have hother : ([⟨shardId, serverId, .catchingUp, 0⟩] : List ClusterShardAssignment).find?
        (fun assignment => assignment.shardId = shardId' && assignment.serverId = serverId') =
          none := by
      refine find?_cons_of_neg fun hboth => ?_
      simp only [Bool.and_eq_true, decide_eq_true_eq] at hboth
      exact hne (Prod.ext hboth.1.symm hboth.2.symm)
    rw [hother, Option.or_none]
  · rw [assignment] at hnone
    rw [assignment, find?_append, hnone, Option.none_or]
    exact find?_cons_of_pos (by simp)

/-- A settled node may still be given shards. -/
theorem Available.settle {serverId' : Nat} (h : s.Available serverId') {nodes : List ClusterNode}
    (hnodes : nodes = s.membership.nodes.map (settleNode s.core.routingTable)) :
    Available serverId' { s with membership := { s.membership with nodes } } := by
  obtain ⟨⟨node, hnode, hid⟩, hstate⟩ := h
  have hsettle : ∀ node : ClusterNode,
      (settleNode s.core.routingTable node).serverId = node.serverId ∧
        (node.state = .joining ∨ node.state = .active →
          (settleNode s.core.routingTable node).state = .joining ∨
            (settleNode s.core.routingTable node).state = .active) := by
    intro node
    rw [settleNode]
    by_cases hserves : node.state = .joining ∧ serves s.core.routingTable node.serverId = true
    · simp [hserves]
    · rw [if_neg hserves]
      by_cases hleaves : node.state = .draining ∧ serves s.core.routingTable node.serverId = false
      · rw [if_pos hleaves]
        refine ⟨rfl, fun hstate => ?_⟩
        rw [hleaves.1] at hstate
        simp at hstate
      · rw [if_neg hleaves]
        exact ⟨rfl, id⟩
  subst hnodes
  refine ⟨⟨_, mem_map_of_mem hnode, (hsettle node).1.trans hid⟩, fun settled hmem hsame => ?_⟩
  obtain ⟨node', hnode', rfl⟩ := mem_map.mp hmem
  exact (hsettle node').2 (hstate node' hnode' ((hsettle node').1.symm.trans hsame))

theorem touches_finishDrainedNodes :
    Respects (Touches shardId serverId) (finishDrainedNodes : Op R Unit) := by
  intro s
  rw [finishDrainedNodes, run_bind_of_ok (run_current s)]
  dsimp only
  split
  · exact Touches.refl s
  · refine Touches.trans ?_ (touches_saveMembership _)
    exact ⟨rfl, rfl, fun _ _ _ => rfl, fun _ havail => havail.settle rfl, id⟩

/-! ## Carrying out a step -/

/-- A step of a plan is carried out.  A server that is added is prepared first, and its
catch-up is reported complete. -/
def carryOutStep (replicator : ShardReplicator Command R) : RebalanceStep → Op R Unit
  | .addReplica shardId serverId => do
      let _ ← prepareRebalanceStep (.addReplica shardId serverId)
      let committedIndex ← lookup (committedIndex shardId)
      let _ ← markShardCaughtUp shardId serverId committedIndex
      let _ ← applyRebalanceStep replicator (.addReplica shardId serverId)
      pure ()
  | step => do
      let _ ← applyRebalanceStep replicator step
      pure ()

/-- The steps of a plan in order, up to the first that is rejected. -/
def carryOut (replicator : ShardReplicator Command R) (plan : List RebalanceStep) : Op R Unit :=
  forEach (carryOutStep replicator) plan

/-- The server whose assignment a step is about. -/
def serverOf : RebalanceStep → Nat
  | .addReplica _ serverId | .removeReplica _ serverId => serverId
  | .transferPrimary _ _ toServer => toServer

theorem touches_finishStep (step : RebalanceStep) :
    Respects (Touches (shardOf step) (serverOf step)) (finishStep step : Op R Unit) := by
  refine Respects.bind (fun s => ?_) fun _ => touches_finishDrainedNodes
  cases step with
  | addReplica | transferPrimary | removeReplica =>
    refine Touches.trans (touches_withAssignment ?_ s) (touches_saveMembership _)
    exact fun _ => ⟨rfl, rfl⟩

variable {shard server : Nat}

/-- A change of the membership, and its save. -/
theorem run_saved {f : ClusterDatabase R → ClusterDatabase R} (h : (f s).Saving) : (do
      change f
      saveMembership
      let db ← current
      pure db.membership : Op R ClusterMembership).run s =
        (.ok (saveMembership.run (f s)).2.membership, (saveMembership.run (f s)).2) := by
  obtain ⟨t, hsaved⟩ := saveMembership_ok h
  rw [run_bind_of_ok (run_change f s), run_bind_of_ok hsaved, hsaved]
  rfl

/-- **A server is prepared** if it may be given shards and does not hold this one. -/
theorem prepare_addReplica (hauth : s.ensureMetadataAuthority = .ok ()) (hsaving : s.Saving)
    (havail : s.Available server) (hnew : s.core.routingTable.hasLocalCopy shard server = false) :
    ∃ membership t, (prepareRebalanceStep (.addReplica shard server)).run s =
        (.ok membership, t) ∧ Touches shard server s t ∧
      ∃ assignment, t.assignment shard server = some assignment ∧
        assignment.state = .catchingUp := by
  have hcheck : s.checkPrepare (.addReplica shard server) = .ok () := by
    rw [checkPrepare, havail.ensureJoiningOrActiveNode]
    exact if_neg (by simp [hnew])
  rw [prepareRebalanceStep, run_lookup_of_ok hauth, run_lookup_of_ok hcheck]
  refine ⟨_, _, run_saved (f := fun db => { db with
    membership := startAssignment (.addReplica shard server) db.membership }) hsaving, ?_⟩
  rw [startAssignment, any_assignment]
  cases hassign : s.assignment shard server with
  | none =>
    obtain ⟨htouches, hstarted⟩ := touches_newAssignment hassign
    exact ⟨htouches.trans (touches_saveMembership _), _,
      (assignment_saveMembership _ _).trans hstarted, rfl⟩
  | some =>
    obtain ⟨htouches, hstarted⟩ := touches_record (f := fun a => { a with
      state := .catchingUp, matchIndex := 0 }) (fun _ => ⟨rfl, rfl⟩) hassign
    exact ⟨htouches, _, hstarted, rfl⟩

/-- **The catch-up of a prepared server** is recorded. -/
theorem markShardCaughtUp_ok (hauth : s.ensureMetadataAuthority = .ok ()) (hsaving : s.Saving)
    (hassign : s.assignment shard server = some old) (hstate : old.state = .catchingUp)
    (matchIndex : Nat) :
    ∃ membership t, (markShardCaughtUp shard server matchIndex).run s = (.ok membership, t) ∧
      Touches shard server s t ∧ ∃ assignment,
        t.assignment shard server = some assignment ∧ assignment.state = .caughtUp ∧
          assignment.matchIndex = matchIndex := by
  obtain ⟨htouches, hrecorded⟩ := touches_record (f := fun a => { a with
    state := .caughtUp, matchIndex }) (fun _ => ⟨rfl, rfl⟩) hassign
  rw [markShardCaughtUp, run_lookup_of_ok hauth, run_bind, run_lookup, hassign]
  dsimp only
  rw [if_pos (.inr (.inl hstate))]
  exact ⟨_, _, run_saved (f := fun db => { db with
    membership := modifyAssignment shard server ({ · with state := .caughtUp, matchIndex })
      db.membership }) hsaving, htouches, _, hrecorded, rfl, rfl⟩

theorem ensureAssignmentCaughtUp_ok (hshard : shard < s.core.shardCount)
    {assignment : ClusterShardAssignment} (hassign : s.assignment shard server = some assignment)
    (hstate : assignment.state = .caughtUp)
    (hmatch : assignment.matchIndex = s.core.commitIndexes shard) :
    s.ensureAssignmentCaughtUp shard server = .ok () := by
  have hcomm : s.committedIndex shard = .ok (s.core.commitIndexes shard) := if_pos hshard
  rw [ensureAssignmentCaughtUp, hassign]
  dsimp only
  rw [if_pos hstate, ensureAssignmentMatchIndex, hcomm]
  exact if_neg (by omega)

/-- **A server that is added** is ready when its step is applied. -/
theorem carryOutStep_addReplica (hs : s.Standing) (havail : s.Available server)
    (hshard : shard < s.core.shardCount)
    (hnew : s.core.routingTable.hasLocalCopy shard server = false) :
    ∃ t, Touches shard server s t ∧ t.ensureReady (.addReplica shard server) = .ok () ∧
      (carryOutStep replicator (.addReplica shard server)).run s =
        (applyRebalanceStep replicator (.addReplica shard server) >>=
          fun _ => pure ()).run t := by
  obtain ⟨_, t, hprepare, htouches, old, hold, hstate⟩ :=
    prepare_addReplica hs.ensureMetadataAuthority hs.saving havail hnew
  have hauth : t.ensureMetadataAuthority = .ok () := by
    rw [ClusterDatabase.ensureMetadataAuthority, htouches.core, htouches.authority]
    exact hs.ensureMetadataAuthority
  have hcomm : t.committedIndex shard = .ok (s.core.commitIndexes shard) := by
    rw [committedIndex, htouches.core, if_pos hshard]
  obtain ⟨_, u, hmark, htouches', assignment, hassign, hcaughtUp, hmatch⟩ :=
    markShardCaughtUp_ok hauth (htouches.saving hs.saving) hold hstate (s.core.commitIndexes shard)
  have hcore := htouches'.core.trans htouches.core
  refine ⟨u, htouches.trans htouches', ?_, ?_⟩
  · refine ensureAssignmentCaughtUp_ok (hcore ▸ hshard) hassign hcaughtUp ?_
    rw [hmatch, hcore]
  · rw [carryOutStep, run_bind_of_ok hprepare, run_lookup_of_ok hcomm, run_bind_of_ok hmark]

/-! ## What the steps make of a placement -/

/-- The step adds a replica to the shard. -/
def addsTo (shardId : Nat) : RebalanceStep → Bool
  | .addReplica shardId' _ => shardId' = shardId
  | _ => false

/-- The step removes a replica from the shard. -/
def removesFrom (shardId : Nat) : RebalanceStep → Bool
  | .removeReplica shardId' _ => shardId' = shardId
  | _ => false

/-- What the steps that are done have made of a placement. -/
structure Placed (done : List RebalanceStep) (placement after : ShardPlacement) : Prop where
  shardId : after.shardId = placement.shardId
  wellPlaced : after.WellPlaced
  servers : ∀ serverId, after.hasServer serverId = true ↔
    placement.hasServer serverId = true ∧ .removeReplica placement.shardId serverId ∉ done ∨
      .addReplica placement.shardId serverId ∈ done
  primary : ∀ serverId, after.primaryServerId = some serverId ↔
    (∃ fromServer, .transferPrimary placement.shardId fromServer serverId ∈ done) ∨
      placement.primaryServerId = some serverId ∧
        ∀ fromServer toServer, .transferPrimary placement.shardId fromServer toServer ∉ done
  count : after.replicas.length + done.countP (removesFrom placement.shardId) =
    placement.replicas.length + done.countP (addsTo placement.shardId)

variable {done : List RebalanceStep} {place after after' : ShardPlacement} {step : RebalanceStep}
  {fromServer toServer : Nat}

theorem placed_nil (h : place.WellPlaced) : Placed [] place place where
  shardId := rfl
  wellPlaced := h
  servers := by simp
  primary := by simp
  count := rfl

section

variable (h : Placed done place after)

include h

theorem Placed.other (hshard : shardOf step ≠ place.shardId) :
    Placed (done ++ [step]) place after := by
  have hne : ∀ step', shardOf step' = place.shardId → step' ∉ [step] := by
    rintro step' hshard' hmem
    rw [mem_singleton.mp hmem] at hshard'
    exact hshard hshard'
  have hcount : ∀ p : RebalanceStep → Bool, (∀ step', p step' = true →
      shardOf step' = place.shardId) → (done ++ [step]).countP p = done.countP p := by
    intro p hp
    rw [countP_append, countP_singleton, if_neg fun hstep => hshard (hp step hstep), Nat.add_zero]
  refine ⟨h.shardId, h.wellPlaced, fun serverId => ?_, fun serverId => ?_, ?_⟩
  · rw [h.servers]
    simp only [mem_append, hne (.removeReplica place.shardId serverId) rfl,
      hne (.addReplica place.shardId serverId) rfl, or_false]
  · rw [h.primary]
    simp only [mem_append, hne (.transferPrimary place.shardId _ _) rfl, or_false]
  · rw [hcount _ ?_, hcount _ ?_, h.count]
    all_goals
      intro step' hstep'
      cases step' with
      | addReplica | removeReplica => simp_all [addsTo, removesFrom, shardOf]
      | transferPrimary => simp [addsTo, removesFrom] at hstep'

/-- A server is added. -/
theorem Placed.add (hnew : place.hasServer serverId = false)
    (hfresh : .addReplica place.shardId serverId ∉ done) :
    after.hasServer serverId = false ∧
      Placed (done ++ [.addReplica place.shardId serverId]) place
        { after with replicas := after.replicas ++ [⟨serverId, .replica⟩] } := by
  have habsent : after.hasServer serverId = false := by
    rw [Bool.eq_false_iff, Ne, h.servers]
    rintro (⟨hserves, -⟩ | hadded)
    · rw [hnew] at hserves
      cases hserves
    · exact hfresh hadded
  have hplaced := wellPlaced_add h.wellPlaced habsent
  refine ⟨habsent, h.shardId, hplaced, fun server => ?_, fun server => ?_, ?_⟩
  · rw [hasServer_iff, map_append, mem_append, ← hasServer_iff, h.servers]
    simp only [map_singleton, mem_append, mem_singleton, reduceCtorEq, or_false,
      RebalanceStep.addReplica.injEq, true_and, or_assoc]
  · rw [hplaced.primaryServerId_iff, mem_append, ← h.wellPlaced.primaryServerId_iff, h.primary]
    simp
  · have hcount := h.count
    simp only [length_append, length_singleton, countP_append, countP_singleton,
      removesFrom, addsTo]
    simp
    omega

/-- The primary is transferred. -/
theorem Placed.transfer (hserves : after.hasServer toServer = true)
    (hfirst : ∀ fromServer toServer, .transferPrimary place.shardId fromServer toServer ∉ done) :
    Placed (done ++ [.transferPrimary place.shardId fromServer toServer]) place
      { after with replicas := after.replicas.map fun replica =>
        ⟨replica.serverId, if replica.serverId = toServer then .primary else .replica⟩ } := by
  have hplaced := wellPlaced_transfer h.wellPlaced hserves
  refine ⟨h.shardId, hplaced, fun server => ?_, fun server => ?_, ?_⟩
  · rw [hasServer_iff, map_map]
    have hsame : server ∈ after.replicas.map (·.serverId) ↔ after.hasServer server = true :=
      hasServer_iff.symm
    refine hsame.trans ((h.servers server).trans ?_)
    simp
  · rw [hplaced.primaryServerId_iff]
    have hmem : (⟨server, .primary⟩ : ShardReplica) ∈ after.replicas.map (fun replica =>
        ⟨replica.serverId, if replica.serverId = toServer then .primary else .replica⟩) ↔
          server = toServer := by
      rw [hasServer_iff] at hserves
      constructor
      · intro hin
        obtain ⟨replica, -, heq⟩ := mem_map.mp hin
        obtain ⟨rfl, hrole⟩ := ShardReplica.mk.inj heq
        by_contra hother
        rw [if_neg hother] at hrole
        cases hrole
      · rintro rfl
        obtain ⟨replica, hreplica, rfl⟩ := mem_map.mp hserves
        exact mem_map.mpr ⟨replica, hreplica, by rw [if_pos rfl]⟩
    rw [hmem]
    simp [hfirst]
  · have hcount := h.count
    simpa [countP_append, countP_singleton, removesFrom, addsTo] using hcount

end

/-- A server has one replica of a shard. -/
theorem length_remove (h : place.WellPlaced) (hserves : place.hasServer serverId = true) :
    (place.replicas.filter fun replica => replica.serverId ≠ serverId).length + 1 =
      place.replicas.length := by
  have hone : (place.replicas.map (·.serverId)).count serverId = 1 :=
    count_eq_one_of_mem h.distinct (hasServer_iff.mp hserves)
  rw [count, countP_map] at hone
  rw [length_eq_countP_add_countP ((· == serverId) ∘ (·.serverId)) (l := place.replicas),
    hone, Nat.add_comm 1, ← countP_eq_length_filter]
  refine congrArg (· + 1) (countP_congr fun replica _ => ?_)
  simp

/-- A replica beside the primary can be removed. -/
theorem editOf_remove (hserves : place.hasServer serverId = true)
    (hother : place.primaryServerId ≠ some serverId) (h : place.WellPlaced) :
    editOf (.removeReplica shard serverId) place = .ok { place with
      replicas := place.replicas.filter fun replica => replica.serverId ≠ serverId } := by
  have hplaced := wellPlaced_remove h hother
  have hlen := length_remove h hserves
  have hpos :
    0 < (place.replicas.filter fun replica => replica.serverId ≠ serverId).length := by
    obtain ⟨primary, hprim⟩ := hplaced.exists_primary
    have hmem : primary ∈ [primary] := mem_singleton_self primary
    rw [← hprim] at hmem
    exact length_pos_of_mem (mem_of_mem_filter hmem)
  rw [editOf, hserves, if_neg (by simp), if_neg hother, if_neg (by omega)]

/-- A replica that is not the primary is removed. -/
theorem Placed.remove (h : Placed done place after)
    (hserves : after.hasServer serverId = true) (hother : after.primaryServerId ≠ some serverId)
    (hold : place.hasServer serverId = true ∧ .addReplica place.shardId serverId ∉ done) :
    Placed (done ++ [.removeReplica place.shardId serverId]) place
      { after with replicas := after.replicas.filter fun replica =>
        replica.serverId ≠ serverId } := by
  have hplaced := wellPlaced_remove h.wellPlaced hother
  have hmem : ∀ replica : ShardReplica,
      replica ∈ after.replicas.filter (fun replica => replica.serverId ≠ serverId) ↔
        replica ∈ after.replicas ∧ replica.serverId ≠ serverId := by
    intro replica
    rw [mem_filter, decide_eq_true_eq]
  refine ⟨h.shardId, hplaced, fun server => ?_, fun server => ?_, ?_⟩
  · have hkeeps : ({ after with replicas := after.replicas.filter fun replica =>
        replica.serverId ≠ serverId }).hasServer server = true ↔
          after.hasServer server = true ∧ server ≠ serverId := by
      simp only [hasServer_iff, mem_map, hmem]
      constructor
      · rintro ⟨replica, ⟨hreplica, hne⟩, rfl⟩
        exact ⟨⟨replica, hreplica, rfl⟩, hne⟩
      · rintro ⟨⟨replica, hreplica, rfl⟩, hne⟩
        exact ⟨replica, ⟨hreplica, hne⟩, rfl⟩
    rw [hkeeps, h.servers]
    by_cases hserver : server = serverId
    · subst hserver
      simp [hold.2]
    · simp [hserver]
  · rw [hplaced.primaryServerId_iff, hmem, ← h.wellPlaced.primaryServerId_iff]
    have hne : after.primaryServerId = some server → server ≠ serverId := by
      rintro hprim rfl
      exact hother hprim
    rw [and_iff_left_of_imp hne, h.primary]
    simp
  · have hlen := length_remove h.wellPlaced hserves
    have hcount := h.count
    simp only [countP_append, countP_singleton, removesFrom, addsTo, decide_true, if_true,
      Bool.false_eq_true, if_false]
    omega

/-! ## Carrying out a plan -/

/-- The step is one that is planned from the table and the nodes. -/
def Planned (s : ClusterDatabase R) : RebalanceStep → Prop
  | .addReplica shardId serverId => s.Available serverId ∧
      ∃ placement, s.core.routingTable.placement shardId = some placement ∧
        placement.hasServer serverId = false
  | .transferPrimary shardId fromServer toServer =>
    ∃ placement, s.core.routingTable.placement shardId = some placement ∧
      placement.primaryServerId = some fromServer ∧
      (placement.replicas.find? fun replica => replica.serverId ≠ fromServer).map (·.serverId) =
        some toServer
  | .removeReplica shardId serverId =>
    ∃ placement, s.core.routingTable.placement shardId = some placement ∧
      placement.hasServer serverId = true ∧ placement.primaryServerId ≠ some serverId

/-- The state after some of the steps that were planned in an earlier one. -/
structure Carried (s : ClusterDatabase R) (done : List RebalanceStep) (t : ClusterDatabase R) :
    Prop where
  standing : t.Standing
  shardCount : t.core.shardCount = s.core.shardCount
  commitIndexes : t.core.commitIndexes = s.core.commitIndexes
  version : t.core.routingTable.version = s.core.routingTable.version + done.length
  placed : ∀ shardId placement, s.core.routingTable.placement shardId = some placement →
    ∃ after, t.core.routingTable.placement shardId = some after ∧ Placed done placement after
  assignments : ∀ shardId serverId,
    (∀ step ∈ done, (shardOf step, serverOf step) ≠ (shardId, serverId)) →
      t.assignment shardId serverId = s.assignment shardId serverId
  nodes : ∀ serverId, s.Available serverId → t.Available serverId
  ready : ∀ shardId fromServer toServer, .transferPrimary shardId fromServer toServer ∈ done →
    s.ensurePrimaryTransferTargetReady shardId toServer = .ok ()

theorem carried_nil (hs : s.Standing) : Carried s [] s where
  standing := hs
  shardCount := rfl
  commitIndexes := rfl
  version := rfl
  placed _ place hfound :=
    ⟨place, hfound, placed_nil (hs.wellFormed.placed _ (placement_mem hfound))⟩
  assignments _ _ _ := rfl
  nodes _ havail := havail
  ready _ _ _ hmem := absurd hmem not_mem_nil

variable {placement : ShardPlacement}

/-- Lookups after an edit. -/
theorem find?_editPlacement {edit : ShardPlacement → Except DatabaseError ShardPlacement}
    (hedit : ∀ placement placement', edit placement = .ok placement' →
      placement'.shardId = placement.shardId) {placements placements' : List ShardPlacement}
    (h : editPlacement shardId edit placements = .ok placements') :
    (∀ shardId', shardId' ≠ shardId →
      placements'.find? (fun placement => placement.shardId = shardId') =
        placements.find? (fun placement => placement.shardId = shardId')) ∧
      ∀ placement, placements.find? (fun placement => placement.shardId = shardId) =
        some placement → ∃ placement', edit placement = .ok placement' ∧
          placements'.find? (fun placement => placement.shardId = shardId) = some placement' := by
  obtain ⟨before, placement, placement', after, rfl, rfl, hshard, hok, hbefore⟩ :=
    editPlacement_ok h
  have hshard' : placement'.shardId = shardId := (hedit placement placement' hok).trans hshard
  have hnone : before.find? (fun placement => placement.shardId = shardId) = none := by
    rw [find?_eq_none]
    intro other hother
    simpa using hbefore other hother
  refine ⟨fun shardId' hne => ?_, fun found hfound => ?_⟩
  · rw [find?_append, find?_append,
      find?_cons_of_neg (by simpa [hshard'] using hne.symm),
      find?_cons_of_neg (by simpa [hshard] using hne.symm)]
  · rw [find?_append, hnone, find?_cons_of_pos (by simpa using hshard)] at hfound
    cases hfound
    refine ⟨placement', hok, ?_⟩
    rw [find?_append, hnone, Option.none_or, find?_cons_of_pos (by simpa using hshard')]

theorem Standing.of_touches (hs : s.Standing) (h : Touches shardId serverId s t) : t.Standing := by
  refine ⟨?_, ?_, ?_, ?_, h.saving hs.saving⟩
  · rw [h.core, h.authority]
    exact hs.authority
  · rw [h.core]
    exact hs.withoutRaft
  · rw [h.core]
    exact hs.wellFormed
  · rw [h.core]
    exact hs.version

/-- Whether a target is ready depends on the assignment and the commit index. -/
theorem ensurePrimaryTransferTargetReady_congr
    (hassign : t.assignment shardId serverId = s.assignment shardId serverId)
    (hcount : t.core.shardCount = s.core.shardCount)
    (hcommit : t.core.commitIndexes = s.core.commitIndexes) :
    t.ensurePrimaryTransferTargetReady shardId serverId =
      s.ensurePrimaryTransferTargetReady shardId serverId := by
  simp only [ensurePrimaryTransferTargetReady, ensureAssignmentMatchIndex, committedIndex,
    hassign, hcount, hcommit]

/-- A shard has one transfer in a plan. -/
theorem Planned.transfer_unique {fromServer' toServer' : Nat}
    (h : s.Planned (.transferPrimary shardId fromServer toServer))
    (h' : s.Planned (.transferPrimary shardId fromServer' toServer')) :
    fromServer' = fromServer ∧ toServer' = toServer := by
  obtain ⟨placement, hfound, hfrom, hto⟩ := h
  obtain ⟨placement', hfound', hfrom', hto'⟩ := h'
  cases hfound.symm.trans hfound'
  cases hfrom.symm.trans hfrom'
  exact ⟨rfl, Option.some.inj (hto'.symm.trans hto)⟩

/-- What the steps before a step must not have done. -/
def Allowed (s : ClusterDatabase R) (done : List RebalanceStep) : RebalanceStep → Prop
  | .addReplica _ _ => True
  | .transferPrimary shardId _ toServer => .removeReplica shardId toServer ∉ done ∧
      s.ensurePrimaryTransferTargetReady shardId toServer = .ok ()
  | .removeReplica shardId serverId =>
    ∀ fromServer, .transferPrimary shardId fromServer serverId ∉ done

theorem Planned.exists_placement (h : s.Planned step) :
    ∃ placement, s.core.routingTable.placement (shardOf step) = some placement := by
  cases step with
  | addReplica => exact ⟨h.2.choose, h.2.choose_spec.1⟩
  | transferPrimary | removeReplica => exact ⟨h.choose, h.choose_spec.1⟩

theorem Planned.hasServer_toServer (h : s.Planned (.transferPrimary shardId fromServer toServer))
    (hfound : s.core.routingTable.placement shardId = some placement) :
    placement.hasServer toServer = true := by
  obtain ⟨placement', hfound', -, hto⟩ := h
  cases hfound.symm.trans hfound'
  obtain ⟨replica, hreplica, hid⟩ := Option.map_eq_some_iff.mp hto
  rw [hasServer_iff, ← hid]
  exact mem_map_of_mem (mem_of_find?_eq_some hreplica)

/-- A server of the shard is not added to it. -/
theorem not_added (hfound : s.core.routingTable.placement shardId = some placement)
    (hserves : placement.hasServer serverId = true) (hplanned : ∀ step ∈ done, s.Planned step) :
    .addReplica shardId serverId ∉ done := by
  intro hmem
  obtain ⟨-, placement', hfound', hnew⟩ := hplanned _ hmem
  cases hfound.symm.trans hfound'
  rw [hserves] at hnew
  cases hnew

/-- **The edit of a planned step** on the placement that the steps before it have left. -/
theorem Placed.edit (h : Placed done placement after)
    (hfound : s.core.routingTable.placement (shardOf step) = some placement)
    (hplanned : s.Planned step) (hbefore : ∀ step' ∈ done, s.Planned step') (hfresh : step ∉ done) :
    (s.Allowed done step → ∃ after', editOf step after = .ok after') ∧
      ∀ after', editOf step after = .ok after' → Placed (done ++ [step]) placement after' := by
  have hshard := placement_shardId hfound
  cases step with
  | addReplica shardId serverId =>
    obtain rfl : placement.shardId = shardId := hshard
    obtain ⟨-, placement', hfound', hnew⟩ := hplanned
    cases hfound.symm.trans hfound'
    obtain ⟨habsent, hplaced⟩ := h.add hnew hfresh
    have hedit : editOf (.addReplica placement.shardId serverId) after =
        .ok { after with replicas := after.replicas ++ [⟨serverId, .replica⟩] } := by
      rw [editOf, habsent]
      rfl
    refine ⟨fun _ => ⟨_, hedit⟩, fun after' hok => ?_⟩
    cases hedit.symm.trans hok
    exact hplaced
  | transferPrimary shardId fromServer toServer =>
    obtain rfl : placement.shardId = shardId := hshard
    have hserves := hplanned.hasServer_toServer hfound
    have hfirst : ∀ fromServer' toServer',
        .transferPrimary placement.shardId fromServer' toServer' ∉ done := by
      intro fromServer' toServer' hmem
      obtain ⟨rfl, rfl⟩ := hplanned.transfer_unique (hbefore _ hmem)
      exact hfresh hmem
    refine ⟨fun hallowed => ?_, fun after' hok => ?_⟩
    · obtain ⟨placement', hfound', hfrom, -⟩ := hplanned
      cases hfound.symm.trans hfound'
      exact ⟨_, editOf_transfer ((h.primary fromServer).mpr (.inr ⟨hfrom, hfirst⟩))
        ((h.servers toServer).mpr (.inl ⟨hserves, hallowed.1⟩))⟩
    · obtain ⟨-, hhas, rfl⟩ := editOf_ok hok
      exact h.transfer hhas hfirst
  | removeReplica shardId serverId =>
    obtain rfl : placement.shardId = shardId := hshard
    obtain ⟨placement', hfound', hserves, hother⟩ := hplanned
    cases hfound.symm.trans hfound'
    have hhas : after.hasServer serverId = true := (h.servers serverId).mpr (.inl ⟨hserves, hfresh⟩)
    refine ⟨fun hallowed => ?_, fun after' hok => ?_⟩
    · refine ⟨_, editOf_remove hhas (fun hprim => ?_) h.wellPlaced⟩
      rcases (h.primary serverId).mp hprim with ⟨fromServer, hmem⟩ | ⟨hfirst, -⟩
      · exact hallowed fromServer hmem
      · exact hother hfirst
    · obtain ⟨-, hne, -, rfl⟩ := editOf_ok hok
      exact h.remove hhas hne ⟨hserves, not_added hfound hserves hbefore⟩

section

variable (h : Carried s done t)

include h

/-- The steps before a transfer leave the assignment of its target alone, if they do not
remove it. -/
theorem Carried.transfer_ready (hplanned : s.Planned (.transferPrimary shardId fromServer toServer))
    (hbefore : ∀ step' ∈ done, s.Planned step')
    (hfresh : .transferPrimary shardId fromServer toServer ∉ done)
    (hkept : .removeReplica shardId toServer ∉ done) :
    t.ensurePrimaryTransferTargetReady shardId toServer =
      s.ensurePrimaryTransferTargetReady shardId toServer := by
  refine ensurePrimaryTransferTargetReady_congr (h.assignments _ _ fun step hstep heq => ?_)
    h.shardCount h.commitIndexes
  obtain ⟨placement, hfound⟩ := hplanned.exists_placement
  obtain ⟨hshard, hserver⟩ := Prod.mk.inj heq
  cases step with
  | addReplica shardId' serverId' =>
    obtain ⟨rfl, rfl⟩ : shardId' = shardId ∧ serverId' = toServer := ⟨hshard, hserver⟩
    exact not_added hfound (hplanned.hasServer_toServer hfound) hbefore hstep
  | transferPrimary shardId' fromServer' toServer' =>
    obtain ⟨rfl, rfl⟩ : shardId' = shardId ∧ toServer' = toServer := ⟨hshard, hserver⟩
    obtain ⟨rfl, -⟩ := hplanned.transfer_unique (hbefore _ hstep)
    exact hfresh hstep
  | removeReplica shardId' serverId' =>
    obtain ⟨rfl, rfl⟩ : shardId' = shardId ∧ serverId' = toServer := ⟨hshard, hserver⟩
    exact hkept hstep

/-- A planned step gets to be applied, in a state that is ready for it if it is allowed. -/
theorem Carried.reach_apply (hplanned : s.Planned step)
    (hbefore : ∀ step' ∈ done, s.Planned step') (hfresh : step ∉ done) :
    ∃ t', Touches (shardOf step) (serverOf step) t t' ∧
      (carryOutStep replicator step).run t =
        (applyRebalanceStep replicator step >>= fun _ => pure ()).run t' ∧
      (s.Allowed done step → t'.ensureReady step = .ok ()) ∧
      ∀ shardId fromServer toServer, step = .transferPrimary shardId fromServer toServer →
        t'.ensureReady step = t.ensurePrimaryTransferTargetReady shardId toServer := by
  cases step with
  | addReplica shardId serverId =>
    obtain ⟨havail, placement, hfound, hnew⟩ := hplanned
    obtain ⟨after, hafter, hplaced⟩ := h.placed shardId placement hfound
    have habsent : after.hasServer serverId = false := by
      obtain rfl := placement_shardId hfound
      exact (hplaced.add hnew hfresh).1
    have hcopy : t.core.routingTable.hasLocalCopy shardId serverId = false := by
      rw [hasLocalCopy, hafter]
      exact habsent
    obtain ⟨t', htouches, hready, hrun⟩ := carryOutStep_addReplica h.standing
      (h.nodes serverId havail) (shard_lt h.standing.wellFormed hafter) hcopy
    exact ⟨t', htouches, hrun, fun _ => hready, fun _ _ _ heq => by cases heq⟩
  | transferPrimary =>
    refine ⟨t, .refl t, rfl, fun hallowed => ?_, fun _ _ _ heq => ?_⟩
    · exact (h.transfer_ready hplanned hbefore hfresh hallowed.1).trans hallowed.2
    · cases heq
      rfl
  | removeReplica =>
    exact ⟨t, .refl t, rfl, fun _ => rfl, fun _ _ _ heq => by cases heq⟩

/-- An allowed step is accepted as long as the version can rise. -/
theorem Carried.accepted (htakes : TakesTables replicator)
    (hplanned : s.Planned step) (hbefore : ∀ step' ∈ done, s.Planned step') (hfresh : step ∉ done)
    (hallowed : s.Allowed done step) (hroom : t.core.routingTable.version < u64Max) :
    ∃ u, (carryOutStep replicator step).run t = (.ok (), u) := by
  obtain ⟨t', htouches, hrun, hready, -⟩ :=
    @Carried.reach_apply R replicator s t done step h hplanned hbefore hfresh
  obtain ⟨placement, hfound⟩ := hplanned.exists_placement
  obtain ⟨after, hafter, hplaced⟩ := h.placed _ placement hfound
  obtain ⟨after', hedit⟩ := (hplaced.edit hfound hplanned hbefore hfresh).1 hallowed
  have haccepts : t'.Accepts replicator (.apply step) := by
    rw [(h.standing.of_touches htouches).accepts_iff htakes, tableAfter_iff, htouches.core]
    exact ⟨⟨hready hallowed, after, after', hafter, hedit⟩, hroom⟩
  obtain ⟨table, hok⟩ := haccepts
  rw [hrun, run_bind_of_ok (Prod.ext hok rfl)]
  exact ⟨_, rfl⟩

/-- **An accepted step** carries the plan on. -/
theorem Carried.next (hplanned : s.Planned step) (hbefore : ∀ step' ∈ done, s.Planned step')
    (hfresh : step ∉ done) (hok : (carryOutStep replicator step).run t = (.ok (), u)) :
    Carried s (done ++ [step]) u := by
  obtain ⟨t', htouches, hrun, -, htransfer⟩ :=
    @Carried.reach_apply R replicator s t done step h hplanned hbefore hfresh
  rw [hrun] at hok
  obtain ⟨table, v, happly, hpure⟩ := of_bind_ok hok
  cases hpure
  have hstand := h.standing.of_touches htouches
  rcases @applyRebalanceStep_cases R replicator t' hstand.withoutRaft step with
    ⟨err, r, hres, -⟩ | ⟨table', r, htable, hcheck, hinstd⟩
  · rw [happly] at hres
    cases hres
  · obtain ⟨_, hfinish⟩ :=
      finishStep_ok step (s := { t' with core := withTable t'.core r table' }) hstand.saving
    rw [run_bind_of_ok hfinish] at hinstd
    cases happly.symm.trans hinstd
    have hinst := touches_finishStep step { t' with core := withTable t'.core r table }
    rw [hfinish] at hinst
    have hroom := (hstand.checkNewTable htable).mp hcheck
    obtain ⟨hready, hver, hplaces⟩ := tableAfter_ok htable
    rw [saturatingAdd_one_of_lt hroom] at hver
    rw [htouches.core] at hver hplaces hroom
    obtain ⟨hothers, hshards⟩ := find?_editPlacement (fun _ _ hedit => shardId_editOf hedit) hplaces
    refine ⟨?_, ?_, ?_, ?_, ?_, ?_, ?_, ?_⟩
    · refine ⟨?_, ?_, ?_, ?_, hinst.saving hstand.saving⟩
      all_goals rw [hinst.core]
      · rw [hinst.authority]
        exact hstand.authority
      · exact hstand.withoutRaft
      · exact hstand.tableAfter_wellFormed htable
      · change table.version ≤ u64Max
        omega
    · rw [hinst.core]
      exact (congrArg Database.shardCount htouches.core).trans h.shardCount
    · rw [hinst.core]
      exact (congrArg Database.commitIndexes htouches.core).trans h.commitIndexes
    · rw [hinst.core, length_append, ← Nat.add_assoc, ← h.version]
      exact hver
    · intro shardId placement hfound
      obtain ⟨after, hafter, hplaced⟩ := h.placed shardId placement hfound
      rw [hinst.core]
      by_cases hshard : shardId = shardOf step
      · subst hshard
        obtain ⟨after', hedit, hfound'⟩ := hshards after hafter
        exact ⟨after', hfound', (hplaced.edit hfound hplanned hbefore hfresh).2 after' hedit⟩
      · refine ⟨after, (hothers shardId hshard).trans hafter, hplaced.other fun heq => hshard ?_⟩
        exact (placement_shardId hfound).symm.trans heq.symm
    · intro shardId serverId hapart
      rw [forall_mem_append, forall_mem_singleton] at hapart
      rw [hinst.assignments _ _ hapart.2.symm, ← h.assignments _ _ hapart.1]
      exact htouches.assignments _ _ hapart.2.symm
    · intro serverId havail
      exact hinst.nodes serverId (htouches.nodes serverId (h.nodes serverId havail))
    · intro shardId fromServer toServer hmem
      rcases mem_append.mp hmem with hdone | hlast
      · exact h.ready shardId fromServer toServer hdone
      · obtain rfl := mem_singleton.mp hlast
        obtain ⟨placement, hfound⟩ := hplanned.exists_placement
        obtain ⟨after, hafter, hplaced⟩ := h.placed _ placement hfound
        obtain ⟨after', hedit, -⟩ := hshards after hafter
        obtain ⟨-, hserves, -⟩ := editOf_ok hedit
        have hkept : .removeReplica shardId toServer ∉ done := by
          rcases (hplaced.servers toServer).mp hserves with ⟨-, hkept⟩ | hadded
          · rwa [placement_shardId hfound] at hkept
          · rw [placement_shardId hfound] at hadded
            exact absurd hadded (not_added hfound (hplanned.hasServer_toServer hfound) hbefore)
        rw [← h.transfer_ready hplanned hbefore hfresh hkept, ← htransfer _ _ _ rfl]
        exact hready

end

variable {rest : List RebalanceStep}

/-- **The accepted steps of a plan** carry it on. -/
theorem Carried.run (h : Carried s done t) (hplanned : ∀ step ∈ done ++ rest, s.Planned step)
    (hnodup : (done ++ rest).Nodup) (hok : (carryOut replicator rest).run t = (.ok (), u)) :
    Carried s (done ++ rest) u := by
  induction rest generalizing done t with
  | nil =>
    cases hok
    rwa [append_nil]
  | cons step rest ih =>
    obtain ⟨_, t', hstep, hrest⟩ := of_bind_ok hok
    rw [append_cons] at hplanned hnodup ⊢
    obtain ⟨hbefore, hfresh⟩ := forall_mem_append.mp hplanned
    rw [forall_mem_append, forall_mem_singleton] at hbefore
    refine ih (h.next hbefore.2 hbefore.1 ?_ hstep) hplanned hnodup hrest
    have hdist := (nodup_append.mp hnodup).1
    exact fun hmem => (nodup_append.mp hdist).2.2 step hmem step (mem_singleton_self step) rfl

/-- **Every step is accepted** if no target of a transfer is removed, every target is ready and
the version can rise often enough. -/
theorem Carried.run_accepted (h : Carried s done t) (htakes : TakesTables replicator)
    (hplanned : ∀ step ∈ done ++ rest, s.Planned step) (hnodup : (done ++ rest).Nodup)
    (hroom : s.core.routingTable.version + (done ++ rest).length ≤ u64Max)
    (htargets :
      ∀ shardId fromServer toServer, .transferPrimary shardId fromServer toServer ∈ done ++ rest →
      .removeReplica shardId toServer ∉ done ++ rest ∧
      s.ensurePrimaryTransferTargetReady shardId toServer = .ok ()) :
    ∃ u, (carryOut replicator rest).run t = (.ok (), u) := by
  induction rest generalizing done t with
  | nil => exact ⟨t, rfl⟩
  | cons step rest ih =>
    have hlen : (done ++ step :: rest).length = done.length + (rest.length + 1) := by
      rw [length_append, length_cons]
    have hstep : s.Planned step := hplanned step (by simp)
    have hbefore : ∀ step' ∈ done, s.Planned step' := fun step' hmem =>
      hplanned step' (mem_append_left _ hmem)
    have hfresh : step ∉ done := fun hmem =>
      (nodup_append.mp hnodup).2.2 step hmem step (.head _) rfl
    have hallowed : s.Allowed done step := by
      cases step with
      | addReplica => exact trivial
      | transferPrimary shardId fromServer toServer =>
        obtain ⟨hkept, hready⟩ := htargets shardId fromServer toServer (by simp)
        exact ⟨fun hmem => hkept (mem_append_left _ hmem), hready⟩
      | removeReplica shardId serverId =>
        intro fromServer hmem
        exact (htargets shardId fromServer serverId (mem_append_left _ hmem)).1 (by simp)
    obtain ⟨t', hrun⟩ := h.accepted htakes hstep hbefore hfresh hallowed (by
      rw [h.version]
      omega)
    rw [append_cons] at hplanned hnodup hroom htargets
    obtain ⟨u, hrest⟩ := ih (h.next hstep hbefore hfresh hrun) hplanned hnodup hroom htargets
    rw [carryOut, forEach, run_bind_of_ok hrun]
    exact ⟨u, hrest⟩

/-! ## The steps that are planned -/

theorem mem_addSteps {pairs : List (Nat × ShardPlacement)} {counts : Nat → Nat}
    (h : step ∈ s.addSteps pairs counts) :
    ∃ pair ∈ pairs, step = .addReplica pair.2.shardId pair.1 ∧ pair.2.hasServer pair.1 = false ∧
      counts pair.2.shardId < s.policy.replicationFactor := by
  induction pairs generalizing counts with
  | nil => cases h
  | cons pair pairs ih =>
    rw [addSteps] at h
    split at h
    · next hcond =>
      simp only [Bool.and_eq_true, decide_eq_true_eq, Bool.not_eq_true'] at hcond
      rcases mem_cons.mp h with rfl | hrest
      · exact ⟨pair, .head _, rfl, hcond.2.1, hcond.1⟩
      · obtain ⟨pair', hpair', heq, hnew, hcount⟩ := ih hrest
        refine ⟨pair', .tail _ hpair', heq, hnew, ?_⟩
        rw [Function.update_apply] at hcount
        split at hcount
        · next hsame =>
          rw [hsame]
          exact hcond.1
        · exact hcount
    · obtain ⟨pair', hpair', hrest⟩ := ih h
      exact ⟨pair', .tail _ hpair', hrest⟩

/-- The shard of a step and the node it is planned for. -/
def subject : RebalanceStep → Nat × Nat
  | .addReplica shardId serverId | .removeReplica shardId serverId => (shardId, serverId)
  | .transferPrimary shardId fromServer _ => (shardId, fromServer)

theorem addSteps_sublist (pairs : List (Nat × ShardPlacement)) (counts : Nat → Nat) :
    ((s.addSteps pairs counts).map subject).Sublist
      (pairs.map fun pair => (pair.2.shardId, pair.1)) := by
  induction pairs generalizing counts with
  | nil => exact Sublist.refl _
  | cons pair pairs ih =>
    rw [addSteps]
    split
    · exact (ih _).cons_cons _
    · exact (ih _).cons _

theorem flatMap_map_sublist {β γ : Type} {f : α → List β} {g : β → γ} {h : α → List γ}
    (hf : ∀ a, ((f a).map g).Sublist (h a)) (l : List α) :
    ((l.flatMap f).map g).Sublist (l.flatMap h) := by
  induction l with
  | nil => exact Sublist.refl _
  | cons a l ih =>
    rw [flatMap_cons, map_append]
    exact (hf a).append ih

/-- A draining server hands over the shard it is primary of, and leaves the others. -/
theorem of_mem_drainSteps (h : step ∈ drainSteps serverId place) :
    (place.primaryServerId = some serverId ∧ ∃ target,
      (place.replicas.find? fun replica => replica.serverId ≠ serverId) = some target ∧
      step = .transferPrimary place.shardId serverId target.serverId) ∨
    place.primaryServerId ≠ some serverId ∧ place.hasServer serverId = true ∧
      step = .removeReplica place.shardId serverId := by
  rw [drainSteps] at h
  split at h
  · next hprim =>
    split at h
    · next target htarget => exact .inl ⟨hprim, target, htarget, mem_singleton.mp h⟩
    · cases h
  · next hprim =>
    split at h
    · next hserves => exact .inr ⟨hprim, hserves, mem_singleton.mp h⟩
    · cases h

theorem drainSteps_sublist (server : Nat) (place : ShardPlacement) :
    ((drainSteps server place).map subject).Sublist [(place.shardId, server)] := by
  rw [drainSteps]
  split
  · split
    · exact Sublist.refl _
    · exact nil_sublist _
  · split
    · exact Sublist.refl _
    · exact nil_sublist _

/-- The nodes that join and those that drain. -/
def changing (s : ClusterDatabase R) : List ClusterNode :=
  (s.membership.nodes.filter fun node => node.state = .joining) ++
    s.membership.nodes.filter fun node => node.state = .draining

theorem nodup_changing (hnodes : (s.membership.nodes.map (·.serverId)).Nodup) :
    (s.changing.map (·.serverId)).Nodup := by
  rw [changing, map_append, nodup_append]
  refine ⟨hnodes.sublist (filter_sublist.map _), hnodes.sublist (filter_sublist.map _), ?_⟩
  intro server hjoining serverId' hdraining heq
  subst heq
  obtain ⟨node, hnode, rfl⟩ := mem_map.mp hjoining
  obtain ⟨node', hnode', hid⟩ := mem_map.mp hdraining
  rw [mem_filter, decide_eq_true_eq] at hnode hnode'
  rw [inj_on_of_nodup_map hnodes hnode'.1 hnode.1 hid, hnode.2] at hnode'
  cases hnode'.2

/-- **No step is planned twice.** -/
theorem nodup_generateRebalanceSteps (hs : s.Standing)
    (hnodes : (s.membership.nodes.map (·.serverId)).Nodup) : s.generateRebalanceSteps.Nodup := by
  have hsublist : (s.generateRebalanceSteps.map subject).Sublist (s.changing.flatMap fun node =>
      s.core.routingTable.placements.map fun place =>
        (place.shardId, node.serverId)) := by
    rw [generateRebalanceSteps, changing, flatMap_append, map_append]
    refine Sublist.append ((addSteps_sublist _ _).trans ?_) ?_
    · rw [map_flatMap]
      simp only [map_map]
      exact Sublist.refl _
    · refine flatMap_map_sublist (fun node => ?_) _
      have hinner := flatMap_map_sublist (drainSteps_sublist node.serverId)
        s.core.routingTable.placements
      rwa [← map_eq_flatMap] at hinner
  have hproduct :
    (s.changing.flatMap fun node => s.core.routingTable.placements.map fun place =>
      (place.shardId, node.serverId)).Nodup := by
    have hshards : (s.core.routingTable.placements.map (·.shardId)).Nodup :=
      hs.wellFormed.shards.nodup_iff.mpr nodup_range
    have hpairs := ((nodup_changing hnodes).product hshards).map Prod.swap_injective
    have heq : (s.changing.flatMap fun node => s.core.routingTable.placements.map fun place =>
        (place.shardId, node.serverId)) =
          (((s.changing.map (·.serverId)).flatMap fun server =>
          (s.core.routingTable.placements.map (·.shardId)).map (Prod.mk server))).map
            Prod.swap := by
      rw [flatMap_map, map_flatMap]
      simp only [map_map, Function.comp_def, Prod.swap_prod_mk]
    rw [heq]
    exact hpairs
  exact (hproduct.sublist hsublist).of_map subject

theorem available_of_joining (hnodes : (s.membership.nodes.map (·.serverId)).Nodup)
    {node : ClusterNode} (hnode : node ∈ s.membership.nodes) (hstate : node.state = .joining) :
    s.Available node.serverId := by
  refine ⟨⟨node, hnode, rfl⟩, fun node' hnode' hid => .inl ?_⟩
  rw [inj_on_of_nodup_map hnodes hnode' hnode hid, hstate]

theorem mem_drainSteps (hs : s.Standing) (hplace : place ∈ s.core.routingTable.placements)
    (h : step ∈ drainSteps server place) : s.Planned step := by
  have hfound := hs.wellFormed.placement_of_mem hplace
  rcases of_mem_drainSteps h with ⟨hprim, target, htarget, rfl⟩ | ⟨hprim, hserves, rfl⟩
  · exact ⟨place, hfound, hprim, by rw [htarget, Option.map_some]⟩
  · exact ⟨place, hfound, hserves, hprim⟩

/-- **Every step of a plan** is one for the table and the nodes it is planned from. -/
theorem planned_of_mem (hs : s.Standing) (hnodes : (s.membership.nodes.map (·.serverId)).Nodup)
    (h : step ∈ s.generateRebalanceSteps) : s.Planned step := by
  rcases mem_append.mp h with hadd | hdrain
  · obtain ⟨pair, hpair, rfl, hnew, -⟩ := mem_addSteps hadd
    obtain ⟨node, hnode, hinner⟩ := mem_flatMap.mp hpair
    obtain ⟨place, hplace, rfl⟩ := mem_map.mp hinner
    rw [mem_filter, decide_eq_true_eq] at hnode
    exact ⟨available_of_joining hnodes hnode.1 hnode.2, place,
      hs.wellFormed.placement_of_mem hplace, hnew⟩
  · obtain ⟨node, -, hinner⟩ := mem_flatMap.mp hdrain
    obtain ⟨place, hplace, hstep⟩ := mem_flatMap.mp hinner
    exact mem_drainSteps hs hplace hstep

theorem foldl_replicas {count : Nat} (l : List ShardPlacement) (start : Nat)
    (hsame : ∀ place ∈ l, place.shardId = shardId → place.replicas.length = count)
    (hstart : start = count ∨ ∃ place ∈ l, place.shardId = shardId) :
    l.foldl (fun count place =>
      if place.shardId = shardId then place.replicas.length else count) start = count := by
  induction l generalizing start with
  | nil => simpa using hstart
  | cons first l ih =>
    rw [forall_mem_cons] at hsame
    rw [foldl_cons]
    refine ih _ hsame.2 ?_
    by_cases hfirst : first.shardId = shardId
    · rw [if_pos hfirst]
      exact .inl (hsame.1 hfirst)
    · rw [if_neg hfirst]
      refine hstart.imp_right ?_
      rintro ⟨place, hmem, hid⟩
      rcases mem_cons.mp hmem with rfl | hrest
      · exact absurd hid hfirst
      · exact ⟨place, hrest, hid⟩

theorem replicaCounts_eq (hs : s.Standing)
    (hfound : s.core.routingTable.placement shardId = some place) :
    replicaCounts s.core.routingTable shardId = place.replicas.length := by
  refine foldl_replicas _ 0 (fun other hother hid => ?_)
    (.inr ⟨place, placement_mem hfound, placement_shardId hfound⟩)
  have hsame := hs.wellFormed.placement_of_mem hother
  rw [hid, hfound] at hsame
  rw [Option.some.inj hsame]

/-- Servers are only added to shards that lack replicas. -/
theorem count_addsTo (hs : s.Standing) (hfound : s.core.routingTable.placement shardId = some place)
    (hfull : s.policy.replicationFactor ≤ place.replicas.length) {plan : List RebalanceStep}
    (hplan : ∀ step ∈ plan, step ∈ s.generateRebalanceSteps) :
    plan.countP (addsTo shardId) = 0 := by
  rw [countP_eq_zero]
  intro step hstep hadds
  rcases mem_append.mp (hplan step hstep) with hadd | hdrain
  · obtain ⟨pair, -, rfl, -, hcount⟩ := mem_addSteps hadd
    have hshard : pair.2.shardId = shardId := by simpa [addsTo] using hadds
    rw [hshard, replicaCounts_eq hs hfound] at hcount
    omega
  · obtain ⟨node, -, hinner⟩ := mem_flatMap.mp hdrain
    obtain ⟨placement', -, hmem⟩ := mem_flatMap.mp hinner
    rcases of_mem_drainSteps hmem with ⟨-, target, -, rfl⟩ | ⟨-, -, rfl⟩ <;> cases hadds

/-! ## Plans that can be carried out -/

/-- Every step of the plan is accepted, and no shard that had enough replicas is left with too
few. -/
def CarriedOut (replicator : ShardReplicator Command R) (s : ClusterDatabase R)
    (plan : List RebalanceStep) : Prop :=
  ∃ t, (carryOut replicator plan).run s = (.ok (), t) ∧
    ∀ shardId placement after, s.core.routingTable.placement shardId = some placement →
      t.core.routingTable.placement shardId = some after →
        s.policy.replicationFactor ≤ placement.replicas.length →
          s.policy.replicationFactor ≤ after.replicas.length

/-- The version can rise once for every step; no server that a step makes the primary of a shard
is removed from it by another step, and its assignment is ready; a shard with enough replicas
loses no more than it has to spare. -/
structure Executable (s : ClusterDatabase R) (plan : List RebalanceStep) : Prop where
  version : s.core.routingTable.version + plan.length ≤ u64Max
  targets : ∀ shardId fromServer toServer, .transferPrimary shardId fromServer toServer ∈ plan →
    .removeReplica shardId toServer ∉ plan ∧
      s.ensurePrimaryTransferTargetReady shardId toServer = .ok ()
  replicas : ∀ shardId placement, s.core.routingTable.placement shardId = some placement →
    s.policy.replicationFactor ≤ placement.replicas.length →
      plan.countP (removesFrom shardId) + s.policy.replicationFactor ≤ placement.replicas.length

/-- The authority of a shard on servers 1, 2 and 3, of which some are draining. -/
def drainingServers (draining : List Nat) : ClusterDatabase Unit where
  core := { graphServer with routingTable := Database.raftTable 1 [1, 2, 3] }
  authorityServerId := 1
  policy := ⟨2, 100⟩
  membership := ⟨1, [1, 2, 3].map fun id =>
    ⟨id, "host", if id ∈ draining then .draining else .active⟩, []⟩
  savedPlan := none
  execution := none
  saves := []

/-- A plan whose steps are not all accepted, read off its evaluation. -/
theorem not_carriedOut {plan : List RebalanceStep}
    (h : ((carryOut replicator plan).run s).1.toOption.isSome = false) :
    ¬s.CarriedOut replicator plan := by
  rintro ⟨t, hrun, -⟩
  rw [hrun] at h
  cases h

end ClusterDatabase

end Neo4r.Db
