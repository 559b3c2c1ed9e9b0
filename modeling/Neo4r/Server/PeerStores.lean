/-
  `Server.PeerStores`: what a server keeps about the others (`neo4r-server/src/peer_store.rs`).

  A stored identity may name the node its server replicates from, and following these names
  gives a chain of servers.  The cycle check walks the chain from the new identity's node and
  stops at the first server it has seen, the new one being seen from the start.  A server seen
  twice need not be the new one: a stored server may name itself.

  A gossiped record of a node is stored if its incarnation is not below the stored one.  The
  incarnation of a node never falls, but among records of one incarnation the last one delivered
  stays, so that two servers agree on a node only if its records of the highest incarnation do.
-/
import Neo4r.Foundation.FiniteMap

set_option autoImplicit false

namespace Neo4r.Server

open Foundation List Relation

/-! ## Replication peers -/

/-- `ReplicationPeerIdentity`, for the field the check reads. -/
structure ReplicationPeerIdentity where
  nodeId : Option Nat
  deriving DecidableEq, Repr

/-- The identities by server id. -/
abbrev ReplicationPeerIdentities := FiniteMap Nat ReplicationPeerIdentity

namespace ReplicationPeerIdentities

variable (identities : ReplicationPeerIdentities)

/-- The loop of `would_create_cycle`.  Each turn adds a key of the store to `seen`. -/
def walk (seen : Finset Nat) (current : Nat) : Bool :=
  if current ∈ seen then true
  else
    match _hget : identities.get current with
    | none => false
    | some identity =>
      match identity.nodeId with
      | none => false
      | some next => walk (insert current seen) next
termination_by (identities.keys.toFinset \ seen).card
decreasing_by
  have hkey : current ∈ identities.keys := by simp [FiniteMap.mem_keys, _hget]
  refine Finset.card_lt_card ⟨Finset.sdiff_subset_sdiff subset_rfl (Finset.subset_insert _ _), ?_⟩
  intro hsub
  have hmem := hsub (Finset.mem_sdiff.mpr ⟨List.mem_toFinset.mpr hkey, ‹_›⟩)
  simp at hmem

/-- `would_create_cycle`. -/
def wouldCreateCycle (serverId : Nat) (nodeId : Option Nat) : Bool :=
  match nodeId with
  | none => false
  | some current => if current = serverId then false else identities.walk {serverId} current

/-! ### Chains -/

/-- The server that a server's stored identity names. -/
def next (server : Nat) : Option Nat := (identities.get server).bind (·.nodeId)

/-- One step along a chain. -/
def Names (server named : Nat) : Prop := named ∈ identities.next server

/-- The chain from a server comes to a given set of servers, or to a cycle. -/
def ComesBack (seen : Finset Nat) (start : Nat) : Prop :=
  ∃ server, ReflTransGen identities.Names start server ∧
    (server ∈ seen ∨ TransGen identities.Names server server)

variable {identities}

theorem comesBack_iff {seen : Finset Nat} {start : Nat} (hseen : start ∉ seen) :
    identities.ComesBack seen start ↔
      ∃ following ∈ identities.next start, identities.ComesBack (insert start seen) following := by
  constructor
  · rintro ⟨server, hreach, hfound⟩
    rcases hreach.cases_head with rfl | ⟨following, hnames, hrest⟩
    · obtain ⟨following, hnames, hback⟩ := TransGen.head'_iff.mp (hfound.resolve_left hseen)
      exact ⟨following, hnames, start, hback, .inl (Finset.mem_insert_self _ _)⟩
    · exact ⟨following, hnames, server, hrest, hfound.imp_left Finset.mem_insert_of_mem⟩
  · rintro ⟨following, hnames, server, hrest, hfound⟩
    rcases hfound with hinsert | hcycle
    · rcases Finset.mem_insert.mp hinsert with rfl | hold
      · exact ⟨server, .refl, .inr (.head' hnames hrest)⟩
      · exact ⟨server, .head hnames hrest, .inl hold⟩
    · exact ⟨server, .head hnames hrest, .inr hcycle⟩

/-- What the walk decides. -/
theorem walk_eq_true_iff (seen : Finset Nat) (current : Nat) :
    identities.walk seen current = true ↔ identities.ComesBack seen current := by
  fun_induction walk identities seen current with
  | case1 seen current hseen => exact iff_of_true rfl ⟨current, .refl, .inl hseen⟩
  | case2 seen current hseen hget => simp [comesBack_iff hseen, next, hget]
  | case3 seen current hseen identity hget hnode => simp [comesBack_iff hseen, next, hget, hnode]
  | case4 seen current hseen identity hget following hnode ih =>
    simp [comesBack_iff hseen, next, hget, hnode, ih]

/-! ### Exactness -/

variable (identities) (serverId : Nat) (nodeId : Option Nat)

/-- Every cycle of the chains is a server that names itself. -/
def OnlySelfCycles : Prop :=
  ∀ server, TransGen identities.Names server server → identities.Names server server

/-- The chain from the new identity's node comes to the new server, through another one. -/
def ReachesThroughAnother : Prop :=
  ∃ node ∈ nodeId, node ≠ serverId ∧ ReflTransGen identities.Names node serverId

/-- The chain from the new identity's node comes to a server that names itself, and not to the
new one. -/
def EndsInSelfNaming : Prop :=
  ∃ node ∈ nodeId,
    (∃ server, ReflTransGen identities.Names node server ∧ identities.Names server server) ∧
      ¬ ReflTransGen identities.Names node serverId

variable {identities}

/-- The check is exact but for the chains that end in a server naming itself: these it takes
for cycles. -/
theorem wouldCreateCycle_exact_iff (hself : identities.OnlySelfCycles) :
    (identities.wouldCreateCycle serverId nodeId = true ↔
        identities.ReachesThroughAnother serverId nodeId) ↔
      ¬ identities.EndsInSelfNaming serverId nodeId := by
  cases nodeId with
  | none => simp [wouldCreateCycle, ReachesThroughAnother, EndsInSelfNaming]
  | some node =>
    simp only [ReachesThroughAnother, EndsInSelfNaming, Option.mem_some_iff, exists_eq_left']
    by_cases hother : node = serverId
    · simp [wouldCreateCycle, hother, ReflTransGen.refl]
    · rw [wouldCreateCycle, if_neg hother, walk_eq_true_iff]
      constructor
      · rintro hexact ⟨⟨server, hreach, hnames⟩, havoid⟩
        exact havoid (hexact.mp ⟨server, hreach, .inr (.single hnames)⟩).2
      · intro hends
        constructor
        · rintro ⟨server, hreach, hnew | hcycle⟩
          · exact ⟨hother, Finset.mem_singleton.mp hnew ▸ hreach⟩
          · by_contra hreaches
            exact hends ⟨⟨server, hreach, hself server hcycle⟩, fun hnew => hreaches ⟨hother, hnew⟩⟩
        · rintro ⟨-, hreach⟩
          exact ⟨serverId, hreach, .inl (Finset.mem_singleton_self _)⟩

/-- A store whose server 2 names itself. -/
def selfNamingStore : ReplicationPeerIdentities := FiniteMap.empty.insert 2 ⟨some 2⟩

theorem names_selfNamingStore {server named : Nat} :
    selfNamingStore.Names server named ↔ server = 2 ∧ named = 2 := by
  by_cases h : server = 2 <;>
    simp [Names, next, selfNamingStore, FiniteMap.get_insert, h, eq_comm]

theorem onlySelfCycles_selfNamingStore : selfNamingStore.OnlySelfCycles := by
  intro server hcycle
  obtain ⟨_, hnames, -⟩ := TransGen.head'_iff.mp hcycle
  have hserver := (names_selfNamingStore.mp hnames).1
  exact names_selfNamingStore.mpr ⟨hserver, hserver⟩

theorem wouldCreateCycle_exact_selfNamingStore : selfNamingStore.OnlySelfCycles ∧
    ((selfNamingStore.wouldCreateCycle 1 (some 2) = true ↔
        selfNamingStore.ReachesThroughAnother 1 (some 2)) ↔
      ¬ selfNamingStore.EndsInSelfNaming 1 (some 2)) :=
  ⟨onlySelfCycles_selfNamingStore, wouldCreateCycle_exact_iff _ _ onlySelfCycles_selfNamingStore⟩

/-- Server 1 replicating from server 2 is refused as a cycle, though 2 leads to itself only. -/
theorem wouldCreateCycle_selfNamingStore : selfNamingStore.OnlySelfCycles ∧
    selfNamingStore.wouldCreateCycle 1 (some 2) = true ∧
      ¬ selfNamingStore.ReachesThroughAnother 1 (some 2) := by
  refine ⟨onlySelfCycles_selfNamingStore, by decide +kernel, ?_⟩
  rintro ⟨_, -, hother, hreach⟩
  rcases hreach.cases_tail with heq | ⟨_, -, hnames⟩
  · exact hother heq.symm
  · simp [names_selfNamingStore] at hnames

end ReplicationPeerIdentities

/-! ## Gossiped nodes -/

/-- `GossipNodeRecord`. -/
structure GossipNodeRecord where
  serverId : Nat
  queryAddress : String
  replicationAddress : String
  incarnation : Nat
  ttlMs : Nat
  seenAtMs : Nat
  deriving DecidableEq, Repr

namespace GossipNodeRecord

/-- `validate_gossip_node`. -/
def validate (record : GossipNodeRecord) : Except String Unit :=
  if record.serverId = 0 then .error "gossip node server id must be greater than zero"
  else if [record.queryAddress, record.replicationAddress].any fun value =>
      value.isEmpty || value.toList.any (['\t', '\n', '\r'].contains ·) then
    .error "invalid gossip node address"
  else .ok ()

/-- The record without the time at which the server has seen it. -/
def contents (record : GossipNodeRecord) : GossipNodeRecord := { record with seenAtMs := 0 }

end GossipNodeRecord

/-- The records by server id. -/
abbrev GossipNodes := FiniteMap Nat GossipNodeRecord

/-- `GossipNodeStore::upsert`. -/
def GossipNodes.upsert (nodes : GossipNodes) (record : GossipNodeRecord) :
    Except String Bool × GossipNodes :=
  match record.validate with
  | .error message => (.error message, nodes)
  | .ok () =>
    if (nodes.get record.serverId).all (·.incarnation ≤ record.incarnation) then
      (.ok true, nodes.insert record.serverId record)
    else (.ok false, nodes)

variable (records : List GossipNodeRecord) (server : Nat) (record : GossipNodeRecord)

/-- What deliveries in turn leave in an empty store. -/
def deliverGossip : GossipNodes :=
  records.foldl (fun nodes record => (nodes.upsert record).2) .empty

/-! ### What is stored -/

/-- A delivered record that may be stored for a server. -/
def GossipCandidate : Prop :=
  record ∈ records ∧ record.validate = .ok () ∧ record.serverId = server

/-- A candidate of the highest incarnation. -/
def LatestGossip : Prop :=
  GossipCandidate records server record ∧
    ∀ other, GossipCandidate records server other → other.incarnation ≤ record.incarnation

theorem gossipCandidate_concat {other : GossipNodeRecord} :
    GossipCandidate (records ++ [record]) server other ↔ GossipCandidate records server other ∨
      other = record ∧ record.validate = .ok () ∧ record.serverId = server := by
  simp only [GossipCandidate, mem_append, mem_singleton]
  grind

theorem deliverGossip_concat :
    deliverGossip (records ++ [record]) = ((deliverGossip records).upsert record).2 :=
  foldl_concat ..

/-- The store holds a candidate of the highest incarnation, if there is one. -/
theorem get_deliverGossip :
    (∀ record, (deliverGossip records).get server = some record →
        LatestGossip records server record) ∧
      ((deliverGossip records).get server = none →
        ∀ record, ¬ GossipCandidate records server record) := by
  induction records using reverseRecOn with
  | nil => simp [deliverGossip, GossipCandidate]
  | append_singleton records record ih =>
    rw [deliverGossip_concat, GossipNodes.upsert]
    simp only [LatestGossip, gossipCandidate_concat] at ih ⊢
    generalize deliverGossip records = nodes at ih ⊢
    cases hvalid : record.validate with
    | error => simpa [hvalid] using ih
    | ok => cases hold : nodes.get record.serverId <;> grind [FiniteMap.get_insert]

variable {records server record} in
theorem get_deliverGossip_concat (hlatest : LatestGossip records server record) :
    (deliverGossip (records ++ [record])).get server = some record := by
  obtain ⟨⟨-, hvalid, rfl⟩, -⟩ := id hlatest
  rw [deliverGossip_concat, GossipNodes.upsert, hvalid]
  have haccepts : ((deliverGossip records).get record.serverId).all
      (·.incarnation ≤ record.incarnation) = true := by
    simp only [Option.all_eq_true, decide_eq_true_eq]
    intro old hold
    exact hlatest.2 old ((get_deliverGossip records record.serverId).1 old hold).1
  simp [haccepts]

/-! ### Convergence -/

/-- What is stored of a server: its addresses, incarnation and time to live. -/
def storedContents : Option GossipNodeRecord :=
  ((deliverGossip records).get server).map (·.contents)

/-- All deliveries of some records, in any order and number, leave the same nodes. -/
def GossipConverges : Prop :=
  ∀ first second : List GossipNodeRecord, (∀ record, record ∈ first ↔ record ∈ records) →
    (∀ record, record ∈ second ↔ record ∈ records) →
      ∀ server, storedContents first server = storedContents second server

/-- An accepted record does not lower the incarnation of its node. -/
def NeverLowersIncarnation : Prop :=
  ∀ (nodes : GossipNodes) (record : GossipNodeRecord), (nodes.upsert record).1 = .ok true →
    ∀ old ∈ nodes.get record.serverId, ∀ new ∈ (nodes.upsert record).2.get record.serverId,
      old.incarnation ≤ new.incarnation

theorem neverLowersIncarnation : NeverLowersIncarnation := by
  intro nodes record haccepted old hold new hnew
  rw [GossipNodes.upsert] at haccepted hnew
  grind [FiniteMap.get_insert_self, Option.mem_def]

/-- The records of the highest incarnation of a node have the same contents. -/
def LatestAgree : Prop :=
  ∀ server first second, LatestGossip records server first → LatestGossip records server second →
    first.contents = second.contents

variable {records server} in
theorem storedContents_congr {deliveries : List GossipNodeRecord} (hagree : LatestAgree records)
    (hsame : ∀ record, record ∈ deliveries ↔ record ∈ records) :
    storedContents deliveries server = storedContents records server := by
  have hfirst := get_deliverGossip deliveries server
  have hsecond := get_deliverGossip records server
  simp only [LatestGossip, GossipCandidate, hsame] at hfirst
  rw [storedContents, storedContents]
  cases hget : (deliverGossip deliveries).get server with
  | none =>
    cases hget' : (deliverGossip records).get server with
    | none => rfl
    | some second => exact absurd (hsecond.1 second hget').1 (hfirst.2 hget second)
  | some first =>
    cases hget' : (deliverGossip records).get server with
    | none => exact absurd (hfirst.1 first hget).1 (hsecond.2 hget' first)
    | some second =>
      exact congrArg some (hagree server _ _ (hfirst.1 first hget) (hsecond.1 second hget'))

/-- Servers that are told the same records agree in the end, whatever the order, exactly if no
two records of a node's highest incarnation differ. -/
theorem gossip_converges_iff :
    GossipConverges records ∧ NeverLowersIncarnation ↔ LatestAgree records := by
  constructor
  · rintro ⟨hconverges, -⟩ server first second hfirst hsecond
    -- each of the two is delivered once more, at the end
    have hsame := hconverges (records ++ [first]) (records ++ [second])
      (by grind [LatestGossip, GossipCandidate]) (by grind [LatestGossip, GossipCandidate]) server
    rw [storedContents, storedContents, get_deliverGossip_concat hfirst,
      get_deliverGossip_concat hsecond] at hsame
    exact Option.some.inj hsame
  · intro hagree
    refine ⟨fun first second hfirst hsecond server => ?_, neverLowersIncarnation⟩
    rw [storedContents_congr hagree hfirst, storedContents_congr hagree hsecond]

/-- Two addresses of one node, of the same incarnation: the last one told stays. -/
theorem storedContents_swap :
    storedContents [⟨1, "a", "r", 1, 0, 0⟩, ⟨1, "b", "r", 1, 0, 0⟩] 1 ≠
      storedContents [⟨1, "b", "r", 1, 0, 0⟩, ⟨1, "a", "r", 1, 0, 0⟩] 1 := by
  decide +kernel

end Neo4r.Server
