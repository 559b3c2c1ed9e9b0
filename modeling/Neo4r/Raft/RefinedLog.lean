/-
  `Raft.RefinedLog`: local appends, requests and answers, as steps of the replicated log.

  A leader's commit index moves when a quorum of match indexes reaches an entry of its
  term; that quorum is a certificate.  A follower takes over a run, and acknowledges
  its whole log when it reports success.  The report is truthful only if the part of
  the log past the run comes from the leader as well.
-/
import Neo4r.Raft.Refinement

set_option autoImplicit false

namespace Neo4r.Raft

open Foundation Function RaftCore List LogEntry Later
open Foundation.ReplicatedLog (State Inv UpToDate lastTerm Backed)

variable {C : Type} {voters : Finset Nat} {id : Nat} {a : LogState C}
  {issued : List RequestVoteRequest} {core : RaftCore C}

/-! ## The leader -/

section

variable (h : CoreView a issued id core)

include h

theorem CoreView.entryAt_eq {k : Nat} (hk : 0 < k) : core.entryAt k = core.log[k - 1]? := by
  have hzero := snapshotIndex_of_none h.snapshot
  rw [RaftCore.entryAt_eq h.logInv.consecutive, hzero, if_pos hk]
  rfl

theorem CoreView.history_eq (inv : Inv LogEntry.term voters a) (hrole : core.role = .leader) :
    a.history core.currentTerm = core.log := by
  rw [← (inv.leader_term _ id (h.leading hrole).1).2 h.term, h.log]

/-- The leader's commit index advances over a certificate. -/
theorem CoreView.advance (inv : Inv LogEntry.term voters a)
    (hmemb : core.membership = .ofVoters voters) :
    ∃ a', Admits voters a issued id core.advanceLeaderCommitIndex a' := by
  rcases core.advanceLeaderCommitIndex_cases with
    hsame | ⟨entry, hrole, hnewer, hat, hterm, hadvance⟩
  · rw [hsame]
    exact ⟨a, h.admits inv⟩
  · obtain ⟨hlead, hmatch, hcerts⟩ := h.leading hrole
    have hpos : 0 < core.quorumIndex := Nat.zero_lt_of_lt hnewer
    have hquorum := core.quorumIndex_spec hpos
    rw [hmemb, RaftMembership.hasQuorum_ofVoters] at hquorum
    have hhist := h.history_eq inv hrole
    rw [h.entryAt_eq hpos] at hat
    have hlt := (List.getElem?_eq_some_iff.mp hat).1
    have hcertify := inv.certify hpos (hhist ▸ hat) hterm hquorum (by
      intro v hv _
      have hreached : core.quorumIndex ≤ (core.matchIndexes v).getD 0 := (Finset.mem_filter.mp hv).2
      cases hm : core.matchIndexes v with
      | none =>
        rw [hm] at hreached
        exact absurd hreached (Nat.not_le.mpr hpos)
      | some m =>
        rw [hm] at hreached
        exact ⟨_, hmatch v m hm (hpos.trans_le hreached), rfl, rfl, hreached⟩)
    have hcommit := hcertify.commit (n := id) (c := core.quorumIndex)
      (by rw [h.log]; omega) (Set.mem_insert _ _) (by
        show (a.log id).take _ <+: (a.history core.currentTerm).take _
        rw [h.log, hhist])
    refine ⟨_, hcommit, (certify hlead).trans (commit_at id _ _), rfl, ?_⟩
    have hinv := (advanceLeaderCommitIndex_logInv h.logInv).1
    rw [hadvance] at hinv ⊢
    refine ⟨h.term, h.log, update_self _ _ _, h.snapshot, hinv,
      fun _ => ⟨hlead, hmatch, ?_⟩, h.running, h.issued⟩
    rintro k (heq | hold)
    · cases heq
      exact le_rfl
    · exact (hcerts k hold).trans hnewer.le

/-- Recording an acknowledged match index. -/
theorem CoreView.setMatchIndex (follower m : Nat)
    (hack : core.role = .leader → 0 < m → ⟨follower, core.currentTerm, m⟩ ∈ a.acks) :
    CoreView a issued id (core.setMatchIndex follower m) := by
  refine ⟨h.term, h.log, h.commit, h.snapshot,
    (setMatchIndex_sameLog core follower m).logInv h.logInv,
    fun hrole => ?_, h.running, h.issued⟩
  obtain ⟨hlead, hmatch, hcerts⟩ := h.leading hrole
  refine ⟨hlead, fun follower' m' hm' hpos => ?_, hcerts⟩
  have hm' : update core.matchIndexes follower (some m) follower' = some m' := hm'
  by_cases hsame : follower' = follower
  · rw [hsame, update_self, Option.some.injEq] at hm'
    subst hm'
    rw [hsame]
    exact hack hrole hpos
  · rw [update_of_ne hsame] at hm'
    exact hmatch follower' m' hm' hpos

end

variable {entry : LogEntry C}

section

variable (h : CoreView a issued id core) (inv : Inv LogEntry.term voters a)

include h inv

/-- The entry of a local append joins the history of the term, and the leader
acknowledges it. -/
theorem CoreView.pushEntry (hrole : core.role = .leader)
    (hidx : entry.index = core.lastLogIndex + 1) (hterm : entry.term = core.currentTerm) :
    ∃ a', Admits voters a issued id (core.pushEntry entry) a' ∧
      ⟨id, core.currentTerm, entry.index⟩ ∈ a'.acks := by
  obtain ⟨hlead, hmatch, hcerts⟩ := h.leading hrole
  have hhist := h.history_eq inv hrole
  have hpush := (pushEntry_tailChange h.logInv entry hidx).1
  have hno : core.role ≠ .candidate := by
    rw [hrole]
    exact fun heq => nomatch heq
  rw [← h.term] at hlead hterm
  have hack := (inv.append hlead hterm).ack (n := id) (m := entry.index)
    (by show a.leader (a.term id) ≠ none; rw [hlead]; exact Option.some_ne_none id)
    (by simp [h.log, hidx, h.lastLogIndex_eq])
    (by simpa using take_prefix entry.index (a.log id ++ [entry]))
  refine ⟨_, ⟨hack, (append (by rw [h.log, ← hhist, h.term])).trans (ack id _ _),
    rfl, ⟨h.term, (update_self _ _ _).trans ?_, h.commit, h.snapshot, hpush.logInv,
      fun _ => ⟨h.term ▸ hlead, ?_, hcerts⟩, fun hcand => absurd hcand hno, ?_⟩⟩,
    h.term ▸ Set.mem_insert _ _⟩
  · rw [h.log, pushEntry_log]
  · exact fun follower m hm hpos => Set.mem_insert_of_mem _ (hmatch follower m hm hpos)
  · exact fun req hreq hcand => ⟨(h.issued req hreq hcand).1, fun hcand => absurd hcand hno⟩

theorem CoreView.pushLocalEntry (hid : core.serverId = id)
    (hmemb : core.membership = .ofVoters voters) (hrole : core.role = .leader)
    (hidx : entry.index = core.lastLogIndex + 1) (hterm : entry.term = core.currentTerm) :
    ∃ a', Admits voters a issued id (core.pushLocalEntry entry) a' := by
  obtain ⟨a₁, h₁, hack⟩ := h.pushEntry inv hrole hidx hterm
  have hmatched := h₁.view.setMatchIndex core.serverId entry.index
    (fun _ _ => by rw [hid]; exact hack)
  obtain ⟨a₂, h₂⟩ := hmatched.advance h₁.inv hmemb
  exact ⟨a₂, h₁.trans h₂⟩

/-- The two local appends are one step on the leader, and nothing anywhere else. -/
theorem CoreView.appendLocalEntry (hid : core.serverId = id)
    (hmemb : core.membership = .ofVoters voters) (hbound : core.lastLogIndex < u64Max) (cmd : C) :
    ∃ a', Admits voters a issued id (core.appendLocalEntry cmd).2 a' := by
  unfold RaftCore.appendLocalEntry
  split
  · exact ⟨a, h.admits inv⟩
  · rename_i hrole
    exact h.pushLocalEntry inv hid hmemb (not_not.mp hrole) (saturatingAdd_one_of_lt hbound) rfl

theorem CoreView.appendExistingLocalEntry (hid : core.serverId = id)
    (hmemb : core.membership = .ofVoters voters) (hbound : core.lastLogIndex < u64Max)
    (entry : LogEntry C) :
    ∃ a', Admits voters a issued id (core.appendExistingLocalEntry entry).2 a' := by
  rcases core.appendExistingLocalEntry_cases entry with hsame | ⟨hrole, hidx, hterm, hpush⟩
  · rw [hsame]
    exact ⟨a, h.admits inv⟩
  · rw [saturatingAdd_one_of_lt hbound] at hidx
    rw [hpush]
    exact h.pushLocalEntry inv hid hmemb hrole hidx hterm

/-- Recording the match index of an answer. -/
theorem CoreView.recordReplicationMatch (hmemb : core.membership = .ofVoters voters)
    {follower m : Nat} (hack : 0 < m → ⟨follower, core.currentTerm, m⟩ ∈ a.acks) (now : Nat) :
    ∃ a', Admits voters a issued id (core.recordReplicationMatch follower m now).2 a' := by
  unfold RaftCore.recordReplicationMatch
  split
  · exact ⟨a, h.admits inv⟩
  · split
    · exact ⟨a, h.admits inv⟩
    · obtain ⟨a', h'⟩ := (h.setMatchIndex follower m fun _ => hack).advance inv hmemb
      refine ⟨a', h'.same ?_⟩
      obtain ⟨deadline, heq⟩ := exists_refreshLeaderLeaseIfQuorum_eq
        (core.setMatchIndex follower m).advanceLeaderCommitIndex now
      dsimp only
      rw [heq]
      exact ⟨⟨rfl, rfl, rfl, rfl⟩, rfl, rfl, rfl, rfl⟩

/-! ## Requests -/

/-- What a leader sends is read from the history of its term. -/
theorem CoreView.appendRequest (hid : core.serverId = id) (hrole : core.role = .leader) {prev : Nat}
    (hprev : prev = 0 ∨ (core.entryAt prev).isSome) (count : Nat) :
    MessageView a ⟨core.appendRequest prev count, core.log⟩ := by
  have hzero := snapshotIndex_of_none h.snapshot
  have hconsec : Consecutive index 0 core.log := hzero ▸ h.logInv.consecutive
  have hcommit := h.logInv.commit_le
  rw [h.lastLogIndex_eq] at hcommit
  have hat : 0 < prev → ∃ entry, core.log[prev - 1]? = some entry := by
    intro hpos
    have hsome := hprev.resolve_left (Nat.ne_of_gt hpos)
    rw [h.entryAt_eq hpos] at hsome
    exact Option.isSome_iff_exists.mp hsome
  refine ⟨?_, ?_, ⟨hconsec, ?_, ?_, ?_⟩, hcommit, ?_⟩
  · show a.leader core.currentTerm = some core.serverId
    rw [hid]
    exact (h.leading hrole).1
  · show core.log <+: a.history core.currentTerm
    rw [h.history_eq inv hrole]
  · show prev ≤ core.log.length
    rcases Nat.eq_zero_or_pos prev with rfl | hpos
    · exact Nat.zero_le _
    · obtain ⟨entry, hentry⟩ := hat hpos
      have := (List.getElem?_eq_some_iff.mp hentry).1
      omega
  · intro hpos
    have hpos : 0 < prev := hpos
    obtain ⟨entry, hentry⟩ := hat hpos
    refine ⟨entry, hentry, ?_⟩
    show entry.term = ((core.entryAt prev).map (·.term)).getD 0
    rw [h.entryAt_eq hpos, hentry]
    rfl
  · show (core.log.filter fun entry => entry.index > prev).take count <+: core.log.drop prev
    rw [hconsec.filter_gt prev, Nat.sub_zero]
    exact take_prefix _ _
  · have hcert := inv.commit_cert id
    rwa [h.commit, h.log] at hcert

end

/-! ## Followers -/

theorem RaftCore.AgreeBefore.take_eq {l leaderLog : List (LogEntry C)} {j : Nat}
    (hagree : AgreeBefore l leaderLog j) (h : Backed term a l)
    (h' : Backed term a leaderLog) : l.take j = leaderLog.take j := by
  cases j with
  | zero => rw [take_zero, take_zero]
  | succ j =>
    obtain ⟨entry, leaderEntry, hat, hat', hterm⟩ := hagree (Nat.succ_pos j)
    exact h.take_eq h' hat hat' hterm

variable {msg : AppendMessage C} {core' : RaftCore C}
  {result : Except DatabaseError AppendEntriesResponse}

/-- Where the run ends, the leader's log has an entry of the term the request states. -/
theorem MessageView.runTerm (hmessage : MessageView a msg)
    (hpos : 0 < msg.request.runEnd) : ∃ entry,
      msg.leaderLog[msg.request.runEnd - 1]? = some entry ∧
        entry.term = msg.request.runTerm := by
  unfold AppendEntriesRequest.runEnd AppendEntriesRequest.runTerm at *
  cases hlast : msg.request.entries.getLast? with
  | none =>
    rw [getLast?_eq_none_iff.mp hlast] at hpos ⊢
    exact hmessage.built.prev_term hpos
  | some entry =>
    have hne : msg.request.entries ≠ [] := by
      intro hnil
      rw [hnil] at hlast
      cases hlast
    have hlen := length_pos_iff.mpr hne
    rw [getLast?_eq_getElem?] at hlast
    refine ⟨entry, ?_, rfl⟩
    rw [Nat.add_sub_assoc hlen]
    exact hmessage.built.entries_getElem? hlast

/-- A request that is accepted without a change was held by the server already. -/
theorem CoreView.holdsRun (h : CoreView a issued id core) (hmessage : MessageView a msg)
    (hagree : AgreeBefore core.log msg.leaderLog msg.request.runEnd) :
    core.holdsRun msg.request = true := by
  unfold RaftCore.holdsRun
  rcases Nat.eq_zero_or_pos msg.request.runEnd with hzero | hpos
  · simp [hzero]
  · obtain ⟨entry, leaderEntry, hat, hlead, hterm⟩ := hagree hpos
    obtain ⟨leaderEntry', hlead', hrunTerm⟩ := hmessage.runTerm hpos
    rw [hlead, Option.some.injEq] at hlead'
    rw [h.entryAt_eq hpos, hat, Option.any_some, hterm, hlead', hrunTerm]
    simp

/-- If the part past the run comes from the leader too, the whole log is a part of the
history of the leader's term. -/
theorem CoreView.log_of_tailFromLeader [DecidableEq C] (h : CoreView a issued id core)
    (inv : Inv LogEntry.term voters a) (hmessage : MessageView a msg)
    (hagree : AgreeBefore core.log msg.leaderLog msg.request.runEnd)
    (htail : core.tailFromLeader msg = true) :
    core.log <+: a.history msg.request.term := by
  have hbacked : Backed LogEntry.term a core.log := h.log ▸ inv.log_backed id
  have hleaderBacked := (inv.history_backed msg.request.term).shorten hmessage.log
  have hzero := snapshotIndex_of_none h.snapshot
  have hconsec : Consecutive index 0 core.log := hzero ▸ h.logInv.consecutive
  rcases Nat.lt_or_ge msg.request.runEnd core.log.length with hlong | hshort
  · have hat := getElem?_eq_getElem (l := core.log) (i := core.log.length - 1) (by omega)
    have hidx := hconsec.key_getElem? hat
    have hmem := all_eq_true.mp htail _ (mem_of_getElem? hat)
    have hwhole : core.log.length - 1 + 1 = core.log.length := by omega
    simp only [Bool.or_eq_true, decide_eq_true_eq] at hmem
    rcases hmem with (hle | hterm) | hin
    · omega
    · have hpart := (hbacked _ _ hat).2
      rwa [hwhole, take_length, hterm] at hpart
    · obtain ⟨i, hi⟩ := mem_iff_getElem?.mp hin
      have hi' := hmessage.built.consecutive.key_getElem? hi
      obtain rfl : i = core.log.length - 1 := by omega
      have htake := hbacked.take_eq hleaderBacked hat hi rfl
      rw [hwhole, take_length] at htake
      rw [htake]
      exact ( take_prefix _ _).trans hmessage.log
  · have htake := hagree.take_eq hbacked hleaderBacked
    rw [take_of_length_le hshort] at htake
    rw [htake]
    exact ( take_prefix _ _).trans hmessage.log

variable {l : List (LogEntry C)} {j : Nat}

/-- Agreement just before a position, from a common part of the two logs. -/
theorem RaftCore.AgreeBefore.of_isPrefix {leaderLog history p : List (LogEntry C)} (hl : p <+: l)
    (hlead : leaderLog <+: history) (hp : p <+: history) (hj : j ≤ p.length)
    (hj' : j ≤ leaderLog.length) : AgreeBefore l leaderLog j := by
  intro hpos
  have hat := getElem?_eq_getElem (l := p) (i := j - 1) (by omega)
  have hat' := getElem?_eq_getElem (l := leaderLog) (i := j - 1) (by omega)
  have hsame := ReplicatedLog.getElem?_of_isPrefix hp hat
  rw [ReplicatedLog.getElem?_of_isPrefix hlead hat', Option.some.injEq] at hsame
  exact ⟨_, _, ReplicatedLog.getElem?_of_isPrefix hl hat, hat', by rw [hsame]⟩

section

variable (h : CoreView a issued id core) (inv : Inv LogEntry.term voters a)
  (hmessage : MessageView a msg)

include h inv hmessage

/-- A log that is replaced from a position of agreement on is the leader's. -/
theorem CoreView.replaced_log {n : Nat} (hjn : j ≤ n)
    (hagree : AgreeBefore core.log msg.leaderLog j) :
    core.log.take j ++ (msg.leaderLog.take n).drop j = msg.leaderLog.take n := by
  have hbacked : Backed LogEntry.term a core.log := h.log ▸ inv.log_backed id
  have hsplit := take_append_drop j (msg.leaderLog.take n)
  rw [take_take, Nat.min_eq_left hjn] at hsplit
  rw [hagree.take_eq hbacked ((inv.history_backed _).shorten hmessage.log), hsplit]

/-- What the server's log becomes is a part of its own log or of the history, and it
loses neither what agreed with the history nor what was committed. -/
theorem CoreView.log_change (hchange : core.LogChange msg.request msg.leaderLog result core') :
    (core'.log <+: core.log ∨ core'.log <+: a.history msg.request.term) ∧
    (∀ p, p <+: core.log → p <+: a.history msg.request.term → p <+: core'.log) ∧
    core.log.take core.commitIndex <+: core'.log := by
  cases hchange with
  | declined _ hlog _ | kept _ _ hlog _ =>
    rw [hlog]
    exact ⟨.inl (prefix_refl _), fun p hp _ => hp, take_prefix _ _⟩
  | cut _ hpos hbelow hconf hlog =>
    rw [hlog]
    refine ⟨.inl ( take_prefix _ _), fun p hp hp' => ?_, ?_⟩
    · rw [prefix_take_iff]
      refine ⟨hp, ?_⟩
      by_contra hlong
      exact hconf (.of_isPrefix hp hmessage.log hp' (by omega) hmessage.built.prev_le)
    · rw [prefix_take_iff]
      exact ⟨ take_prefix _ _, by rw [length_take]; omega⟩
  | replaced j n hj hjn hn hbelow hagree hconf hlog =>
    have hnew := hlog.trans (h.replaced_log inv hmessage hjn.le hagree)
    have hin : core'.log <+: a.history msg.request.term := by
      rw [hnew]
      exact ( take_prefix _ _).trans hmessage.log
    have hlen : core'.log.length = n := by rw [hnew, length_take]; omega
    refine ⟨.inr hin, fun p hp hp' => ?_, ?_⟩
    · refine prefix_of_prefix_length_le hp' hin ?_
      by_contra hlong
      refine hconf ⟨?_, .of_isPrefix hp hmessage.log hp' (by omega) (by omega)⟩
      have := hp.length_le
      omega
    · rw [hlog]
      refine IsPrefix.trans ?_ (prefix_append _ _)
      rw [prefix_take_iff]
      exact ⟨ take_prefix _ _, by rw [length_take]; omega⟩

/-- A call that reports success leaves a log that is a part of the history of the
leader's term, provided an unchanged log has no foreign tail. -/
theorem CoreView.log_accepted [DecidableEq C]
    (hsound : core.holdsRun msg.request = true → core.tailFromLeader msg = true)
    (hchange : core.LogChange msg.request msg.leaderLog result core') :
    Declined result ∧ core'.commitIndex = core.commitIndex ∨
      Accepted result core'.log.length ∧
        core'.log <+: a.history msg.request.term ∧
        core'.commitIndex = if core.commitIndex < msg.request.leaderCommit then
          min msg.request.leaderCommit core'.log.length else core.commitIndex := by
  cases hchange with
  | declined hdeclined _ hcommit | cut hdeclined _ _ _ _ hcommit => exact .inl ⟨hdeclined, hcommit⟩
  | kept hacc hagree hlog hcommit =>
    have htail := hsound (h.holdsRun hmessage hagree)
    rw [hlog]
    exact .inr ⟨hacc, h.log_of_tailFromLeader inv hmessage hagree htail, hcommit⟩
  | replaced j n hj hjn hn hbelow hagree hconf hlog hres =>
    rcases hres with hdeclined | ⟨hacc, hcommit⟩
    · exact .inl hdeclined
    · refine .inr ⟨hacc, ?_, hcommit⟩
      rw [hlog, h.replaced_log inv hmessage hjn.le hagree]
      exact ( take_prefix _ _).trans hmessage.log

end

/-- The commit index a follower takes from an accepted request is certified. -/
theorem MessageView.commit_in_cert (hmessage : MessageView a msg) {c : Nat}
    (hl : l <+: a.history msg.request.term) (hc : c ≤ msg.request.leaderCommit)
    (hcl : c ≤ l.length) (hpos : 0 < msg.request.leaderCommit) :
    ∃ t k, (t, k) ∈ a.certs ∧ l.take c <+: (a.history t).take k := by
  obtain ⟨t, k, hcert, hin⟩ := hmessage.commit_cert.resolve_left (Nat.ne_of_gt hpos)
  refine ⟨t, k, hcert, IsPrefix.trans ?_ hin⟩
  refine prefix_of_prefix_length_le (( take_prefix _ _).trans hl)
    (( take_prefix _ _).trans hmessage.log) ?_
  have := hmessage.commit_le
  rw [length_take, length_take]
  omega

/-- A request reaches a server: it moves to the leader's term, takes over a part of the
run, acknowledges its log on success and commits what the leader has. -/
theorem CoreView.appendEntries [DecidableEq C] (h : CoreView a issued id core)
    (inv : Inv LogEntry.term voters a) (hmessage : MessageView a msg)
    (hsound : core.holdsRun msg.request = true → core.tailFromLeader msg = true) :
    ∃ a', Admits voters a issued id (core.appendEntries msg.request).2 a' ∧
      ∀ m, Accepted (core.appendEntries msg.request).1 m →
        ⟨id, msg.request.term, m⟩ ∈ a'.acks := by
  have hinv := (appendEntries_logInv h.logInv hmessage.built.consecutive_entries).1
  rcases appendEntries_change h.logInv h.snapshot hmessage.built with
    ⟨-, hsame, hdeclined⟩ | ⟨hle, hrole, hterm, hsnap, hchange⟩
  · rw [hsame]
    exact ⟨a, h.admits inv, fun m hacc =>
      absurd hdeclined hacc.not_declined⟩
  · obtain ⟨hfrom, hkeep, hcomm⟩ := h.log_change inv hmessage hchange
    have hlead : a.leader msg.request.term ≠ none := by
      rw [hmessage.leader]
      exact Option.some_ne_none _
    have inv₁ := inv.raise (n := id) (t := msg.request.term) (h.term ▸ hle)
    have inv₂ := inv₁.accept (n := id)
      (l := (core.appendEntries msg.request).2.log)
      (by simpa using hlead) (by simpa [h.log] using hfrom) (by simpa [h.log] using hkeep)
      (by simpa [h.log, h.commit] using hcomm)
    have hlater₂ := (raise id a msg.request.term).trans
      (accept id _ (core.appendEntries msg.request).2.log)
    rcases h.log_accepted inv hmessage hsound hchange with
      ⟨hdeclined, hcommit⟩ | ⟨hacc, hin, hcommit⟩
    · refine ⟨_, ⟨inv₂, hlater₂, rfl, ?_⟩, fun m hacc =>
        absurd hdeclined hacc.not_declined⟩
      exact h.ofFollower hrole (hterm ▸ hle) (by simp [hterm]) (by simp)
        (by simp [h.commit, hcommit]) hsnap hinv
    · have inv₃ := inv₂.ack (n := id) (m := (core.appendEntries msg.request).2.log.length)
        (by simpa using hlead) (by simp) (by simpa using hin)
      have hacked : ∀ m, Accepted (core.appendEntries msg.request).1 m →
          (core.appendEntries msg.request).2.log.length = m := by
        rintro m ⟨resp, hok, -, rfl⟩
        obtain ⟨response', hok', -, hlen⟩ := hacc
        rw [hok] at hok'
        cases hok'
        exact hlen.symm
      by_cases hnewer : core.commitIndex < msg.request.leaderCommit
      · rw [if_pos hnewer] at hcommit
        obtain ⟨t, k, hcert, hpart⟩ := hmessage.commit_in_cert hin
          (Nat.min_le_left msg.request.leaderCommit _) (Nat.min_le_right _ _)
          (Nat.zero_lt_of_lt hnewer)
        rw [← hcommit] at hpart
        have inv₄ := inv₃.commit (n := id)
          (c := (core.appendEntries msg.request).2.commitIndex)
          (by simp [hcommit]) hcert (by simpa using hpart)
        refine ⟨_, ⟨inv₄, (hlater₂.trans (ack id _ _)).trans (commit_at id _ _), rfl,
          ?_⟩, fun m hm => ?_⟩
        · exact h.ofFollower hrole (hterm ▸ hle) (by simp [hterm]) (by simp) (by simp) hsnap hinv
        · simp [hacked m hm]
      · rw [if_neg hnewer] at hcommit
        refine ⟨_, ⟨inv₃, hlater₂.trans (ack id _ _), rfl, ?_⟩, fun m hm => ?_⟩
        · exact h.ofFollower hrole (hterm ▸ hle) (by simp [hterm]) (by simp)
            (by simp [h.commit, hcommit]) hsnap hinv
        · simp [hacked m hm]

end Neo4r.Raft
