/-
  `Raft.AppendSpec`: what an AppendEntries request built from a leader's log does to a
  follower.

  The request carries a run of consecutive entries of the leader's log and the term of
  the entry before it.  The follower either keeps its log, or cuts it at the previous
  entry, or keeps what matches the run and takes over the rest of it.  Entries past
  the run are kept whenever the run brings nothing new.
-/
import Neo4r.Raft.LogShape

set_option autoImplicit false

namespace Neo4r.Raft.RaftCore

open Foundation List

variable {C : Type}

/-- The entries from position `base` of the log on have the terms of the run, as far as
`j`. -/
def TermsMatch (log : List (LogEntry C)) (base : Nat) (entries : List (LogEntry C)) (j : Nat) :
    Prop :=
  ∀ p, base + p < j → ∃ entry existing, entries[p]? = some entry ∧
    log[base + p]? = some existing ∧ existing.term = entry.term

variable {log entries : List (LogEntry C)} {base : Nat} {entry : LogEntry C}

theorem TermsMatch.cons {j : Nat} {old : LogEntry C} (hexist : log[base]? = some old)
    (hterm : old.term = entry.term) (h : TermsMatch log (base + 1) entries j) :
    TermsMatch log base (entry :: entries) j := by
  intro p hp
  cases p with
  | zero => exact ⟨entry, old, rfl, hexist, hterm⟩
  | succ p =>
    have := h p (by omega)
    rwa [← Nat.add_assoc, Nat.add_right_comm]

/-- What the loop leaves of the log, wherever it stops: the whole log, or the part
before position `j`, which covers the commit index, followed by the entries of the run
from there up to the `i`-th. -/
inductive LoopResult (log : List (LogEntry C)) (commit base : Nat)
    (entries : List (LogEntry C)) (completed : Prop) (log' : List (LogEntry C)) : Prop
  | kept (hlog : log' = log)
      (hheld : completed → TermsMatch log base entries (base + entries.length))
  | replaced (j i : Nat) (hbase : base ≤ j) (hj : j ≤ log.length) (hi : j < base + i)
      (hcommit : commit ≤ j) (hlength : i ≤ entries.length) (hmatch : TermsMatch log base entries j)
      (hconflict : ∀ entry existing, entries[j - base]? = some entry →
        log[j]? = some existing → existing.term ≠ entry.term)
      (hlog : log' = log.take j ++ (entries.take i).drop (j - base))
      (hall : completed → i = entries.length)

theorem pushEntry_log (r : RaftCore C) (entry : LogEntry C) :
    (r.pushEntry entry).log = r.log ++ [entry] := rfl

/-- Once an entry has been stored at the end of the log, the rest of the run follows. -/
theorem LoopResult.after_store {log₁ : List (LogEntry C)} {commit : Nat} {log' : List (LogEntry C)}
    {completed : Prop} (hbase : base ≤ log.length) (hcommit : commit ≤ base)
    (hconf : ∀ old, log[base]? = some old → old.term ≠ entry.term)
    (hlog₁ : log₁ = log.take base ++ [entry])
    (h : LoopResult log₁ commit (base + 1) entries completed log') :
    LoopResult log commit base (entry :: entries) completed log' := by
  have hlen : log₁.length = base + 1 := by
    rw [hlog₁, length_append, length_take, Nat.min_eq_left hbase]
    rfl
  have hmatch : TermsMatch log base (entry :: entries) base := fun p hp => by omega
  have hconf' : ∀ e old, (entry :: entries)[base - base]? = some e →
      log[base]? = some old → old.term ≠ e.term := by
    intro e old he hexist
    rw [Nat.sub_self, getElem?_cons_zero] at he
    cases he
    exact hconf old hexist
  cases h with
  | kept hlog hheld =>
    refine .replaced base 1 le_rfl hbase (Nat.lt_succ_self _) hcommit (by simp) hmatch hconf' ?_ ?_
    · rw [hlog, hlog₁, Nat.sub_self]
      rfl
    · intro hcompleted
      cases entries with
      | nil => rfl
      | cons =>
        obtain ⟨-, old, -, hat, -⟩ := hheld hcompleted 0 (by simp)
        have := (List.getElem?_eq_some_iff.mp hat).1
        omega
  | replaced j i hj hjl hi _ hil _ _ hlog hall =>
    obtain rfl : j = base + 1 := by omega
    refine .replaced base (i + 1) le_rfl hbase (by omega) hcommit (by simpa using hil) hmatch
      hconf' ?_ ?_
    · rw [hlog, take_of_length_le (by omega), hlog₁, Nat.sub_self, Nat.sub_self,
        drop_zero, drop_zero, take_succ_cons, append_assoc,
        singleton_append]
    · intro hcompleted
      rw [hall hcompleted, length_cons]

/-- The loop of `append_entries` on a log without a snapshot. -/
theorem appendLoop_result {r : RaftCore C} (h : LogInv r) (hsnap : r.snapshot = none)
    (hentries : Consecutive LogEntry.index base entries) (hbase : base ≤ r.log.length) :
    LoopResult r.log r.commitIndex base entries ((r.appendLoop entries).1 = .ok none)
      (r.appendLoop entries).2.log := by
  induction entries generalizing r base with
  | nil => exact .kept rfl fun _ p hp => absurd hp (Nat.not_lt.mpr (Nat.le_add_right _ _))
  | cons entry entries ih =>
    obtain ⟨hidx, hentries⟩ := hentries
    have hzero := snapshotIndex_of_none hsnap
    have hat : r.entryAt entry.index = r.log[base]? := by
      rw [entryAt_eq h.consecutive, hzero, hidx, if_pos (by omega)]
      rfl
    have hlast := lastLogIndex_eq h.consecutive
    unfold appendLoop
    split
    · exact .kept rfl fun hok => by cases hok
    · split
      · omega
      · split
        · rename_i old hexist
          rw [hat] at hexist
          have hlt := (List.getElem?_eq_some_iff.mp hexist).1
          split
          · rename_i hterm
            cases ih h hsnap hentries hlt with
            | kept hlog hheld =>
              refine .kept hlog fun hok => ?_
              have := TermsMatch.cons hexist hterm (hheld hok)
              rwa [Nat.add_assoc, Nat.add_comm 1] at this
            | replaced j i hj hjl hi hcommit hil hmatch hconf hlog hall =>
              have hsub : j - base = j - (base + 1) + 1 := by omega
              refine .replaced j (i + 1) (by omega) hjl (by omega) hcommit (by simpa using hil)
                (TermsMatch.cons hexist hterm hmatch) ?_ ?_ ?_
              · rw [hsub, getElem?_cons_succ]
                exact hconf
              · rw [hsub, take_succ_cons, drop_succ_cons]
                exact hlog
              · intro hok
                rw [hall hok, length_cons]
          · rename_i hterm
            split
            · exact .kept rfl fun hok => by cases hok
            · rename_i hcommit
              obtain ⟨hcut, hcutLast⟩ := truncateFrom_tailChange h (k := entry.index)
                (not_le.mp hcommit) (by omega)
              obtain ⟨hpush, -⟩ := pushEntry_tailChange hcut.logInv entry (by rw [hcutLast]; omega)
              have hlog₁ : ((r.truncateFrom entry.index).pushEntry entry).log =
                  r.log.take base ++ [entry] := by
                rw [pushEntry_log, truncateFrom_log h.consecutive, hzero, hidx]
                rfl
              have hsame : ((r.truncateFrom entry.index).pushEntry entry).commitIndex =
                  r.commitIndex := hpush.commitIndex.trans hcut.commitIndex
              have hrest := ih hpush.logInv hsnap hentries (by
                rw [hlog₁, length_append, length_take, Nat.min_eq_left hbase]
                rfl)
              rw [hsame] at hrest
              refine LoopResult.after_store hbase (by omega) ?_ hlog₁ hrest
              intro existing' hexist'
              rw [hexist] at hexist'
              cases hexist'
              exact hterm
        · rename_i hnone
          rw [hat, List.getElem?_eq_none_iff] at hnone
          obtain rfl : base = r.log.length := Nat.le_antisymm hbase hnone
          obtain ⟨hpush, -⟩ := pushEntry_tailChange h entry (by omega)
          have hcommit := h.commit_le
          refine LoopResult.after_store hbase (by omega) ?_ ?_ (ih hpush.logInv hsnap hentries ?_)
          · intro old hexist
            simp at hexist
          · rw [pushEntry_log, take_length]
          · rw [pushEntry_log, length_append]
            rfl

/-! ## A request built from a leader's log -/

/-- The request carries a run of the leader's log and the term of the entry before it. -/
structure BuiltFrom (leaderLog : List (LogEntry C)) (request : AppendEntriesRequest C) : Prop where
  consecutive : Consecutive LogEntry.index 0 leaderLog
  prev_le : request.prevLogIndex ≤ leaderLog.length
  prev_term : 0 < request.prevLogIndex → ∃ previous,
    leaderLog[request.prevLogIndex - 1]? = some previous ∧ previous.term = request.prevLogTerm
  entries : request.entries <+: leaderLog.drop request.prevLogIndex

/-- Just before position `j` both logs have an entry, of one term. -/
def AgreeBefore (log leaderLog : List (LogEntry C)) (j : Nat) : Prop :=
  0 < j → ∃ entry leaderEntry, log[j - 1]? = some entry ∧
    leaderLog[j - 1]? = some leaderEntry ∧ entry.term = leaderEntry.term

/-- The call did not report success. -/
def Declined (result : Except DatabaseError AppendEntriesResponse) : Prop :=
  ∀ response, result = .ok response → response.success = false

/-- The call reported success, with this match index. -/
def Accepted (result : Except DatabaseError AppendEntriesResponse) (matchIndex : Nat) : Prop :=
  ∃ response, result = .ok response ∧ response.success = true ∧ response.matchIndex = matchIndex

/-- What a request that is not stale does to the log and the commit index. -/
inductive LogChange (core : RaftCore C) (request : AppendEntriesRequest C)
    (leaderLog : List (LogEntry C)) (result : Except DatabaseError AppendEntriesResponse)
    (core' : RaftCore C) : Prop
  | declined (hresult : Declined result) (hlog : core'.log = core.log)
      (hcommit : core'.commitIndex = core.commitIndex)
  | cut (hresult : Declined result) (hpos : 0 < request.prevLogIndex)
      (hbelow : core.commitIndex < request.prevLogIndex)
      (hconflict : ¬AgreeBefore core.log leaderLog request.prevLogIndex)
      (hlog : core'.log = core.log.take (request.prevLogIndex - 1))
      (hcommit : core'.commitIndex = core.commitIndex)
  | kept (hresult : Accepted result core.log.length)
      (hagree : AgreeBefore core.log leaderLog (request.prevLogIndex + request.entries.length))
      (hlog : core'.log = core.log)
      (hcommit : core'.commitIndex = if core.commitIndex < request.leaderCommit then
        min request.leaderCommit core.log.length else core.commitIndex)
  | replaced (j n : Nat) (hj : j ≤ core.log.length) (hjn : j < n) (hn : n ≤ leaderLog.length)
      (hbelow : core.commitIndex ≤ j) (hagree : AgreeBefore core.log leaderLog j)
      (hconflict : ¬(j < core.log.length ∧ AgreeBefore core.log leaderLog (j + 1)))
      (hlog : core'.log = core.log.take j ++ (leaderLog.take n).drop j)
      (hresult : Declined result ∧ core'.commitIndex = core.commitIndex ∨
        Accepted result core'.log.length ∧
          core'.commitIndex = if core.commitIndex < request.leaderCommit then
            min request.leaderCommit core'.log.length else core.commitIndex)

variable {r : RaftCore C} {req : AppendEntriesRequest C} {leaderLog : List (LogEntry C)}

section

variable (h : BuiltFrom leaderLog req)

include h

theorem BuiltFrom.entries_getElem? {p : Nat} (hp : req.entries[p]? = some entry) :
    leaderLog[req.prevLogIndex + p]? = some entry := by
  rw [← List.getElem?_drop]
  have hlt := (List.getElem?_eq_some_iff.mp hp).1
  rwa [prefix_iff_eq_take.mp h.entries, getElem?_take_of_lt hlt] at hp

theorem BuiltFrom.consecutive_entries :
    Consecutive LogEntry.index req.prevLogIndex req.entries := by
  have := (h.consecutive.drop req.prevLogIndex).take req.entries.length
  rwa [← prefix_iff_eq_take.mp h.entries, Nat.zero_add] at this

theorem BuiltFrom.end_le : req.prevLogIndex + req.entries.length ≤ leaderLog.length := by
  have := h.entries.length_le
  have := h.prev_le
  rw [length_drop] at *
  omega

end

/-- The loop stops early only to refuse. -/
theorem appendLoop_refusal {refusal : AppendEntriesResponse}
    (h : (r.appendLoop entries).1 = .ok (some refusal)) : refusal.success = false := by
  induction entries generalizing r with
  | nil => cases h
  | cons entry entries ih =>
    unfold appendLoop at h
    split at h
    · cases h
    · split at h
      · exact ih h
      · split at h
        · split at h
          · exact ih h
          · split at h
            · cases h
              rfl
            · exact ih h
        · exact ih h

variable {result : Except DatabaseError AppendEntriesResponse} {j : Nat}

/-- Only the log and the commit index of the state before the call matter. -/
theorem LogChange.congr {r' r'' : RaftCore C} (h : LogChange r req leaderLog result r'')
    (hlog : r.log = r'.log) (hcommit : r.commitIndex = r'.commitIndex) :
    LogChange r' req leaderLog result r'' := by
  cases h with
  | declined hres hlog' hcommit' =>
    exact .declined hres (hlog'.trans hlog) (hcommit'.trans hcommit)
  | cut hres hpos hbelow hconf hlog' hcommit' =>
    rw [hcommit] at hbelow hcommit'
    rw [hlog] at hconf hlog'
    exact .cut hres hpos hbelow hconf hlog' hcommit'
  | kept hres hagree hlog' hcommit' =>
    rw [hlog] at hres hagree hlog' hcommit'
    rw [hcommit] at hcommit'
    exact .kept hres hagree hlog' hcommit'
  | replaced j n hj hjn hn hbelow hagree hconf hlog' hres =>
    rw [hlog] at hj hagree hconf hlog'
    rw [hcommit] at hbelow hres
    exact .replaced j n hj hjn hn hbelow hagree hconf hlog' hres

/-- The run taken over from position `j` on is a part of the leader's log. -/
theorem BuiltFrom.drop_take (h : BuiltFrom leaderLog req) {i : Nat}
    (hj : req.prevLogIndex ≤ j) (hi : i ≤ req.entries.length) :
    (req.entries.take i).drop (j - req.prevLogIndex) =
      (leaderLog.take (req.prevLogIndex + i)).drop j := by
  rw [prefix_iff_eq_take.mp h.entries, take_take, List.drop_take, List.drop_drop, List.drop_take,
    Nat.add_sub_cancel' hj]
  congr 1
  omega

/-- Entries that match a run up to its end agree with the leader's log there. -/
theorem BuiltFrom.agreeBefore (h : BuiltFrom leaderLog req)
    (hprev : AgreeBefore log leaderLog req.prevLogIndex) (hj : req.prevLogIndex ≤ j)
    (hmatch : TermsMatch log req.prevLogIndex req.entries j) :
    AgreeBefore log leaderLog j := by
  rcases Nat.eq_or_lt_of_le hj with rfl | hlt
  · exact hprev
  · intro _
    obtain ⟨entry, old, hentry, hexist, hterm⟩ := hmatch (j - 1 - req.prevLogIndex) (by omega)
    have hat := h.entries_getElem? hentry
    rw [Nat.add_sub_cancel' (by omega)] at hexist hat
    exact ⟨old, entry, hexist, hat, hterm⟩

/-- The end of the call, once the previous entry has been found to agree. -/
theorem appendAndCommit_change (h : LogInv r) (hsnap : r.snapshot = none)
    (hbuilt : BuiltFrom leaderLog req) (hle : req.prevLogIndex ≤ r.log.length)
    (hprev : AgreeBefore r.log leaderLog req.prevLogIndex) :
    LogChange r req leaderLog (r.appendAndCommit req).1
        (r.appendAndCommit req).2 ∧
      (r.appendAndCommit req).2.snapshot = none := by
  have hzero := snapshotIndex_of_none hsnap
  have hloop := appendLoop_result h hsnap hbuilt.consecutive_entries hle
  have htail := appendLoop_tailChange h hbuilt.consecutive_entries
    (by rw [lastLogIndex_eq h.consecutive]; omega)
  have hend := hbuilt.end_le
  -- Whatever the loop reports, its log is one of the two shapes.
  have hshape : ∀ result r', r'.log = (r.appendLoop req.entries).2.log →
      (Declined result ∧ r'.commitIndex = r.commitIndex ∨
        (r.appendLoop req.entries).1 = .ok none ∧ Accepted result r'.log.length ∧
          r'.commitIndex = if r.commitIndex < req.leaderCommit then
            min req.leaderCommit r'.log.length else r.commitIndex) →
      LogChange r req leaderLog result r' := by
    intro result r' hlog hres
    cases hloop with
    | kept hkept hheld =>
      rw [hkept] at hlog
      rcases hres with ⟨hdeclined, hcommit⟩ | ⟨hok, hacc, hcommit⟩
      · exact .declined hdeclined hlog hcommit
      · rw [hlog] at hacc hcommit
        exact .kept hacc (hbuilt.agreeBefore hprev (Nat.le_add_right _ _) (hheld hok)) hlog hcommit
    | replaced j i hj hjl hi hbelow hil hmatch hconf hreplaced =>
      rw [hreplaced, hbuilt.drop_take hj hil] at hlog
      refine .replaced j (req.prevLogIndex + i) hjl hi (by omega) hbelow
        (hbuilt.agreeBefore hprev hj hmatch) ?_ hlog (hres.imp_right And.right)
      rintro ⟨-, hagree⟩
      obtain ⟨old, leaderEntry, hexist, hlead, hterm⟩ := hagree (Nat.succ_pos j)
      have hat := getElem?_eq_getElem (l := req.entries) (i := j - req.prevLogIndex) (by omega)
      have hsame := hbuilt.entries_getElem? hat
      rw [Nat.add_sub_cancel' hj] at hsame
      rw [Nat.add_sub_cancel] at hexist hlead
      rw [hlead, Option.some.injEq] at hsame
      rw [hsame] at hterm
      exact hconf _ old hat hexist hterm
  unfold appendAndCommit
  split
  · rename_i heq
    rw [heq] at hshape htail
    exact ⟨hshape _ _ rfl (.inl ⟨fun _ hok => (by cases hok), htail.commitIndex⟩),
      htail.snapshot.trans hsnap⟩
  · rename_i refusal r' heq
    have hrefusal := appendLoop_refusal (congrArg Prod.fst heq)
    rw [heq] at hshape htail
    refine ⟨hshape _ _ rfl (.inl ⟨fun resp hok => ?_, htail.commitIndex⟩),
      htail.snapshot.trans hsnap⟩
    cases hok
    exact hrefusal
  · rename_i r' heq
    rw [heq] at hshape htail
    have hinv : LogInv r' := htail.logInv
    have hlast : r'.lastLogIndex = r'.log.length := by
      rw [lastLogIndex_eq hinv.consecutive, snapshotIndex_congr htail.snapshot, hzero, Nat.zero_add]
    have hsame : r'.commitIndex = r.commitIndex := htail.commitIndex
    simp only [sortLog_eq hinv.consecutive]
    refine ⟨hshape _ _ ?_ (.inr ⟨rfl, ⟨_, rfl, rfl, ?_⟩, ?_⟩), ?_⟩
    · split <;> rfl
    · split <;> exact hlast
    · rw [hsame]
      by_cases hnewer : r.commitIndex < req.leaderCommit
      · rw [if_pos hnewer, if_pos hnewer, hlast]
      · rw [if_neg hnewer, if_neg hnewer]
        exact hsame
    · split <;> exact htail.snapshot.trans hsnap

/-- The middle of the call: the previous entry is looked up. -/
theorem checkPrevious_change (h : LogInv r) (hsnap : r.snapshot = none)
    (hbuilt : BuiltFrom leaderLog req) :
    LogChange r req leaderLog (r.checkPrevious req).1 (r.checkPrevious req).2 ∧
      (r.checkPrevious req).2.snapshot = none := by
  have hzero := snapshotIndex_of_none hsnap
  have hdeclined : ∀ conflictIndex conflictTerm (r' : RaftCore C),
      Declined (.ok (r'.refuseAppend conflictIndex conflictTerm)) := by
    intro conflictIndex conflictTerm r' resp hok
    cases hok
    rfl
  unfold checkPrevious
  split
  · rename_i hpos
    have hat : r.entryAt req.prevLogIndex = r.log[req.prevLogIndex - 1]? := by
      rw [entryAt_eq h.consecutive, hzero, if_pos hpos]
      rfl
    obtain ⟨leaderEntry, hlead, hleaderTerm⟩ := hbuilt.prev_term hpos
    split
    · rw [if_neg (by omega)]
      exact ⟨.declined (hdeclined _ _ _) rfl rfl, hsnap⟩
    · rename_i previous hprev
      rw [hat] at hprev
      have hlt := (List.getElem?_eq_some_iff.mp hprev).1
      split
      · rename_i hterm
        have hconf : ¬AgreeBefore r.log leaderLog req.prevLogIndex := by
          intro hagree
          obtain ⟨entry, leaderEntry', hentry, hlead', hsame⟩ := hagree hpos
          rw [hprev, Option.some.injEq] at hentry
          rw [hlead, Option.some.injEq] at hlead'
          exact hterm (by rw [hentry, hsame, ← hlead', hleaderTerm])
        split
        · exact ⟨.declined (hdeclined _ _ _) rfl rfl, hsnap⟩
        · rename_i hcommit
          have hcut := (truncateFrom_tailChange h (not_le.mp hcommit)
            (by rw [lastLogIndex_eq h.consecutive]; omega)).1
          refine ⟨.cut (hdeclined _ _ _) hpos (not_le.mp hcommit) hconf ?_ hcut.commitIndex, hsnap⟩
          rw [truncateFrom_log h.consecutive, hzero]
          rfl
      · rename_i hterm
        refine appendAndCommit_change h hsnap hbuilt (by omega) fun _ => ?_
        exact ⟨previous, leaderEntry, hprev, hlead, (not_not.mp hterm).trans hleaderTerm.symm⟩
  · rename_i hpos
    exact appendAndCommit_change h hsnap hbuilt (by omega) fun hpos' => absurd hpos' hpos

theorem Accepted.not_declined {m : Nat} (h : Accepted result m) : ¬Declined result := by
  obtain ⟨resp, hok, hsucc, -⟩ := h
  intro hdeclined
  rw [hdeclined resp hok] at hsucc
  cases hsucc

/-- `append_entries` on a server without a snapshot: a stale request changes nothing,
any other one makes the server a follower in the term of the request. -/
theorem appendEntries_change (h : LogInv r) (hsnap : r.snapshot = none)
    (hbuilt : BuiltFrom leaderLog req) :
    req.term < r.currentTerm ∧ (r.appendEntries req).2 = r ∧
        Declined (r.appendEntries req).1 ∨
      r.currentTerm ≤ req.term ∧ (r.appendEntries req).2.role = .follower ∧
        (r.appendEntries req).2.currentTerm = req.term ∧
        (r.appendEntries req).2.snapshot = none ∧
        LogChange r req leaderLog (r.appendEntries req).1 (r.appendEntries req).2 := by
  unfold appendEntries
  split
  · rename_i hstale
    refine .inl ⟨hstale, rfl, fun resp hok => ?_⟩
    cases hok
    rfl
  · rename_i hcur
    have hle : r.currentTerm ≤ req.term := not_lt.mp hcur
    obtain ⟨-, hsame, hrole, hterm⟩ := followLeader_spec r req.term req.leaderId
    rw [Nat.max_eq_right hle] at hterm
    split
    · rename_i heq
      rw [heq] at hsame hrole hterm
      exact .inr ⟨hle, hrole, hterm, hsame.snapshot.trans hsnap,
        .declined (fun _ hok => (by cases hok)) hsame.log hsame.commitIndex⟩
    · rename_i r' heq
      rw [heq] at hsame hrole hterm
      have hr' : r'.snapshot = none := hsame.snapshot.trans hsnap
      obtain ⟨hchange, hsnap'⟩ := checkPrevious_change (hsame.logInv h) hr' hbuilt
      have hvotes := checkPrevious_sameVotes r' req
      refine .inr ⟨hle, hvotes.role.trans hrole, ?_, hsnap', ?_⟩
      · rw [currentTerm, hvotes.persistent]
        exact hterm
      · exact hchange.congr hsame.log hsame.commitIndex

end Neo4r.Raft.RaftCore
